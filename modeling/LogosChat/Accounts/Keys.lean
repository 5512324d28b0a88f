import LogosChat.Accounts.Live
import LogosChat.Reasoning.FirstSeen

/-!
# The keys of a context

A key is endorsed for one purpose, so keys are read under a context: those with a live entry there,
and those whose entries there have all been tombstoned.  The second list comes from a pass of its own
over the whole log, with the mask of the removes and the list of the live keys beside it.
-/

namespace LogosChat.Accounts

open Reasoning Crypto

/-- `matches!(entry, AccountEntry::Add { context: c, .. } if c == context)`. -/
def AccountEntry.isFor (context : Context) : AccountEntry → Bool
  | .add c _ => c = context
  | _ => false

/-- The `filter_map` of `ed25519_keys_for`. -/
def collectKeys (E : Ed25519) : List IndexedAccountEntry → Result Infallible (List E.VerifyingKey)
  | [] => .ok []
  | val :: rest =>
      match val.entry with
      | .add _ (.ed25519Key bytes) => do
          let key ← (E.fromCanonicalBytes bytes).expect
          let keys ← collectKeys E rest
          .ok (key :: keys)
      | _ => collectKeys E rest

/-- The loop of `revoked_ed25519_keys_for` over the entries still to come. -/
def revokedLoop (E : Ed25519) (context : Context) (live : List E.VerifyingKey)
    (removed : List Bool) :
    List IndexedAccountEntry → List E.VerifyingKey → Result Infallible (List E.VerifyingKey)
  | [], revoked => .ok revoked
  | val :: rest, revoked =>
      match val.entry with
      | .add c (.ed25519Key bytes) =>
          if c = context then do
            let gone ← Result.index removed val.index.toNat
            if gone then
              let key ← (E.fromCanonicalBytes bytes).expect
              revokedLoop E context live removed rest
                (if key ∉ live ∧ key ∉ revoked then revoked ++ [key] else revoked)
            else revokedLoop E context live removed rest revoked
          else revokedLoop E context live removed rest revoked
      | _ => revokedLoop E context live removed rest revoked

namespace AccountLog

variable {E : Ed25519}

/-- Every entry with its position. -/
def indexed (L : AccountLog E) : List IndexedAccountEntry := enumerate L.entries

/-- The live entries bearing `context`, in log order. -/
def entriesFor (L : AccountLog E) (context : Context) :
    Result Infallible (List IndexedAccountEntry) := do
  let vals ← L.liveIndexed
  .ok (vals.filter fun val ↦ val.entry.isFor context)

/-- The Ed25519 keys live under `context`, in add order. -/
def ed25519KeysFor (L : AccountLog E) (context : Context) :
    Result Infallible (List E.VerifyingKey) := do
  let vals ← L.entriesFor context
  collectKeys E vals

/-- The Ed25519 keys removed under `context` and not live again, each once, in add order. -/
def revokedEd25519KeysFor (L : AccountLog E) (context : Context) :
    Result Infallible (List E.VerifyingKey) := do
  let live ← L.ed25519KeysFor context
  let removed ← (filterMaskRemoved L.entries).expect
  revokedLoop E context live removed L.indexed []

end AccountLog

/-! ## What the log says of a key -/

/-- The key an entry endorses under `context`. -/
def AccountEntry.keyFor (E : Ed25519) (context : Context) : AccountEntry → Option E.VerifyingKey
  | .add c (.ed25519Key bytes) =>
      if c = context then (E.parseKey bytes).toOption else none
  | _ => none

section Endorsements

variable {E : Ed25519} {context : Context}

theorem keyFor_eq_some_iff {entry : AccountEntry} {key : E.VerifyingKey} :
    entry.keyFor E context = some key ↔
      ∃ bytes, entry = .add context (.ed25519Key bytes) ∧ E.fromCanonicalBytes bytes = .ok key := by
  cases entry with
  | remove index => simp [AccountEntry.keyFor]
  | unknown opcode body => simp [AccountEntry.keyFor]
  | add c data =>
      cases data with
      | text value => simp [AccountEntry.keyFor]
      | unknown tag body => simp [AccountEntry.keyFor]
      | ed25519Key bytes =>
          by_cases hc : c = context
          · subst hc
            cases hparse : E.parseKey bytes <;>
              simp [AccountEntry.keyFor, Ed25519.fromCanonicalBytes, hparse, Except.toOption]
          · simp [AccountEntry.keyFor, hc]

theorem isRemove_of_keyFor {entry : AccountEntry} {key : E.VerifyingKey}
    (h : entry.keyFor E context = some key) : entry.isRemove = false := by
  rcases keyFor_eq_some_iff.mp h with ⟨bytes, hentry, -⟩
  rw [hentry]
  rfl

/-- The endorsements of a context, in log order: the key, and whether its position is among the
targets of the removes. -/
def AccountLog.endorsements (L : AccountLog E) (context : Context) : List (E.VerifyingKey × Bool) :=
  (enumerate L.entries).filterMap fun val ↦
    (val.entry.keyFor E context).map fun key ↦ (key, decide (.remove val.index ∈ L.entries))

/-- The keys ever added under a context, in log order. -/
def AccountLog.keysAdded (L : AccountLog E) (context : Context) : List E.VerifyingKey :=
  L.entries.filterMap (AccountEntry.keyFor E context)

theorem endorsements_fst (L : AccountLog E) :
    (L.endorsements context).map Prod.fst = L.keysAdded context := by
  rw [AccountLog.endorsements, AccountLog.keysAdded, List.map_filterMap, enumerate,
    List.filterMap_map]
  conv_rhs => rw [← List.zipIdx_map_fst 0 L.entries, List.filterMap_map]
  simp only [Function.comp_def, Option.map_map, Option.map_id']

/-! ## The two readers -/

-- every key of a log has been parsed when the log was built
theorem AccountLog.parsed (L : AccountLog E) {val : IndexedAccountEntry}
    (hval : val ∈ enumerate L.entries) {c : Context} {bytes : KeyBytes}
    (hentry : val.entry = .add c (.ed25519Key bytes)) :
    ∃ key, E.fromCanonicalBytes bytes = .ok key := by
  refine ensureValidTypes_eq_ok_iff.mp L.types c bytes ?_
  rcases List.mem_map.mp hval with ⟨⟨entry, i⟩, hmem, rfl⟩
  rw [← hentry]
  exact (List.mem_zipIdx hmem).2.2 ▸ List.getElem_mem _

-- the mask read at the `u32` of a position
theorem AccountLog.mask_index {L : AccountLog E} {removed : List Bool}
    (hremoved : filterMaskRemoved L.entries = .ok removed) {val : IndexedAccountEntry}
    (hval : val ∈ enumerate L.entries) :
    removed[val.index.toNat]? = some (decide (.remove val.index ∈ L.entries)) := by
  have hlt : val.index.toNat < removed.length := by
    rw [filterMaskRemoved_length hremoved]
    exact enumerate_index_lt hval
  have hmarks := filterMaskRemoved_marks hremoved val.index.toNat
  rw [← some_mem_targets_iff, toNat_mem_targets_iff, List.getElem?_eq_getElem hlt,
    Option.some.injEq] at hmarks
  rw [List.getElem?_eq_getElem hlt, Option.some.injEq]
  cases hbit : removed[val.index.toNat] with
  | true => exact (decide_eq_true (hmarks.mp hbit)).symm
  | false =>
      rw [hbit] at hmarks
      exact (decide_eq_false fun h ↦ absurd (hmarks.mpr h) Bool.false_ne_true).symm

theorem collectKeys_filter {vals : List IndexedAccountEntry}
    (hparsed : ∀ val ∈ vals, ∀ c bytes, val.entry = .add c (.ed25519Key bytes) →
      ∃ key, E.fromCanonicalBytes bytes = .ok key) :
    collectKeys E (vals.filter fun val ↦ val.entry.isFor context) =
      .ok (vals.filterMap fun val ↦ val.entry.keyFor E context) := by
  induction vals with
  | nil => rfl
  | cons val rest ih =>
      have hrest := ih fun val hval ↦ hparsed val (List.mem_cons_of_mem _ hval)
      have hfirst := hparsed val List.mem_cons_self
      rcases val with ⟨index, entry⟩
      cases entry with
      | remove target => exact hrest
      | unknown opcode body => exact hrest
      | add c data =>
          by_cases hc : c = context
          · subst hc
            rw [List.filter_cons_of_pos (by simp [AccountEntry.isFor])]
            cases data with
            | text value => exact hrest
            | unknown tag body => exact hrest
            | ed25519Key bytes =>
                rcases hfirst c bytes rfl with ⟨key, hkey⟩
                have hkeyFor : (AccountEntry.add c (.ed25519Key bytes)).keyFor E c = some key :=
                  keyFor_eq_some_iff.mpr ⟨bytes, rfl, hkey⟩
                rw [List.filterMap_cons, collectKeys]
                dsimp only
                rw [hkey, hrest, hkeyFor]
                rfl
          · rw [List.filter_cons_of_neg (by simp [AccountEntry.isFor, hc])]
            have hkeyFor : (AccountEntry.add c data).keyFor E context = none := by
              cases data <;> simp [AccountEntry.keyFor, hc]
            rw [List.filterMap_cons, hkeyFor, hrest]

/-- The keys live under a context are those of the endorsements that no remove targets. -/
theorem ed25519KeysFor_eq (L : AccountLog E) (context : Context) :
    L.ed25519KeysFor context =
      .ok (((L.endorsements context).filter fun e ↦ !e.2).map Prod.fst) := by
  rcases L.removes with ⟨removed, hremoved⟩
  have hvals : L.liveIndexed = .ok ((enumerate L.entries).filter fun val ↦
      removed[val.index.toNat]? == some false && !val.entry.isRemove) := by
    rw [AccountLog.liveIndexed, validLiveEntries_eq hremoved, Result.expect_ok]
  rw [AccountLog.ed25519KeysFor, AccountLog.entriesFor, hvals, Result.ok_bind, Result.ok_bind,
    collectKeys_filter fun val hval _ _ ↦ L.parsed (List.mem_filter.mp hval).1]
  rw [AccountLog.endorsements, List.filter_filterMap, List.map_filterMap, List.filterMap_filter]
  congr 1
  refine List.filterMap_congr fun val hval ↦ ?_
  rw [AccountLog.mask_index hremoved hval]
  cases hkey : val.entry.keyFor E context with
  | none => simp [Option.filter]
  | some key =>
      by_cases hgone : AccountEntry.remove val.index ∈ L.entries <;>
        simp [hgone, isRemove_of_keyFor hkey, Option.filter]

section Loop

variable {live revoked : List E.VerifyingKey} {removed : List Bool} {val : IndexedAccountEntry}
  {rest : List IndexedAccountEntry}

theorem revokedLoop_of_some {key : E.VerifyingKey} {gone : Bool}
    (hkey : val.entry.keyFor E context = some key) (hgone : removed[val.index.toNat]? = some gone) :
    revokedLoop E context live removed (val :: rest) revoked =
      revokedLoop E context live removed rest
        (if gone then collectNew live revoked key else revoked) := by
  rcases keyFor_eq_some_iff.mp hkey with ⟨bytes, hentry, hparse⟩
  have hindex : (Result.index removed val.index.toNat : Result Infallible Bool) = .ok gone :=
    Result.index_eq_ok.mpr hgone
  rw [revokedLoop, hentry]
  dsimp only
  rw [if_pos rfl, hindex, Result.ok_bind, hparse]
  cases gone <;> rfl

theorem revokedLoop_of_none (hparsed : ∀ c bytes, val.entry = .add c (.ed25519Key bytes) →
      ∃ key, E.fromCanonicalBytes bytes = .ok key) (hkey : val.entry.keyFor E context = none) :
    revokedLoop E context live removed (val :: rest) revoked =
      revokedLoop E context live removed rest revoked := by
  rcases val with ⟨index, entry⟩
  cases entry with
  | remove target => rfl
  | unknown opcode body => rfl
  | add c data =>
      cases data with
      | text value => rfl
      | unknown tag body => rfl
      | ed25519Key bytes =>
          have hc : c ≠ context := by
            intro hc
            subst hc
            rcases hparsed c bytes rfl with ⟨key, hparse⟩
            cases hkey.symm.trans (keyFor_eq_some_iff.mpr ⟨bytes, rfl, hparse⟩)
          rw [revokedLoop]
          exact if_neg hc

end Loop

theorem revokedLoop_eq {live : List E.VerifyingKey} {removed : List Bool}
    {gone : IndexedAccountEntry → Bool} {vals : List IndexedAccountEntry}
    (hparsed : ∀ val ∈ vals, ∀ c bytes, val.entry = .add c (.ed25519Key bytes) →
      ∃ key, E.fromCanonicalBytes bytes = .ok key)
    (hmask : ∀ val ∈ vals, removed[val.index.toNat]? = some (gone val))
    (revoked : List E.VerifyingKey) :
    revokedLoop E context live removed vals revoked =
      .ok ((((vals.filter gone).filterMap fun val ↦ val.entry.keyFor E context)).foldl
        (collectNew live) revoked) := by
  induction vals generalizing revoked with
  | nil => rfl
  | cons val rest ih =>
      have hrest := ih (fun val hval ↦ hparsed val (List.mem_cons_of_mem _ hval))
        fun val hval ↦ hmask val (List.mem_cons_of_mem _ hval)
      cases hkey : val.entry.keyFor E context with
      | none =>
          rw [revokedLoop_of_none (hparsed val List.mem_cons_self) hkey, hrest]
          by_cases hgone : gone val = true <;> simp [hgone, hkey]
      | some key =>
          rw [revokedLoop_of_some hkey (hmask val List.mem_cons_self), hrest]
          by_cases hgone : gone val = true <;> simp [hgone, hkey]

/-- The revoked keys of a context are the keys ever added there, each where it is first added, with
the live ones taken out. -/
theorem revokedEd25519KeysFor_eq (L : AccountLog E) (context : Context) {live : List E.VerifyingKey}
    (hlive : L.ed25519KeysFor context = .ok live) :
    L.revokedEd25519KeysFor context =
      .ok ((L.keysAdded context).eraseDups.filter (· ∉ live)) := by
  rcases L.removes with ⟨removed, hremoved⟩
  rw [AccountLog.revokedEd25519KeysFor, hlive, hremoved, Result.ok_bind, Result.expect_ok,
    Result.ok_bind, AccountLog.indexed,
    revokedLoop_eq (fun val hval _ _ ↦ L.parsed hval) (fun val hval ↦ L.mask_index hremoved hval),
    foldl_collectNew_nil, ← eraseDups_filter, ← endorsements_fst]
  rw [ed25519KeysFor_eq, Result.ok.injEq] at hlive
  have hgone : ((enumerate L.entries).filter fun val ↦ decide (.remove val.index ∈ L.entries)).filterMap
      (fun val ↦ val.entry.keyFor E context) =
      ((L.endorsements context).filter fun e ↦ e.2).map Prod.fst := by
    rw [AccountLog.endorsements, List.filter_filterMap, List.map_filterMap, List.filterMap_filter]
    refine List.filterMap_congr fun val _ ↦ ?_
    cases val.entry.keyFor E context with
    | none => simp [Option.filter]
    | some key =>
        by_cases hgone : AccountEntry.remove val.index ∈ L.entries <;> simp [hgone, Option.filter]
  rw [hgone, List.filter_map, List.filter_map, List.filter_filter]
  congr 3
  refine List.filter_congr fun e he ↦ ?_
  rcases e with ⟨key, gone⟩
  cases gone with
  | true => simp
  | false =>
      -- an endorsement that nothing removes makes its key a live one
      have hmem : key ∈ live := by
        rw [← hlive]
        exact List.mem_map.mpr ⟨(key, false), List.mem_filter.mpr ⟨he, rfl⟩, rfl⟩
      simp [hmem]

/-! ## Live and revoked keys -/

/-- What the two lists of a context say of the log. -/
structure KeysSpec (L : AccountLog E) (context : Context) (live revoked : List E.VerifyingKey) :
    Prop where
  added_iff : ∀ key, key ∈ L.keysAdded context ↔ key ∈ live ∨ key ∈ revoked
  live_iff : ∀ key, key ∈ live ↔ ∃ val : IndexedAccountEntry,
    LiveIn L.entries val ∧ val.entry.keyFor E context = some key
  revoked_iff : ∀ key, key ∈ revoked ↔ key ∈ L.keysAdded context ∧
    ∀ (p : Nat) (entry : AccountEntry), L.entries[p]? = some entry →
      entry.keyFor E context = some key → L.Tombstoned p
  disjoint : live.Disjoint revoked
  nodup : revoked.Nodup
  -- the order of first add
  order : revoked = (L.keysAdded context).eraseDups.filter (· ∉ live)
  -- what is under other contexts is not looked at
  isolated : ∀ L' : AccountLog E, L'.endorsements context = L.endorsements context →
    L'.ed25519KeysFor context = .ok live ∧ L'.revokedEd25519KeysFor context = .ok revoked

theorem mem_keysAdded_iff {L : AccountLog E} {key : E.VerifyingKey} :
    key ∈ L.keysAdded context ↔ ∃ entry ∈ L.entries, entry.keyFor E context = some key :=
  List.mem_filterMap

theorem mem_ed25519KeysFor_iff {L : AccountLog E} {live : List E.VerifyingKey}
    (hlive : L.ed25519KeysFor context = .ok live) (key : E.VerifyingKey) :
    key ∈ live ↔ ∃ val ∈ enumerate L.entries,
      val.entry.keyFor E context = some key ∧ .remove val.index ∉ L.entries := by
  rw [ed25519KeysFor_eq, Result.ok.injEq] at hlive
  rw [← hlive, List.mem_map]
  refine ⟨fun h ↦ ?_, fun h ↦ ?_⟩
  · rcases h with ⟨⟨k, gone⟩, hmem, rfl⟩
    rw [List.mem_filter, AccountLog.endorsements, List.mem_filterMap] at hmem
    rcases hmem with ⟨⟨val, hval, hmap⟩, hgone⟩
    rcases Option.map_eq_some_iff.mp hmap with ⟨k', hkey, hpair⟩
    cases hpair
    exact ⟨val, hval, hkey, by simpa using hgone⟩
  · rcases h with ⟨val, hval, hkey, hkept⟩
    refine ⟨(key, false), List.mem_filter.mpr ⟨?_, rfl⟩, rfl⟩
    rw [AccountLog.endorsements, List.mem_filterMap]
    refine ⟨val, hval, ?_⟩
    rw [hkey, decide_eq_false hkept]
    rfl

theorem mem_live_keys_iff {L : AccountLog E} (hlen : L.entries.length ≤ 2 ^ 32)
    {live : List E.VerifyingKey} (hlive : L.ed25519KeysFor context = .ok live)
    (key : E.VerifyingKey) :
    key ∈ live ↔ ∃ val : IndexedAccountEntry,
      LiveIn L.entries val ∧ val.entry.keyFor E context = some key := by
  rw [mem_ed25519KeysFor_iff hlive]
  refine exists_congr fun val ↦ ?_
  rw [mem_enumerate hlen]
  refine ⟨fun h ↦ ?_, fun h ↦ ?_⟩
  · exact ⟨⟨h.1, isRemove_of_keyFor h.2.1, h.2.2⟩, h.2.1⟩
  · exact ⟨h.1.entry, h.2, h.1.kept⟩

-- a position that nothing tombstones holds a live entry
theorem liveIn_of_not_tombstoned {L : AccountLog E} (hlen : L.entries.length ≤ 2 ^ 32) {p : Nat}
    {entry : AccountEntry} (hget : L.entries[p]? = some entry) (hkind : entry.isRemove = false)
    (h : ¬ L.Tombstoned p) : LiveIn L.entries ⟨UInt32.ofNat p, entry⟩ := by
  have hp : (UInt32.ofNat p).toNat = p :=
    toNat_ofNat_u32 (lt_of_lt_of_le (List.getElem?_eq_some_iff.mp hget).1 hlen)
  refine ⟨?_, hkind, fun hmem ↦ h (AccountLog.tombstoned_iff.mpr ⟨UInt32.ofNat p, hmem, hp⟩)⟩
  rw [hp]
  exact hget

/-- In a log of at most `2 ^ 32` entries, which every log that is decoded is, the keys ever added
under a context are divided into those that are live there and those that are revoked. -/
theorem keysSpec (L : AccountLog E) (context : Context) (hlen : L.entries.length ≤ 2 ^ 32) :
    ∃ live revoked, L.ed25519KeysFor context = .ok live ∧
      L.revokedEd25519KeysFor context = .ok revoked ∧ KeysSpec L context live revoked := by
  rcases (⟨_, ed25519KeysFor_eq L context⟩ : ∃ live, L.ed25519KeysFor context = .ok live) with
    ⟨live, hlive⟩
  have hrevoked := revokedEd25519KeysFor_eq L context hlive
  have hmem (key : E.VerifyingKey) :
      key ∈ (L.keysAdded context).eraseDups.filter (· ∉ live) ↔
        key ∈ L.keysAdded context ∧ key ∉ live := by
    rw [List.mem_filter, List.mem_eraseDups, decide_eq_true_iff]
  have hadded (key : E.VerifyingKey) (hkey : key ∈ live) : key ∈ L.keysAdded context := by
    rcases (mem_live_keys_iff hlen hlive key).mp hkey with ⟨val, hval, hkeyFor⟩
    exact mem_keysAdded_iff.mpr ⟨val.entry, List.mem_of_getElem? hval.entry, hkeyFor⟩
  refine ⟨live, _, hlive, hrevoked, ?_, mem_live_keys_iff hlen hlive, fun key ↦ ?_, ?_, ?_, rfl, ?_⟩
  · intro key
    rw [hmem]
    by_cases hkey : key ∈ live
    · simp [hkey, hadded key hkey]
    · simp [hkey]
  · rw [hmem]
    refine and_congr_right fun _ ↦ ⟨fun hnot p entry hget hkey ↦ ?_, fun hall hkey ↦ ?_⟩
    · by_contra hkept
      have hval := liveIn_of_not_tombstoned hlen hget (isRemove_of_keyFor hkey) hkept
      exact hnot ((mem_live_keys_iff hlen hlive key).mpr ⟨_, hval, hkey⟩)
    · rcases (mem_live_keys_iff hlen hlive key).mp hkey with ⟨val, hval, hkeyFor⟩
      have htomb := AccountLog.tombstoned_iff.mp (hall _ _ hval.entry hkeyFor)
      rw [← some_mem_targets_iff, toNat_mem_targets_iff] at htomb
      exact hval.kept htomb
  · exact fun key hkey hrev ↦ ((hmem key).mp hrev).2 hkey
  · exact (nodup_eraseDups _).filter _
  · intro L' hsame
    have hlive' : L'.ed25519KeysFor context = .ok live := by
      rw [← hlive, ed25519KeysFor_eq, ed25519KeysFor_eq, hsame]
    refine ⟨hlive', ?_⟩
    rw [revokedEd25519KeysFor_eq L' context hlive', ← endorsements_fst, hsame, endorsements_fst]

/-! ### Past the last `u32` -/

-- the first position that wraps is read as position zero
theorem revoked_of_wrapped {L : AccountLog E} {front : List AccountEntry} {entry : AccountEntry}
    {key : E.VerifyingKey} (hentries : L.entries = front ++ [entry])
    (hlen : front.length = 2 ^ 32) (hremove : .remove 0 ∈ front)
    (hkey : entry.keyFor E context = some key)
    (hnew : ∀ other ∈ front, other.keyFor E context ≠ some key) :
    ∃ revoked, L.revokedEd25519KeysFor context = .ok revoked ∧ key ∈ revoked := by
  have hlive := ed25519KeysFor_eq L context
  refine ⟨_, revokedEd25519KeysFor_eq L context hlive, ?_⟩
  rw [List.mem_filter, List.mem_eraseDups, decide_eq_true_iff]
  refine ⟨mem_keysAdded_iff.mpr ⟨entry, by simp [hentries], hkey⟩, fun hmem ↦ ?_⟩
  rcases (mem_ed25519KeysFor_iff hlive key).mp hmem with ⟨val, hval, hkeyFor, hkept⟩
  rcases List.mem_map.mp hval with ⟨⟨other, i⟩, hzip, rfl⟩
  have hget := List.mk_mem_zipIdx_iff_getElem?.mp hzip
  rw [hentries] at hget
  by_cases hi : i < front.length
  · rw [List.getElem?_append_left hi] at hget
    exact hnew other (List.mem_of_getElem? hget) hkeyFor
  · have hbound := (List.getElem?_eq_some_iff.mp hget).1
    rw [List.length_append, List.length_singleton] at hbound
    have hlast : i = 2 ^ 32 := by omega
    subst hlast
    refine hkept ?_
    rw [hentries]
    exact List.mem_append_left _ hremove

end Endorsements

/-- A key, its tombstone, and any number of texts after them. -/
def paddedEntries (n : Nat) : List AccountEntry :=
  [.add (.literal "chat.signer" Context.chatSigner_isOk) (.ed25519Key (Vector.replicate 32 1)),
    .remove 0] ++
    List.replicate n (.add (.literal "a.b" Context.ab_isOk) (.text ""))

theorem exists_paddedLog (n : Nat) :
    ∃ L : AccountLog Ed25519.sample, L.entries = paddedEntries n := by
  induction n with
  | zero => exact ⟨⟨paddedEntries 0, ⟨[true, false], rfl⟩, rfl⟩, rfl⟩
  | succ n ih =>
      rcases ih with ⟨L, hL⟩
      rcases (@exists_fromEntries_concat_iff _ L (.add (.literal "a.b" (by decide)) (.text ""))).mpr
        ⟨nofun, nofun⟩ with ⟨L', hL'⟩
      refine ⟨L', (AccountLog.fromEntries_eq_ok_iff.mp hL').trans ?_⟩
      rw [hL, paddedEntries, paddedEntries, List.append_assoc, ← List.replicate_succ']

/-- A key added at position `2 ^ 32` is listed as revoked when entry zero has been removed, although
nothing removes it. -/
theorem wrapped_position_is_revoked :
    ∃ (L : AccountLog Ed25519.sample) (context : Context) (key : KeyBytes) (revoked : List KeyBytes),
      L.revokedEd25519KeysFor context = .ok revoked ∧ key ∈ revoked ∧
      L.entries[2 ^ 32]? = some (.add context (.ed25519Key key)) ∧ ¬ L.Tombstoned (2 ^ 32) := by
  -- the number of texts stays a variable, so that nothing unfolds the list
  rcases (⟨2 ^ 32 - 2, by omega⟩ : ∃ n, 2 + n = 2 ^ 32) with ⟨n, hn⟩
  rcases exists_paddedLog n with ⟨L, hL⟩
  have hlen : L.entries.length = 2 ^ 32 := by
    rw [hL, paddedEntries, List.length_append, List.length_replicate]
    exact hn
  have hvalid := (@exists_fromEntries_concat_iff _ L (.add (.literal "chat.signer" (by decide))
    (.ed25519Key (Vector.replicate 32 2)))).mpr ⟨by rintro index ⟨⟩, fun context key heq ↦ by
      cases heq
      exact ⟨_, rfl⟩⟩
  rcases hvalid with ⟨L', hL'⟩
  have hentries := AccountLog.fromEntries_eq_ok_iff.mp hL'
  have hremove : .remove 0 ∈ L.entries := by
    rw [hL]
    simp [paddedEntries]
  have hnew : ∀ other ∈ L.entries, other.keyFor Ed25519.sample (.literal "chat.signer" (by decide)) ≠
      some (Vector.replicate 32 2 : KeyBytes) := by
    intro other hmem
    rw [hL, paddedEntries, List.mem_append] at hmem
    rcases hmem with hfirst | htext
    · rcases List.mem_cons.mp hfirst with rfl | hfirst
      · intro hkey
        obtain ⟨bytes, hentry, hparse⟩ := keyFor_eq_some_iff.mp hkey
        cases hentry
        have hdiffer : (Vector.replicate 32 1 : KeyBytes) ≠ Vector.replicate 32 2 := by decide
        exact hdiffer (Result.ok.inj hparse)
      · cases List.mem_singleton.mp hfirst
        rintro ⟨⟩
    · cases (List.mem_replicate.mp htext).2
      rintro ⟨⟩
  have hparse : Ed25519.sample.fromCanonicalBytes (Vector.replicate 32 2) = .ok _ := rfl
  rcases revoked_of_wrapped hentries hlen hremove (keyFor_eq_some_iff.mpr ⟨_, rfl, hparse⟩) hnew with
    ⟨revoked, hrevoked, hmem⟩
  refine ⟨L', _, Vector.replicate 32 2, revoked, hrevoked, hmem, ?_, fun htomb ↦ ?_⟩
  · rw [hentries, ← hlen, List.getElem?_concat_length]
  · rcases AccountLog.tombstoned_iff.mp htomb with ⟨index, -, hindex⟩
    exact absurd hindex (Nat.ne_of_lt index.toNat_lt)

end LogosChat.Accounts
