import LogosChat.Accounts.Log
import LogosChat.Reasoning.Tombstones
import Mathlib.Algebra.Ring.Nat

/-!
# The mask pass replays the log

`filter_mask_removed` is one pass with a boolean mask; what it accepts, and what it leaves live, is
what replaying the entries over a set of live positions gives.
-/

namespace LogosChat.Accounts

open Reasoning Crypto

/-- The position an entry removes; `none` for an entry that fills its own. -/
def AccountEntry.target : AccountEntry → Option Nat
  | .remove index => some index.toNat
  | _ => none

theorem target_eq_none_iff {entry : AccountEntry} : entry.target = none ↔ entry.isRemove = false := by
  cases entry <;> simp [AccountEntry.target, AccountEntry.isRemove]

theorem targets_getElem? {entries : List AccountEntry} {p : Nat} :
    (entries.map AccountEntry.target)[p]? = some none ↔
      ∃ entry, entries[p]? = some entry ∧ entry.isRemove = false := by
  simp [List.getElem?_map, target_eq_none_iff]

/-! ## The pass -/

theorem removeFault_of_live {entries : List AccountEntry} {k : Nat} {removed : List Bool}
    {live : Finset Nat} (h : MaskOf (entries.map AccountEntry.target) k removed live)
    {target : Nat} (hlive : target ∈ live) : removeFault entries removed k target = .ok none := by
  rcases (h.mem_iff target).mp hlive with ⟨hlt, hop, hmask⟩
  rcases targets_getElem?.mp hop with ⟨entry, hentry, hkind⟩
  unfold removeFault
  rw [if_neg (by omega), Result.index_eq_ok.mpr hmask, Result.ok_bind, if_neg (by decide),
    Result.index_eq_ok.mpr hentry, Result.ok_bind, if_neg (by simp [hkind])]

theorem removeFault_of_not_live {entries : List AccountEntry} {k : Nat} {removed : List Bool}
    {live : Finset Nat} (h : MaskOf (entries.map AccountEntry.target) k removed live)
    (hk : k ≤ entries.length) {target : Nat} (hlive : target ∉ live) :
    ∃ fault, removeFault entries removed k target = .ok (some fault) := by
  unfold removeFault
  by_cases hlt : k ≤ target
  · exact ⟨_, if_pos hlt⟩
  -- past the first test both lookups are in bounds
  have hentry : target < entries.length := by omega
  have hmask : target < removed.length := by rw [h.length, List.length_map]; omega
  rw [if_neg hlt, Result.index_of_lt hmask, Result.ok_bind]
  by_cases hgone : removed[target] = true
  · exact ⟨_, if_pos hgone⟩
  rw [if_neg hgone, Result.index_of_lt hentry, Result.ok_bind]
  by_cases hkind : entries[target].isRemove = true
  · exact ⟨_, if_pos hkind⟩
  · refine absurd ((h.mem_iff target).mpr ⟨by omega, ?_, ?_⟩) hlive
    · exact targets_getElem?.mpr ⟨_, List.getElem?_eq_getElem hentry, by simpa using hkind⟩
    · rw [List.getElem?_eq_getElem hmask]
      simpa using hgone

/-- The pass from position `done.length` on, against the replay of the same entries. -/
theorem maskLoop_spec (entries done rest : List AccountEntry) (hsplit : entries = done ++ rest)
    (removed : List Bool) (live : Finset Nat)
    (h : MaskOf (entries.map AccountEntry.target) done.length removed live) :
    match replayFrom (rest.map AccountEntry.target) done.length live with
    | some live' => ∃ removed', maskLoop entries rest done.length removed = .ok removed' ∧
        MaskOf (entries.map AccountEntry.target) entries.length removed' live'
    | none => ∃ detail, maskLoop entries rest done.length removed = .err (.malformed detail) := by
  induction rest generalizing done removed live with
  | nil =>
      have hlen : done.length = entries.length := by simp [hsplit]
      exact ⟨removed, rfl, hlen ▸ h⟩
  | cons entry rest ih =>
      have hk : done.length ≤ entries.length := by simp [hsplit]
      have hop : (entries.map AccountEntry.target)[done.length]? = some entry.target := by
        simp [hsplit]
      have hnext := ih (done ++ [entry]) (by simp [hsplit])
      rw [List.length_append, List.length_singleton] at hnext
      cases entry with
      | remove index =>
          by_cases hlive : index.toNat ∈ live
          · have hmask : index.toNat < removed.length := by
              have hlt := ((h.mem_iff _).mp hlive).1
              rw [h.length, List.length_map]
              omega
            have hstep := hnext _ _ (h.remove hop hlive)
            simpa only [List.map_cons, replayFrom, replayStep, AccountEntry.target, maskLoop,
              if_pos hlive, removeFault_of_live h hlive, Result.ok_bind,
              Result.setIndex_of_lt hmask] using hstep
          · rcases removeFault_of_not_live h hk hlive with ⟨fault, hfault⟩
            simp only [List.map_cons, replayFrom, replayStep, AccountEntry.target, maskLoop,
              if_neg hlive, hfault, Result.ok_bind]
            exact ⟨_, rfl⟩
      | add context data =>
          exact hnext _ _ (h.add hop)
      | unknown opcode body =>
          exact hnext _ _ (h.add hop)

theorem filterMaskRemoved_spec (entries : List AccountEntry) :
    match replay (entries.map AccountEntry.target) with
    | some live => ∃ removed, filterMaskRemoved entries = .ok removed ∧
        MaskOf (entries.map AccountEntry.target) entries.length removed live
    | none => ∃ detail, filterMaskRemoved entries = .err (.malformed detail) := by
  have hinit := MaskOf.init (entries.map AccountEntry.target)
  rw [List.length_map] at hinit
  exact maskLoop_spec entries [] entries rfl _ _ hinit

theorem filterMaskRemoved_failsIn (entries : List AccountEntry) :
    (filterMaskRemoved entries).FailsIn (· ≠ .signatureInvalid) := by
  have hspec := filterMaskRemoved_spec entries
  split at hspec
  · rcases hspec with ⟨removed, hok, -⟩
    simp [hok]
  · rcases hspec with ⟨detail, herr⟩
    simp [herr]

/-! ## Validity of a whole log -/

theorem ensureValidTypes_eq_ok_iff {E : Ed25519} {entries : List AccountEntry} :
    ensureValidTypes E entries = .ok () ↔
      ∀ context key, .add context (.ed25519Key key) ∈ entries →
        ∃ k, E.fromCanonicalBytes key = .ok k := by
  induction entries with
  | nil => simp [ensureValidTypes]
  | cons entry rest ih =>
      -- only a key entry is checked; the others pass through to the rest
      have hskip (hkind : ∀ context key, entry ≠ .add context (.ed25519Key key))
          (heq : ensureValidTypes E (entry :: rest) = ensureValidTypes E rest) :
          ensureValidTypes E (entry :: rest) = .ok () ↔
            ∀ context key, .add context (.ed25519Key key) ∈ entry :: rest →
              ∃ k, E.fromCanonicalBytes key = .ok k := by
        rw [heq, ih]
        simp only [List.mem_cons, Ne.symm (hkind _ _), false_or]
      cases entry with
      | remove index => exact hskip nofun rfl
      | unknown opcode body => exact hskip nofun rfl
      | add context data =>
          cases data with
          | text value => exact hskip nofun rfl
          | unknown tag body => exact hskip nofun rfl
          | ed25519Key key =>
              rw [ensureValidTypes, Result.bind_eq_ok]
              simp only [Result.mapErr_eq_ok, ih, List.mem_cons]
              refine ⟨fun h => ?_, fun h => ?_⟩
              · rcases h with ⟨k, hk, hrest⟩
                intro c key' hmem
                rcases hmem with heq | hmem
                · cases heq
                  exact ⟨k, hk⟩
                · exact hrest c key' hmem
              · rcases h context key (.inl rfl) with ⟨k, hk⟩
                exact ⟨k, hk, fun c key' hmem => h c key' (.inr hmem)⟩

theorem ensureValidTypes_failsIn (E : Ed25519) (entries : List AccountEntry) :
    (ensureValidTypes E entries).FailsIn (· ≠ .signatureInvalid) := by
  induction entries with
  | nil => simp [ensureValidTypes]
  | cons entry rest ih =>
      unfold ensureValidTypes
      split
      · simp
      · apply Result.FailsIn.bind
        · apply (E.fromCanonicalBytes_failsIn _).mapErr
          intro e he
          cases e with
          | malformedKey what => simp [AccountLogError.ofEd25519]
          | signatureInvalid => exact absurd rfl he
        · rename_i heq
          cases heq
          exact fun _ _ => ih
      · rename_i heq
        cases heq
        exact ih

theorem fromEntries_failsIn (E : Ed25519) (entries : List AccountEntry) :
    (AccountLog.fromEntries E entries).FailsIn (· ≠ .signatureInvalid) := by
  have hmask := filterMaskRemoved_failsIn entries
  have htypes := ensureValidTypes_failsIn E entries
  unfold AccountLog.fromEntries
  split
  · rename_i e he
    exact hmask.of_err he
  · rename_i hpanic
    exact absurd hpanic hmask.ne_panic
  · split
    · rename_i e he
      exact htypes.of_err he
    · rename_i hpanic
      exact absurd hpanic htypes.ne_panic
    · simp

/-- A log is valid exactly when its entries replay and its keys are usable. -/
theorem exists_fromEntries_iff {E : Ed25519} {entries : List AccountEntry} :
    (∃ L, AccountLog.fromEntries E entries = .ok L) ↔
      (replay (entries.map AccountEntry.target)).isSome = true ∧
        ensureValidTypes E entries = .ok () := by
  have hspec := filterMaskRemoved_spec entries
  refine ⟨fun h => ?_, fun h => ?_⟩
  · rcases h with ⟨L, hL⟩
    have hentries := AccountLog.fromEntries_eq_ok_iff.mp hL
    rcases L.removes with ⟨removed, hremoved⟩
    rw [hentries] at hremoved
    refine ⟨?_, hentries ▸ L.types⟩
    cases hreplay : replay (entries.map AccountEntry.target) with
    | some live => rfl
    | none =>
        rw [hreplay] at hspec
        rcases hspec with ⟨e, he⟩
        rw [he] at hremoved
        cases hremoved
  · rcases Option.isSome_iff_exists.mp h.1 with ⟨live, hlive⟩
    rw [hlive] at hspec
    rcases hspec with ⟨removed, hremoved, -⟩
    exact ⟨⟨entries, ⟨removed, hremoved⟩, h.2⟩, AccountLog.fromEntries_eq_ok_iff.mpr rfl⟩

/-! ## The live entries -/

theorem keepLive_eq {removed : List Bool} {vals : List IndexedAccountEntry}
    (h : ∀ val ∈ vals, val.index.toNat < removed.length) :
    keepLive removed vals = .ok (vals.filter fun val =>
      removed[val.index.toNat]? == some false && !val.entry.isRemove) := by
  induction vals with
  | nil => rfl
  | cons val rest ih =>
      have hval := h val (by simp)
      rw [keepLive, Result.index_of_lt hval, Result.ok_bind,
        ih (fun v hv => h v (by simp [hv])), Result.ok_bind, List.filter_cons,
        List.getElem?_eq_getElem hval]
      cases removed[val.index.toNat] <;> simp

theorem toNat_ofNat_u32 {i : Nat} (h : i < 2 ^ 32) : (UInt32.ofNat i).toNat = i := by
  rw [UInt32.toNat_ofNat', Nat.mod_eq_of_lt h]

theorem mem_enumerate {entries : List AccountEntry} (hlen : entries.length ≤ 2 ^ 32)
    {val : IndexedAccountEntry} :
    val ∈ enumerate entries ↔ entries[val.index.toNat]? = some val.entry := by
  unfold enumerate
  rw [List.mem_map]
  refine ⟨fun h => ?_, fun h => ?_⟩
  · rcases h with ⟨⟨entry, i⟩, hmem, hval⟩
    have hi := List.mk_mem_zipIdx_iff_getElem?.mp hmem
    have hlt : i < entries.length := (List.getElem?_eq_some_iff.mp hi).1
    rw [← hval]
    show entries[(UInt32.ofNat i).toNat]? = some entry
    rw [toNat_ofNat_u32 (by omega), hi]
  · refine ⟨(val.entry, val.index.toNat), List.mk_mem_zipIdx_iff_getElem?.mpr h, ?_⟩
    show (⟨UInt32.ofNat val.index.toNat, val.entry⟩ : IndexedAccountEntry) = val
    rw [UInt32.ofNat_toNat]

/-- Up to `2 ^ 32` entries the `u32` index is the position itself. -/
theorem enumerate_index {entries : List AccountEntry} (hlen : entries.length ≤ 2 ^ 32) :
    (enumerate entries).map (·.index.toNat) = List.range entries.length := by
  apply List.ext_getElem
  · simp [enumerate]
  · intro i hi _
    have hlt : i < entries.length := by simpa [enumerate] using hi
    simp only [enumerate, List.getElem_map, List.getElem_zipIdx, List.getElem_range, Nat.zero_add]
    exact toNat_ofNat_u32 (by omega)

/-- What is left of a valid log: the replayed positions, in order, each with its own entry. -/
structure LiveOf (entries : List AccountEntry) (live : Finset Nat) (vals : List IndexedAccountEntry) :
    Prop where
  mem_iff : ∀ p, p ∈ vals.map (·.index.toNat) ↔ p ∈ live
  increasing : (vals.map (·.index.toNat)).Pairwise (· < ·)
  original : ∀ val ∈ vals, entries[val.index.toNat]? = some val.entry

-- a wrapped index is only ever too small, so the lookup stays inside the mask
theorem enumerate_index_lt {entries : List AccountEntry} {val : IndexedAccountEntry}
    (h : val ∈ enumerate entries) : val.index.toNat < entries.length := by
  rcases List.mem_map.mp h with ⟨⟨entry, i⟩, hmem, hval⟩
  have hi := List.mk_mem_zipIdx_iff_getElem?.mp hmem
  have hlt : i < entries.length := (List.getElem?_eq_some_iff.mp hi).1
  have hmod : i % 2 ^ 32 ≤ i := Nat.mod_le i _
  rw [← hval]
  show (UInt32.ofNat i).toNat < entries.length
  rw [UInt32.toNat_ofNat']
  omega

theorem filterMaskRemoved_length {entries : List AccountEntry} {removed : List Bool}
    (h : filterMaskRemoved entries = .ok removed) : removed.length = entries.length := by
  have hspec := filterMaskRemoved_spec entries
  split at hspec
  · rcases hspec with ⟨removed', hok, hmask⟩
    rw [h] at hok
    cases hok
    rw [hmask.length, List.length_map]
  · rcases hspec with ⟨detail, herr⟩
    rw [h] at herr
    cases herr

/-- Once the mask is there, the filter over it cannot run off its end, whatever the length. -/
theorem validLiveEntries_eq {entries : List AccountEntry} {removed : List Bool}
    (h : filterMaskRemoved entries = .ok removed) :
    validLiveEntries entries = .ok ((enumerate entries).filter fun val =>
      removed[val.index.toNat]? == some false && !val.entry.isRemove) := by
  have hbound : ∀ val ∈ enumerate entries, val.index.toNat < removed.length := by
    intro val hval
    rw [filterMaskRemoved_length h]
    exact enumerate_index_lt hval
  rw [validLiveEntries, h, Result.ok_bind, keepLive_eq hbound]

/-- Reading the live set of a held log cannot fail. -/
theorem liveIndexed_ok {E : Ed25519} (L : AccountLog E) : ∃ vals, L.liveIndexed = .ok vals := by
  rcases L.removes with ⟨removed, hremoved⟩
  exact ⟨_, by rw [AccountLog.liveIndexed, validLiveEntries_eq hremoved, Result.expect_ok]⟩

theorem validLiveEntries_spec {entries : List AccountEntry} (hlen : entries.length ≤ 2 ^ 32)
    {live : Finset Nat} (hreplay : replay (entries.map AccountEntry.target) = some live) :
    ∃ vals, validLiveEntries entries = .ok vals ∧ LiveOf entries live vals := by
  have hspec := filterMaskRemoved_spec entries
  rw [hreplay] at hspec
  rcases hspec with ⟨removed, hremoved, hmask⟩
  refine ⟨_, validLiveEntries_eq hremoved, ?_, ?_, ?_⟩
  · -- the mask marks the tombstones and the filter drops the removes: what passes both is live
    intro p
    rw [hmask.mem_iff p, List.mem_map]
    refine ⟨fun h => ?_, fun h => ?_⟩
    · rcases h with ⟨val, hval, hp⟩
      rcases List.mem_filter.mp hval with ⟨hmem, hkeep⟩
      simp only [Bool.and_eq_true, beq_iff_eq, Bool.not_eq_true'] at hkeep
      have hget := (mem_enumerate hlen).mp hmem
      rw [← hp]
      refine ⟨(List.getElem?_eq_some_iff.mp hget).1, ?_, hkeep.1⟩
      exact targets_getElem?.mpr ⟨_, hget, hkeep.2⟩
    · rcases h with ⟨hlt, hop, hfalse⟩
      rcases targets_getElem?.mp hop with ⟨entry, hget, hkind⟩
      have hindex : (UInt32.ofNat p).toNat = p := toNat_ofNat_u32 (by omega)
      refine ⟨⟨UInt32.ofNat p, entry⟩, List.mem_filter.mpr ⟨?_, ?_⟩, hindex⟩
      · rw [mem_enumerate hlen, hindex, hget]
      · simp [hindex, hfalse, hkind]
  · -- a filter keeps the order of the enumeration
    have hrange : ((enumerate entries).map (·.index.toNat)).Pairwise (· < ·) := by
      rw [enumerate_index hlen]
      exact List.pairwise_lt_range
    exact hrange.sublist (List.filter_sublist.map _)
  · intro val hval
    exact (mem_enumerate hlen).mp (List.mem_filter.mp hval).1

/-- Building a log replays it: the build succeeds exactly when the replay does, it fails with an
error otherwise, and the live entries are the positions the replay leaves live. -/
theorem fromEntries_replays (E : Ed25519) (entries : List AccountEntry)
    (hlen : entries.length < 2 ^ 32)
    (hkeys : ∀ context key, .add context (.ed25519Key key) ∈ entries →
      ∃ k, E.fromCanonicalBytes key = .ok k) :
    ((∃ L, AccountLog.fromEntries E entries = .ok L) ↔
      ∃ live, replay (entries.map AccountEntry.target) = some live) ∧
    (replay (entries.map AccountEntry.target) = none →
      ∃ e, AccountLog.fromEntries E entries = .err e) ∧
    ∀ L live, AccountLog.fromEntries E entries = .ok L →
      replay (entries.map AccountEntry.target) = some live →
      ∃ vals, L.liveIndexed = .ok vals ∧ LiveOf entries live vals := by
  have htypes := ensureValidTypes_eq_ok_iff.mpr hkeys
  have hiff := @exists_fromEntries_iff E entries
  simp only [htypes, and_true, Option.isSome_iff_exists] at hiff
  refine ⟨hiff, fun hnone => ?_, fun L live hL hlive => ?_⟩
  · cases hbuild : AccountLog.fromEntries E entries with
    | ok L =>
        rcases hiff.mp ⟨L, hbuild⟩ with ⟨live, hlive⟩
        rw [hnone] at hlive
        cases hlive
    | err e => exact ⟨e, rfl⟩
    | panic => exact absurd hbuild (fromEntries_failsIn E entries).ne_panic
  · rcases validLiveEntries_spec hlen.le hlive with ⟨vals, hvals, hspec⟩
    refine ⟨vals, ?_, hspec⟩
    rw [AccountLog.liveIndexed, AccountLog.fromEntries_eq_ok_iff.mp hL, hvals, Result.expect_ok]

/-- A key, a text and the removal of the key: the text at position 1 is what is left. -/
def revokedKeyEntries : List AccountEntry :=
  [.add (.literal "chat.signer" (by decide)) (.ed25519Key (Vector.replicate 32 0xd7)),
    .add (.literal "profile.name" (by decide)) (.text "raya"), .remove 0]

theorem fromEntries_replays_revokedKey :
    ∃ L, AccountLog.fromEntries Ed25519.sample revokedKeyEntries = .ok L ∧
      ∃ vals, L.liveIndexed = .ok vals ∧ LiveOf revokedKeyEntries {1} vals := by
  have hreplay : replay (revokedKeyEntries.map AccountEntry.target) = some {1} := by decide
  have hkeys : ∀ context key, .add context (.ed25519Key key) ∈ revokedKeyEntries →
      ∃ k, Ed25519.sample.fromCanonicalBytes key = .ok k :=
    ensureValidTypes_eq_ok_iff.mp (by decide)
  have h := fromEntries_replays Ed25519.sample revokedKeyEntries (by decide) hkeys
  rcases h.1.mpr ⟨_, hreplay⟩ with ⟨L, hL⟩
  exact ⟨L, hL, h.2.2 L _ hL hreplay⟩

end LogosChat.Accounts
