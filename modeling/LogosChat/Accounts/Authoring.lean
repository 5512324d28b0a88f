import LogosChat.Accounts.Draft
import LogosChat.Accounts.Live
import LogosChat.Reasoning.Run

/-!
# Authoring on a draft

A push rebuilds the whole log and then scans its live keys.  Seen from the draft it extends, it asks
only about the new entry: a remove has to name a live entry, and a key may not be live already.
What a push does not ask about is the size of the log.
-/

namespace LogosChat.Accounts

open Reasoning Crypto

/-! ## Keys that are live once -/

/-- The key an entry endorses. -/
def AccountEntry.key? : AccountEntry → Option KeyBytes
  | .add _ (.ed25519Key key) => some key
  | _ => none

/-- No key is endorsed by two of these entries. -/
def SingleUse (live : IndexedAccountEntry → Prop) : Prop :=
  ∀ val other key, live val → live other → val.entry.key? = some key →
    other.entry.key? = some key → val = other

theorem SingleUse.mono {live live' : IndexedAccountEntry → Prop} (h : SingleUse live)
    (hle : ∀ val, live' val → live val) : SingleUse live' :=
  fun val other key hval hother ↦ h val other key (hle val hval) (hle other hother)

/-- A further entry is fine as long as its key is none of those already there. -/
theorem singleUse_or_eq_iff {live : IndexedAccountEntry → Prop} (h : SingleUse live)
    {new : IndexedAccountEntry} (hnew : ¬ live new) :
    SingleUse (fun val ↦ live val ∨ val = new) ↔
      ∀ key, new.entry.key? = some key → ∀ val, live val → val.entry.key? ≠ some key := by
  refine ⟨fun hsingle key hkey val hval hsame ↦ ?_, fun hfresh val other key hval hother hk hk' ↦ ?_⟩
  · have heq := hsingle val new key (.inl hval) (.inr rfl) hsame hkey
    rw [heq] at hval
    exact hnew hval
  · rcases hval with hval | heq
    · rcases hother with hother | heq'
      · exact h val other key hval hother hk hk'
      · subst heq'
        exact absurd hk (hfresh key hk' val hval)
    · subst heq
      rcases hother with hother | heq'
      · exact absurd hk' (hfresh key hk other hother)
      · exact heq'.symm

theorem singleUse_mem_iff {vals : List IndexedAccountEntry} (hnodup : vals.Nodup) :
    SingleUse (· ∈ vals) ↔ (vals.filterMap (·.entry.key?)).Nodup := by
  rw [List.Nodup, List.pairwise_filterMap]
  constructor
  · intro hsingle
    refine hnodup.pairwise_of_forall_ne fun val hval other hother hne key hkey key' hkey' heq ↦ ?_
    subst heq
    exact hne (hsingle val other key hval hother hkey hkey')
  · intro hpairwise val other key hval hother hkey hkey'
    have hsymm : Std.Symm fun a b : IndexedAccountEntry ↦
        ∀ key, a.entry.key? = some key → ∀ key', b.entry.key? = some key' → key ≠ key' :=
      ⟨fun a b hab key hkey key' hkey' ↦ (hab key' hkey' key hkey).symm⟩
    by_contra hne
    exact hpairwise.forall hval hother hne key hkey key hkey' rfl

/-- The scan asks of an entry only what key it endorses. -/
theorem singleUseLoop_cons (seen : Finset KeyBytes) (val : IndexedAccountEntry)
    (rest : List IndexedAccountEntry) :
    singleUseLoop seen (val :: rest) = .ok () ↔
      match val.entry.key? with
      | none => singleUseLoop seen rest = .ok ()
      | some key => key ∉ seen ∧ singleUseLoop (insert key seen) rest = .ok () := by
  rcases val with ⟨index, entry⟩
  cases entry with
  | remove target => exact Iff.rfl
  | unknown opcode body => exact Iff.rfl
  | add context data =>
      cases data with
      | text value => exact Iff.rfl
      | unknown tag body => exact Iff.rfl
      | ed25519Key key =>
          rw [singleUseLoop]
          by_cases hseen : key ∈ seen <;> simp [hseen, AccountEntry.key?]

/-- The scan meets no key of `seen`, and none twice. -/
theorem singleUseLoop_eq_ok_iff (vals : List IndexedAccountEntry) (seen : Finset KeyBytes) :
    singleUseLoop seen vals = .ok () ↔
      (∀ key ∈ vals.filterMap (·.entry.key?), key ∉ seen) ∧ (vals.filterMap (·.entry.key?)).Nodup := by
  induction vals generalizing seen with
  | nil => simp [singleUseLoop]
  | cons val rest ih =>
      rw [singleUseLoop_cons]
      cases hkey : val.entry.key? with
      | none => simp only [List.filterMap_cons, hkey, ih]
      | some key =>
          simp only [List.filterMap_cons, hkey, ih, List.nodup_cons, List.forall_mem_cons]
          constructor
          · rintro ⟨hnew, hrest, hnodup⟩
            refine ⟨⟨hnew, fun other hother hseen ↦ ?_⟩, fun hmem ↦ ?_, hnodup⟩
            · exact hrest other hother (Finset.mem_insert_of_mem hseen)
            · exact hrest key hmem (Finset.mem_insert_self key seen)
          · rintro ⟨⟨hnew, hrest⟩, hnot, hnodup⟩
            refine ⟨hnew, fun other hother hseen ↦ ?_, hnodup⟩
            rcases Finset.mem_insert.mp hseen with heq | hseen
            · subst heq
              exact hnot hother
            · exact hrest other hother hseen

theorem ensureSingleUseKeys_eq_ok_iff {E : Ed25519} {L : AccountLog E}
    (hlen : L.entries.length ≤ 2 ^ 32) :
    ensureSingleUseKeys L = .ok () ↔ SingleUse (LiveIn L.entries) := by
  rcases L.liveIndexed_spec hlen with ⟨vals, hvals, hnodup, hmem⟩
  have hlive : (fun val ↦ val ∈ vals) = LiveIn L.entries := funext fun val ↦ propext (hmem val)
  rw [ensureSingleUseKeys, hvals]
  show singleUseLoop ∅ vals = .ok () ↔ _
  rw [singleUseLoop_eq_ok_iff, ← singleUse_mem_iff hnodup, hlive]
  simp

/-! ## One push -/

namespace AccountLogDraft

variable {E : Ed25519} {d d' : AccountLogDraft E} {entry : AccountEntry}

theorem exists_push_iff (hlen : d.log.entries.length < 2 ^ 32) :
    (∃ d', d.push entry = .ok d') ↔ entry.isUnreadable = false ∧
      (∃ L, AccountLog.fromEntries E (d.log.entries ++ [entry]) = .ok L) ∧
      SingleUse (LiveIn (d.log.entries ++ [entry])) := by
  have hkeys (L : AccountLog E) (hL : AccountLog.fromEntries E (d.log.entries ++ [entry]) = .ok L) :
      ensureSingleUseKeys L = .ok () ↔ SingleUse (LiveIn (d.log.entries ++ [entry])) := by
    have hentries := AccountLog.fromEntries_eq_ok_iff.mp hL
    rw [ensureSingleUseKeys_eq_ok_iff, hentries]
    rw [hentries, List.length_append, List.length_singleton]
    omega
  unfold push
  by_cases hread : entry.isUnreadable = true
  · simp [hread]
  · rw [if_neg hread]
    refine ⟨fun h ↦ ?_, fun h ↦ ?_⟩
    · rcases h with ⟨d', h⟩
      rcases Result.bind_eq_ok.mp h with ⟨L, hL, h⟩
      rcases Result.bind_eq_ok.mp h with ⟨_, hsingle, -⟩
      exact ⟨by simpa using hread, ⟨L, hL⟩, (hkeys L hL).mp hsingle⟩
    · rcases h.2.1 with ⟨L, hL⟩
      exact ⟨⟨L⟩, by rw [hL, Result.ok_bind, (hkeys L hL).mpr h.2.2, Result.ok_bind]⟩

/-- Every entry can be pushed on the log with those before it: this build reads it, the log stays valid,
and no key is live twice. -/
def Pushable (E : Ed25519) (old entries : List AccountEntry) : Prop :=
  ∀ front entry back, entries = front ++ entry :: back →
    entry.isUnreadable = false ∧ (∃ L, AccountLog.fromEntries E (old ++ front ++ [entry]) = .ok L) ∧
      SingleUse (LiveIn (old ++ front ++ [entry]))

theorem pushable_cons {old rest : List AccountEntry} :
    Pushable E old (entry :: rest) ↔
      (entry.isUnreadable = false ∧ (∃ L, AccountLog.fromEntries E (old ++ [entry]) = .ok L) ∧
        SingleUse (LiveIn (old ++ [entry]))) ∧ Pushable E (old ++ [entry]) rest := by
  refine ⟨fun h ↦ ⟨?_, fun front other back hrest ↦ ?_⟩, fun ⟨hfirst, hrest⟩ front other back hsplit ↦ ?_⟩
  · have hfirst := h [] entry rest rfl
    rwa [List.append_nil] at hfirst
  · have hother := h (entry :: front) other back (by rw [hrest, List.cons_append])
    rwa [List.append_cons old entry front] at hother
  · cases front with
    | nil =>
        obtain ⟨rfl, rfl⟩ := List.cons.inj hsplit
        rwa [List.append_nil]
    | cons first front =>
        obtain ⟨rfl, hback⟩ := List.cons.inj hsplit
        rw [List.append_cons old entry front]
        exact hrest front other back hback

theorem exists_pushAll_iff {entries : List AccountEntry}
    (hlen : (d.log.entries ++ entries).length ≤ 2 ^ 32) :
    (∃ d', d.pushAll entries = .ok d') ↔ Pushable E d.log.entries entries := by
  induction entries generalizing d with
  | nil => exact ⟨fun _ front entry back h ↦ by simp at h, fun _ ↦ ⟨d, rfl⟩⟩
  | cons entry rest ih =>
      have hfirst : d.log.entries.length < 2 ^ 32 := by
        rw [List.length_append, List.length_cons] at hlen
        omega
      have hrest (mid : AccountLogDraft E) (hmid : d.push entry = .ok mid) :
          (∃ d', mid.pushAll rest = .ok d') ↔ Pushable E (d.log.entries ++ [entry]) rest := by
        rw [← (push_eq_ok hmid).2]
        apply ih
        rwa [(push_eq_ok hmid).2, ← List.append_cons]
      rw [pushable_cons, ← exists_push_iff hfirst]
      constructor
      · rintro ⟨d', h⟩
        obtain ⟨mid, hmid, h⟩ := Result.bind_eq_ok.mp h
        exact ⟨⟨mid, hmid⟩, (hrest mid hmid).mp ⟨d', h⟩⟩
      · rintro ⟨⟨mid, hmid⟩, h⟩
        obtain ⟨d', hd'⟩ := (hrest mid hmid).mpr h
        exact ⟨d', Result.bind_eq_ok.mpr ⟨mid, hmid, hd'⟩⟩

/-- An accepted push leaves no key live twice, whatever was there before. -/
theorem singleUse_of_push (h : d.push entry = .ok d') (hlen : d'.log.entries.length ≤ 2 ^ 32) :
    SingleUse (LiveIn d'.log.entries) := by
  unfold push at h
  by_cases hread : entry.isUnreadable = true
  · rw [if_pos hread] at h
    cases h
  · rw [if_neg hread] at h
    rcases Result.bind_eq_ok.mp h with ⟨L, -, h⟩
    rcases Result.bind_eq_ok.mp h with ⟨_, hsingle, h⟩
    cases h
    exact (ensureSingleUseKeys_eq_ok_iff hlen).mp hsingle

/-- What a push asks of an entry: a text is always fine, a key has to be usable and not live, and a
remove has to name a live entry. -/
def Acceptable (d : AccountLogDraft E) : AccountEntry → Prop
  | .add _ (.text _) => True
  | .add _ (.ed25519Key key) =>
      (∃ k, E.fromCanonicalBytes key = .ok k) ∧
        ∀ val, d.log.Lists val → val.entry.key? ≠ some key
  | .remove index => ∃ val, d.log.Lists val ∧ val.index = index
  | .add _ (.unknown _ _) => False
  | .unknown _ _ => False

-- a readable entry that fills its position: its own key is all that can go wrong
theorem exists_push_add_iff (hlen : d.log.entries.length < 2 ^ 32)
    (hsingle : SingleUse (LiveIn d.log.entries)) (hread : entry.isUnreadable = false)
    (hkind : entry.isRemove = false) :
    (∃ d', d.push entry = .ok d') ↔
      (∀ context key, entry = .add context (.ed25519Key key) →
        ∃ k, E.fromCanonicalBytes key = .ok k) ∧
      ∀ key, entry.key? = some key → ∀ val, d.log.Lists val → val.entry.key? ≠ some key := by
  have hfill : ∀ index, entry = .remove index →
      ∃ val : IndexedAccountEntry, val.index = index ∧ LiveIn d.log.entries val := by
    intro index heq
    rw [heq] at hkind
    cases hkind
  have hnew : ¬ LiveIn d.log.entries ⟨UInt32.ofNat d.log.entries.length, entry⟩ := by
    intro h
    have hlt := h.index_lt
    rw [toNat_ofNat_u32 hlen] at hlt
    omega
  have hlive : LiveIn (d.log.entries ++ [entry]) = fun val ↦
      LiveIn d.log.entries val ∨ val = ⟨UInt32.ofNat d.log.entries.length, entry⟩ :=
    funext fun val ↦ propext (liveIn_concat_iff hkind hlen)
  rw [exists_push_iff hlen, exists_fromEntries_concat_iff, hlive, singleUse_or_eq_iff hsingle hnew]
  simp only [hread, true_and, AccountLog.lists_iff hlen.le]
  exact ⟨fun h ↦ ⟨h.1.2, h.2⟩, fun h ↦ ⟨⟨hfill, h.1⟩, h.2⟩⟩

theorem exists_push_remove_iff {index : UInt32} (hlen : d.log.entries.length < 2 ^ 32) :
    (∃ d', d.push (.remove index) = .ok d') ↔
      (∃ val, d.log.Lists val ∧ val.index = index) ∧
        SingleUse fun val ↦ d.log.Lists val ∧ val.index ≠ index := by
  have hlive : LiveIn (d.log.entries ++ [.remove index]) = fun val ↦
      d.log.Lists val ∧ val.index ≠ index := by
    funext val
    rw [AccountLog.lists_iff hlen.le]
    exact propext liveIn_concat_remove_iff
  rw [exists_push_iff hlen, exists_fromEntries_concat_iff, hlive]
  simp [AccountEntry.isUnreadable, AccountLog.lists_iff hlen.le, and_comm]

theorem exists_push_iff_acceptable (hlen : d.log.entries.length < 2 ^ 32)
    (hsingle : SingleUse (LiveIn d.log.entries)) :
    (∃ d', d.push entry = .ok d') ↔ d.Acceptable entry := by
  cases entry with
  | remove index =>
      rw [exists_push_remove_iff hlen]
      refine ⟨fun h ↦ h.1, fun h ↦ ⟨h, hsingle.mono fun val hval ↦ ?_⟩⟩
      exact (AccountLog.lists_iff hlen.le).mp hval.1
  | unknown opcode body => simp [push, AccountEntry.isUnreadable, Acceptable]
  | add context data =>
      cases data with
      | unknown tag body => simp [push, AccountEntry.isUnreadable, Acceptable]
      | text value =>
          rw [exists_push_add_iff hlen hsingle rfl rfl]
          simp [Acceptable, AccountEntry.key?]
      | ed25519Key key =>
          rw [exists_push_add_iff hlen hsingle rfl rfl]
          simp [Acceptable, AccountEntry.key?]

/-- On a draft of any log a push asks also that no key is left live twice, which a decoded log does not
promise. -/
theorem exists_push_iff_singleUse (hlen : d.log.entries.length < 2 ^ 32) :
    (∃ d', d.push entry = .ok d') ↔
      d.Acceptable entry ∧ SingleUse (LiveIn (d.log.entries ++ [entry])) := by
  rw [exists_push_iff hlen, ← and_assoc, exists_fromEntries_concat_iff]
  refine and_congr_left fun hsingle ↦ ?_
  cases entry with
  | remove index =>
      simp [AccountEntry.isUnreadable, Acceptable, AccountLog.lists_iff hlen.le, and_comm]
  | unknown opcode body => simp [AccountEntry.isUnreadable, Acceptable]
  | add context data =>
      cases data with
      | unknown tag body => simp [AccountEntry.isUnreadable, Acceptable]
      | text value => simp [AccountEntry.isUnreadable, Acceptable]
      | ed25519Key key =>
          -- the new entry is live, so no other one endorses its key
          have hfresh (val : IndexedAccountEntry) (hval : d.log.Lists val) :
              val.entry.key? ≠ some key := by
            intro hkey
            rw [AccountLog.lists_iff hlen.le] at hval
            have heq := hsingle val _ key ((liveIn_concat_iff rfl hlen).mpr (.inl hval))
              ((liveIn_concat_iff rfl hlen).mpr (.inr rfl)) hkey rfl
            have hlt := hval.index_lt
            rw [heq, toNat_ofNat_u32 hlen] at hlt
            omega
          simp only [AccountEntry.isUnreadable, Acceptable, true_and, reduceCtorEq, false_implies,
            implies_true, AccountEntry.add.injEq, EntryData.ed25519Key.injEq, and_imp]
          exact ⟨fun h ↦ ⟨h context key rfl rfl, hfresh⟩, fun h _ _ _ heq ↦ heq ▸ h.1⟩

end AccountLogDraft

/-! ## Runs of calls -/

/-- A call that may extend a draft. -/
inductive DraftCall where
  | add (context : Context) (data : EntryData)
  | revoke (index : UInt32)
  | push (entry : AccountEntry)

def DraftCall.entry : DraftCall → AccountEntry
  | .add context data => .add context data
  | .revoke index => .remove index
  | .push entry => entry

namespace AccountLogDraft

variable {E : Ed25519} {d d' : AccountLogDraft E}

def call (d : AccountLogDraft E) : DraftCall → Result AccountLogError (AccountLogDraft E)
  | .add context data => d.add context data
  | .revoke index => d.revoke index
  | .push entry => d.push entry

theorem call_eq_push (d : AccountLogDraft E) (c : DraftCall) : d.call c = d.push c.entry := by
  cases c <;> rfl

/-- The draft a caller holds after a call, accepted or rejected. -/
def after (d : AccountLogDraft E) (c : DraftCall) : AccountLogDraft E :=
  match d.call c with
  | .ok d' => d'
  | _ => d

theorem after_of_ok {c : DraftCall} (h : d.push c.entry = .ok d') : d.after c = d' := by
  rw [after, call_eq_push, h]

theorem after_of_rejected {c : DraftCall} (h : ¬ ∃ d', d.push c.entry = .ok d') : d.after c = d := by
  rw [after, call_eq_push]
  cases hpush : d.push c.entry with
  | ok d' => exact absurd ⟨d', hpush⟩ h
  | err e => rfl
  | panic => rfl

/-- The entries of a sequence that are accepted, each on the draft it meets. -/
def accepted (d : AccountLogDraft E) : List AccountEntry → List AccountEntry
  | [] => []
  | entry :: rest =>
      match d.push entry with
      | .ok d' => entry :: d'.accepted rest
      | _ => d.accepted rest

/-- A sequence of pushes ends where its accepted entries alone lead. -/
theorem pushAll_accepted (entries : List AccountEntry) (d : AccountLogDraft E) :
    d.pushAll (d.accepted entries) = .ok (run after d (entries.map .push)) := by
  induction entries generalizing d with
  | nil => rfl
  | cons entry rest ih =>
      rw [accepted, List.map_cons, run_cons]
      cases hpush : d.push entry with
      | ok d' =>
          rw [@after_of_ok E d d' (.push entry) hpush]
          show (d.push entry >>= _) = _
          rw [hpush, Result.ok_bind, ih]
      | err e =>
          rw [@after_of_rejected E d (.push entry) (by simp [DraftCall.entry, hpush])]
          exact ih d
      | panic => exact absurd hpush (d.push_failsIn entry).ne_panic

-- as long as the log can be indexed: a longer one is never scanned right
def Scanned (d : AccountLogDraft E) : Prop :=
  d.log.entries.length ≤ 2 ^ 32 → SingleUse (LiveIn d.log.entries)

theorem Scanned.after (h : d.Scanned) (c : DraftCall) : (d.after c).Scanned := by
  intro hlen
  by_cases hpush : ∃ d', d.push c.entry = .ok d'
  · rcases hpush with ⟨d', hd'⟩
    rw [after_of_ok hd'] at hlen ⊢
    exact singleUse_of_push hd' hlen
  · rw [after_of_rejected hpush] at hlen ⊢
    exact h hlen

theorem scanned_new : (new : AccountLogDraft E).Scanned := by
  intro _ val other key hval
  have hlt : val.index.toNat < 0 := hval.index_lt
  omega

theorem run_scanned (calls : List DraftCall) : (run after (new : AccountLogDraft E) calls).Scanned :=
  run_invariant (fun _ c h ↦ h.after c) scanned_new calls

/-- What holds of a draft that has only ever been pushed to. -/
structure PushSpec (d : AccountLogDraft E) : Prop where
  single_use : SingleUse d.log.Lists
  accepted_iff : ∀ entry, (∃ d', d.push entry = .ok d') ↔ d.Acceptable entry
  rejected : ∀ entry, (¬ ∃ d', d.push entry = .ok d') → d.after (.push entry) = d
  live_iff : ∀ index, (∃ val, d.log.Lists val ∧ val.index = index) ↔ ∃ d', d.revoke index = .ok d'

/-- Over the pushes on a new draft, of fewer than `2 ^ 32` entries: it holds the accepted entries in
order, no key is live twice, and a push asks of an entry what `Acceptable` says. -/
theorem pushes_keep_draft (E : Ed25519) (entries : List AccountEntry) (d : AccountLogDraft E)
    (hd : d = run after new (entries.map .push)) (hlen : d.log.entries.length < 2 ^ 32) :
    d.log.entries = accepted (new : AccountLogDraft E) entries ∧ d.PushSpec := by
  have hsingle : SingleUse (LiveIn d.log.entries) := by
    rw [hd] at hlen ⊢
    exact run_scanned _ hlen.le
  refine ⟨?_, ?_, fun entry ↦ ?_, fun entry ↦ @after_of_rejected E d (.push entry), fun index ↦ ?_⟩
  · have haccepted := pushAll_eq_ok (pushAll_accepted entries (new : AccountLogDraft E))
    rw [← hd] at haccepted
    exact haccepted
  · exact hsingle.mono fun val ↦ (AccountLog.lists_iff hlen.le).mp
  · exact exists_push_iff_acceptable hlen hsingle
  · exact (@exists_push_iff_acceptable E d (.remove index) hlen hsingle).symm

/-- A key that is endorsed, revoked and endorsed again. -/
def endorsedAgain : List AccountEntry :=
  [.add (.literal "chat.signer" Context.chatSigner_isOk) (.ed25519Key (Vector.replicate 32 0xd7)), .remove 0,
    .add (.literal "chat.signer" Context.chatSigner_isOk) (.ed25519Key (Vector.replicate 32 0xd7))]

theorem pushes_keep_endorsedAgain :
    PushSpec (run after (new : AccountLogDraft Ed25519.sample) (endorsedAgain.map .push)) :=
  (pushes_keep_draft Ed25519.sample endorsedAgain _ rfl (by decide)).2

/-! ## Revoking on a log that was decoded -/

theorem fromLog_of_readable {L : AccountLog E}
    (h : ∀ entry ∈ L.entries, entry.isUnreadable = false) : fromLog L = .ok ⟨L⟩ := by
  have hnone : L.firstUnreadable = none := List.findIdx?_eq_none_iff.mpr h
  rw [fromLog, hnone]

theorem readable_of_fromLog {L : AccountLog E} (h : fromLog L = .ok d) :
    ∀ entry ∈ L.entries, entry.isUnreadable = false := by
  unfold fromLog at h
  cases hread : L.firstUnreadable with
  | some position => simp [hread] at h
  | none => exact List.findIdx?_eq_none_iff.mp hread

-- among the entries a log lists, the index tells them apart
theorem lists_index_ne_iff {L : AccountLog E} (hlen : L.entries.length ≤ 2 ^ 32)
    {val other : IndexedAccountEntry} (hval : L.Lists val) :
    L.Lists other ∧ other.index ≠ val.index ↔ L.Lists other ∧ other ≠ val := by
  rw [AccountLog.lists_iff hlen] at hval ⊢
  refine and_congr_right fun hother ↦ not_congr ⟨fun h ↦ hother.eq_of_index hval h, fun h ↦ ?_⟩
  rw [h]

/-- On a log this build can read, revoking a live entry takes exactly that entry out, unless some
key is live under two of the others. -/
theorem revoke_live_iff (E : Ed25519) (p : EncodedAccountLog) (L : AccountLog E)
    (hdec : p.decode E = .ok L) (hread : ∀ entry ∈ L.entries, entry.isUnreadable = false)
    (val : IndexedAccountEntry) (hval : L.Lists val) :
    (∃ d d', fromLog L = .ok d ∧ d.revoke val.index = .ok d' ∧
      ∀ other, d'.log.Lists other ↔ L.Lists other ∧ other ≠ val) ↔
      SingleUse fun other ↦ L.Lists other ∧ other ≠ val := by
  have hlen := length_lt_of_decode hdec
  have hothers : (fun other ↦ L.Lists other ∧ other.index ≠ val.index) =
      fun other ↦ L.Lists other ∧ other ≠ val :=
    funext fun other ↦ propext (lists_index_ne_iff hlen.le hval)
  have hpush := @exists_push_remove_iff E ⟨L⟩ val.index hlen
  rw [hothers] at hpush
  rw [fromLog_of_readable hread]
  refine ⟨fun h ↦ ?_, fun h ↦ ?_⟩
  · rcases h with ⟨d, d', hd, hd', -⟩
    cases hd
    exact (hpush.mp ⟨d', hd'⟩).2
  · rcases hpush.mpr ⟨⟨val, hval, rfl⟩, h⟩ with ⟨d', hd'⟩
    refine ⟨⟨L⟩, d', rfl, hd', fun other ↦ ?_⟩
    have hentries : d'.log.entries = L.entries ++ [.remove val.index] := (push_eq_ok hd').2
    have hlen' : d'.log.entries.length ≤ 2 ^ 32 := by
      rw [hentries, List.length_append, List.length_singleton]
      omega
    rw [← lists_index_ne_iff hlen.le hval, AccountLog.lists_iff hlen', hentries,
      liveIn_concat_remove_iff, AccountLog.lists_iff hlen.le]

/-- A key that other builds may endorse more than once. -/
def repeatedKey : AccountEntry :=
  .add (.literal "chat.signer" Context.chatSigner_isOk) (.ed25519Key (Vector.replicate 32 0xd7))

-- the payload of a log that holds this key and nothing else decodes
theorem decode_repeatedKey {p : EncodedAccountLog} {L : AccountLog Ed25519.sample} {n : Nat}
    (hp : p.bytes = accountLogDomain ++ entryCodec.encodeAll L.entries)
    (hL : L.entries = .replicate n repeatedKey) : p.decode Ed25519.sample = .ok L := by
  refine decode_eq_ok_iff.mpr ⟨hp, fun entry hmem ↦ ?_⟩
  rw [hL] at hmem
  rw [List.eq_of_mem_replicate hmem]
  exact wellFramed_of_textFits rfl trivial

def twofoldLog : AccountLog Ed25519.sample :=
  ⟨[repeatedKey, repeatedKey], ⟨[false, false], rfl⟩, rfl⟩

def twofoldPayload : EncodedAccountLog :=
  ⟨accountLogDomain ++ entryCodec.encodeAll twofoldLog.entries, by
    rw [← encodedLength_eq]
    decide⟩

/-- Of a key that is live twice, either endorsement can be revoked. -/
theorem twofold_key_can_be_revoked :
    ∃ d d', fromLog twofoldLog = .ok d ∧ d.revoke 0 = .ok d' ∧
      ∀ other, d'.log.Lists other ↔ twofoldLog.Lists other ∧ other ≠ ⟨0, repeatedKey⟩ := by
  have hdec := @decode_repeatedKey twofoldPayload twofoldLog 2 rfl rfl
  have hlist (val : IndexedAccountEntry) : twofoldLog.Lists val ↔ LiveIn twofoldLog.entries val :=
    AccountLog.lists_iff (by decide)
  have hother (val : IndexedAccountEntry)
      (h : twofoldLog.Lists val ∧ val ≠ ⟨0, repeatedKey⟩) : val.index.toNat = 1 := by
    have hlive := (hlist val).mp h.1
    have hlt : val.index.toNat < 2 := hlive.index_lt
    have hne : val.index.toNat ≠ 0 := by
      intro hzero
      have hfirst : LiveIn twofoldLog.entries ⟨0, repeatedKey⟩ := ⟨rfl, rfl, by decide⟩
      exact h.2 (hlive.eq_of_index hfirst (UInt32.toNat_inj.mp hzero))
    omega
  refine (revoke_live_iff Ed25519.sample twofoldPayload twofoldLog hdec (by decide)
    ⟨0, repeatedKey⟩ ((hlist _).mpr ⟨rfl, rfl, by decide⟩)).mpr ?_
  intro val other key hval hval' _ _
  have hindex : val.index = other.index :=
    UInt32.toNat_inj.mp ((hother val hval).trans (hother other hval').symm)
  exact ((hlist val).mp hval.1).eq_of_index ((hlist other).mp hval'.1) hindex

def threefoldLog : AccountLog Ed25519.sample :=
  ⟨[repeatedKey, repeatedKey, repeatedKey], ⟨[false, false, false], rfl⟩, rfl⟩

def threefoldPayload : EncodedAccountLog :=
  ⟨accountLogDomain ++ entryCodec.encodeAll threefoldLog.entries, by
    rw [← encodedLength_eq]
    decide⟩

/-- Of a key that is live three times none can: the other two are still one key twice. -/
theorem threefold_key_cannot_be_revoked :
    threefoldPayload.decode Ed25519.sample = .ok threefoldLog ∧
      (∀ entry ∈ threefoldLog.entries, entry.isUnreadable = false) ∧
      threefoldLog.Lists ⟨0, repeatedKey⟩ ∧
      ∃ d, fromLog threefoldLog = .ok d ∧
        d.revoke 0 = .err (.malformed "key at position 2 is live more than once") :=
  ⟨@decode_repeatedKey threefoldPayload threefoldLog 3 rfl rfl, by decide,
    (AccountLog.lists_iff (by decide)).mpr ⟨rfl, rfl, by decide⟩, ⟨threefoldLog⟩,
    fromLog_of_readable (by decide), rfl⟩

/-! ## The size of a draft -/

/-- Where a draft starts: nothing published yet, or a log that was decoded. -/
inductive Opened : AccountLogDraft E → Prop where
  | new : Opened new
  | fromLog {p : EncodedAccountLog} {L : AccountLog E} {d : AccountLogDraft E} :
      p.decode E = .ok L → fromLog L = .ok d → Opened d

theorem Opened.encodes (h : d.Opened) : ∃ p, d.log.encode = .ok p := by
  cases h with
  | new => exact ⟨freshPayload, encode_of_decode (decode_freshPayload E)⟩
  | fromLog hdec hfrom =>
      rw [fromLog_eq_ok hfrom]
      exact ⟨_, encode_of_decode hdec⟩

/-- If the entry is one that the draft accepts, the log with it is within the size cap. -/
def StaysWithinCap (d : AccountLogDraft E) (c : DraftCall) : Prop :=
  d.Acceptable c.entry → SingleUse (LiveIn (d.log.entries ++ [c.entry])) →
    encodedLength (d.log.entries ++ [c.entry]) ≤ maxPayloadBytes

theorem after_encodes_iff (h : ∃ p, d.log.encode = .ok p) (c : DraftCall) :
    (∃ p, (d.after c).log.encode = .ok p) ↔ d.StaysWithinCap c := by
  have hlen := length_lt_of_encodedLength (exists_encode_iff.mp h)
  rw [StaysWithinCap, ← and_imp, ← exists_push_iff_singleUse hlen]
  by_cases hpush : ∃ d', d.push c.entry = .ok d'
  · rcases hpush with ⟨d', hd'⟩
    rw [after_of_ok hd', exists_encode_iff, (push_eq_ok hd').2]
    exact ⟨fun hsize _ ↦ hsize, fun hsize ↦ hsize ⟨d', hd'⟩⟩
  · rw [after_of_rejected hpush]
    exact ⟨fun _ haccepted ↦ absurd haccepted hpush, fun _ ↦ h⟩

/-- A draft can be encoded after each of a sequence of calls exactly when no accepted call takes it
over the size cap. -/
theorem draft_encodes_iff (E : Ed25519) (d : AccountLogDraft E) (hd : d.Opened)
    (calls : List DraftCall) :
    (∀ n, ∃ p, (run after d (calls.take n)).log.encode = .ok p) ↔
      Along after StaysWithinCap d calls := by
  have hiff : ∀ (s : AccountLogDraft E) (c : DraftCall), (∃ p, s.log.encode = .ok p) →
      ((∃ p, (s.after c).log.encode = .ok p) ↔ s.StaysWithinCap c) :=
    fun _ c h ↦ after_encodes_iff h c
  exact along_iff_reached hiff hd.encodes calls

theorem draft_encodes_short_text :
    (new : AccountLogDraft Ed25519.sample).Opened ∧
    ∀ n, ∃ p, (run after (new : AccountLogDraft Ed25519.sample)
      ([.add (.literal "a.b" (by decide)) (.text "hi"), .revoke 7].take n)).log.encode = .ok p := by
  refine ⟨.new, (draft_encodes_iff Ed25519.sample new .new _).mpr
    ⟨fun _ _ ↦ by decide, fun _ _ ↦ ?_, trivial⟩⟩
  decide

/-- A text of as many bytes as the cap. -/
def oversizedText : String := String.ofList (List.replicate maxPayloadBytes 'x')

/-- One accepted entry, and the draft can no longer be published. -/
theorem oversized_text_is_left_behind :
    ∃ d : AccountLogDraft Ed25519.sample,
      new.add (.literal "a.b" (by decide)) (.text oversizedText) = .ok d ∧
      d.log.encode = .err (.tooLarge maxPayloadBytes) := by
  rcases push_text Ed25519.sample (.literal "a.b" (by decide)) oversizedText with ⟨d, hd, hentries⟩
  refine ⟨d, hd, ?_⟩
  have htext : (utf8 oversizedText).length = maxPayloadBytes := utf8_replicate_length (by decide) _
  have hsize : ¬ (accountLogDomain ++ entryCodec.encodeAll d.log.entries).length ≤
      maxPayloadBytes := by
    rw [← encodedLength_eq, hentries, encodedLength, List.map_singleton, List.sum_singleton,
      AccountEntry.body, encodeAdd_length, encodeData, List.length_cons, htext]
    omega
  exact dif_neg hsize

end AccountLogDraft

end LogosChat.Accounts
