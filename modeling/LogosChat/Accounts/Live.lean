import LogosChat.Accounts.Replay

/-!
# Live entries

An entry is live when it fills its position and no entry of the log removes it.  That is what the
code's pass over a mask computes, and in this form it can be followed from a log to the logs that
extend it.
-/

namespace LogosChat.Accounts

open Reasoning Crypto

/-- The entry fills its position, and nothing in the log removes it. -/
structure LiveIn (entries : List AccountEntry) (val : IndexedAccountEntry) : Prop where
  entry : entries[val.index.toNat]? = some val.entry
  fills : val.entry.isRemove = false
  kept : .remove val.index ∉ entries

theorem IndexedAccountEntry.ext {val other : IndexedAccountEntry}
    (hindex : val.index.toNat = other.index.toNat) (hentry : val.entry = other.entry) :
    val = other := by
  cases val
  cases other
  cases UInt32.toNat_inj.mp hindex
  cases hentry
  rfl

/-! ## The mask -/

theorem some_mem_targets_iff {entries : List AccountEntry} {p : Nat} :
    some p ∈ entries.map AccountEntry.target ↔
      ∃ index : UInt32, .remove index ∈ entries ∧ index.toNat = p := by
  rw [List.mem_map]
  refine ⟨fun h ↦ ?_, fun h ↦ ?_⟩
  · rcases h with ⟨entry, hmem, htarget⟩
    cases entry with
    | remove index => exact ⟨index, hmem, Option.some.inj htarget⟩
    | add context data => cases htarget
    | unknown opcode body => cases htarget
  · rcases h with ⟨index, hmem, hp⟩
    exact ⟨.remove index, hmem, congrArg some hp⟩

theorem toNat_mem_targets_iff {entries : List AccountEntry} {index : UInt32} :
    some index.toNat ∈ entries.map AccountEntry.target ↔ .remove index ∈ entries := by
  rw [some_mem_targets_iff]
  refine ⟨fun h ↦ ?_, fun h ↦ ⟨index, h, rfl⟩⟩
  rcases h with ⟨other, hmem, heq⟩
  rw [← UInt32.toNat_inj.mp heq]
  exact hmem

/-- The pass marks the targets of the removes it meets, and nothing else. -/
theorem maskLoop_marks {entries rest : List AccountEntry} {position : Nat}
    {removed removed' : List Bool} (h : maskLoop entries rest position removed = .ok removed')
    (p : Nat) :
    removed'[p]? = some true ↔
      removed[p]? = some true ∨ ∃ index : UInt32, .remove index ∈ rest ∧ index.toNat = p := by
  induction rest generalizing position removed with
  | nil =>
      cases h
      simp
  | cons entry rest ih =>
      have hskip (hkind : entry.isRemove = false)
          (h : maskLoop entries rest (position + 1) removed = .ok removed') :
          removed'[p]? = some true ↔ removed[p]? = some true ∨
            ∃ index : UInt32, .remove index ∈ entry :: rest ∧ index.toNat = p := by
        have hne (index : UInt32) : AccountEntry.remove index ≠ entry := by
          intro heq
          rw [← heq] at hkind
          cases hkind
        rw [ih h]
        simp only [List.mem_cons, hne, false_or]
      cases entry with
      | add context data => exact hskip rfl h
      | unknown opcode body => exact hskip rfl h
      | remove index =>
          rcases Result.bind_eq_ok.mp h with ⟨fault, -, h⟩
          cases fault with
          | some detail => cases h
          | none =>
              rcases Result.bind_eq_ok.mp h with ⟨marked, hset, h⟩
              rcases Result.setIndex_eq_ok.mp hset with ⟨hlt, rfl⟩
              rw [ih h, List.getElem?_set]
              by_cases hp : index.toNat = p
              · subst hp
                simp [hlt]
              · simp [hp]

theorem filterMaskRemoved_marks {entries : List AccountEntry} {removed : List Bool}
    (h : filterMaskRemoved entries = .ok removed) (p : Nat) :
    removed[p]? = some true ↔ ∃ index : UInt32, .remove index ∈ entries ∧ index.toNat = p := by
  rw [maskLoop_marks h p]
  simp [List.getElem?_replicate]

/-! ## The live entries of a log -/

section Log

variable {E : Ed25519} {L : AccountLog E} {val : IndexedAccountEntry}

theorem AccountLog.replays (L : AccountLog E) :
    ∃ live, replay (L.entries.map AccountEntry.target) = some live := by
  have hvalid := (exists_fromEntries_iff (E := E)).mp ⟨L, AccountLog.fromEntries_eq_ok_iff.mpr rfl⟩
  exact Option.isSome_iff_exists.mp hvalid.1

/-- A remove of a valid log points into the log. -/
theorem AccountLog.remove_lt {index : UInt32} (h : .remove index ∈ L.entries) :
    index.toNat < L.entries.length := by
  rcases L.replays with ⟨live, hlive⟩
  have hlt := (liveSet_of_replay _ hlive).backwards _ (toNat_mem_targets_iff.mpr h)
  rwa [List.length_map] at hlt

-- the replayed positions are those of the live entries
theorem mem_live_iff {entries : List AccountEntry} {live : Finset Nat} {index : UInt32}
    (h : replay (entries.map AccountEntry.target) = some live) :
    index.toNat ∈ live ↔ ∃ val : IndexedAccountEntry, val.index = index ∧ LiveIn entries val := by
  rw [(liveSet_of_replay _ h).mem_iff, targets_getElem?, toNat_mem_targets_iff]
  refine ⟨fun hlive ↦ ?_, fun hlive ↦ ?_⟩
  · rcases hlive with ⟨⟨entry, hget, hkind⟩, hkept⟩
    exact ⟨⟨index, entry⟩, rfl, hget, hkind, hkept⟩
  · rcases hlive with ⟨val, hindex, hval⟩
    subst hindex
    exact ⟨⟨val.entry, hval.entry, hval.fills⟩, hval.kept⟩

theorem LiveIn.eq_of_index {entries : List AccountEntry} {val other : IndexedAccountEntry}
    (h : LiveIn entries val) (h' : LiveIn entries other) (hindex : val.index = other.index) :
    val = other := by
  have hget := h.entry
  rw [hindex, h'.entry] at hget
  exact IndexedAccountEntry.ext (congrArg UInt32.toNat hindex) (Option.some.inj hget).symm

/-- What a log of at most `2 ^ 32` entries lists is what is live in it, each entry once. -/
theorem AccountLog.liveIndexed_spec (L : AccountLog E) (hlen : L.entries.length ≤ 2 ^ 32) :
    ∃ vals, L.liveIndexed = .ok vals ∧ vals.Nodup ∧ ∀ val, val ∈ vals ↔ LiveIn L.entries val := by
  rcases L.replays with ⟨live, hlive⟩
  rcases validLiveEntries_spec hlen hlive with ⟨vals, hvals, hspec⟩
  refine ⟨vals, by rw [AccountLog.liveIndexed, hvals, Result.expect_ok], ?_, fun val ↦ ?_⟩
  · exact List.Nodup.of_map _ (hspec.increasing.imp Nat.ne_of_lt)
  · have hindex := @mem_live_iff L.entries live val.index hlive
    rw [← hspec.mem_iff] at hindex
    refine ⟨fun hval ↦ ?_, fun hval ↦ ?_⟩
    · rcases hindex.mp (List.mem_map_of_mem hval) with ⟨other, heq, hother⟩
      have hentry : other.entry = val.entry := by
        have hget := hother.entry
        rw [heq, hspec.original val hval] at hget
        exact (Option.some.inj hget).symm
      exact ⟨hspec.original val hval, hentry ▸ hother.fills, heq ▸ hother.kept⟩
    · rcases List.mem_map.mp (hindex.mpr ⟨val, rfl, hval⟩) with ⟨other, hother, heq⟩
      have hget := hspec.original other hother
      rw [heq, hval.entry] at hget
      rw [IndexedAccountEntry.ext heq.symm (Option.some.inj hget)]
      exact hother

/-- The code lists `val` among the live entries of the log. -/
def AccountLog.Lists (L : AccountLog E) (val : IndexedAccountEntry) : Prop :=
  ∃ vals, L.liveIndexed = .ok vals ∧ val ∈ vals

theorem AccountLog.lists_iff (hlen : L.entries.length ≤ 2 ^ 32) :
    L.Lists val ↔ LiveIn L.entries val := by
  rcases L.liveIndexed_spec hlen with ⟨vals, hvals, -, hmem⟩
  rw [AccountLog.Lists, hvals]
  simp [hmem]

/-- The code's mask marks position `p` as removed. -/
def AccountLog.Tombstoned (L : AccountLog E) (p : Nat) : Prop :=
  ∃ removed, filterMaskRemoved L.entries = .ok removed ∧ removed[p]? = some true

theorem AccountLog.tombstoned_iff {p : Nat} :
    L.Tombstoned p ↔ ∃ index : UInt32, .remove index ∈ L.entries ∧ index.toNat = p := by
  rcases L.removes with ⟨removed, hremoved⟩
  rw [← filterMaskRemoved_marks hremoved, AccountLog.Tombstoned, hremoved]
  simp

end Log

/-! ## A log that grows -/

section Growth

variable {E : Ed25519} {L : AccountLog E} {val : IndexedAccountEntry}

/-- At a position of the front, the back of a log can only remove. -/
theorem liveIn_append_iff {entries rest : List AccountEntry}
    (hlt : val.index.toNat < entries.length) :
    LiveIn (entries ++ rest) val ↔ LiveIn entries val ∧ .remove val.index ∉ rest := by
  have hget : (entries ++ rest)[val.index.toNat]? = entries[val.index.toNat]? :=
    List.getElem?_append_left hlt
  refine ⟨fun h ↦ ?_, fun h ↦ ?_⟩
  · have hkept := h.kept
    rw [List.mem_append, not_or] at hkept
    exact ⟨⟨hget ▸ h.entry, h.fills, hkept.1⟩, hkept.2⟩
  · refine ⟨hget ▸ h.1.entry, h.1.fills, ?_⟩
    rw [List.mem_append, not_or]
    exact ⟨h.1.kept, h.2⟩

theorem LiveIn.index_lt {entries : List AccountEntry} (h : LiveIn entries val) :
    val.index.toNat < entries.length :=
  (List.getElem?_eq_some_iff.mp h.entry).1

-- a position past the front is the last one
theorem entry_of_concat {entries : List AccountEntry} {entry : AccountEntry}
    (hlt : ¬ val.index.toNat < entries.length)
    (h : (entries ++ [entry])[val.index.toNat]? = some val.entry) :
    val.index.toNat = entries.length ∧ val.entry = entry := by
  have hbound := (List.getElem?_eq_some_iff.mp h).1
  rw [List.length_append, List.length_singleton] at hbound
  have hp : val.index.toNat = entries.length := by omega
  rw [hp, List.getElem?_concat_length] at h
  exact ⟨hp, (Option.some.inj h).symm⟩

theorem liveIn_concat_remove_iff {entries : List AccountEntry} {index : UInt32} :
    LiveIn (entries ++ [.remove index]) val ↔ LiveIn entries val ∧ val.index ≠ index := by
  by_cases hlt : val.index.toNat < entries.length
  · rw [liveIn_append_iff hlt, List.mem_singleton, AccountEntry.remove.injEq]
  · refine ⟨fun h ↦ ?_, fun h ↦ absurd h.1.index_lt hlt⟩
    -- the new position holds the remove itself
    have hkind := h.fills
    rw [(entry_of_concat hlt h.entry).2] at hkind
    cases hkind

theorem liveIn_concat_iff {entry : AccountEntry} (hkind : entry.isRemove = false)
    (hlen : L.entries.length < 2 ^ 32) :
    LiveIn (L.entries ++ [entry]) val ↔
      LiveIn L.entries val ∨ val = ⟨UInt32.ofNat L.entries.length, entry⟩ := by
  have hlast : (UInt32.ofNat L.entries.length).toNat = L.entries.length := toNat_ofNat_u32 hlen
  have hnew (index : UInt32) : AccountEntry.remove index ≠ entry := by
    intro heq
    rw [← heq] at hkind
    cases hkind
  by_cases hlt : val.index.toNat < L.entries.length
  · have hne : val ≠ ⟨UInt32.ofNat L.entries.length, entry⟩ := by
      intro heq
      rw [heq, hlast] at hlt
      omega
    rw [liveIn_append_iff hlt, List.mem_singleton]
    simp [hnew, hne]
  · refine ⟨fun h ↦ .inr ?_, fun h ↦ ?_⟩
    · rcases entry_of_concat hlt h.entry with ⟨hp, hentry⟩
      exact IndexedAccountEntry.ext (hp.trans hlast.symm) hentry
    · rcases h with hold | heq
      · exact absurd hold.index_lt hlt
      · subst heq
        refine ⟨?_, hkind, fun hmem ↦ ?_⟩
        · rw [hlast, List.getElem?_concat_length]
        · rcases List.mem_append.mp hmem with hold | hsame
          · -- nothing in the log can have pointed at its end
            have hback := AccountLog.remove_lt hold
            rw [hlast] at hback
            omega
          · exact absurd (List.mem_singleton.mp hsame) (hnew _)

/-- One more entry keeps a log valid when it removes nothing but a live entry and endorses nothing
but a usable key. -/
theorem exists_fromEntries_concat_iff {entry : AccountEntry} :
    (∃ L', AccountLog.fromEntries E (L.entries ++ [entry]) = .ok L') ↔
      (∀ index, entry = .remove index →
        ∃ val : IndexedAccountEntry, val.index = index ∧ LiveIn L.entries val) ∧
      ∀ context key, entry = .add context (.ed25519Key key) →
        ∃ k, E.fromCanonicalBytes key = .ok k := by
  rcases L.replays with ⟨live, hlive⟩
  rw [exists_fromEntries_iff, List.map_append, List.map_singleton, replay_concat, hlive,
    Option.bind_some, List.length_map, ensureValidTypes_eq_ok_iff]
  have htypes := ensureValidTypes_eq_ok_iff.mp L.types
  refine and_congr ?_ ⟨fun h context key heq ↦ ?_, fun h context key hmem ↦ ?_⟩
  · cases entry with
    | add context data => simp [AccountEntry.target, replayStep]
    | unknown opcode body => simp [AccountEntry.target, replayStep]
    | remove index =>
        simp only [AccountEntry.target, replayStep, AccountEntry.remove.injEq, forall_eq']
        rw [← mem_live_iff hlive]
        by_cases hmem : index.toNat ∈ live <;> simp [hmem]
  · subst heq
    exact h context key (by simp)
  · rcases List.mem_append.mp hmem with hold | hnew
    · exact htypes context key hold
    · exact h context key (List.mem_singleton.mp hnew).symm

/-- A front of a valid log is a valid log. -/
theorem exists_fromEntries_of_front {entries more : List AccountEntry} (hfront : entries <+: more)
    (h : ∃ L, AccountLog.fromEntries E more = .ok L) :
    ∃ L, AccountLog.fromEntries E entries = .ok L := by
  rw [exists_fromEntries_iff] at h ⊢
  refine ⟨replay_isSome_of_front (hfront.map _) h.1, ?_⟩
  rw [ensureValidTypes_eq_ok_iff] at h ⊢
  exact fun context key hmem ↦ h.2 context key (hfront.subset hmem)

end Growth

end LogosChat.Accounts
