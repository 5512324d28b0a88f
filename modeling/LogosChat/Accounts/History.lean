import LogosChat.Accounts.Live
import LogosChat.Accounts.Record

/-!
# What a record keeps

An update looks at bytes only.  Through the encoding a payload that extends another one holds a log
that extends the other's, and a log that extends another one can take nothing back: an entry stays
where it is, and what a remove has tombstoned stays so.
-/

namespace LogosChat.Accounts

open Reasoning Crypto

/-- What a later log keeps of an earlier one. -/
structure AccountLog.KeepsHistory {E : Ed25519} (L L' : AccountLog E) : Prop where
  entries : ∀ (p : Nat) entry, L.entries[p]? = some entry → L'.entries[p]? = some entry
  tombstones : ∀ p, L.Tombstoned p → L'.Tombstoned p
  live : ∀ val, L.Lists val → L'.Lists val ∨ .remove val.index ∈ L'.entries.drop L.entries.length
  not_resurrected : ∀ val, L'.Lists val → val.index.toNat < L.entries.length → L.Lists val

theorem AccountLog.KeepsHistory.of_front {E : Ed25519} {L L' : AccountLog E}
    (hfront : L.entries <+: L'.entries) (hlen : L'.entries.length ≤ 2 ^ 32) :
    L.KeepsHistory L' := by
  have hlen' : L.entries.length ≤ 2 ^ 32 := hfront.length_le.trans hlen
  rcases hfront with ⟨rest, hrest⟩
  refine ⟨fun p entry hentry ↦ ?_, fun p hp ↦ ?_, fun val hval ↦ ?_, fun val hval hlt ↦ ?_⟩
  · rw [← hrest, List.getElem?_append_left (List.getElem?_eq_some_iff.mp hentry).1, hentry]
  · rcases tombstoned_iff.mp hp with ⟨index, hmem, hindex⟩
    refine tombstoned_iff.mpr ⟨index, ?_, hindex⟩
    rw [← hrest]
    exact List.mem_append_left rest hmem
  · rw [lists_iff hlen'] at hval
    rw [lists_iff hlen, ← hrest, List.drop_left, liveIn_append_iff hval.index_lt]
    by_cases hremoved : .remove val.index ∈ rest
    · exact .inr hremoved
    · exact .inl ⟨hval, hremoved⟩
  · rw [lists_iff hlen, ← hrest, liveIn_append_iff hlt] at hval
    exact (lists_iff hlen').mpr hval.1

namespace AccountRecord

variable {E : Ed25519}

/-- Updates only ever extend the payload. -/
theorem updateAll_extends {candidates : List SignedAccountLog} {r r' : AccountRecord E}
    (h : r.updateAll candidates = .ok r') :
    r.signedLog.payload.bytes <+: r'.signedLog.payload.bytes := by
  induction candidates generalizing r with
  | nil =>
      cases h
      exact List.prefix_rfl
  | cons candidate rest ih =>
      rcases Result.bind_eq_ok.mp h with ⟨u, hu, hrest⟩
      have hlater := ih hrest
      rcases record_of_update hu with ⟨hkept, -⟩ | ⟨L, -, hext, hrecord⟩
      · rwa [hkept] at hlater
      · rw [hrecord] at hlater
        exact hext.1.trans hlater

/-- Whatever a record is offered, its later logs keep the entries of the earlier ones where they
are, keep their tombstones, and drop a live entry only by a remove appended since.  A front of a
valid entry list is itself valid. -/
theorem updates_keep_history (E : Ed25519) (r : AccountRecord E) (hr : r.Built)
    (candidates : List SignedAccountLog) :
    (∃ r', r.updateAll candidates = .ok r' ∧ r.parsedLog.KeepsHistory r'.parsedLog) ∧
      ∀ entries, (∃ L, AccountLog.fromEntries E entries = .ok L) →
        ∀ front, front <+: entries → ∃ L, AccountLog.fromEntries E front = .ok L := by
  refine ⟨?_, fun entries hvalid front hfront ↦ exists_fromEntries_of_front hfront hvalid⟩
  rcases updateAll_holds candidates hr.holds with ⟨r', hr', hholds⟩
  refine ⟨r', hr', .of_front ?_ (length_lt_of_decode hholds.decodes).le⟩
  exact (payload_prefix_iff hr.holds.decodes hholds.decodes).mp (updateAll_extends hr')

-- the empty log, extended by an entry of an unknown opcode
theorem updates_keep_history_sampleRecord :
    ∃ r', sampleRecord.updateAll [sampleSigned unknownEntryPayload] = .ok r' ∧
      sampleRecord.parsedLog.KeepsHistory r'.parsedLog :=
  (updates_keep_history Ed25519.sample sampleRecord ⟨_, _, [], new_sampleRecord, rfl⟩
    [sampleSigned unknownEntryPayload]).1

end AccountRecord

end LogosChat.Accounts
