import LogosChat.Accounts.Context

/-!
# The account log

An append-only list of entries.  An entry's index is its position; a `Remove` tombstones a strictly
earlier, still-live entry that is not itself a `Remove`, and anything else rejects the whole log.
-/

namespace LogosChat.Accounts

open Reasoning Crypto

/-- Data an account can endorse.  `unknown` is an endorsement of a kind this version cannot read. -/
inductive EntryData where
  | ed25519Key (key : KeyBytes)
  | text (value : String)
  | unknown (tag : UInt8) (body : Bytes)
deriving DecidableEq

/-- One operation in the log.  `unknown` is an entry whose opcode this version does not define: an
opaque live slot, counted, indexed and removable. -/
inductive AccountEntry where
  | add (context : Context) (data : EntryData)
  | remove (index : UInt32)
  | unknown (opcode : UInt8) (body : Bytes)
deriving DecidableEq

/-- `matches!(entry, AccountEntry::Remove { .. })`. -/
def AccountEntry.isRemove : AccountEntry → Bool
  | .remove _ => true
  | _ => false

/-- An entry paired with its position in the log. -/
structure IndexedAccountEntry where
  index : UInt32
  entry : AccountEntry
deriving DecidableEq

/-! ## Tombstones -/

/-- The three fault tests, in order: the first is what keeps the two lookups in bounds. -/
def removeFault (entries : List AccountEntry) (removed : List Bool) (position target : Nat) :
    Result AccountLogError (Option String) :=
  if position ≤ target then .ok (some "is not strictly earlier") else do
    let gone ← Result.index removed target
    if gone then .ok (some "is already removed") else
    let entry ← Result.index entries target
    if entry.isRemove then .ok (some "is itself a remove") else .ok none

/-- The pass of `filter_mask_removed` over the entries from `position` on. -/
def maskLoop (entries : List AccountEntry) :
    List AccountEntry → Nat → List Bool → Result AccountLogError (List Bool)
  | [], _, removed => .ok removed
  | .remove index :: rest, position, removed => do
      match ← removeFault entries removed position index.toNat with
      | some fault =>
          .err (.malformed ("remove at position " ++ toString position ++ " targets entry " ++
            toString index ++ ", which " ++ fault))
      | none =>
          let removed ← Result.setIndex removed index.toNat true
          maskLoop entries rest (position + 1) removed
  | _ :: rest, position, removed => maskLoop entries rest (position + 1) removed

/-- Which entries have been tombstoned. -/
def filterMaskRemoved (entries : List AccountEntry) : Result AccountLogError (List Bool) :=
  maskLoop entries entries 0 (List.replicate entries.length false)

/-- Every entry with its position, as a `u32`. -/
def enumerate (entries : List AccountEntry) : List IndexedAccountEntry :=
  entries.zipIdx.map fun (entry, index) => { index := UInt32.ofNat index, entry := entry }

/-- The filter of `valid_live_entries`, whose predicate indexes the mask. -/
def keepLive (removed : List Bool) :
    List IndexedAccountEntry → Result AccountLogError (List IndexedAccountEntry)
  | [] => .ok []
  | val :: rest => do
      let gone ← Result.index removed val.index.toNat
      let kept ← keepLive removed rest
      .ok (if !gone && !val.entry.isRemove then val :: kept else kept)

def validLiveEntries (entries : List AccountEntry) :
    Result AccountLogError (List IndexedAccountEntry) := do
  let removed ← filterMaskRemoved entries
  keepLive removed (enumerate entries)

/-- Ensure typed variants are valid, across the whole log. -/
def ensureValidTypes (E : Ed25519) : List AccountEntry → Result AccountLogError Unit
  | [] => .ok ()
  | .add _ (.ed25519Key key) :: rest => do
      let _ ← (E.fromCanonicalBytes key).mapErr AccountLogError.ofEd25519
      ensureValidTypes E rest
  | _ :: rest => ensureValidTypes E rest

/-! ## Validated logs -/

/-- The log as a validated entry list. -/
structure AccountLog (E : Ed25519) where
  entries : List AccountEntry
  removes : ∃ removed, filterMaskRemoved entries = .ok removed
  types : ensureValidTypes E entries = .ok ()

namespace AccountLog

variable {E : Ed25519}

@[ext] theorem ext {L M : AccountLog E} (h : L.entries = M.entries) : L = M := by
  cases L
  cases M
  subst h
  rfl

instance : DecidableEq (AccountLog E) := fun L M =>
  decidable_of_iff (L.entries = M.entries) ⟨AccountLog.ext, fun h => h ▸ rfl⟩

/-- `AccountLog::from_entries`. -/
def fromEntries (E : Ed25519) (entries : List AccountEntry) : Result AccountLogError (AccountLog E) :=
  match hmask : filterMaskRemoved entries with
  | .err e => .err e
  | .panic => .panic
  | .ok removed =>
      match htypes : ensureValidTypes E entries with
      | .err e => .err e
      | .panic => .panic
      | .ok () => .ok ⟨entries, ⟨removed, hmask⟩, htypes⟩

/-- A log with no entries. -/
def empty : AccountLog E := ⟨[], ⟨[], rfl⟩, rfl⟩

/-- The entries no `Remove` has tombstoned, with their original positions. -/
def liveIndexed (L : AccountLog E) : Result Infallible (List IndexedAccountEntry) :=
  (validLiveEntries L.entries).expect

theorem fromEntries_eq_ok_iff {entries : List AccountEntry} {L : AccountLog E} :
    fromEntries E entries = .ok L ↔ L.entries = entries := by
  unfold fromEntries
  rcases L.removes with ⟨removed, hremoved⟩
  split
  · rename_i e hmask
    refine ⟨nofun, fun h => ?_⟩
    rw [h, hmask] at hremoved
    cases hremoved
  · rename_i hmask
    refine ⟨nofun, fun h => ?_⟩
    rw [h, hmask] at hremoved
    cases hremoved
  · have htypes := L.types
    split
    · rename_i e he
      refine ⟨nofun, fun h => ?_⟩
      rw [h, he] at htypes
      cases htypes
    · rename_i he
      refine ⟨nofun, fun h => ?_⟩
      rw [h, he] at htypes
      cases htypes
    · rw [Result.ok.injEq]
      exact ⟨fun h => h ▸ rfl, fun h => AccountLog.ext h.symm⟩

end AccountLog

/-! ## Freshness -/

/-- How a log compares to another. -/
inductive LogFreshness where
  | newer
  | identical
  | behind
  | diverged
deriving DecidableEq, Repr

/-- Compare two encoded logs: a longer log is a newer log only when it extends the held one. -/
def compareLogFreshness (existing candidate : Bytes) : LogFreshness :=
  if candidate = existing then .identical
  else if existing <+: candidate ∧ candidate.length > existing.length then .newer
  else if candidate <+: existing then .behind
  else .diverged

end LogosChat.Accounts
