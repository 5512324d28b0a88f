import LogosChat.Accounts.Keys
import LogosChat.Accounts.Record

/-!
# The profile of an account

The name an account presents itself under is the last text standing under one context, and the texts
before it are its previous aliases.  What stands under a context is a replay of the log: an entry is
put down at its position, and a remove strikes the one at the position it names.
-/

namespace LogosChat.Accounts

open Reasoning Crypto

/-- The value of a text record. -/
def AccountEntry.text? : AccountEntry → Option String
  | .add _ (.text value) => some value
  | _ => none

/-- The text records live under `context`, in add order. -/
def AccountLog.textFor {E : Ed25519} (L : AccountLog E) (context : Context) :
    Result Infallible (List String) := do
  let vals ← L.entriesFor context
  .ok (vals.filterMap (·.entry.text?))

def profileDisplayname : Context := .literal "profile.displayname" Context.displayName_isOk

namespace AccountRecord

variable {E : Ed25519}

/-- The name the account currently presents itself under. -/
def displayName (r : AccountRecord E) : Result Infallible (Option String) := do
  let texts ← r.parsedLog.textFor profileDisplayname
  .ok texts.getLast?

/-- What it called itself before, oldest first. -/
def previousAliases (r : AccountRecord E) : Result Infallible (List String) := do
  let aliases ← r.parsedLog.textFor profileDisplayname
  .ok aliases.dropLast

end AccountRecord

/-- The entry that `set_display_name` pushes. -/
def setDisplayName (name : String) : AccountEntry := .add profileDisplayname (.text name)

/-! ## What stands -/

section Standing

variable {α : Type}

/-- One entry of a replay, at its position. -/
def standStep (read : AccountEntry → Option α) (kept : List (Nat × α)) (p : AccountEntry × Nat) :
    List (Nat × α) :=
  match p.1 with
  | .remove index => kept.filter fun q ↦ q.1 ≠ index.toNat
  | entry => kept ++ ((read entry).map fun a ↦ (p.2, a)).toList

theorem standStep_remove (read : AccountEntry → Option α) (kept : List (Nat × α)) (index : UInt32)
    (i : Nat) : standStep read kept (.remove index, i) = kept.filter fun q ↦ q.1 ≠ index.toNat := rfl

theorem standStep_put (read : AccountEntry → Option α) (kept : List (Nat × α)) {entry : AccountEntry}
    (hkind : entry.isRemove = false) (i : Nat) :
    standStep read kept (entry, i) = kept ++ ((read entry).map fun a ↦ (i, a)).toList := by
  cases entry with
  | remove index => cases hkind
  | _ => rfl

/-- What the replay of a log leaves of what `read` takes from the entries, oldest first. -/
def standing (read : AccountEntry → Option α) (entries : List AccountEntry) : List (Nat × α) :=
  entries.zipIdx.foldl (standStep read) []

theorem standing_concat (read : AccountEntry → Option α) (entries : List AccountEntry)
    (entry : AccountEntry) :
    standing read (entries ++ [entry]) =
      standStep read (standing read entries) (entry, entries.length) := by
  rw [standing, List.zipIdx_append, List.foldl_append, Nat.zero_add]
  rfl

/-- The entry puts down nothing of what `read` takes, and strikes nothing of what stands. -/
def Spares (read : AccountEntry → Option α) (kept : List (Nat × α)) (entry : AccountEntry) : Prop :=
  read entry = none ∧ ∀ index, entry = .remove index → ∀ q ∈ kept, q.1 ≠ index.toNat

theorem standStep_of_spares {read : AccountEntry → Option α} {kept : List (Nat × α)}
    {entry : AccountEntry} (h : Spares read kept entry) (i : Nat) :
    standStep read kept (entry, i) = kept := by
  obtain ⟨hread, hstrikes⟩ := h
  cases entry with
  | remove index =>
      rw [standStep_remove, List.filter_eq_self]
      intro q hq
      exact decide_eq_true (hstrikes index rfl q hq)
  | _ => rw [standStep_put read kept rfl, hread, Option.map_none, Option.toList_none, List.append_nil]

theorem standing_append_of_spares {read : AccountEntry → Option α} {entries later : List AccountEntry}
    (h : ∀ entry ∈ later, Spares read (standing read entries) entry) :
    standing read (entries ++ later) = standing read entries := by
  induction later using List.reverseRecOn with
  | nil => rw [List.append_nil]
  | append_singleton later entry ih =>
      have hfront : standing read (entries ++ later) = standing read entries :=
        ih fun other hother ↦ h other (List.mem_append_left _ hother)
      rw [← List.append_assoc, standing_concat, hfront]
      exact standStep_of_spares (h entry (List.mem_append_right _ (List.mem_singleton_self entry))) _

/-- What the code reads of an entry with its position: nothing when a remove of the log names it. -/
def readLive (read : AccountEntry → Option α) (entries : List AccountEntry)
    (val : IndexedAccountEntry) : Option (Nat × α) :=
  if .remove val.index ∈ entries then none else (read val.entry).map fun a ↦ (val.index.toNat, a)

theorem readLive_concat_remove (read : AccountEntry → Option α) (entries : List AccountEntry)
    (index : UInt32) (val : IndexedAccountEntry) :
    readLive read (entries ++ [.remove index]) val =
      (readLive read entries val).filter fun q ↦ q.1 ≠ index.toNat := by
  simp only [readLive, List.mem_append, List.mem_singleton, AccountEntry.remove.injEq]
  by_cases hgone : AccountEntry.remove val.index ∈ entries
  · simp [hgone]
  · by_cases hindex : val.index = index
    · subst hindex
      cases read val.entry <;> simp [hgone, Option.filter]
    · have hne : val.index.toNat ≠ index.toNat := fun h ↦ hindex (UInt32.toNat_inj.mp h)
      cases read val.entry <;> simp [hgone, hindex, hne, Option.filter]

theorem readLive_concat (read : AccountEntry → Option α) (entries : List AccountEntry)
    {entry : AccountEntry} (hkind : entry.isRemove = false) (val : IndexedAccountEntry) :
    readLive read (entries ++ [entry]) val = readLive read entries val := by
  have hnew (index : UInt32) : AccountEntry.remove index ≠ entry := by
    intro heq
    rw [← heq] at hkind
    cases hkind
  simp [readLive, hnew]

-- the last entry stands at a position that nothing before it can name
theorem readLive_last {E : Ed25519} (read : AccountEntry → Option α) (L : AccountLog E)
    (entry : AccountEntry) (hlen : L.entries.length < 2 ^ 32) :
    readLive read L.entries ⟨UInt32.ofNat L.entries.length, entry⟩ =
      (read entry).map fun a ↦ (L.entries.length, a) := by
  have hlast : (UInt32.ofNat L.entries.length).toNat = L.entries.length := toNat_ofNat_u32 hlen
  have hfree : AccountEntry.remove (UInt32.ofNat L.entries.length) ∉ L.entries := by
    intro hmem
    have hlt := AccountLog.remove_lt hmem
    omega
  rw [readLive, if_neg hfree, hlast]

theorem enumerate_concat (entries : List AccountEntry) (entry : AccountEntry) :
    enumerate (entries ++ [entry]) = enumerate entries ++ [⟨UInt32.ofNat entries.length, entry⟩] := by
  simp [enumerate, List.zipIdx_append]

theorem filterMap_single {β : Type} (f : α → Option β) (a : α) : [a].filterMap f = (f a).toList := by
  cases h : f a <;> simp [h]

/-- The replay and the mask agree on every valid log. -/
theorem standing_eq {E : Ed25519} {read : AccountEntry → Option α}
    (hremove : ∀ index, read (.remove index) = none) (entries : List AccountEntry)
    (hvalid : ∃ L, AccountLog.fromEntries E entries = .ok L) (hlen : entries.length ≤ 2 ^ 32) :
    standing read entries = (enumerate entries).filterMap (readLive read entries) := by
  induction entries using List.reverseRecOn with
  | nil => rfl
  | append_singleton entries entry ih =>
      rw [List.length_append, List.length_singleton] at hlen
      have hfront := exists_fromEntries_of_front (List.prefix_append entries [entry]) hvalid
      rw [standing_concat, ih hfront (by omega), enumerate_concat, List.filterMap_append,
        filterMap_single]
      obtain ⟨L, hL⟩ := hfront
      rw [AccountLog.fromEntries_eq_ok_iff] at hL
      subst hL
      cases hkind : entry.isRemove with
      | false =>
          rw [standStep_put _ _ hkind, readLive_concat _ _ hkind, readLive_last read L entry (by omega),
            List.filterMap_congr fun val _ ↦ readLive_concat read _ hkind val]
      | true =>
          cases entry with
          | add context data => cases hkind
          | unknown opcode body => cases hkind
          | remove index =>
              have hnone : readLive read (L.entries ++ [.remove index])
                  ⟨UInt32.ofNat L.entries.length, .remove index⟩ = none := by
                simp [readLive, hremove]
              rw [hnone, Option.toList_none, List.append_nil, standStep_remove, List.filter_filterMap,
                List.filterMap_congr fun val _ ↦ readLive_concat_remove read _ index val]

end Standing

/-! ## The code reads what stands -/

variable {E : Ed25519}

/-- The text of an entry under `context`. -/
def AccountEntry.textUnder (context : Context) (entry : AccountEntry) : Option String :=
  if entry.isFor context then entry.text? else none

/-- The texts read under a context are those that stand there. -/
theorem textFor_eq (L : AccountLog E) (context : Context) (hlen : L.entries.length ≤ 2 ^ 32) :
    L.textFor context =
      .ok ((standing (AccountEntry.textUnder context) L.entries).map Prod.snd) := by
  obtain ⟨removed, hremoved⟩ := L.removes
  have hvals : L.liveIndexed = .ok ((enumerate L.entries).filter fun val ↦
      removed[val.index.toNat]? == some false && !val.entry.isRemove) := by
    rw [AccountLog.liveIndexed, validLiveEntries_eq hremoved, Result.expect_ok]
  rw [AccountLog.textFor, AccountLog.entriesFor, hvals, Result.ok_bind, Result.ok_bind,
    standing_eq (fun _ ↦ rfl) L.entries ⟨L, AccountLog.fromEntries_eq_ok_iff.mpr rfl⟩ hlen,
    List.map_filterMap, List.filter_filter, List.filterMap_filter]
  congr 1
  apply List.filterMap_congr
  intro val hval
  rw [AccountLog.mask_index hremoved hval, readLive, AccountEntry.textUnder]
  cases hentry : val.entry with
  | add c data => by_cases hgone : AccountEntry.remove val.index ∈ L.entries <;>
      by_cases hc : c = context <;> cases data <;>
        simp [hgone, hc, AccountEntry.isFor, AccountEntry.isRemove, AccountEntry.text?]
  | _ => simp [AccountEntry.isFor]

namespace AccountRecord

variable {r : AccountRecord E} {addr : AccountAddr E}

theorem displayName_eq (h : r.Holds addr) :
    r.displayName = .ok ((standing (AccountEntry.textUnder profileDisplayname)
      r.parsedLog.entries).getLast?.map Prod.snd) := by
  rw [displayName, textFor_eq _ _ (length_lt_of_decode h.decodes).le, Result.ok_bind,
    List.getLast?_map]

theorem previousAliases_eq (h : r.Holds addr) :
    r.previousAliases = .ok ((standing (AccountEntry.textUnder profileDisplayname)
      r.parsedLog.entries).dropLast.map Prod.snd) := by
  rw [previousAliases, textFor_eq _ _ (length_lt_of_decode h.decodes).le, Result.ok_bind,
    List.map_dropLast]

end AccountRecord

end LogosChat.Accounts
