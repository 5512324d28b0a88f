import LogosChat.Storage.Substrate

/-!
# The store in memory

A map of ordered maps behind a flag.  A transaction is worked on a copy, which the store takes back
only on commit.
-/

namespace LogosChat.Storage

open Reasoning

/-- Every scope's keys, each scope kept apart from the rest. -/
abbrev Kv := Std.HashMap Scope (Std.TreeMap Bytes Bytes)

namespace Kv

def get (kv : Kv) (scope : Scope) (key : Bytes) : Option Bytes :=
  kv[scope]?.bind fun entries ↦ entries[key]?

def put (kv : Kv) (scope : Scope) (key value : Bytes) : Kv :=
  kv.insert scope ((kv.getD scope ∅).insert key value)

def delete (kv : Kv) (scope : Scope) (key : Bytes) : Kv :=
  kv.modify scope fun entries ↦ entries.erase key

def scanPrefix (kv : Kv) (scope : Scope) (front : Bytes) : List KvPair :=
  (kv[scope]?.toList.flatMap fun entries ↦ entries.toList).filter fun pair ↦ front.isPrefixOf pair.1

def deletePrefix (kv : Kv) (scope : Scope) (front : Bytes) : Kv :=
  kv.modify scope fun entries ↦ entries.filter fun key _ ↦ !front.isPrefixOf key

def deleteScope (kv : Kv) (scope : Scope) : Kv := kv.erase scope

def deleteNamespace (kv : Kv) (ns : Namespace) : Kv := kv.filter fun scope _ ↦ scope.ns ≠ ns

end Kv

/-- The part of the store that transactions reach. -/
structure MemStore where
  kv : Kv
  txOpen : Bool

namespace MemStore

def new : MemStore := ⟨∅, false⟩

/-- `begin`: the staged copy is the transaction. -/
def begin (store : MemStore) : Except StorageError Kv × MemStore :=
  let store' := { store with txOpen := true }
  if store.txOpen then (.error (.database "a transaction is already open"), store')
  else (.ok store.kv, store')

def perform (s : MemStore × Kv) : Verb → Answer × (MemStore × Kv)
  | .get scope key => (.value (s.2.get scope key), s)
  | .put scope key value => (.done, (s.1, s.2.put scope key value))
  | .delete scope key => (.done, (s.1, s.2.delete scope key))
  | .scanPrefix scope front => (.pairs (s.2.scanPrefix scope front), s)
  | .deletePrefix scope front => (.done, (s.1, s.2.deletePrefix scope front))
  | .deleteScope scope => (.done, (s.1, s.2.deleteScope scope))
  | .deleteNamespace ns => (.done, (s.1, s.2.deleteNamespace ns))

def drop (s : MemStore × Kv) : MemStore := { s.1 with txOpen := false }

/-- `commit`, and the drop of the transaction it consumes. -/
def commit (s : MemStore × Kv) : Except StorageError Unit × MemStore :=
  (.ok (), drop ({ s.1 with kv := s.2 }, s.2))

def kvStore : KvStore where
  Store := MemStore
  Tx := Kv
  begin := begin
  perform := perform
  commit := commit
  drop := drop

end MemStore

/-! ## The map it stands for -/

namespace Kv

/-- The pairs of a map of maps, as one map. -/
def view (kv : Kv) : KvMap := kv.get

theorem view_eq_of_getElem? {kv : Kv} {scope : Scope} {entries : Std.TreeMap Bytes Bytes}
    (h : kv[scope]? = some entries) (key : Bytes) : kv.view scope key = entries[key]? := by
  rw [view, get, h, Option.bind_some]

theorem view_eq_none {kv : Kv} {scope : Scope} (h : kv[scope]? = none) (key : Bytes) :
    kv.view scope key = none := by
  rw [view, get, h, Option.bind_none]

theorem view_put (kv : Kv) (scope : Scope) (key value : Bytes) :
    (kv.put scope key value).view = kv.view.put scope key value := by
  funext s k
  unfold KvMap.put
  by_cases hs : s = scope
  · subst hs
    have hput : (kv.put s key value)[s]? = some ((kv.getD s ∅).insert key value) := by
      rw [put, Std.HashMap.getElem?_insert_self]
    rw [view_eq_of_getElem? hput, Std.TreeMap.getElem?_insert, Std.HashMap.getD_eq_getD_getElem?]
    by_cases hk : k = key
    · simp [hk]
    · have hcmp : compare key k ≠ .eq := fun h ↦ hk (Std.LawfulEqOrd.eq_of_compare h).symm
      rw [if_neg hcmp, if_neg (by simp [hk])]
      cases hget : kv[s]? with
      | none => rw [view_eq_none hget, Option.getD_none, Std.TreeMap.getElem?_emptyc]
      | some entries => rw [view_eq_of_getElem? hget, Option.getD_some]
  · have hput : (kv.put scope key value)[s]? = kv[s]? := by
      rw [put, Std.HashMap.getElem?_insert, if_neg (by simpa using Ne.symm hs)]
    rw [if_neg (by simp [hs]), view, get, hput]
    rfl

-- a verb that works on the entries of one scope
theorem view_modify (kv : Kv) (scope : Scope)
    (f : Std.TreeMap Bytes Bytes → Std.TreeMap Bytes Bytes) (gone : Bytes → Prop)
    [DecidablePred gone]
    (hf : ∀ entries key, (f entries)[key]? = if gone key then none else entries[key]?) :
    view (kv.modify scope f) = kv.view.without fun s k ↦ s = scope ∧ gone k := by
  funext s k
  unfold KvMap.without
  have hget : (kv.modify scope f)[s]? = if s = scope then kv[s]?.map f else kv[s]? := by
    rw [Std.HashMap.getElem?_modify]
    by_cases hs : s = scope
    · subst hs
      simp
    · rw [if_neg hs, if_neg (by simpa using Ne.symm hs)]
  by_cases hs : s = scope
  · rw [if_pos hs] at hget
    cases hentries : kv[s]? with
    | none =>
        rw [hentries, Option.map_none] at hget
        rw [view_eq_none hget, view_eq_none hentries, ite_self]
    | some entries =>
        rw [hentries, Option.map_some] at hget
        rw [view_eq_of_getElem? hget, view_eq_of_getElem? hentries, hf]
        simp [hs]
  · rw [if_neg hs] at hget
    rw [if_neg (by simp [hs]), view, get, hget]
    rfl

theorem view_deleteScope (kv : Kv) (scope : Scope) :
    (kv.deleteScope scope).view = kv.view.without fun s _ ↦ s = scope := by
  funext s k
  unfold KvMap.without
  by_cases hs : s = scope
  · rw [if_pos hs]
    exact view_eq_none (by rw [deleteScope, hs, Std.HashMap.getElem?_erase_self]) k
  · rw [if_neg hs, view, get, deleteScope, Std.HashMap.getElem?_erase,
      if_neg (by simpa using Ne.symm hs)]
    rfl

theorem view_deleteNamespace (kv : Kv) (ns : Namespace) :
    (kv.deleteNamespace ns).view = kv.view.without fun s _ ↦ s.ns = ns := by
  funext s k
  unfold KvMap.without
  have hget : (kv.deleteNamespace ns)[s]? = kv[s]?.filter fun _ ↦ s.ns ≠ ns := by
    rw [deleteNamespace, Std.HashMap.getElem?_filter']
  cases hentries : kv[s]? with
  | none =>
      rw [hentries, Option.filter_none] at hget
      rw [view_eq_none hget, view_eq_none hentries, ite_self]
  | some entries =>
      rw [hentries] at hget
      by_cases hs : s.ns = ns
      · rw [if_pos hs]
        exact view_eq_none (by rw [hget]; simp [hs]) k
      · rw [if_neg hs, view_eq_of_getElem? hentries]
        exact view_eq_of_getElem? (by rw [hget]; simp [hs]) k

theorem isScan_scanPrefix (kv : Kv) (scope : Scope) (front : Bytes) :
    kv.view.IsScan scope front (kv.scanPrefix scope front) := by
  cases hentries : kv[scope]? with
  | none =>
      refine ⟨by simp [scanPrefix, hentries], fun key value ↦ ?_⟩
      simp [scanPrefix, hentries, view_eq_none hentries]
  | some entries =>
      have hscan : kv.scanPrefix scope front =
          entries.toList.filter fun pair ↦ front.isPrefixOf pair.1 := by
        simp [scanPrefix, hentries]
      rw [hscan]
      refine ⟨Std.TreeMap.ordered_keys_toList.filter _, fun key value ↦ ?_⟩
      rw [List.mem_filter, Std.TreeMap.mem_toList_iff_getElem?_eq_some, List.isPrefixOf_iff_prefix,
        view_eq_of_getElem? hentries, and_comm]

end Kv

namespace MemStore

/-- Between two transactions. -/
def Closed (store : MemStore) (M : KvMap) : Prop := store.txOpen = false ∧ store.kv.view = M

/-- The store is as it was; the copy is the transaction's. -/
def Opened (s : MemStore × Kv) (M staged : KvMap) : Prop :=
  s.1.txOpen = true ∧ s.1.kv.view = M ∧ s.2.view = staged

theorem perform_spec {s : MemStore × Kv} {M staged : KvMap} (h : Opened s M staged) (v : Verb) :
    staged.Answers v (perform s v).1 ∧ Opened (perform s v).2 M (staged.after v) := by
  rcases h with ⟨hopen, hkv, rfl⟩
  cases v with
  | get scope key => exact ⟨rfl, hopen, hkv, rfl⟩
  | put scope key value => exact ⟨rfl, hopen, hkv, s.2.view_put scope key value⟩
  | scanPrefix scope front => exact ⟨⟨_, rfl, s.2.isScan_scanPrefix scope front⟩, hopen, hkv, rfl⟩
  | deleteScope scope => exact ⟨rfl, hopen, hkv, s.2.view_deleteScope scope⟩
  | deleteNamespace ns => exact ⟨rfl, hopen, hkv, s.2.view_deleteNamespace ns⟩
  | delete scope key =>
      refine ⟨rfl, hopen, hkv, s.2.view_modify scope _ (· = key) fun entries k ↦ ?_⟩
      rw [Std.TreeMap.getElem?_erase]
      by_cases hk : k = key
      · simp [hk]
      · have hcmp : compare key k ≠ .eq := fun h ↦ hk (Std.LawfulEqOrd.eq_of_compare h).symm
        rw [if_neg hcmp, if_neg hk]
  | deletePrefix scope front =>
      refine ⟨rfl, hopen, hkv, s.2.view_modify scope _ (front <+: ·) fun entries k ↦ ?_⟩
      rw [Std.TreeMap.getElem?_filter']
      by_cases hfront : front <+: k
      · have hbool : front.isPrefixOf k = true := List.isPrefixOf_iff_prefix.mpr hfront
        cases entries[k]? <;> simp [hfront, hbool]
      · have hbool : front.isPrefixOf k = false := by
          rw [← Bool.not_eq_true, List.isPrefixOf_iff_prefix]
          exact hfront
        cases entries[k]? <;> simp [hfront, hbool]

theorem refines : Refines kvStore Closed Opened where
  begin := by
    rintro ⟨kv, txOpen⟩ M ⟨hclosed, hkv⟩
    cases hclosed
    exact ⟨kv, _, rfl, rfl, hkv, hkv⟩
  begin_refused := by
    rintro ⟨⟨kv, txOpen⟩, tx⟩ M staged ⟨hopen, hkv, htx⟩
    cases hopen
    exact ⟨_, _, rfl, rfl, hkv, htx⟩
  perform := perform_spec
  commit := fun h ↦ ⟨_, rfl, rfl, h.2.2⟩
  drop := fun h ↦ ⟨rfl, h.2.1⟩

theorem closed_new : Closed new fun _ _ ↦ none := by
  refine ⟨rfl, ?_⟩
  funext scope key
  exact Kv.view_eq_none (Std.HashMap.getElem?_empty) key

end MemStore

end LogosChat.Storage
