import LogosChat.Reasoning.Bytes
import Mathlib.Data.List.Infix
import Mathlib.Data.List.Pairwise

/-!
# The substrate

Byte values addressed by a scope and a key, reached through transactions alone.  What a store owes its
callers is stated over the map it stands for: a transaction works on a copy of it, which replaces it
on commit and is forgotten on drop.  Every call has one right answer, so two stores that keep to this
cannot be told apart.
-/

namespace LogosChat.Storage

open Reasoning

inductive StorageError where
  | database (detail : String)
  | notFound (detail : String)
  | invalidData (detail : String)
deriving DecidableEq

/-- A key and the value stored under it. -/
abbrev KvPair := Bytes × Bytes

/-- The name an owner files its state under. -/
structure Namespace where
  name : String
deriving DecidableEq, Hashable

/-- Where a value lives: the namespace of its owner, and the instance of that owner. -/
structure Scope where
  ns : Namespace
  inst : String
deriving DecidableEq, Hashable

/-- A call on an open transaction. -/
inductive Verb where
  | get (scope : Scope) (key : Bytes)
  | put (scope : Scope) (key value : Bytes)
  | delete (scope : Scope) (key : Bytes)
  | scanPrefix (scope : Scope) (front : Bytes)
  | deletePrefix (scope : Scope) (front : Bytes)
  | deleteScope (scope : Scope)
  | deleteNamespace (ns : Namespace)

/-- What a caller is answered.  Why a store refuses is for people to read, and not compared. -/
inductive Answer where
  | begun
  | refused
  | done
  | value (value : Option Bytes)
  | pairs (pairs : List KvPair)
deriving DecidableEq

/-! ## Stores -/

/-- An implementation of the two traits.  A transaction borrows the store, so a verb may act on
either. -/
structure KvStore where
  Store : Type
  Tx : Type
  begin : Store → Except StorageError Tx × Store
  perform : Store × Tx → Verb → Answer × (Store × Tx)
  commit : Store × Tx → Except StorageError Unit × Store
  drop : Store × Tx → Store

/-- What can be done while a transaction is open. -/
inductive Call where
  | verb (verb : Verb)
  | begin

structure Transaction where
  calls : List Call
  -- or dropped
  committed : Bool

namespace KvStore

variable (K : KvStore)

def answer (s : K.Store × K.Tx) : Call → Answer × (K.Store × K.Tx)
  | .verb v => K.perform s v
  | .begin =>
      match K.begin s.1 with
      | (.error _, store) => (.refused, (store, s.2))
      | (.ok tx, store) => (.begun, (K.drop (store, tx), s.2))

def answerAll : K.Store × K.Tx → List Call → List Answer × (K.Store × K.Tx)
  | s, [] => ([], s)
  | s, call :: calls =>
      let (first, s) := K.answer s call
      let (rest, s) := answerAll s calls
      (first :: rest, s)

def transact (store : K.Store) (t : Transaction) : List Answer × K.Store :=
  match K.begin store with
  | (.error _, store) => ([.refused], store)
  | (.ok tx, store) =>
      let (answers, s) := K.answerAll (store, tx) t.calls
      if t.committed then
        match K.commit s with
        | (.error _, store) => (.begun :: answers ++ [.refused], store)
        | (.ok (), store) => (.begun :: answers ++ [.done], store)
      else (.begun :: answers, K.drop s)

/-- The answers to a sequence of transactions. -/
def serve : K.Store → List Transaction → List (List Answer) × K.Store
  | store, [] => ([], store)
  | store, t :: rest =>
      let (first, store) := K.transact store t
      let (later, store) := serve store rest
      (first :: later, store)

end KvStore

/-! ## The map a store stands for -/

abbrev KvMap := Scope → Bytes → Option Bytes

/-- The scopes a verb names. -/
def Verb.Names : Verb → Scope → Prop
  | .get scope _, other => other = scope
  | .put scope _ _, other => other = scope
  | .delete scope _, other => other = scope
  | .scanPrefix scope _, other => other = scope
  | .deletePrefix scope _, other => other = scope
  | .deleteScope scope, other => other = scope
  | .deleteNamespace ns, other => other.ns = ns

namespace KvMap

/-- The map without the keys that satisfy a condition. -/
def without (M : KvMap) (gone : Scope → Bytes → Prop) [∀ s k, Decidable (gone s k)] : KvMap :=
  fun scope key ↦ if gone scope key then none else M scope key

def put (M : KvMap) (scope : Scope) (key value : Bytes) : KvMap :=
  fun s k ↦ if s = scope ∧ k = key then some value else M s k

/-- The map after a verb. -/
def after (M : KvMap) : Verb → KvMap
  | .get _ _ => M
  | .put scope key value => M.put scope key value
  | .delete scope key => M.without fun s k ↦ s = scope ∧ k = key
  | .scanPrefix _ _ => M
  | .deletePrefix scope front => M.without fun s k ↦ s = scope ∧ front <+: k
  | .deleteScope scope => M.without fun s _ ↦ s = scope
  | .deleteNamespace ns => M.without fun s _ ↦ s.ns = ns

/-- Exactly the pairs of the scope whose key starts with `front`, in byte order. -/
structure IsScan (M : KvMap) (scope : Scope) (front : Bytes) (pairs : List KvPair) : Prop where
  sorted : pairs.Pairwise fun a b ↦ compare a.1 b.1 = .lt
  mem_iff : ∀ key value, (key, value) ∈ pairs ↔ front <+: key ∧ M scope key = some value

/-- The right answer to a verb. -/
def Answers (M : KvMap) : Verb → Answer → Prop
  | .get scope key, a => a = .value (M scope key)
  | .scanPrefix scope front, a => ∃ pairs, a = .pairs pairs ∧ M.IsScan scope front pairs
  | _, a => a = .done

/-- The right answers to the calls on a transaction that has `staged` before and `staged'` after. -/
def Served (staged : KvMap) : List Call → List Answer → KvMap → Prop
  | [], answers, staged' => answers = [] ∧ staged' = staged
  | .begin :: calls, answers, staged' =>
      ∃ rest, answers = .refused :: rest ∧ Served staged calls rest staged'
  | .verb v :: calls, answers, staged' =>
      ∃ first rest, answers = first :: rest ∧ staged.Answers v first ∧
        Served (staged.after v) calls rest staged'

/-- A transaction starts from the map, lands whole on commit and is discarded on drop. -/
def Transacted (M : KvMap) (t : Transaction) (answers : List Answer) (M' : KvMap) : Prop :=
  ∃ inner staged, M.Served t.calls inner staged ∧
    if t.committed then answers = .begun :: inner ++ [.done] ∧ M' = staged
    else answers = .begun :: inner ∧ M' = M

def ServedAll (M : KvMap) : List Transaction → List (List Answer) → KvMap → Prop
  | [], answers, M' => answers = [] ∧ M' = M
  | t :: rest, answers, M' =>
      ∃ first later next, answers = first :: later ∧ M.Transacted t first next ∧
        ServedAll next rest later M'

/-! ### One right answer -/

variable {M : KvMap}

/-- A verb leaves alone the scopes it does not name. -/
theorem after_of_not_names (M : KvMap) {v : Verb} {scope : Scope} (h : ¬ v.Names scope) :
    M.after v scope = M scope := by
  cases v <;> funext key <;> simp_all [after, put, without, Verb.Names]

theorem IsScan.unique {scope : Scope} {front : Bytes} {pairs pairs' : List KvPair}
    (h : M.IsScan scope front pairs) (h' : M.IsScan scope front pairs') : pairs = pairs' := by
  have hnodup {pairs : List KvPair} (h : M.IsScan scope front pairs) : pairs.Nodup := by
    refine h.sorted.imp fun {a b} hlt heq ↦ ?_
    subst heq
    simp at hlt
  have hperm : pairs.Perm pairs' := by
    refine (List.perm_ext_iff_of_nodup (hnodup h) (hnodup h')).mpr fun pair ↦ ?_
    rw [h.mem_iff, h'.mem_iff]
  refine hperm.eq_of_pairwise (fun a b _ _ hab hba ↦ ?_) h.sorted h'.sorted
  exact absurd hba (Std.OrientedCmp.not_lt_of_lt hab)

theorem Answers.unique {v : Verb} {a a' : Answer} (h : M.Answers v a) (h' : M.Answers v a') :
    a = a' := by
  cases v with
  | scanPrefix scope front =>
      rcases h with ⟨pairs, rfl, hscan⟩
      rcases h' with ⟨pairs', rfl, hscan'⟩
      rw [hscan.unique hscan']
  | get scope key => exact Eq.trans h h'.symm
  | put scope key value => exact Eq.trans h h'.symm
  | delete scope key => exact Eq.trans h h'.symm
  | deletePrefix scope front => exact Eq.trans h h'.symm
  | deleteScope scope => exact Eq.trans h h'.symm
  | deleteNamespace ns => exact Eq.trans h h'.symm

theorem Served.unique {calls : List Call} {answers answers' : List Answer} {staged staged' : KvMap}
    (h : M.Served calls answers staged) (h' : M.Served calls answers' staged') :
    answers = answers' ∧ staged = staged' := by
  induction calls generalizing M answers answers' with
  | nil => exact ⟨h.1.trans h'.1.symm, h.2.trans h'.2.symm⟩
  | cons call calls ih =>
      cases call with
      | begin =>
          rcases h with ⟨rest, rfl, hrest⟩
          rcases h' with ⟨rest', rfl, hrest'⟩
          rcases ih hrest hrest' with ⟨rfl, hstaged⟩
          exact ⟨rfl, hstaged⟩
      | verb v =>
          rcases h with ⟨first, rest, rfl, hfirst, hrest⟩
          rcases h' with ⟨first', rest', rfl, hfirst', hrest'⟩
          rcases ih hrest hrest' with ⟨rfl, hstaged⟩
          rw [hfirst.unique hfirst']
          exact ⟨rfl, hstaged⟩

theorem Transacted.unique {t : Transaction} {answers answers' : List Answer} {next next' : KvMap}
    (h : M.Transacted t answers next) (h' : M.Transacted t answers' next') :
    answers = answers' ∧ next = next' := by
  rcases h with ⟨inner, staged, hinner, hend⟩
  rcases h' with ⟨inner', staged', hinner', hend'⟩
  rcases hinner.unique hinner' with ⟨rfl, rfl⟩
  split at hend
  · rw [if_pos ‹_›] at hend'
    exact ⟨hend.1.trans hend'.1.symm, hend.2.trans hend'.2.symm⟩
  · rw [if_neg ‹_›] at hend'
    exact ⟨hend.1.trans hend'.1.symm, hend.2.trans hend'.2.symm⟩

theorem ServedAll.unique {ts : List Transaction} {answers answers' : List (List Answer)}
    {next next' : KvMap} (h : M.ServedAll ts answers next) (h' : M.ServedAll ts answers' next') :
    answers = answers' := by
  induction ts generalizing M answers answers' with
  | nil => exact h.1.trans h'.1.symm
  | cons t rest ih =>
      rcases h with ⟨first, later, mid, rfl, hfirst, hlater⟩
      rcases h' with ⟨first', later', mid', rfl, hfirst', hlater'⟩
      rcases hfirst.unique hfirst' with ⟨rfl, rfl⟩
      rw [ih hlater hlater']

end KvMap

/-! ## Refinement -/

/-- The store keeps to the map: `closed` relates it to the map between two transactions, `opened` to
the map and the copy that the open transaction works on. -/
structure Refines (K : KvStore) (closed : K.Store → KvMap → Prop)
    (opened : K.Store × K.Tx → KvMap → KvMap → Prop) : Prop where
  begin : ∀ {store M}, closed store M →
    ∃ tx store', K.begin store = (.ok tx, store') ∧ opened (store', tx) M M
  begin_refused : ∀ {s M staged}, opened s M staged →
    ∃ e store', K.begin s.1 = (.error e, store') ∧ opened (store', s.2) M staged
  perform : ∀ {s M staged}, opened s M staged → ∀ v,
    staged.Answers v (K.perform s v).1 ∧ opened (K.perform s v).2 M (staged.after v)
  commit : ∀ {s M staged}, opened s M staged →
    ∃ store', K.commit s = (.ok (), store') ∧ closed store' staged
  drop : ∀ {s M staged}, opened s M staged → closed (K.drop s) M

namespace Refines

variable {K : KvStore} {closed : K.Store → KvMap → Prop}
  {opened : K.Store × K.Tx → KvMap → KvMap → Prop} (hK : Refines K closed opened)

include hK

theorem answerAll {s : K.Store × K.Tx} {M staged : KvMap} (h : opened s M staged)
    (calls : List Call) :
    ∃ staged', staged.Served calls (K.answerAll s calls).1 staged' ∧
      opened (K.answerAll s calls).2 M staged' := by
  induction calls generalizing s staged with
  | nil => exact ⟨staged, ⟨rfl, rfl⟩, h⟩
  | cons call calls ih =>
      cases call with
      | verb v =>
          rcases hK.perform h v with ⟨hanswer, hnext⟩
          rcases ih hnext with ⟨staged', hserved, hlast⟩
          exact ⟨staged', ⟨_, _, rfl, hanswer, hserved⟩, hlast⟩
      | begin =>
          rcases hK.begin_refused h with ⟨e, store', hbegin, hnext⟩
          have hanswer : K.answer s .begin = (.refused, (store', s.2)) := by
            rw [KvStore.answer, hbegin]
          rcases ih hnext with ⟨staged', hserved, hlast⟩
          rw [KvStore.answerAll, hanswer]
          exact ⟨staged', ⟨_, rfl, hserved⟩, hlast⟩

theorem transact {store : K.Store} {M : KvMap} (h : closed store M) (t : Transaction) :
    ∃ next, M.Transacted t (K.transact store t).1 next ∧ closed (K.transact store t).2 next := by
  rcases hK.begin h with ⟨tx, store', hbegin, hopened⟩
  rcases hK.answerAll hopened t.calls with ⟨staged, hserved, hlast⟩
  rw [KvStore.transact, hbegin]
  by_cases hcommitted : t.committed = true
  · rcases hK.commit hlast with ⟨store'', hcommit, hclosed⟩
    refine ⟨staged, ⟨_, staged, hserved, ?_⟩, ?_⟩
    · simp [hcommitted, hcommit]
    · simpa [hcommitted, hcommit] using hclosed
  · refine ⟨M, ⟨_, staged, hserved, ?_⟩, ?_⟩
    · simp [hcommitted]
    · simpa [hcommitted] using hK.drop hlast

/-- A store that keeps to the map gives the right answers to every sequence of transactions. -/
theorem serve {store : K.Store} {M : KvMap} (h : closed store M) (ts : List Transaction) :
    ∃ next, M.ServedAll ts (K.serve store ts).1 next := by
  induction ts generalizing store M with
  | nil => exact ⟨M, rfl, rfl⟩
  | cons t rest ih =>
      rcases hK.transact h t with ⟨mid, hfirst, hmid⟩
      rcases ih hmid with ⟨next, hlater⟩
      exact ⟨next, _, _, mid, rfl, hfirst, hlater⟩

end Refines

end LogosChat.Storage
