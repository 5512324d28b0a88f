import LogosChat.Reasoning.Sql
import LogosChat.Storage.MemStore

/-!
# The store over SQLite

The substrate over the table `kv`, whose primary key is `(ns, instance, key)`.  Each verb is one
statement.  A transaction works on the table itself; the connection keeps what it was at `BEGIN`, for a
rollback.
-/

namespace LogosChat.Storage

open Reasoning

/-- A row of `kv`, with what the statements bind to its columns: two texts and two blobs. -/
structure KvRow where
  ns : String
  inst : String
  key : Bytes
  value : Bytes
deriving DecidableEq

namespace KvRow

def primaryKey (row : KvRow) : String × String × Bytes := (row.ns, row.inst, row.key)

/-- `ns = ?1`. -/
def inNamespace (ns : Namespace) (row : KvRow) : Truth :=
  (SqlValue.text row.ns).eq (.text ns.name)

/-- `ns = ?1 AND instance = ?2`. -/
def inScope (scope : Scope) (row : KvRow) : Truth :=
  (inNamespace scope.ns row).and ((SqlValue.text row.inst).eq (.text scope.inst))

/-- `ns = ?1 AND instance = ?2 AND key = ?3`. -/
def atKey (scope : Scope) (key : Bytes) (row : KvRow) : Truth :=
  (inScope scope row).and ((SqlValue.blob row.key).eq (.blob key))

end KvRow

/-- `(length(?3) = 0 OR substr(key, 1, length(?3)) = ?3)`. -/
def keyUnderPrefix (key front : SqlValue) : Truth :=
  (front.length.eq (.integer 0)).or ((key.substr (.integer 1) front.length).eq front)

/-- `ns = ?1 AND instance = ?2 AND` the condition above. -/
def KvRow.underPrefix (scope : Scope) (front : Bytes) (row : KvRow) : Truth :=
  (inScope scope row).and (keyUnderPrefix (.blob row.key) (.blob front))

abbrev KvTable := Table KvRow (String × String × Bytes) KvRow.primaryKey

/-- A connection.  `saved` is the table as it was at `BEGIN`, while a transaction is open. -/
structure SqliteStore where
  table : KvTable
  saved : Option KvTable

namespace SqliteStore

def inMemory : SqliteStore := ⟨.empty, none⟩

/-- `BEGIN`. -/
def begin (conn : SqliteStore) : Except StorageError Unit × SqliteStore :=
  match conn.saved with
  | some _ => (.error (.database "cannot start a transaction within a transaction"), conn)
  | none => (.ok (), { conn with saved := some conn.table })

def get (table : KvTable) (scope : Scope) (key : Bytes) : Option Bytes :=
  -- no row is an absent value
  (table.select (KvRow.atKey scope key)).head?.map KvRow.value

def put (table : KvTable) (scope : Scope) (key value : Bytes) : KvTable :=
  table.insertOrReplace ⟨scope.ns.name, scope.inst, key, value⟩

def delete (table : KvTable) (scope : Scope) (key : Bytes) : KvTable :=
  table.delete (KvRow.atKey scope key)

def scanPrefix (table : KvTable) (scope : Scope) (front : Bytes) : List KvPair :=
  (orderBy KvRow.key (table.select (KvRow.underPrefix scope front))).map fun row ↦ (row.key, row.value)

def deletePrefix (table : KvTable) (scope : Scope) (front : Bytes) : KvTable :=
  table.delete (KvRow.underPrefix scope front)

def deleteScope (table : KvTable) (scope : Scope) : KvTable := table.delete (KvRow.inScope scope)

def deleteNamespace (table : KvTable) (ns : Namespace) : KvTable :=
  table.delete (KvRow.inNamespace ns)

def perform (s : SqliteStore × Unit) : Verb → Answer × (SqliteStore × Unit)
  | .get scope key => (.value (get s.1.table scope key), s)
  | .put scope key value => (.done, ({ s.1 with table := put s.1.table scope key value }, ()))
  | .delete scope key => (.done, ({ s.1 with table := delete s.1.table scope key }, ()))
  | .scanPrefix scope front => (.pairs (scanPrefix s.1.table scope front), s)
  | .deletePrefix scope front =>
      (.done, ({ s.1 with table := deletePrefix s.1.table scope front }, ()))
  | .deleteScope scope => (.done, ({ s.1 with table := deleteScope s.1.table scope }, ()))
  | .deleteNamespace ns => (.done, ({ s.1 with table := deleteNamespace s.1.table ns }, ()))

/-- `COMMIT`. -/
def commit (s : SqliteStore × Unit) : Except StorageError Unit × SqliteStore :=
  (.ok (), { s.1 with saved := none })

/-- A transaction that is dropped is rolled back. -/
def drop (s : SqliteStore × Unit) : SqliteStore :=
  match s.1.saved with
  | some table => ⟨table, none⟩
  | none => s.1

def kvStore : KvStore where
  Store := SqliteStore
  Tx := Unit
  begin := begin
  perform := perform
  commit := commit
  drop := drop

end SqliteStore

/-! ## What the conditions select -/

namespace KvRow

def scope (row : KvRow) : Scope := ⟨⟨row.ns⟩, row.inst⟩

variable {row : KvRow} {scope : Scope}

theorem inNamespace_iff {ns : Namespace} : row.inNamespace ns = some true ↔ row.scope.ns = ns := by
  cases ns
  simp [inNamespace, KvRow.scope]

theorem inScope_iff : row.inScope scope = some true ↔ row.scope = scope := by
  rcases scope with ⟨ns, inst⟩
  rw [inScope, Truth.and_eq_true_iff, inNamespace_iff, SqlValue.text_eq_iff]
  simp [KvRow.scope]

theorem atKey_iff {key : Bytes} :
    row.atKey scope key = some true ↔ row.scope = scope ∧ row.key = key := by
  rw [atKey, Truth.and_eq_true_iff, inScope_iff, SqlValue.blob_eq_iff]

end KvRow

/-- The condition on the key is the bytewise one, with the empty key and the empty prefix too. -/
theorem keyUnderPrefix_iff {key front : Bytes} :
    keyUnderPrefix (.blob key) (.blob front) = some true ↔ front <+: key := by
  rw [keyUnderPrefix, Truth.or_eq_true_iff]
  by_cases hfront : front = []
  · subst hfront
    simp [SqlValue.length, SqlValue.eq]
  have hlength : ¬ (SqlValue.length (.blob front)).eq (.integer 0) = some true := by
    simp [SqlValue.length, SqlValue.eq, hfront]
  rw [or_iff_right hlength]
  by_cases hkey : key = []
  · -- `substr` of the empty key is `NULL`, which equals nothing
    subst hkey
    simp [SqlValue.length, SqlValue.substr, SqlValue.eq, hfront]
  · have hsubstr : SqlValue.substr (.blob key) (.integer 1) (SqlValue.length (.blob front)) =
        .blob (key.take front.length) := by
      simp [SqlValue.length, SqlValue.substr, hkey]
    rw [hsubstr, SqlValue.blob_eq_iff, List.prefix_iff_eq_take, eq_comm]

theorem KvRow.underPrefix_iff {row : KvRow} {scope : Scope} {front : Bytes} :
    row.underPrefix scope front = some true ↔ row.scope = scope ∧ front <+: row.key := by
  rw [underPrefix, Truth.and_eq_true_iff, inScope_iff, keyUnderPrefix_iff]

/-! ## The map it stands for -/

namespace SqliteStore

/-- The rows are the pairs of the map. -/
def Holds (table : KvTable) (M : KvMap) : Prop :=
  ∀ row : KvRow, row ∈ table.rows ↔ M row.scope row.key = some row.value

variable {table : KvTable} {M : KvMap}

theorem get_eq (h : Holds table M) (scope : Scope) (key : Bytes) :
    get table scope key = M scope key := by
  have hmem (row : KvRow) : row ∈ table.select (KvRow.atKey scope key) ↔
      M scope key = some row.value ∧ row.scope = scope ∧ row.key = key := by
    rw [Table.mem_select, h, KvRow.atKey_iff]
    refine and_congr_left fun hat ↦ ?_
    rw [hat.1, hat.2]
  unfold get
  cases hrows : table.select (KvRow.atKey scope key) with
  | cons row rest =>
      rw [List.head?_cons, Option.map_some]
      exact ((hmem row).mp (hrows ▸ List.mem_cons_self)).1.symm
  | nil =>
      cases hM : M scope key with
      | none => rfl
      | some value =>
          have hrow := (hmem ⟨scope.ns.name, scope.inst, key, value⟩).mpr ⟨hM, rfl, rfl⟩
          rw [hrows] at hrow
          cases hrow

theorem holds_put (h : Holds table M) (scope : Scope) (key value : Bytes) :
    Holds (put table scope key value) (M.put scope key value) := by
  intro row
  rw [put, Table.mem_insertOrReplace, h]
  unfold KvMap.put
  by_cases hat : row.scope = scope ∧ row.key = key
  · rw [if_pos hat]
    rcases row with ⟨ns, inst, k, v⟩
    rcases hat with ⟨rfl, rfl⟩
    simp [KvRow.scope, KvRow.primaryKey, eq_comm]
  · rw [if_neg hat]
    have hkey : row.primaryKey ≠ KvRow.primaryKey ⟨scope.ns.name, scope.inst, key, value⟩ := by
      intro heq
      rcases row with ⟨ns, inst, k, v⟩
      simp only [KvRow.primaryKey, Prod.mk.injEq] at heq
      refine hat ⟨?_, heq.2.2⟩
      rw [KvRow.scope, heq.1, heq.2.1]
    have hne : row ≠ ⟨scope.ns.name, scope.inst, key, value⟩ := fun heq ↦ hkey (heq ▸ rfl)
    simp [hkey, hne]

-- a `DELETE` takes out the rows that its condition selects
theorem holds_delete (h : Holds table M) {condition : KvRow → Truth} {gone : Scope → Bytes → Prop}
    [∀ s k, Decidable (gone s k)]
    (hgone : ∀ row : KvRow, condition row = some true ↔ gone row.scope row.key) :
    Holds (table.delete condition) (M.without gone) := by
  intro row
  rw [Table.mem_delete, h, ne_eq, hgone]
  unfold KvMap.without
  split <;> simp_all

theorem isScan_scanPrefix (h : Holds table M) (scope : Scope) (front : Bytes) :
    M.IsScan scope front (scanPrefix table scope front) := by
  have hmem (row : KvRow) : row ∈ table.select (KvRow.underPrefix scope front) ↔
      M scope row.key = some row.value ∧ row.scope = scope ∧ front <+: row.key := by
    rw [Table.mem_select, h, KvRow.underPrefix_iff]
    refine and_congr_left fun hat ↦ ?_
    rw [hat.1]
  -- within one scope the key alone tells the rows apart
  have hkeys : (table.select (KvRow.underPrefix scope front)).Pairwise fun a b ↦ a.key ≠ b.key := by
    refine List.Pairwise.imp_of_mem ?_ (table.primaryKey.filter _)
    intro a b ha hb hne heq
    have hscope := ((hmem a).mp ha).2.1.trans ((hmem b).mp hb).2.1.symm
    simp only [KvRow.scope, Scope.mk.injEq, Namespace.mk.injEq] at hscope
    refine hne ?_
    rw [KvRow.primaryKey, KvRow.primaryKey, hscope.1, hscope.2, heq]
  refine ⟨?_, fun key value ↦ ?_⟩
  · rw [scanPrefix, List.pairwise_map]
    exact pairwise_orderBy hkeys
  · rw [scanPrefix, List.mem_map]
    refine ⟨fun hpair ↦ ?_, fun hpair ↦ ?_⟩
    · rcases hpair with ⟨row, hrow, heq⟩
      cases heq
      have hrow := (hmem row).mp (mem_orderBy.mp hrow)
      exact ⟨hrow.2.2, hrow.1⟩
    · refine ⟨⟨scope.ns.name, scope.inst, key, value⟩, mem_orderBy.mpr ?_, rfl⟩
      exact (hmem _).mpr ⟨hpair.2, rfl, hpair.1⟩

/-- Between two transactions. -/
def Closed (conn : SqliteStore) (M : KvMap) : Prop := conn.saved = none ∧ Holds conn.table M

/-- The table is the transaction's; what was saved is the map. -/
def Opened (s : SqliteStore × Unit) (M staged : KvMap) : Prop :=
  ∃ saved, s.1.saved = some saved ∧ Holds saved M ∧ Holds s.1.table staged

theorem perform_spec {s : SqliteStore × Unit} {staged : KvMap} (h : Opened s M staged) (v : Verb) :
    staged.Answers v (perform s v).1 ∧ Opened (perform s v).2 M (staged.after v) := by
  rcases h with ⟨saved, hsaved, hM, hstaged⟩
  cases v with
  | get scope key =>
      exact ⟨congrArg Answer.value (get_eq hstaged scope key), saved, hsaved, hM, hstaged⟩
  | put scope key value => exact ⟨rfl, saved, hsaved, hM, holds_put hstaged scope key value⟩
  | scanPrefix scope front =>
      exact ⟨⟨_, rfl, isScan_scanPrefix hstaged scope front⟩, saved, hsaved, hM, hstaged⟩
  | delete scope key =>
      exact ⟨rfl, saved, hsaved, hM, holds_delete hstaged fun _ ↦ KvRow.atKey_iff⟩
  | deletePrefix scope front =>
      exact ⟨rfl, saved, hsaved, hM, holds_delete hstaged fun _ ↦ KvRow.underPrefix_iff⟩
  | deleteScope scope =>
      exact ⟨rfl, saved, hsaved, hM, holds_delete hstaged fun _ ↦ KvRow.inScope_iff⟩
  | deleteNamespace ns =>
      exact ⟨rfl, saved, hsaved, hM, holds_delete hstaged fun _ ↦ KvRow.inNamespace_iff⟩

theorem refines : Refines kvStore Closed Opened where
  begin := by
    rintro ⟨table, saved⟩ M ⟨hsaved, hM⟩
    cases hsaved
    exact ⟨(), _, rfl, table, rfl, hM, hM⟩
  begin_refused := by
    rintro ⟨⟨table, open'⟩, tx⟩ M staged ⟨saved, hsaved, hM, hstaged⟩
    cases hsaved
    exact ⟨_, _, rfl, saved, rfl, hM, hstaged⟩
  perform := perform_spec
  commit := by
    rintro ⟨conn, tx⟩ M staged ⟨saved, -, -, hstaged⟩
    exact ⟨_, rfl, rfl, hstaged⟩
  drop := by
    rintro ⟨⟨table, open'⟩, tx⟩ M staged ⟨saved, hsaved, hM, -⟩
    cases hsaved
    exact ⟨rfl, hM⟩

theorem closed_inMemory : Closed inMemory fun _ _ ↦ none := by
  refine ⟨rfl, fun row ↦ ⟨nofun, nofun⟩⟩

end SqliteStore

/-- Over every sequence of transactions the two stores give the same answers: those of the map, of
which no verb touches a scope that it does not name. -/
theorem stores_agree (ts : List Transaction) :
    (MemStore.kvStore.serve MemStore.new ts).1 =
      (SqliteStore.kvStore.serve SqliteStore.inMemory ts).1 ∧
    (∃ next, KvMap.ServedAll (fun _ _ ↦ none) ts (MemStore.kvStore.serve MemStore.new ts).1 next) ∧
    ∀ (M : KvMap) (v : Verb) (scope : Scope), ¬ v.Names scope → M.after v scope = M scope := by
  rcases MemStore.refines.serve MemStore.closed_new ts with ⟨next, hmem⟩
  rcases SqliteStore.refines.serve SqliteStore.closed_inMemory ts with ⟨next', hsqlite⟩
  exact ⟨hmem.unique hsqlite, ⟨next, hmem⟩, fun M _ _ ↦ M.after_of_not_names⟩

end LogosChat.Storage
