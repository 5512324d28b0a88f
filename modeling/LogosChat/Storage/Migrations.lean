import LogosChat.Reasoning.Run
import LogosChat.Reasoning.Sql
import Mathlib.Algebra.Order.Group.Nat
import Mathlib.Data.List.Nodup
import Mathlib.Logic.Function.Basic

/-!
# Two connections that migrate one database

Each connection goes through the list of migrations: it looks whether a migration is recorded and, if not,
applies and records it in a transaction.  The look is outside the transaction, so between the two the other
connection may have applied the migration.
-/

namespace LogosChat.Storage.Migrations

open Reasoning

/-! ## Schemas -/

/-- The statements that the migrations are made of. -/
inductive Ddl where
  -- `CREATE TABLE IF NOT EXISTS`
  | createTable (name : String) (columns : List String)
  -- `CREATE INDEX IF NOT EXISTS`
  | createIndex (name table column : String)
  -- `DROP TABLE IF EXISTS`
  | dropTable (name : String)
  -- `ALTER TABLE … DROP COLUMN`
  | dropColumn (table column : String)
deriving DecidableEq

/-- Why a statement fails.  `map_rusqlite_error` keeps the text of it. -/
inductive SqlFailure where
  | noSuchTable (name : String)
  | noSuchColumn (name : String)
  | constraintViolation
deriving DecidableEq

/-- The tables with the names of their columns, and the indexes with the tables they are on. -/
structure Schema where
  tables : List (String × List String) := []
  indexes : List (String × String) := []
deriving DecidableEq

namespace Schema

def columns? (schema : Schema) (table : String) : Option (List String) :=
  (schema.tables.find? fun t ↦ t.1 = table).map Prod.snd

def exec (schema : Schema) : Ddl → Except SqlFailure Schema
  | .createTable name columns =>
      match schema.columns? name with
      | some _ => .ok schema
      | none => .ok { schema with tables := schema.tables ++ [(name, columns)] }
  | .createIndex name table column =>
      if schema.indexes.any fun i ↦ i.1 = name then .ok schema
      else
        match schema.columns? table with
        | none => .error (.noSuchTable table)
        | some columns =>
            if column ∈ columns then .ok { schema with indexes := schema.indexes ++ [(name, table)] }
            else .error (.noSuchColumn column)
  | .dropTable name =>
      .ok
        { tables := schema.tables.filter fun t ↦ t.1 ≠ name
          indexes := schema.indexes.filter fun i ↦ i.2 ≠ name }
  | .dropColumn table column =>
      match schema.columns? table with
      | none => .error (.noSuchTable table)
      | some columns =>
          if column ∈ columns then
            .ok
              { schema with
                tables := schema.tables.map fun t ↦ if t.1 = table then (t.1, t.2.erase column) else t }
          else .error (.noSuchColumn column)

end Schema

/-! ## The migrations -/

structure Migration where
  name : String
  sql : List Ddl
deriving DecidableEq

def getMigrations : List Migration :=
  [ { name := "001_initial_schema"
      sql :=
        [.createTable "identity" ["id", "name", "secret_key"],
          .createTable "ephemeral_keys" ["public_key_hex", "secret_key"],
          .createTable "conversations" ["local_convo_id", "remote_convo_id", "convo_type", "created_at"]] },
    { name := "002_ratchet_state"
      sql :=
        [.createTable "ratchet_state"
            ["conversation_id", "root_key", "sending_chain", "receiving_chain", "dh_self_secret", "dh_remote",
              "msg_send", "msg_recv", "prev_chain_len"],
          .createTable "skipped_keys" ["conversation_id", "public_key", "msg_num", "message_key", "created_at"],
          .createIndex "idx_skipped_keys_conversation" "skipped_keys" "conversation_id"] },
    { name := "003_drop_ratchet_state", sql := [.dropTable "skipped_keys", .dropTable "ratchet_state"] },
    { name := "004_drop_ephemeral_keys", sql := [.dropTable "ephemeral_keys"] },
    { name := "005_drop_identity", sql := [.dropTable "identity"] },
    { name := "006_drop_remote_convo_id", sql := [.dropColumn "conversations" "remote_convo_id"] },
    { name := "007_kv", sql := [.createTable "kv" ["ns", "instance", "key", "value"]] },
    { name := "009_installation", sql := [.createTable "installation" ["id", "record"]] } ]

def names : List String := getMigrations.map Migration.name

/-- The schema after the first `n` migrations. -/
def schemaAfter (n : Nat) : Schema :=
  match ((getMigrations.take n).flatMap Migration.sql).foldlM Schema.exec {} with
  | .ok schema => schema
  | .error _ => {}

theorem nodup_names : names.Nodup := by decide

/-- Every migration succeeds on the schema that those before it leave. -/
theorem exec_migration {n : Nat} {m : Migration} (h : getMigrations[n]? = some m) :
    m.sql.foldlM Schema.exec (schemaAfter n) = .ok (schemaAfter (n + 1)) := by
  have hall : ∀ n < getMigrations.length, ∀ m ∈ getMigrations[n]?,
      m.sql.foldlM Schema.exec (schemaAfter n) = .ok (schemaAfter (n + 1)) := by decide +kernel
  exact hall n (List.getElem?_eq_some_iff.mp h).1 m h

/-! ## The connections -/

abbrev MigrationTable := Table String String fun name ↦ name

/-- `name = ?1`. -/
def hasName (name row : String) : Truth := (SqlValue.text row).eq (.text name)

/-- A database: `migrations` is the table `_migrations`, once it is there.  Beside it, the migrations whose
statements it has been through. -/
structure Database where
  schema : Schema := {}
  migrations : Option MigrationTable := none
  ran : List String := []

inductive Side where
  | first
  | second
deriving DecidableEq

def Side.other : Side → Side
  | .first => .second
  | .second => .first

/-- The statement that a connection is about to run, the position in the list with it. -/
inductive Pc where
  -- `CREATE TABLE IF NOT EXISTS _migrations`
  | create
  -- `SELECT EXISTS`
  | check (i : Nat)
  -- `BEGIN IMMEDIATE`
  | begin (i : Nat) (m : Migration)
  -- the statements that are left of the migration
  | batch (i : Nat) (m : Migration) (sql : List Ddl)
  -- `INSERT INTO _migrations`
  | record (i : Nat) (m : Migration)
  | commit (i : Nat) (m : Migration)
  | returned (result : Except SqlFailure Unit)
deriving DecidableEq

/-- The committed database, the transaction that has the write lock with what it has staged, and where
the two connections are. -/
structure Openers where
  db : Database
  tx : Option (Side × Database) := none
  pc : Side → Pc := fun _ ↦ .create

namespace Openers

def goto (s : Openers) (side : Side) (pc : Pc) : Openers := { s with pc := Function.update s.pc side pc }

/-- The call returns an error.  A transaction that is dropped is rolled back. -/
def fail (s : Openers) (side : Side) (e : SqlFailure) : Openers :=
  { s with tx := none }.goto side (.returned (.error e))

/-- A statement in the transaction of this connection. -/
def inTx (s : Openers) (side : Side) (statement : Database → Openers) : Openers :=
  match s.tx with
  | some (owner, staged) => if owner = side then statement staged else s
  | none => s

/-- The next statement of one connection.  It stays where it is while it waits for the write lock. -/
def step (s : Openers) (side : Side) : Openers :=
  match s.pc side with
  | .create =>
      match s.db.migrations, s.tx with
      | some _, _ => s.goto side (.check 0)
      | none, some _ => s
      | none, none => { s with db := { s.db with migrations := some .empty } }.goto side (.check 0)
  | .check i =>
      match getMigrations[i]?, s.db.migrations with
      | none, _ => s.goto side (.returned (.ok ()))
      | some _, none => s.fail side (.noSuchTable "_migrations")
      | some m, some table =>
          if table.select (hasName m.name) = [] then s.goto side (.begin i m)
          else s.goto side (.check (i + 1))
  | .begin i m =>
      match s.tx with
      | some _ => s
      | none => { s with tx := some (side, s.db) }.goto side (.batch i m m.sql)
  | .batch i m [] =>
      s.inTx side fun staged ↦
        { s with tx := some (side, { staged with ran := staged.ran ++ [m.name] }) }.goto side (.record i m)
  | .batch i m (statement :: sql) =>
      s.inTx side fun staged ↦
        match staged.schema.exec statement with
        | .ok schema =>
            { s with tx := some (side, { staged with schema := schema }) }.goto side (.batch i m sql)
        | .error e => s.fail side e
  | .record i m =>
      s.inTx side fun staged ↦
        match staged.migrations with
        | none => s.fail side (.noSuchTable "_migrations")
        | some table =>
            match table.insert m.name with
            | none => s.fail side .constraintViolation
            | some table =>
                { s with tx := some (side, { staged with migrations := some table }) }.goto side (.commit i m)
  | .commit i _ =>
      s.inTx side fun staged ↦ { s with db := staged, tx := none }.goto side (.check (i + 1))
  | .returned _ => s

end Openers

/-! ## Where a connection is -/

namespace Pc

/-- How many migrations a call has been through, unless it has failed. -/
def index : Pc → Option Nat
  | .create => some 0
  | .check i => some i
  | .begin i _ => some i
  | .batch i _ _ => some i
  | .record i _ => some i
  | .commit i _ => some i
  | .returned (.ok ()) => some getMigrations.length
  | .returned (.error _) => none

/-- The migration that the call has begun the transaction of. -/
def working : Pc → Option Migration
  | .batch _ m _ => some m
  | .record _ m => some m
  | .commit _ m => some m
  | _ => none

def Returned : Pc → Prop
  | .returned _ => True
  | _ => False

def Failed : Pc → Prop
  | .returned (.error _) => True
  | _ => False

theorem not_failed_of_working {pc : Pc} {m : Migration} (h : pc.working = some m) : ¬ pc.Failed := by
  intro hfailed
  cases pc with
  | returned result => cases h
  | _ => cases hfailed

theorem not_begin_of_working {pc : Pc} {m : Migration} (h : pc.working = some m) (i : Nat) (m' : Migration) :
    pc ≠ .begin i m' := by
  rintro rfl
  cases h

/-- A bound on the statements that are left from the `i`th migration on. -/
def workFrom (i : Nat) : Nat := 1 + (getMigrations.drop i).foldr (fun m left ↦ left + m.sql.length + 5) 0

/-- A bound on the statements that a call has left to run. -/
def work : Pc → Nat
  | .create => workFrom 0 + 1
  | .check i => workFrom i
  | .begin i m => workFrom (i + 1) + m.sql.length + 4
  | .batch i _ sql => workFrom (i + 1) + sql.length + 3
  | .record i _ => workFrom (i + 1) + 2
  | .commit i _ => workFrom (i + 1) + 1
  | .returned _ => 0

theorem work_pos_of_working {pc : Pc} {m : Migration} (h : pc.working = some m) : 0 < pc.work := by
  cases pc with
  | batch i m sql => exact Nat.succ_pos _
  | record i m => exact Nat.succ_pos _
  | commit i m => exact Nat.succ_pos _
  | _ => cases h

theorem not_failed_of_work {pc : Pc} (h : 0 < pc.work) : ¬ pc.Failed := by
  intro hfailed
  cases pc with
  | returned result => exact lt_irrefl 0 h
  | _ => cases hfailed

theorem workFrom_of_getElem? {i : Nat} {m : Migration} (h : getMigrations[i]? = some m) :
    workFrom i = workFrom (i + 1) + m.sql.length + 5 := by
  obtain ⟨hlt, rfl⟩ := List.getElem?_eq_some_iff.mp h
  unfold workFrom
  rw [List.drop_eq_getElem_cons hlt, List.foldr_cons]
  omega

end Pc

namespace Database

/-- The migration is on record. -/
def Recorded (db : Database) (name : String) : Prop := ∃ table ∈ db.migrations, name ∈ table.rows

/-- The database after the first `n` migrations. -/
structure Holds (n : Nat) (db : Database) : Prop where
  schema : db.schema = schemaAfter n
  ran : db.ran = names.take n
  rows : ∀ table ∈ db.migrations, table.rows = names.take n
  new : db.migrations = none → n = 0

variable {n i : Nat} {db : Database} {m : Migration} {table : MigrationTable}

theorem names_getElem? (h : getMigrations[i]? = some m) : names[i]? = some m.name := by
  unfold names
  rw [List.getElem?_map, h]
  rfl

theorem mem_take_names (h : getMigrations[i]? = some m) : m.name ∈ names.take n ↔ i < n := by
  obtain ⟨hlt, hname⟩ := List.getElem?_eq_some_iff.mp (names_getElem? h)
  rw [← hname, List.mem_take_iff_idxOf_lt (List.getElem_mem hlt), nodup_names.idxOf_getElem]

theorem take_names_succ (h : getMigrations[n]? = some m) : names.take (n + 1) = names.take n ++ [m.name] := by
  rw [List.take_add_one, names_getElem? h]
  rfl

theorem Holds.recorded_iff (h : db.Holds n) (hdb : db.migrations.isSome) (hm : getMigrations[i]? = some m) :
    db.Recorded m.name ↔ i < n := by
  obtain ⟨table, htable⟩ := Option.isSome_iff_exists.mp hdb
  rw [← mem_take_names hm, ← h.rows table htable]
  constructor
  · rintro ⟨table', htable', hmem⟩
    rw [htable] at htable'
    cases htable'
    exact hmem
  · exact fun hmem ↦ ⟨table, htable, hmem⟩

theorem select_eq_nil_iff : table.select (hasName m.name) = [] ↔ m.name ∉ table.rows := by
  rw [Table.select, List.filter_eq_nil_iff, ← List.forall_mem_ne']
  simp [hasName]

theorem insert_eq_none_iff : table.insert m.name = none ↔ m.name ∈ table.rows := by
  rw [Table.insert_eq_none_iff]
  simp

end Database

/-! ## What holds in every interleaving -/

namespace Openers

/-- A call stands before the transaction of the `i`th migration, or in it, when `n` are on record.  The
`k` that were on record at the start it has seen. -/
structure Pending (k n : Nat) (s : Openers) (i : Nat) (m : Migration) : Prop where
  created : s.db.migrations.isSome
  start_le : k ≤ i
  le : i ≤ n
  migration : getMigrations[i]? = some m

/-- What a connection's position says of the database and of its transaction, when `n` migrations are on
record.  A transaction for a migration that is on record already may stage anything. -/
def At (k n : Nat) (s : Openers) (side : Side) : Pc → Prop
  | .create => True
  | .check i => s.db.migrations.isSome ∧ i ≤ n
  | .begin i m => s.Pending k n i m
  | .batch i m sql => s.Pending k n i m ∧ ∃ staged, s.tx = some (side, staged) ∧
      staged.migrations = s.db.migrations ∧
      (i = n → sql.foldlM Schema.exec staged.schema = .ok (schemaAfter (n + 1)) ∧ staged.ran = names.take n)
  | .record i m => s.Pending k n i m ∧ ∃ staged, s.tx = some (side, staged) ∧
      staged.migrations = s.db.migrations ∧
      (i = n → staged.schema = schemaAfter (n + 1) ∧ staged.ran = names.take (n + 1))
  | .commit i m => s.Pending k n i m ∧ i = n ∧ ∃ staged, s.tx = some (side, staged) ∧
      staged.migrations.isSome ∧ staged.Holds (n + 1)
  | .returned (.ok ()) => n = getMigrations.length
  | .returned (.error _) => True

/-- What every interleaving keeps, when it started with `k` migrations on record and now has `n`. -/
structure Inv (k n : Nat) (s : Openers) : Prop where
  db : s.db.Holds n
  start_le : k ≤ n
  le : n ≤ getMigrations.length
  at_pc : ∀ side, s.At k n side (s.pc side)
  -- the connection that recorded the last migration is ahead
  lead : n = k ∨ ∃ side, (s.pc side).index = some n
  alone : ∀ side, (s.pc side).Failed → (s.pc side.other).index = some n
  owner : ∀ side staged, s.tx = some (side, staged) → (s.pc side).working ≠ none

/-- What the next statement of a connection does. -/
inductive Moves (k n : Nat) (s : Openers) (side : Side) : Openers → Prop where
  | stays (pc : Pc) (hpc : s.pc side = pc) (h : pc.Returned ∨ s.tx ≠ none ∧ pc.working = none) :
      Moves k n s side s
  | creates (hpc : s.pc side = .create) (hdb : s.db.migrations = none) (htx : s.tx = none) :
      Moves k n s side
        ({ s with db := { s.db with migrations := some .empty }, tx := none }.goto side (.check 0))
  | goes (pc next : Pc) (hpc : s.pc side = pc) (hout : pc.working = none) (hwork : next.work < pc.work)
      (hbegin : ∀ i m, pc ≠ .begin i m) (hout' : next.working = none) (hfailed : ¬ next.Failed)
      (hat : s.At k n side next)
      (hindex : pc.index = some n → next.index = some n) : Moves k n s side (s.goto side next)
  | begins (i : Nat) (m : Migration) (hpc : s.pc side = .begin i m) (htx : s.tx = none) :
      Moves k n s side ({ s with tx := some (side, s.db) }.goto side (.batch i m m.sql))
  | works (pc next : Pc) (m : Migration) (before staged : Database) (hpc : s.pc side = pc)
      (htx : s.tx = some (side, before)) (hwork : next.work < pc.work) (hin : pc.working = some m)
      (hin' : next.working = some m) (hat : At k n { s with tx := some (side, staged) } side next)
      (hindex : next.index = pc.index) :
      Moves k n s side ({ s with tx := some (side, staged) }.goto side next)
  | fails (pc : Pc) (i : Nat) (m : Migration) (before : Database) (e : SqlFailure) (hpc : s.pc side = pc)
      (htx : s.tx = some (side, before)) (hin : pc.working = some m) (hindex : pc.index = some i)
      (hpending : s.Pending k n i m) (hstale : i < n) : Moves k n s side (s.fail side e)
  | commits (m : Migration) (staged : Database) (hpc : s.pc side = .commit n m)
      (htx : s.tx = some (side, staged)) (hpending : s.Pending k n n m) (hcreated : staged.migrations.isSome)
      (hstaged : staged.Holds (n + 1)) :
      Moves k n s side ({ s with db := staged, tx := none }.goto side (.check (n + 1)))

variable {k n : Nat} {s : Openers} {side : Side}

theorem inTx_eq {staged : Database} (h : s.tx = some (side, staged)) (statement : Database → Openers) :
    s.inTx side statement = statement staged := by
  unfold inTx
  rw [h]
  exact if_pos rfl

theorem moves_create (hpc : s.pc side = .create) : Moves k n s side (s.step side) := by
  unfold step
  rw [hpc]
  dsimp only
  cases hdb : s.db.migrations with
  | some table => exact .goes _ _ hpc rfl (Nat.lt_succ_self _) (by simp) rfl not_false ⟨hdb ▸ rfl, Nat.zero_le n⟩ id
  | none =>
      cases htx : s.tx with
      | some tx => exact .stays _ hpc (.inr ⟨htx ▸ Option.some_ne_none tx, rfl⟩)
      | none => exact .creates hpc hdb htx

theorem Inv.moves_check {i : Nat} (h : s.Inv k n) (hpc : s.pc side = .check i) :
    Moves k n s side (s.step side) := by
  have hat := h.at_pc side
  rw [hpc] at hat
  obtain ⟨hcreated, hle⟩ := hat
  obtain ⟨table, htable⟩ := Option.isSome_iff_exists.mp hcreated
  unfold step
  rw [hpc]
  dsimp only
  cases hm : getMigrations[i]? with
  | none =>
      have hge : getMigrations.length ≤ i := List.getElem?_eq_none_iff.mp hm
      have hlast : n = getMigrations.length := le_antisymm h.le (hge.trans hle)
      exact .goes _ _ hpc rfl (Nat.lt_add_right _ Nat.one_pos) (by simp) rfl not_false hlast
        fun _ ↦ congrArg some hlast.symm
  | some m =>
      have hrecorded : m.name ∈ table.rows ↔ i < n := by
        rw [h.db.rows table htable]
        exact Database.mem_take_names hm
      have hwork := Pc.workFrom_of_getElem? hm
      rw [htable]
      dsimp only
      split
      case isTrue hnone =>
        rw [Database.select_eq_nil_iff, hrecorded, not_lt] at hnone
        refine .goes _ _ hpc rfl ?_ (by simp) rfl not_false ⟨hcreated, h.start_le.trans hnone, hle, hm⟩ id
        show Pc.workFrom (i + 1) + _ + 4 < Pc.workFrom i
        omega
      case isFalse hsome =>
        rw [Database.select_eq_nil_iff, hrecorded, not_not] at hsome
        refine .goes _ _ hpc rfl ?_ (by simp) rfl not_false ⟨hcreated, hsome⟩ fun hindex ↦ ?_
        · show Pc.workFrom (i + 1) < Pc.workFrom i
          omega
        · cases hindex
          exact absurd hsome (lt_irrefl _)

theorem moves_begin {i : Nat} {m : Migration} (hpc : s.pc side = .begin i m) :
    Moves k n s side (s.step side) := by
  unfold step
  rw [hpc]
  dsimp only
  cases htx : s.tx with
  | some tx => exact .stays _ hpc (.inr ⟨htx ▸ Option.some_ne_none tx, rfl⟩)
  | none => exact .begins i m hpc htx

theorem Inv.moves_batch {i : Nat} {m : Migration} {sql : List Ddl} (h : s.Inv k n)
    (hpc : s.pc side = .batch i m sql) : Moves k n s side (s.step side) := by
  have hat := h.at_pc side
  rw [hpc] at hat
  obtain ⟨hpending, staged, htx, htable, hfresh⟩ := hat
  unfold step
  rw [hpc]
  cases sql with
  | nil =>
      dsimp only
      rw [inTx_eq htx]
      refine .works _ _ m staged _ hpc htx ?_ rfl rfl
        ⟨⟨hpending.created, hpending.start_le, hpending.le, hpending.migration⟩, _, rfl, htable, ?_⟩ rfl
      · show Pc.workFrom (i + 1) + 2 < Pc.workFrom (i + 1) + 0 + 3
        omega
      · rintro rfl
        obtain ⟨hschema, hran⟩ := hfresh rfl
        refine ⟨Except.ok.inj hschema, ?_⟩
        show staged.ran ++ [m.name] = _
        rw [hran, Database.take_names_succ hpending.migration]
  | cons statement sql =>
      dsimp only
      rw [inTx_eq htx]
      cases hexec : staged.schema.exec statement with
      | ok schema =>
          refine .works _ _ m staged _ hpc htx ?_ rfl rfl
            ⟨⟨hpending.created, hpending.start_le, hpending.le, hpending.migration⟩, _, rfl, htable, ?_⟩ rfl
          · show Pc.workFrom (i + 1) + sql.length + 3 < Pc.workFrom (i + 1) + (sql.length + 1) + 3
            omega
          · intro hi
            obtain ⟨hschema, hran⟩ := hfresh hi
            rw [List.foldlM_cons, hexec] at hschema
            exact ⟨hschema, hran⟩
      | error e =>
          refine .fails _ i m staged e hpc htx rfl rfl hpending ?_
          apply lt_of_le_of_ne hpending.le
          intro hi
          have hschema := (hfresh hi).1
          rw [List.foldlM_cons, hexec] at hschema
          cases hschema

theorem Inv.moves_record {i : Nat} {m : Migration} (h : s.Inv k n) (hpc : s.pc side = .record i m) :
    Moves k n s side (s.step side) := by
  have hat := h.at_pc side
  rw [hpc] at hat
  obtain ⟨hpending, staged, htx, htable, hfresh⟩ := hat
  obtain ⟨table, hcreated⟩ := Option.isSome_iff_exists.mp hpending.created
  have hrows := h.db.rows table hcreated
  unfold step
  rw [hpc]
  dsimp only
  rw [inTx_eq htx, htable, hcreated]
  dsimp only
  cases hinsert : table.insert m.name with
  | none =>
      refine .fails _ i m staged _ hpc htx rfl rfl hpending ?_
      rw [Database.insert_eq_none_iff, hrows, Database.mem_take_names hpending.migration] at hinsert
      exact hinsert
  | some table' =>
      obtain ⟨hclash, hrows'⟩ := Table.insert_eq_some hinsert
      have hi : i = n := by
        apply le_antisymm hpending.le
        rw [← not_lt, ← Database.mem_take_names hpending.migration, ← hrows]
        exact fun hmem ↦ hclash m.name hmem rfl
      obtain ⟨hschema, hran⟩ := hfresh hi
      refine .works _ _ m staged _ hpc htx ?_ rfl rfl
        ⟨⟨hpending.created, hpending.start_le, hpending.le, hpending.migration⟩, hi, _, rfl, rfl, hschema, hran, ?_,
          fun hnone ↦ absurd hnone (Option.some_ne_none table')⟩
        rfl
      · show Pc.workFrom (i + 1) + 1 < Pc.workFrom (i + 1) + 2
        omega
      · intro table'' htable''
        cases htable''
        rw [hrows', hrows, Database.take_names_succ (hi ▸ hpending.migration)]

theorem Inv.moves (h : s.Inv k n) (side : Side) : Moves k n s side (s.step side) := by
  cases hpc : s.pc side with
  | create => exact moves_create hpc
  | check i => exact h.moves_check hpc
  | begin i m => exact moves_begin hpc
  | batch i m sql => exact h.moves_batch hpc
  | record i m => exact h.moves_record hpc
  | commit i m =>
      have hat := h.at_pc side
      rw [hpc] at hat
      obtain ⟨hpending, rfl, staged, htx, hcreated, hstaged⟩ := hat
      unfold step
      rw [hpc]
      dsimp only
      rw [inTx_eq htx]
      exact .commits m staged hpc htx hpending hcreated hstaged
  | returned result =>
      unfold step
      rw [hpc]
      exact .stays _ hpc (.inl trivial)

/-! ## Every step keeps it -/

theorem eq_or_eq_other (side side' : Side) : side' = side ∨ side' = side.other := by
  cases side <;> cases side' <;> decide

theorem other_ne (side : Side) : side.other ≠ side := by
  cases side <;> decide

theorem other_other (side : Side) : side.other.other = side := by
  cases side <;> rfl

theorem owns {staged : Database} (htx : s.tx = some (side, staged)) (staged' : Database) :
    s.tx ≠ some (side.other, staged') := by
  rw [htx]
  intro heq
  exact other_ne side (congrArg Prod.fst (Option.some.inj heq)).symm

theorem goto_pc (s : Openers) (side : Side) (pc : Pc) : (s.goto side pc).pc side = pc := by
  simp [goto]

theorem goto_pc_other (s : Openers) (side : Side) (pc : Pc) :
    (s.goto side pc).pc side.other = s.pc side.other := by
  simp [goto, other_ne]

/-- A position says something of the transaction only while the connection is in it. -/
theorem At.congr {s' : Openers} {pc : Pc} (h : s.At k n side pc) (hdb : s'.db = s.db)
    (htx : s'.tx = s.tx ∨ pc.working = none) : s'.At k n side pc := by
  have hpending {i : Nat} {m : Migration} (hp : s.Pending k n i m) : s'.Pending k n i m :=
    ⟨hdb ▸ hp.created, hp.start_le, hp.le, hp.migration⟩
  cases pc with
  | create => trivial
  | check i =>
      show s'.db.migrations.isSome ∧ i ≤ n
      rw [hdb]
      exact h
  | begin i m => exact hpending h
  | batch i m sql =>
      obtain ⟨hp, staged, hstaged, hrest⟩ := h
      obtain htx | hout := htx
      · exact ⟨hpending hp, staged, htx.trans hstaged, hdb ▸ hrest⟩
      · cases hout
  | record i m =>
      obtain ⟨hp, staged, hstaged, hrest⟩ := h
      obtain htx | hout := htx
      · exact ⟨hpending hp, staged, htx.trans hstaged, hdb ▸ hrest⟩
      · cases hout
  | commit i m =>
      obtain ⟨hp, hi, staged, hstaged, hrest⟩ := h
      obtain htx | hout := htx
      · exact ⟨hpending hp, hi, staged, htx.trans hstaged, hrest⟩
      · cases hout
  | returned result =>
      cases result with
      | ok u => exact h
      | error e => trivial

/-- The other connection is in no transaction. -/
theorem Inv.working_other (h : s.Inv k n) (hown : ∀ staged, s.tx ≠ some (side.other, staged)) :
    (s.pc side.other).working = none := by
  have hat := h.at_pc side.other
  cases hpc : s.pc side.other with
  | batch i m sql =>
      rw [hpc] at hat
      obtain ⟨-, staged, htx, -⟩ := hat
      exact absurd htx (hown staged)
  | record i m =>
      rw [hpc] at hat
      obtain ⟨-, staged, htx, -⟩ := hat
      exact absurd htx (hown staged)
  | commit i m =>
      rw [hpc] at hat
      obtain ⟨-, -, staged, htx, -⟩ := hat
      exact absurd htx (hown staged)
  | create => rfl
  | check i => rfl
  | begin i m => rfl
  | returned result => rfl

/-- A step that leaves the committed database, and the transaction of the other connection. -/
theorem Inv.goto (h : s.Inv k n) {tx : Option (Side × Database)} {next : Pc}
    (htx : tx = s.tx ∨ (s.pc side.other).working = none)
    (hat : At k n { s with tx := tx } side next) (hfailed : ¬ next.Failed)
    (hindex : (s.pc side).index = some n → next.index = some n)
    (howner : ∀ owner staged, tx = some (owner, staged) →
      owner = side ∧ next.working ≠ none ∨ owner = side.other ∧ (s.pc side.other).working ≠ none) :
    Inv k n ({ s with tx := tx }.goto side next) := by
  have hpc := goto_pc { s with tx := tx } side next
  have hother := goto_pc_other { s with tx := tx } side next
  constructor
  case db => exact h.db
  case start_le => exact h.start_le
  case le => exact h.le
  case at_pc =>
    intro side'
    obtain rfl | rfl := eq_or_eq_other side side'
    · rw [hpc]
      exact hat.congr rfl (.inl rfl)
    · rw [hother]
      exact (h.at_pc side.other).congr rfl htx
  case lead =>
    obtain hstart | ⟨side', hlead⟩ := h.lead
    · exact .inl hstart
    · obtain rfl | rfl := eq_or_eq_other side side'
      · exact .inr ⟨side', by rw [hpc]; exact hindex hlead⟩
      · exact .inr ⟨side.other, by rw [hother]; exact hlead⟩
  case alone =>
    intro side' hside
    obtain rfl | rfl := eq_or_eq_other side side'
    · rw [hpc] at hside
      exact absurd hside hfailed
    · rw [hother] at hside
      have halone := h.alone side.other hside
      rw [other_other] at halone ⊢
      rw [hpc]
      exact hindex halone
  case owner =>
    intro side' staged hstaged
    obtain ⟨rfl, hworking⟩ | ⟨rfl, hworking⟩ := howner side' staged hstaged
    · rw [hpc]
      exact hworking
    · rw [hother]
      exact hworking

/-- Outside a transaction, a position is not lost when the database goes on. -/
theorem At.mono {s' : Openers} {n' : Nat} {pc : Pc} (h : s.At k n side pc) (hout : pc.working = none)
    (hcreated : s.db.migrations.isSome → s'.db.migrations.isSome) (hle : n ≤ n')
    (hlast : n = getMigrations.length → n' = getMigrations.length) : s'.At k n' side pc := by
  cases pc with
  | create => trivial
  | check i => exact ⟨hcreated h.1, h.2.trans hle⟩
  | begin i m =>
      have hp : s.Pending k n i m := h
      exact Pending.mk (hcreated hp.created) hp.start_le (hp.le.trans hle) hp.migration
  | batch i m sql => cases hout
  | record i m => cases hout
  | commit i m => cases hout
  | returned result =>
      cases result with
      | ok u => exact hlast h
      | error e => trivial

/-- A step that changes the committed database, when no transaction is open after it. -/
theorem Inv.write (h : s.Inv k n) {db : Database} {n' i : Nat} (hdb : db.Holds n') (hle : n ≤ n')
    (hle' : n' ≤ getMigrations.length) (hlast : n = getMigrations.length → n' = getMigrations.length)
    (hcreated : db.migrations.isSome) (hown : ∀ staged, s.tx ≠ some (side.other, staged)) (hi : i ≤ n')
    (hlead : n' = k ∨ i = n' ∨ (s.pc side.other).index = some n')
    (halone : (s.pc side.other).Failed → i = n') :
    Inv k n' ({ s with db := db, tx := none }.goto side (.check i)) := by
  have hpc := goto_pc { s with db := db, tx := none } side (.check i)
  have hother := goto_pc_other { s with db := db, tx := none } side (.check i)
  constructor
  case db => exact hdb
  case start_le => exact h.start_le.trans hle
  case le => exact hle'
  case at_pc =>
    intro side'
    obtain rfl | rfl := eq_or_eq_other side side'
    · rw [hpc]
      exact ⟨hcreated, hi⟩
    · rw [hother]
      exact (h.at_pc side.other).mono (h.working_other hown) (fun _ ↦ hcreated) hle hlast
  case lead =>
    obtain hstart | rfl | hahead := hlead
    · exact .inl hstart
    · exact .inr ⟨side, by rw [hpc]; rfl⟩
    · exact .inr ⟨side.other, by rw [hother]; exact hahead⟩
  case alone =>
    intro side' hfailed
    obtain rfl | rfl := eq_or_eq_other side side'
    · rw [hpc] at hfailed
      cases hfailed
    · rw [hother] at hfailed
      rw [other_other, hpc]
      exact congrArg some (halone hfailed)
  case owner => exact nofun

theorem Inv.create (h : s.Inv k n) (hdb : s.db.migrations = none) (htx : s.tx = none) :
    Inv k n ({ s with db := { s.db with migrations := some .empty }, tx := none }.goto side (.check 0)) := by
  have hn : n = 0 := h.db.new hdb
  apply h.write
  case hdb =>
    refine ⟨h.db.schema, h.db.ran, fun table htable ↦ ?_, fun hnone ↦ absurd hnone (Option.some_ne_none _)⟩
    cases htable
    rw [hn]
    rfl
  case hle => exact le_rfl
  case hle' => exact h.le
  case hlast => exact id
  case hcreated => rfl
  case hown =>
    intro staged
    rw [htx]
    exact (Option.some_ne_none _).symm
  case hi => exact Nat.zero_le n
  case hlead => exact .inr (.inl hn.symm)
  case halone => exact fun _ ↦ hn.symm

/-- A transaction for a migration that is on record fails.  The other connection is the one that
recorded it, and is ahead. -/
theorem Inv.fail {i : Nat} (h : s.Inv k n) (hown : ∀ staged, s.tx ≠ some (side.other, staged))
    (hindex : (s.pc side).index = some i) (hstart : k ≤ i) (hstale : i < n) (e : SqlFailure) :
    Inv k n (s.fail side e) := by
  have hpc : (s.fail side e).pc side = .returned (.error e) := goto_pc _ _ _
  have hother : (s.fail side e).pc side.other = s.pc side.other := goto_pc_other _ _ _
  have hahead : (s.pc side.other).index = some n := by
    obtain hn | ⟨side', hlead⟩ := h.lead
    · omega
    · obtain rfl | rfl := eq_or_eq_other side side'
      · rw [hindex] at hlead
        cases hlead
        exact absurd hstale (lt_irrefl _)
      · exact hlead
  constructor
  case db => exact h.db
  case start_le => exact h.start_le
  case le => exact h.le
  case at_pc =>
    intro side'
    obtain rfl | rfl := eq_or_eq_other side side'
    · rw [hpc]
      trivial
    · rw [hother]
      exact (h.at_pc side.other).congr rfl (.inr (h.working_other hown))
  case lead => exact .inr ⟨side.other, by rw [hother]; exact hahead⟩
  case alone =>
    intro side' hfailed
    obtain rfl | rfl := eq_or_eq_other side side'
    · rw [hother]
      exact hahead
    · rw [hother] at hfailed
      have halone := h.alone side.other hfailed
      rw [other_other, hindex] at halone
      cases halone
      exact absurd hstale (lt_irrefl _)
  case owner => exact nofun

theorem Inv.commit {m : Migration} {staged : Database} (h : s.Inv k n) (htx : s.tx = some (side, staged))
    (hpending : s.Pending k n n m) (hcreated : staged.migrations.isSome) (hstaged : staged.Holds (n + 1)) :
    Inv k (n + 1) ({ s with db := staged, tx := none }.goto side (.check (n + 1))) := by
  have hlt : n < getMigrations.length := (List.getElem?_eq_some_iff.mp hpending.migration).1
  apply h.write
  case hdb => exact hstaged
  case hle => exact Nat.le_succ n
  case hle' => exact hlt
  case hlast => exact fun hlast ↦ absurd hlast hlt.ne
  case hcreated => exact hcreated
  case hown => exact owns htx
  case hi => exact le_rfl
  case hlead => exact .inr (.inl rfl)
  case halone => exact fun _ ↦ rfl

/-- One statement of either connection. -/
theorem Inv.step (h : s.Inv k n) (side : Side) : ∃ n', (s.step side).Inv k n' := by
  have hmoves := h.moves side
  generalize s.step side = s' at hmoves ⊢
  cases hmoves with
  | stays pc hpc hstays => exact ⟨n, h⟩
  | creates hpc hdb htx => exact ⟨n, h.create hdb htx⟩
  | goes pc next hpc hout hwork hbegin hout' hfailed hat hindex =>
      refine ⟨n, h.goto (.inl rfl) hat hfailed (hpc ▸ hindex) fun owner staged htx ↦ ?_⟩
      have hworking := h.owner owner staged htx
      obtain rfl | rfl := eq_or_eq_other side owner
      · rw [hpc] at hworking
        exact absurd hout hworking
      · exact .inr ⟨rfl, hworking⟩
  | begins i m hpc htx =>
      have hat := h.at_pc side
      rw [hpc] at hat
      have hpending : s.Pending k n i m := hat
      have hout : (s.pc side.other).working = none := by
        apply h.working_other
        rw [htx]
        exact fun _ ↦ (Option.some_ne_none _).symm
      refine ⟨n, h.goto (.inr hout) ?_ not_false (hpc ▸ id) fun owner staged hstaged ↦ ?_⟩
      · refine ⟨⟨hpending.created, hpending.start_le, hpending.le, hpending.migration⟩, s.db, rfl, rfl, ?_⟩
        rintro rfl
        rw [h.db.schema]
        exact ⟨exec_migration hpending.migration, h.db.ran⟩
      · cases hstaged
        exact .inl ⟨rfl, Option.some_ne_none m⟩
  | works pc next m before staged hpc htx hwork hin hin' hat hindex =>
      have hout := h.working_other (owns htx)
      refine ⟨n, h.goto (.inr hout) hat (Pc.not_failed_of_working hin') ?_ fun owner staged hstaged ↦ ?_⟩
      · rw [hpc, hindex]
        exact id
      · cases hstaged
        exact .inl ⟨rfl, hin' ▸ Option.some_ne_none m⟩
  | fails pc i m before e hpc htx hin hindex hpending hstale =>
      exact ⟨n, h.fail (owns htx) (hpc ▸ hindex) hpending.start_le hstale e⟩
  | commits m staged hpc htx hpending hcreated hstaged =>
      exact ⟨n + 1, h.commit htx hpending hcreated hstaged⟩

/-! ## Transactions for what is on record -/

/-- The call has not failed, and is in no transaction for a migration that is on record. -/
def CleanAt (s : Openers) (side : Side) : Prop :=
  ¬ (s.pc side).Failed ∧ ∀ m, (s.pc side).working = some m → ¬ s.db.Recorded m.name

def Clean (s : Openers) : Prop := ∀ side, s.CleanAt side

/-- A transaction is begun only for a migration that is still not on record. -/
def BeginsFresh (s : Openers) (side : Side) : Prop :=
  ∀ i m, s.pc side = .begin i m → s.tx = none → ¬ s.db.Recorded m.name

theorem clean_iff (side : Side) : s.Clean ↔ s.CleanAt side ∧ s.CleanAt side.other := by
  refine ⟨fun h ↦ ⟨h side, h side.other⟩, fun h side' ↦ ?_⟩
  obtain rfl | rfl := eq_or_eq_other side side'
  · exact h.1
  · exact h.2

theorem cleanAt_of_working_none {side : Side} (hout : (s.pc side).working = none) :
    s.CleanAt side ↔ ¬ (s.pc side).Failed := by
  refine and_iff_left fun m hm ↦ ?_
  rw [hout] at hm
  cases hm

theorem cleanAt_congr {s' : Openers} {side : Side} (hpc : s'.pc side = s.pc side)
    (hdb : s'.db = s.db ∨ (s.pc side).working = none) : s'.CleanAt side ↔ s.CleanAt side := by
  obtain hdb | hout := hdb
  · unfold CleanAt
    rw [hpc, hdb]
  · rw [cleanAt_of_working_none hout, cleanAt_of_working_none (hpc ▸ hout), hpc]

theorem cleanAt_of_working {side : Side} {m : Migration} (hin : (s.pc side).working = some m) :
    s.CleanAt side ↔ ¬ s.db.Recorded m.name := by
  refine ⟨fun h ↦ h.2 m hin, fun h ↦ ⟨Pc.not_failed_of_working hin, fun m' hm' ↦ ?_⟩⟩
  rw [hin] at hm'
  cases hm'
  exact h

theorem beginsFresh_of_ne (h : ∀ i m, s.pc side ≠ .begin i m) : s.BeginsFresh side :=
  fun i m hpc ↦ absurd hpc (h i m)

/-- Both connections, from each of them. -/
theorem clean_step_of {s' : Openers} (hother : s'.CleanAt side.other ↔ s.CleanAt side.other)
    (hside : s'.CleanAt side ↔ s.CleanAt side ∧ s.BeginsFresh side) :
    s'.Clean ↔ s.Clean ∧ s.BeginsFresh side := by
  rw [clean_iff side, clean_iff side, hother, hside, and_right_comm]

/-- A step ends clean exactly when it starts clean and begins no transaction for what is on record. -/
theorem Inv.clean_step_iff (h : s.Inv k n) (side : Side) :
    (s.step side).Clean ↔ s.Clean ∧ s.BeginsFresh side := by
  have hmoves := h.moves side
  generalize s.step side = s' at hmoves ⊢
  cases hmoves with
  | stays pc hpc hstays =>
      refine (and_iff_left fun i m hbegin htx ↦ ?_).symm
      rw [hpc] at hbegin
      subst hbegin
      obtain hreturned | ⟨htx', -⟩ := hstays
      · cases hreturned
      · exact absurd htx htx'
  | creates hpc hdb htx =>
      have hout : (s.pc side.other).working = none := by
        apply h.working_other
        rw [htx]
        exact fun _ ↦ (Option.some_ne_none _).symm
      refine clean_step_of (cleanAt_congr (goto_pc_other _ _ _) (.inr hout)) ?_
      rw [cleanAt_of_working_none (by rw [goto_pc]; rfl), cleanAt_of_working_none (by rw [hpc]; rfl), goto_pc, hpc]
      exact iff_of_true not_false ⟨not_false, beginsFresh_of_ne (by simp [hpc])⟩
  | goes pc next hpc hout hwork hbegin hout' hfailed hat hindex =>
      refine clean_step_of (cleanAt_congr (goto_pc_other _ _ _) (.inl rfl)) ?_
      rw [cleanAt_of_working_none (by rw [goto_pc]; exact hout'), cleanAt_of_working_none (by rw [hpc]; exact hout),
        goto_pc, hpc]
      refine iff_of_true hfailed ⟨Pc.not_failed_of_work (Nat.zero_lt_of_lt hwork), beginsFresh_of_ne ?_⟩
      rw [hpc]
      exact hbegin
  | begins i m hpc htx =>
      refine clean_step_of (cleanAt_congr (goto_pc_other _ _ _) (.inl rfl)) ?_
      rw [cleanAt_of_working (m := m) (by rw [goto_pc]; rfl), cleanAt_of_working_none (by rw [hpc]; rfl), hpc]
      constructor
      · intro hnot
        refine ⟨not_false, fun i' m' hpc' _ ↦ ?_⟩
        rw [hpc] at hpc'
        cases hpc'
        exact hnot
      · exact fun hclean ↦ hclean.2 i m hpc htx
  | works pc next m before staged hpc htx hwork hin hin' hat hindex =>
      refine clean_step_of (cleanAt_congr (goto_pc_other _ _ _) (.inl rfl)) ?_
      rw [cleanAt_of_working (by rw [goto_pc]; exact hin'), cleanAt_of_working (by rw [hpc]; exact hin)]
      refine (and_iff_left (beginsFresh_of_ne ?_)).symm
      rw [hpc]
      exact Pc.not_begin_of_working hin
  | fails pc i m before e hpc htx hin hindex hpending hstale =>
      have hrecorded : s.db.Recorded m.name :=
        (h.db.recorded_iff hpending.created hpending.migration).mpr hstale
      refine iff_of_false (fun hclean ↦ ?_) fun hclean ↦ ?_
      · apply (hclean side).1
        rw [Openers.fail, goto_pc]
        trivial
      · exact (hclean.1 side).2 m (hpc ▸ hin) hrecorded
  | commits m staged hpc htx hpending hcreated hstaged =>
      have hfresh : ¬ s.db.Recorded m.name := by
        rw [h.db.recorded_iff hpending.created hpending.migration]
        exact lt_irrefl n
      refine clean_step_of (cleanAt_congr (goto_pc_other _ _ _) (.inr (h.working_other (owns htx)))) ?_
      rw [cleanAt_of_working_none (by rw [goto_pc]; rfl), cleanAt_of_working (m := m) (by rw [hpc]; rfl), goto_pc]
      exact iff_of_true not_false ⟨hfresh, beginsFresh_of_ne (by simp [hpc])⟩

/-! ## Both calls return -/

def Finished (s : Openers) : Prop := ∀ side, (s.pc side).Returned

/-- A bound on the statements that the two calls have left to run. -/
def work (s : Openers) : Nat := (s.pc .first).work + (s.pc .second).work

theorem work_eq (s : Openers) (side : Side) : s.work = (s.pc side).work + (s.pc side.other).work := by
  cases side with
  | first => rfl
  | second => exact Nat.add_comm _ _

/-- Only a call that has returned, or waits for the lock, makes no progress. -/
theorem Inv.work_step (h : s.Inv k n) (side : Side) :
    ((s.pc side).Returned ∨ s.tx ≠ none ∧ (s.pc side).working = none) ∨ (s.step side).work < s.work := by
  have hmoves := h.moves side
  generalize s.step side = s' at hmoves ⊢
  cases hmoves with
  | stays pc hpc hstays => exact .inl (hpc ▸ hstays)
  | creates hpc hdb htx =>
      right
      rw [work_eq _ side, work_eq _ side, goto_pc, goto_pc_other, hpc]
      exact Nat.add_lt_add_right (Nat.lt_succ_self _) _
  | goes pc next hpc hout hwork hbegin hout' hfailed hat hindex =>
      right
      rw [work_eq _ side, work_eq _ side, goto_pc, goto_pc_other, hpc]
      exact Nat.add_lt_add_right hwork _
  | begins i m hpc htx =>
      right
      rw [work_eq _ side, work_eq _ side, goto_pc, goto_pc_other, hpc]
      exact Nat.add_lt_add_right (Nat.lt_succ_self _) _
  | works pc next m before staged hpc htx hwork hin hin' hat hindex =>
      right
      rw [work_eq _ side, work_eq _ side, goto_pc, goto_pc_other, hpc]
      exact Nat.add_lt_add_right hwork _
  | fails pc i m before e hpc htx hin hindex hpending hstale =>
      right
      rw [work_eq _ side, work_eq _ side, Openers.fail, goto_pc, goto_pc_other, hpc]
      exact Nat.add_lt_add_right (Pc.work_pos_of_working hin) _
  | commits m staged hpc htx hpending hcreated hstaged =>
      right
      rw [work_eq _ side, work_eq _ side, goto_pc, goto_pc_other, hpc]
      exact Nat.add_lt_add_right (Nat.lt_succ_self _) _

theorem Inv.progress (h : s.Inv k n) (hgoes : ¬ s.Finished) : ∃ side, (s.step side).work < s.work := by
  cases htx : s.tx with
  | some tx =>
      -- the connection that has the lock goes on
      obtain ⟨owner, staged⟩ := tx
      have hin := h.owner owner staged htx
      obtain (hreturned | ⟨-, hout⟩) | hwork := h.work_step owner
      · cases hpc : s.pc owner with
        | returned result =>
            rw [hpc] at hin
            exact absurd rfl hin
        | _ =>
            rw [hpc] at hreturned
            cases hreturned
      · exact absurd hout hin
      · exact ⟨owner, hwork⟩
  | none =>
      obtain ⟨side, hside⟩ := not_forall.mp hgoes
      obtain (hreturned | ⟨hlocked, -⟩) | hwork := h.work_step side
      · exact absurd hreturned hside
      · exact absurd htx hlocked
      · exact ⟨side, hwork⟩

theorem Inv.finishes (h : s.Inv k n) : ∃ more, (run Openers.step s more).Finished := by
  induction hw : s.work using Nat.strong_induction_on generalizing s n with
  | _ w ih =>
      by_cases hfinished : s.Finished
      · exact ⟨[], hfinished⟩
      · obtain ⟨side, hless⟩ := h.progress hfinished
        obtain ⟨n', hnext⟩ := h.step side
        obtain ⟨more, hmore⟩ := ih _ (hw ▸ hless) hnext rfl
        exact ⟨side :: more, hmore⟩

/-- Of two calls that have returned one has succeeded, and all migrations are on record. -/
theorem Inv.last_of_finished (h : s.Inv k n) (hfinished : s.Finished) : n = getMigrations.length := by
  have hok (side : Side) (hfailed : ¬ (s.pc side).Failed) : n = getMigrations.length := by
    have hreturned := hfinished side
    have hat := h.at_pc side
    cases hpc : s.pc side with
    | returned result =>
        rw [hpc] at hat hfailed
        cases result with
        | ok u => exact hat
        | error e => exact absurd trivial hfailed
    | _ =>
        rw [hpc] at hreturned
        cases hreturned
  by_cases hfailed : (s.pc .first).Failed
  · have halone : (s.pc .second).index = some n := h.alone .first hfailed
    apply hok .second
    intro hfailed'
    cases hpc : s.pc .second with
    | returned result =>
        rw [hpc] at hfailed' halone
        cases result with
        | ok u => cases hfailed'
        | error e => cases halone
    | _ =>
        rw [hpc] at hfailed'
        cases hfailed'
  · exact hok .first hfailed

theorem clean_iff_of_finished (hfinished : s.Finished) :
    s.Clean ↔ ∀ side, s.pc side = .returned (.ok ()) := by
  apply forall_congr'
  intro side
  have hreturned := hfinished side
  unfold CleanAt
  cases hpc : s.pc side with
  | returned result =>
      cases result with
      | ok u => exact iff_of_true ⟨not_false, fun _ hm ↦ by cases hm⟩ rfl
      | error e => exact iff_of_false (fun h ↦ h.1 trivial) (by simp)
  | _ =>
      rw [hpc] at hreturned
      cases hreturned

/-- Two connections that open a database: a new one, or one with the first migrations applied. -/
def start : Option (Fin (getMigrations.length + 1)) → Openers
  | none => { db := {} }
  | some k =>
      { db :=
          { schema := schemaAfter k
            migrations := some ⟨names.take k, nodup_names.sublist (List.take_sublist k names)⟩
            ran := names.take k } }

theorem inv_start (applied : Option (Fin (getMigrations.length + 1))) :
    ∃ k, (start applied).Inv k k := by
  cases applied with
  | none =>
      refine ⟨0, ⟨rfl, rfl, nofun, fun _ ↦ rfl⟩, le_rfl, Nat.zero_le _, fun _ ↦ trivial, .inl rfl, nofun, nofun⟩
  | some k =>
      refine ⟨k, ⟨rfl, rfl, fun table htable ↦ ?_, nofun⟩, le_rfl, Nat.le_of_lt_succ k.isLt, fun _ ↦ trivial,
        .inl rfl, nofun, nofun⟩
      cases htable
      rfl

end Openers

/-- However the statements of two connections are interleaved: the migrations whose SQL has taken effect are
the first ones of the list, each once and in order; both calls can always go on until they return; and once
they have, all migrations have taken effect, and both calls have succeeded exactly when none began a
transaction for a migration that was on record by then. -/
theorem migrations_run_iff (applied : Option (Fin (getMigrations.length + 1))) (schedule : List Side) :
    (∃ n, (run Openers.step (.start applied) schedule).db.ran = names.take n ∧
      (run Openers.step (.start applied) schedule).db.schema = schemaAfter n) ∧
    (∃ more, (run Openers.step (.start applied) (schedule ++ more)).Finished) ∧
    ((run Openers.step (.start applied) schedule).Finished →
      (run Openers.step (.start applied) schedule).db.ran = names ∧
      ((∀ side, (run Openers.step (.start applied) schedule).pc side = .returned (.ok ())) ↔
        Along Openers.step Openers.BeginsFresh (.start applied) schedule)) := by
  obtain ⟨k, hstart⟩ := Openers.inv_start applied
  have hstep (s : Openers) (side : Side) (hs : ∃ n, s.Inv k n) : ∃ n, (s.step side).Inv k n := by
    obtain ⟨n, hn⟩ := hs
    exact hn.step side
  obtain ⟨n, h⟩ := run_invariant hstep ⟨k, hstart⟩ schedule
  refine ⟨⟨n, h.db.ran, h.db.schema⟩, ?_, fun hfinished ↦ ⟨?_, ?_⟩⟩
  · obtain ⟨more, hmore⟩ := h.finishes
    exact ⟨more, by rw [run_append]; exact hmore⟩
  · rw [h.db.ran, h.last_of_finished hfinished]
    exact List.take_of_length_le (List.length_map _).le
  · have hiff (s : Openers) (side : Side) (hs : ∃ n, s.Inv k n) :
        (s.step side).Clean ↔ s.Clean ∧ s.BeginsFresh side := by
      obtain ⟨n, hn⟩ := hs
      exact hn.clean_step_iff side
    have hclean : (Openers.start applied).Clean := by
      intro side
      cases applied <;> exact ⟨not_false, fun _ hm ↦ by cases hm⟩
    rw [← Openers.clean_iff_of_finished hfinished, run_iff_along hstep hiff ⟨k, hstart⟩ schedule]
    exact and_iff_right hclean

/-- Both connections see that the last migration is missing; the second waits for the first to commit it. -/
def bothSeeMissing : List Side :=
  List.replicate 9 .first ++ List.replicate 9 .second ++ List.replicate 6 .first ++ List.replicate 4 .second

theorem second_opener_fails :
    (run Openers.step (.start (some 7)) bothSeeMissing).pc .first = .returned (.ok ()) ∧
      (run Openers.step (.start (some 7)) bothSeeMissing).pc .second = .returned (.error .constraintViolation) := by
  decide +kernel

end LogosChat.Storage.Migrations
