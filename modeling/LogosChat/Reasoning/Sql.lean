import LogosChat.Reasoning.Bytes
import Mathlib.Data.List.Basic
import Mathlib.Data.List.Nodup
import Mathlib.Data.List.Pairwise

/-!
# A fragment of SQL

Values with `NULL`, the three-valued truth of a condition, and tables under a primary key.  A condition
selects a row only when it is true: neither false nor unknown will do.
-/

namespace LogosChat.Reasoning

/-! ## Values and conditions -/

inductive SqlValue where
  | null
  | integer (value : Int)
  | text (value : String)
  | blob (value : Bytes)
deriving DecidableEq

/-- The truth of a condition; `none` is unknown. -/
abbrev Truth := Option Bool

namespace Truth

def and : Truth → Truth → Truth
  | some false, _ => some false
  | _, some false => some false
  | some true, some true => some true
  | _, _ => none

def or : Truth → Truth → Truth
  | some true, _ => some true
  | _, some true => some true
  | some false, some false => some false
  | _, _ => none

variable {a b : Truth}

@[simp] theorem and_eq_true_iff : a.and b = some true ↔ a = some true ∧ b = some true := by
  rcases a with _ | _ | _ <;> rcases b with _ | _ | _ <;> decide

@[simp] theorem or_eq_true_iff : a.or b = some true ↔ a = some true ∨ b = some true := by
  rcases a with _ | _ | _ <;> rcases b with _ | _ | _ <;> decide

end Truth

namespace SqlValue

/-- `=`: unknown as soon as one side is `NULL`; values of different classes differ. -/
def eq : SqlValue → SqlValue → Truth
  | .null, _ => none
  | _, .null => none
  | a, b => some (a = b)

/-- `<`: unknown as soon as one side is `NULL`; integers come before texts, and texts before blobs. -/
def lt : SqlValue → SqlValue → Truth
  | .null, _ => none
  | _, .null => none
  | .integer a, .integer b => some (a < b)
  | .integer _, _ => some true
  | .text a, .text b => some (a < b)
  | .text _, .blob _ => some true
  | .text _, .integer _ => some false
  | .blob a, .blob b => some (a < b)
  | .blob _, _ => some false

/-- `length`: the bytes of a blob, the characters of a text. -/
def length : SqlValue → SqlValue
  | .null => .null
  | .integer value => .integer (toString value).length
  | .text value => .integer value.length
  | .blob value => .integer value.length

/-- `substr` of a blob, from a first byte on that is not before the first.  Of an empty blob it is
`NULL`. -/
def substr : SqlValue → SqlValue → SqlValue → SqlValue
  | .blob value, .integer first, .integer count =>
      if value = [] then .null else .blob ((value.drop (first - 1).toNat).take count.toNat)
  | _, _, _ => .null

@[simp] theorem text_eq_iff {a b : String} : (text a).eq (text b) = some true ↔ a = b := by
  simp [eq]

@[simp] theorem integer_eq_iff {a b : Int} : (integer a).eq (integer b) = some true ↔ a = b := by
  simp [eq]

@[simp] theorem integer_lt_iff {a b : Int} : (integer a).lt (integer b) = some true ↔ a < b := by
  simp [lt]

@[simp] theorem blob_eq_iff {a b : Bytes} : (blob a).eq (blob b) = some true ↔ a = b := by
  simp [eq]

end SqlValue

/-! ## Tables -/

/-- Rows of which no two have the same primary key. -/
structure Table (ρ κ : Type) (key : ρ → κ) where
  rows : List ρ
  primaryKey : rows.Pairwise fun a b ↦ key a ≠ key b

namespace Table

variable {ρ κ : Type} {key : ρ → κ} (t : Table ρ κ key)

def empty : Table ρ κ key := ⟨[], .nil⟩

/-- The table as a query without `ORDER BY` may come upon it: its rows in any order. -/
structure Scan extends Table ρ κ key where
  perm : rows.Perm t.rows

/-- `SELECT … WHERE`: the rows of which the condition is true. -/
def select (condition : ρ → Truth) : List ρ :=
  t.rows.filter fun row ↦ condition row = some true

/-- `DELETE … WHERE`. -/
def delete (condition : ρ → Truth) : Table ρ κ key where
  rows := t.rows.filter fun row ↦ condition row ≠ some true
  primaryKey := t.primaryKey.filter _

/-- `INSERT`: a second row of the same primary key is refused. -/
def insert [DecidableEq κ] (row : ρ) : Option (Table ρ κ key) :=
  if h : ∀ other ∈ t.rows, key other ≠ key row then
    some
      { rows := t.rows ++ [row]
        primaryKey := by
          refine List.pairwise_append.mpr ⟨t.primaryKey, List.pairwise_singleton _ _, ?_⟩
          intro a ha b hb
          rw [List.mem_singleton.mp hb]
          exact h a ha }
  else none

/-- `INSERT OR REPLACE`: a row of the same primary key goes first. -/
def insertOrReplace [DecidableEq κ] (row : ρ) : Table ρ κ key where
  rows := t.rows.filter (fun other ↦ key other ≠ key row) ++ [row]
  primaryKey := by
    refine List.pairwise_append.mpr ⟨t.primaryKey.filter _, List.pairwise_singleton _ _, ?_⟩
    intro a ha b hb
    rw [List.mem_singleton.mp hb]
    simpa using (List.mem_filter.mp ha).2

variable {t} {condition : ρ → Truth} {row : ρ}

@[simp] theorem mem_select : row ∈ t.select condition ↔ row ∈ t.rows ∧ condition row = some true := by
  simp [select]

@[simp] theorem mem_delete :
    row ∈ (t.delete condition).rows ↔ row ∈ t.rows ∧ condition row ≠ some true := by
  simp [delete]

theorem insert_eq_some [DecidableEq κ] {t' : Table ρ κ key} (h : t.insert row = some t') :
    (∀ other ∈ t.rows, key other ≠ key row) ∧ t'.rows = t.rows ++ [row] := by
  unfold insert at h
  split at h
  case isTrue hfresh =>
    cases h
    exact ⟨hfresh, rfl⟩
  case isFalse => cases h

theorem insert_eq_none_iff [DecidableEq κ] :
    t.insert row = none ↔ ∃ other ∈ t.rows, key other = key row := by
  unfold insert
  split
  case isTrue hfresh => exact ⟨nofun, fun ⟨other, hmem, heq⟩ ↦ absurd heq (hfresh other hmem)⟩
  case isFalse hclash =>
    push Not at hclash
    exact iff_of_true rfl hclash

@[simp] theorem mem_insertOrReplace [DecidableEq κ] {other : ρ} :
    other ∈ (t.insertOrReplace row).rows ↔ other = row ∨ other ∈ t.rows ∧ key other ≠ key row := by
  simp [insertOrReplace, or_comm]

end Table

/-! ## Automatic keys -/

/-- The largest key an integer primary key can have, `i64::MAX`. -/
def maxRowid : Int := 9223372036854775807

/-- A table under an `INTEGER PRIMARY KEY AUTOINCREMENT`.  The high-water mark is kept beside the rows:
no key above it was ever given. -/
structure AutoTable (ρ : Type) (key : ρ → Int) extends Table ρ Int key where
  sequence : Int
  sequence_le : sequence ≤ maxRowid
  le_sequence : ∀ row ∈ rows, key row ≤ sequence

namespace AutoTable

variable {ρ : Type} {key : ρ → Int} (t : AutoTable ρ key)

def empty : AutoTable ρ key where
  toTable := .empty
  sequence := 0
  sequence_le := by decide
  le_sequence := nofun

theorem pairwise_next {row : ρ} (hrow : key row = t.sequence + 1) :
    (t.rows ++ [row]).Pairwise fun a b ↦ key a ≠ key b := by
  refine List.pairwise_append.mpr ⟨t.primaryKey, List.pairwise_singleton _ _, ?_⟩
  intro a ha b hb
  have hle := t.le_sequence a ha
  rw [List.mem_singleton.mp hb]
  omega

theorem le_next {row : ρ} (hrow : key row = t.sequence + 1) (other : ρ) (hmem : other ∈ t.rows ++ [row]) :
    key other ≤ t.sequence + 1 := by
  obtain hold | hnew := List.mem_append.mp hmem
  · have hle := t.le_sequence other hold
    omega
  · rw [List.mem_singleton.mp hnew]
    omega

/-- `INSERT` of a row without its key, which is one more than the mark.  There is none after the largest
key. -/
def insert (row : Int → ρ) (hkey : ∀ rowid, key (row rowid) = rowid) : Option (AutoTable ρ key) :=
  if h : t.sequence < maxRowid then
    some
      { rows := t.rows ++ [row (t.sequence + 1)]
        primaryKey := t.pairwise_next (hkey _)
        sequence := t.sequence + 1
        sequence_le := h
        le_sequence := t.le_next (hkey _) }
  else none

/-- `DELETE … WHERE` leaves the mark. -/
def delete (condition : ρ → Truth) : AutoTable ρ key where
  toTable := t.toTable.delete condition
  sequence := t.sequence
  sequence_le := t.sequence_le
  le_sequence row hmem := t.le_sequence row (Table.mem_delete.mp hmem).1

variable {t}

theorem insert_eq_some {row : Int → ρ} {hkey : ∀ rowid, key (row rowid) = rowid} {t' : AutoTable ρ key}
    (h : t.insert row hkey = some t') :
    t.sequence < maxRowid ∧ t'.sequence = t.sequence + 1 ∧ t'.rows = t.rows ++ [row t'.sequence] := by
  unfold insert at h
  split at h
  case isTrue hroom =>
    cases h
    exact ⟨hroom, rfl, rfl⟩
  case isFalse => cases h

theorem insert_of_lt (row : Int → ρ) (hkey : ∀ rowid, key (row rowid) = rowid)
    (h : t.sequence < maxRowid) : ∃ t', t.insert row hkey = some t' := by
  unfold insert
  rw [dif_pos h]
  exact ⟨_, rfl⟩

end AutoTable

/-! ## Order -/

section OrderBy

variable {ρ κ : Type} [Ord κ] [Std.TransOrd κ] [Std.LawfulEqOrd κ] {key : ρ → κ}

/-- `ORDER BY`. -/
def orderBy (key : ρ → κ) (rows : List ρ) : List ρ :=
  rows.mergeSort fun a b ↦ (compare (key a) (key b)).isLE

omit [Std.TransOrd κ] [Std.LawfulEqOrd κ] in
@[simp] theorem mem_orderBy {rows : List ρ} {row : ρ} : row ∈ orderBy key rows ↔ row ∈ rows :=
  List.mem_mergeSort

omit [Std.TransOrd κ] [Std.LawfulEqOrd κ] in
theorem orderBy_map {σ : Type} (f : σ → ρ) (rows : List σ) :
    orderBy key (rows.map f) = (orderBy (key ∘ f) rows).map f := by
  symm
  apply List.map_mergeSort
  intro a _ b _
  rfl

/-- Rows with different keys come out strictly increasing. -/
theorem pairwise_orderBy {rows : List ρ} (h : rows.Pairwise fun a b ↦ key a ≠ key b) :
    (orderBy key rows).Pairwise fun a b ↦ compare (key a) (key b) = .lt := by
  have hle : (orderBy key rows).Pairwise fun a b ↦ (compare (key a) (key b)).isLE = true := by
    refine List.pairwise_mergeSort (fun a b c hab hbc ↦ ?_) (fun a b ↦ ?_) rows
    · exact Std.TransCmp.isLE_trans hab hbc
    · rw [@Std.OrientedCmp.eq_swap _ compare _ (key b) (key a)]
      cases compare (key a) (key b) <;> rfl
  have hne : (orderBy key rows).Pairwise fun a b ↦ key a ≠ key b :=
    h.perm (List.mergeSort_perm rows _).symm fun hab ↦ hab.symm
  refine (hle.and hne).imp fun hab ↦ ?_
  rcases hcmp : compare (key _) (key _) with _ | _ | _
  · rfl
  · exact absurd (Std.LawfulEqOrd.eq_of_compare hcmp) hab.2
  · rw [hcmp] at hab
    cases hab.1

/-- `ORDER BY … DESC`. -/
def orderByDesc (key : ρ → κ) (rows : List ρ) : List ρ :=
  rows.mergeSort fun a b ↦ (compare (key b) (key a)).isLE

theorem orderByDesc_eq_reverse {rows : List ρ} (h : rows.Pairwise fun a b ↦ key a ≠ key b) :
    orderByDesc key rows = (orderBy key rows).reverse := by
  have hdesc : (orderByDesc key rows).Pairwise fun a b ↦ (compare (key b) (key a)).isLE = true := by
    refine List.pairwise_mergeSort (fun a b c hab hbc ↦ ?_) (fun a b ↦ ?_) rows
    · exact Std.TransCmp.isLE_trans hbc hab
    · rw [@Std.OrientedCmp.eq_swap _ compare _ (key b) (key a)]
      cases compare (key a) (key b) <;> rfl
  have hreverse : (orderBy key rows).reverse.Pairwise fun a b ↦ (compare (key b) (key a)).isLE = true := by
    rw [List.pairwise_reverse]
    exact (pairwise_orderBy h).imp fun hab ↦ by rw [hab]; rfl
  have hperm : (orderByDesc key rows).Perm (orderBy key rows).reverse :=
    (List.mergeSort_perm rows _).trans
      ((List.mergeSort_perm rows _).symm.trans (List.reverse_perm _).symm)
  refine hperm.eq_of_pairwise (fun a b ha hb hab hba ↦ ?_) hdesc hreverse
  have hkey : key a = key b :=
    Std.LawfulEqOrd.eq_of_compare (Std.OrientedCmp.isLE_antisymm hba hab)
  have hnodup : (rows.map key).Nodup := List.pairwise_map.mpr h
  refine List.inj_on_of_nodup_map hnodup (List.mem_mergeSort.mp ha) ?_ hkey
  exact mem_orderBy.mp (List.mem_reverse.mp hb)

end OrderBy

end LogosChat.Reasoning
