import LogosChat.Reasoning.Sql
import Mathlib.Algebra.Order.Ring.Int
import Mathlib.Data.List.Perm.Subperm

/-!
# Reading in pages

A reader walks down the rows of a table a page at a time, each page ending where the one before it
began, while rows are deleted and added under it.  A row that is added comes after all that were there
before, so the walk meets none of them; and a row that is there from the first page to the last is met
once.
-/

namespace LogosChat.Reasoning

variable {ρ : Type} {key : ρ → Int} {rows : List ρ} {before : Int} {limit : Nat} {row : ρ}

/-! ## One page -/

variable (key) in
/-- The rows under `before`, in increasing order. -/
def rowsBelow (rows : List ρ) (before : Int) : List ρ :=
  orderBy key (rows.filter fun row ↦ key row < before)

variable (key) in
/-- The last of them, as many as `limit` allows. -/
def page (rows : List ρ) (before : Int) (limit : Nat) : List ρ :=
  (rowsBelow key rows before).drop ((rowsBelow key rows before).length - limit)

theorem mem_rowsBelow : row ∈ rowsBelow key rows before ↔ row ∈ rows ∧ key row < before := by
  simp [rowsBelow]

theorem pairwise_rowsBelow (h : rows.Pairwise fun a b ↦ key a ≠ key b) :
    (rowsBelow key rows before).Pairwise fun a b ↦ key a < key b := by
  have hsorted := pairwise_orderBy (h.filter fun row ↦ key row < before)
  exact hsorted.imp fun hlt ↦ Std.compare_eq_lt.mp hlt

theorem mem_of_mem_page (h : row ∈ page key rows before limit) : row ∈ rows ∧ key row < before :=
  mem_rowsBelow.mp (List.mem_of_mem_drop h)

theorem pairwise_page (h : rows.Pairwise fun a b ↦ key a ≠ key b) :
    (page key rows before limit).Pairwise fun a b ↦ key a < key b :=
  (pairwise_rowsBelow h).drop

theorem length_page_le : (page key rows before limit).length ≤ limit := by
  rw [page, List.length_drop]
  omega

/-- A page that is not full holds all there is. -/
theorem mem_page_of_short (hshort : (page key rows before limit).length < limit) (hrow : row ∈ rows)
    (hbelow : key row < before) : row ∈ page key rows before limit := by
  have hall : (rowsBelow key rows before).length - limit = 0 := by
    rw [page, List.length_drop] at hshort
    omega
  rw [page, hall]
  exact mem_rowsBelow.mpr ⟨hrow, hbelow⟩

/-- A page leaves out only what comes before its first row. -/
theorem mem_page_of_ge (h : rows.Pairwise fun a b ↦ key a ≠ key b) {first : ρ}
    (hfirst : first ∈ page key rows before limit) (hrow : row ∈ rows) (hbelow : key row < before)
    (hge : key first ≤ key row) : row ∈ page key rows before limit := by
  have hmem : row ∈ rowsBelow key rows before := mem_rowsBelow.mpr ⟨hrow, hbelow⟩
  have hsorted : (rowsBelow key rows before).Pairwise fun a b ↦ key a < key b := pairwise_rowsBelow h
  rw [← List.take_append_drop ((rowsBelow key rows before).length - limit) (rowsBelow key rows before)]
    at hmem hsorted
  obtain hearlier | hpage := List.mem_append.mp hmem
  · have hlt := (List.pairwise_append.mp hsorted).2.2 row hearlier first hfirst
    omega
  · exact hpage

-- a page is in increasing order
theorem head_le_of_mem_page (hdistinct : rows.Pairwise fun a b ↦ key a ≠ key b) {row other : ρ}
    (hhead : (page key rows before limit).head? = some row) (hmem : other ∈ page key rows before limit) :
    key row ≤ key other := by
  have hsorted : (page key rows before limit).Pairwise fun a b ↦ key a < key b := pairwise_page hdistinct
  obtain ⟨rest, hrest⟩ := List.head?_eq_some_iff.mp hhead
  rw [hrest] at hsorted hmem
  obtain rfl | htail := List.mem_cons.mp hmem
  · exact le_rfl
  · exact (List.rel_of_pairwise_cons hsorted htail).le

/-! ## The walk -/

/-- Where a reader stands: the pages it has read, and the bound of the next one unless it has
stopped. -/
structure Reader (ρ : Type) where
  pages : List (List ρ)
  next : Option Int

variable (key limit) in
/-- A page that is not full is the last.  Otherwise the next one ends before its first row. -/
def Reader.turn (r : Reader ρ) (p : List ρ) : Reader ρ :=
  { pages := r.pages ++ [p]
    next := if p.length < limit then none else p.head?.map key }

variable (key limit) in
/-- What a walk over `first`, the rows at its start, has met by the time of its last page, which was read
off `last`. -/
structure Walk (first last : List ρ) (r : Reader ρ) : Prop where
  sound : ∀ p ∈ r.pages, ∀ row ∈ p, row ∈ first
  increasing : ∀ p ∈ r.pages, p.Pairwise fun a b ↦ key a < key b
  descending : r.pages.Pairwise fun p q ↦ ∀ a ∈ p, ∀ b ∈ q, key b < key a
  full : r.next ≠ none → ∀ p ∈ r.pages, p.length = limit
  next_mem : r.pages ≠ [] → ∀ before ∈ r.next, ∃ row ∈ first, key row = before
  next_le : ∀ before ∈ r.next, ∀ p ∈ r.pages, ∀ row ∈ p, before ≤ key row
  covered : ∀ row ∈ last, row ∈ first → (∀ before ∈ r.next, before ≤ key row) → ∃ p ∈ r.pages, row ∈ p

variable {first last : List ρ} {r : Reader ρ}

/-- A walk that starts over all there is. -/
theorem walk_start (h : ∀ row ∈ first, key row < before) :
    Walk key limit first first { pages := [], next := some before } where
  sound := nofun
  increasing := nofun
  descending := .nil
  full _ := nofun
  next_mem hne := absurd rfl hne
  next_le _ _ := nofun
  covered row hmem _ hle := absurd (hle before rfl) (not_le.mpr (h row hmem))

theorem turn_next_eq_some {p : List ρ} {next : Int} (h : (r.turn key limit p).next = some next) :
    limit ≤ p.length ∧ ∃ row, p.head? = some row ∧ key row = next := by
  replace h : (if p.length < limit then none else p.head?.map key) = some next := h
  by_cases hshort : p.length < limit
  · rw [if_pos hshort] at h
    cases h
  · rw [if_neg hshort, Option.map_eq_some_iff] at h
    exact ⟨not_lt.mp hshort, h⟩

theorem turn_next_eq_none {p : List ρ} (hpos : 0 < limit) (h : (r.turn key limit p).next = none) :
    p.length < limit := by
  replace h : (if p.length < limit then none else p.head?.map key) = none := h
  by_contra hfull
  rw [if_neg hfull, Option.map_eq_none_iff, List.head?_eq_none_iff] at h
  subst h
  exact hfull hpos

/-- The next page, read off `rows`, when what is left of the start was there at the page before, and
nothing new is under the bound. -/
theorem Walk.turn (h : Walk key limit first last r) (hnext : before ∈ r.next) (hpos : 0 < limit)
    (hdistinct : rows.Pairwise fun a b ↦ key a ≠ key b) (hleft : ∀ row ∈ rows, row ∈ first → row ∈ last)
    (hunder : ∀ row ∈ rows, key row < before → row ∈ first) :
    Walk key limit first rows (r.turn key limit (page key rows before limit)) := by
  have hpage (row : ρ) (hmem : row ∈ page key rows before limit) : row ∈ first ∧ key row < before := by
    obtain ⟨hrow, hlt⟩ := mem_of_mem_page hmem
    exact ⟨hunder row hrow hlt, hlt⟩
  -- a fact about every page is one about the pages before and the new one
  have heach {Q : List ρ → Prop} (hold : ∀ p ∈ r.pages, Q p) (hnew : Q (page key rows before limit)) :
      ∀ p ∈ (r.turn key limit (page key rows before limit)).pages, Q p := by
    intro p hp
    obtain hp | hp := List.mem_append.mp hp
    · exact hold p hp
    · rw [List.mem_singleton.mp hp]
      exact hnew
  constructor
  case sound => exact heach h.sound fun row hmem ↦ (hpage row hmem).1
  case increasing => exact heach h.increasing (pairwise_page hdistinct)
  case descending =>
    refine List.pairwise_append.mpr ⟨h.descending, List.pairwise_singleton _ _, ?_⟩
    intro p hp q hq a ha b hb
    rw [List.mem_singleton.mp hq] at hb
    have hle := h.next_le before hnext p hp a ha
    have hlt := (hpage b hb).2
    omega
  case full =>
    intro hgoes
    obtain ⟨next, hnext'⟩ := Option.ne_none_iff_exists'.mp hgoes
    have hge := (turn_next_eq_some hnext').1
    have hle : (page key rows before limit).length ≤ limit := length_page_le
    refine heach (h.full ?_) (by omega)
    rw [hnext]
    exact Option.some_ne_none before
  case next_mem =>
    intro _ next hnext'
    obtain ⟨-, row, hhead, hkey⟩ := turn_next_eq_some hnext'
    exact ⟨row, (hpage row (List.mem_of_head? hhead)).1, hkey⟩
  case next_le =>
    intro next hnext'
    obtain ⟨-, row, hhead, hkey⟩ := turn_next_eq_some hnext'
    apply heach
    · intro p hp other hother
      have hle := h.next_le before hnext p hp other hother
      have hlt := (hpage row (List.mem_of_head? hhead)).2
      omega
    · intro other hother
      rw [← hkey]
      exact head_le_of_mem_page hdistinct hhead hother
  case covered =>
    intro row hmem hfirst hle
    by_cases hlt : key row < before
    · refine ⟨page key rows before limit, List.mem_append_right _ (List.mem_singleton_self _), ?_⟩
      cases hnext' : (r.turn key limit (page key rows before limit)).next with
      | none => exact mem_page_of_short (turn_next_eq_none hpos hnext') hmem hlt
      | some next =>
          obtain ⟨-, least, hhead, hkey⟩ := turn_next_eq_some hnext'
          have hge := hle next hnext'
          exact mem_page_of_ge hdistinct (List.mem_of_head? hhead) hmem hlt (by omega)
    · have hcovered : ∃ p ∈ r.pages, row ∈ p := by
        apply h.covered row (hleft row hmem hfirst) hfirst
        intro before' hbefore'
        rw [hnext] at hbefore'
        cases hbefore'
        omega
      obtain ⟨p, hp, hrow⟩ := hcovered
      exact ⟨p, List.mem_append_left _ hp, hrow⟩

/-- The pages together hold no row twice. -/
theorem Walk.nodup (h : Walk key limit first last r) : r.pages.flatten.Nodup := by
  apply List.nodup_flatten.mpr
  constructor
  · intro p hp
    refine (h.increasing p hp).imp fun hlt heq ↦ ?_
    rw [heq] at hlt
    exact lt_irrefl _ hlt
  · refine h.descending.imp fun hbelow row hp hq ↦ ?_
    exact lt_irrefl _ (hbelow row hp row hq)

/-- As long as the reader goes on, its pages are full, and together no longer than the start. -/
theorem Walk.length_mul_le (h : Walk key limit first last r) (hgoes : r.next ≠ none) :
    r.pages.length * limit ≤ first.length := by
  have hlengths : r.pages.map List.length = List.replicate r.pages.length limit := by
    rw [List.eq_replicate_iff]
    refine ⟨List.length_map _, fun n hn ↦ ?_⟩
    obtain ⟨p, hp, rfl⟩ := List.mem_map.mp hn
    exact h.full hgoes p hp
  have hsum : r.pages.flatten.length = r.pages.length * limit := by
    rw [List.length_flatten, hlengths, List.sum_replicate_nat]
  have hsubset : r.pages.flatten ⊆ first := by
    intro row hrow
    obtain ⟨p, hp, hmem⟩ := List.mem_flatten.mp hrow
    exact h.sound p hp row hmem
  rw [← hsum]
  exact (List.subperm_of_subset h.nodup hsubset).length_le

end LogosChat.Reasoning
