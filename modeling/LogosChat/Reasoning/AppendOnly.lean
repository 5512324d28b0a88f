import Mathlib.Data.List.Infix

/-!
# Append-only registers

A register that takes a new value only when it strictly extends the one it holds.  Values are lists,
ordered by prefix.  The register never loses what it held, and fed with values of one history it
ends with the longest of them, whatever the order.
-/

namespace LogosChat.Reasoning

variable {β : Type} [DecidableEq β]

def StrictExtends (new old : List β) : Prop :=
  old <+: new ∧ new ≠ old

instance (new old : List β) : Decidable (StrictExtends new old) :=
  inferInstanceAs (Decidable (old <+: new ∧ new ≠ old))

omit [DecidableEq β] in
theorem StrictExtends.trans {new mid old : List β} (hnew : StrictExtends new mid)
    (hmid : StrictExtends mid old) : StrictExtends new old := by
  refine ⟨hmid.1.trans hnew.1, ?_⟩
  intro heq
  -- `mid` would sit between two copies of `old`
  subst heq
  exact hmid.2 (antisymm hnew.1 hmid.1)

def adopt (held candidate : List β) : List β :=
  if StrictExtends candidate held then candidate else held

/-- Two values of one history. -/
def Comparable (x y : List β) : Prop :=
  x <+: y ∨ y <+: x

instance (x y : List β) : Decidable (Comparable x y) :=
  inferInstanceAs (Decidable (x <+: y ∨ y <+: x))

/-- The newest value of a history: one of them, and an extension of each. -/
structure IsNewest (xs : List (List β)) (x : List β) : Prop where
  mem : x ∈ xs
  extends_all : ∀ y ∈ xs, y <+: x

omit [DecidableEq β] in
theorem IsNewest.unique {xs ys : List (List β)} {x y : List β} (hx : IsNewest xs x)
    (hy : IsNewest ys y) (hsame : ∀ z, z ∈ xs ↔ z ∈ ys) : x = y := by
  have hxy : x <+: y := hy.extends_all x ((hsame x).mp hx.mem)
  have hyx : y <+: x := hx.extends_all y ((hsame y).mpr hy.mem)
  exact antisymm hxy hyx

theorem prefix_adopt (held candidate : List β) : held <+: adopt held candidate := by
  unfold adopt
  by_cases h : StrictExtends candidate held
  · rw [if_pos h]
    exact h.1
  · rw [if_neg h]

theorem adopt_mem (held candidate : List β) : adopt held candidate ∈ [held, candidate] := by
  unfold adopt
  by_cases h : StrictExtends candidate held
  · simp [if_pos h]
  · simp [if_neg h]

-- a candidate of the same history is refused only when the register is already past it
theorem candidate_prefix_adopt {held candidate : List β} (hcomp : Comparable held candidate) :
    candidate <+: adopt held candidate := by
  unfold adopt
  by_cases h : StrictExtends candidate held
  · rw [if_pos h]
  · rw [if_neg h]
    rcases hcomp with hnew | hold
    · have heq : candidate = held := by
        by_contra hne
        exact h ⟨hnew, hne⟩
      rw [heq]
    · exact hold

/-- Offering the values of one history, in whatever order they come, leaves the newest. -/
theorem foldl_adopt_isNewest {held : List β} {candidates : List (List β)}
    (hcomp : ∀ x ∈ held :: candidates, ∀ y ∈ held :: candidates, Comparable x y) :
    IsNewest (held :: candidates) (candidates.foldl adopt held) := by
  induction candidates generalizing held with
  | nil =>
      refine ⟨by simp, fun y hy ↦ ?_⟩
      rw [List.mem_singleton.mp hy, List.foldl_nil]
  | cons candidate rest ih =>
      -- the first offer keeps one of the two, so what is left is still one history
      have hmem := adopt_mem held candidate
      have hsub : ∀ x ∈ adopt held candidate :: rest, x ∈ held :: candidate :: rest := by
        intro x hx
        rcases List.mem_cons.mp hx with heq | hrest
        · subst heq
          simp only [List.mem_cons, List.not_mem_nil, or_false] at hmem
          rcases hmem with hh | hc
          · simp [hh]
          · simp [hc]
        · simp [hrest]
      have hnext := ih fun x hx y hy ↦ hcomp x (hsub x hx) y (hsub y hy)
      refine ⟨hsub _ hnext.mem, fun y hy ↦ ?_⟩
      have hfirst : adopt held candidate <+: (candidate :: rest).foldl adopt held :=
        hnext.extends_all _ (by simp)
      rcases List.mem_cons.mp hy with hheld | hy
      · subst hheld
        exact (prefix_adopt y candidate).trans hfirst
      · rcases List.mem_cons.mp hy with hcand | hrest
        · subst hcand
          have hadopt := candidate_prefix_adopt (hcomp held (by simp) y (by simp))
          exact hadopt.trans hfirst
        · exact hnext.extends_all y (by simp [hrest])

end LogosChat.Reasoning
