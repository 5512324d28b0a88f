import Mathlib.Data.List.Basic
import Mathlib.Data.List.Nodup

/-!
# Each element once, where it is first seen

A loop that appends an element only when it has not been collected yet computes `List.eraseDups`.
-/

namespace LogosChat.Reasoning

variable {α : Type} [DecidableEq α]

/-- One step of the loop: `skip` holds what is not to be collected at all. -/
def collectNew (skip acc : List α) (a : α) : List α :=
  if a ∉ skip ∧ a ∉ acc then acc ++ [a] else acc

-- the tail of `eraseDups` is not the tail of the list, so the recursion is on the length
theorem eraseDups_filter (p : α → Bool) (l : List α) :
    (l.filter p).eraseDups = l.eraseDups.filter p := by
  cases l with
  | nil => rfl
  | cons a l =>
      have htail := eraseDups_filter p (l.filter fun b ↦ !b == a)
      rw [List.eraseDups_cons, List.filter_cons, List.filter_cons]
      by_cases ha : p a
      · rw [if_pos ha, if_pos ha, List.eraseDups_cons, ← htail, List.filter_filter,
          List.filter_filter]
        simp only [Bool.and_comm]
      · rw [if_neg ha, if_neg ha, ← htail, List.filter_filter]
        have hsame : l.filter (fun b ↦ p b && !b == a) = l.filter p := by
          refine List.filter_congr fun b _ ↦ ?_
          by_cases hb : b = a
          · subst hb
            simp [ha]
          · simp [hb]
        rw [hsame]
termination_by l.length
decreasing_by exact Nat.lt_succ_of_le (List.length_filter_le _ _)

theorem nodup_eraseDups (l : List α) : l.eraseDups.Nodup := by
  cases l with
  | nil => exact List.nodup_nil
  | cons a l =>
      rw [List.eraseDups_cons, List.nodup_cons, List.mem_eraseDups]
      exact ⟨by simp, nodup_eraseDups (l.filter fun b ↦ !b == a)⟩
termination_by l.length
decreasing_by exact Nat.lt_succ_of_le (List.length_filter_le _ _)

theorem foldl_collectNew (skip l acc : List α) :
    l.foldl (collectNew skip) acc = acc ++ ((l.filter (· ∉ skip)).removeAll acc).eraseDups := by
  induction l generalizing acc with
  | nil => simp [List.removeAll]
  | cons a l ih =>
      rw [List.foldl_cons, ih, collectNew]
      by_cases hskip : a ∈ skip
      · simp [hskip]
      by_cases hacc : a ∈ acc
      · simp [hskip, hacc, List.removeAll]
      · rw [if_pos ⟨hskip, hacc⟩]
        have hfirst : ((a :: l).filter (· ∉ skip)).removeAll acc =
            a :: (l.filter (· ∉ skip)).removeAll acc := by
          simp [List.removeAll, hskip, hacc]
        have hlater (rest : List α) : rest.removeAll (acc ++ [a]) =
            (rest.removeAll acc).filter fun b ↦ !b == a := by
          rw [List.removeAll, List.removeAll, List.filter_filter]
          refine List.filter_congr fun b _ ↦ ?_
          by_cases hb : b = a <;> simp [hb]
        rw [hfirst, hlater, List.eraseDups_cons, List.append_assoc]
        rfl

/-- The loop over a whole list. -/
theorem foldl_collectNew_nil (skip l : List α) :
    l.foldl (collectNew skip) [] = (l.filter (· ∉ skip)).eraseDups := by
  rw [foldl_collectNew]
  simp [List.removeAll]

end LogosChat.Reasoning
