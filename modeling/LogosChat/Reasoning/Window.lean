import Mathlib.Data.List.Infix
import Mathlib.Data.List.Nodup

/-!
# Windows over a history

Items arrive one by one, some of them again.  The history keeps each item where it was first seen;
a window keeps the last few of the history, in order.
-/

namespace LogosChat.Reasoning

variable {α : Type} [DecidableEq α]

def note (history : List α) (x : α) : List α :=
  if x ∈ history then history else history ++ [x]

/-- The items in the order of their first arrival. -/
def firstSeen (arrivals : List α) : List α :=
  arrivals.foldl note []

theorem firstSeen_append_singleton (arrivals : List α) (x : α) :
    firstSeen (arrivals ++ [x]) = note (firstSeen arrivals) x :=
  List.foldl_append

theorem mem_note {history : List α} {x y : α} : y ∈ note history x ↔ y ∈ history ∨ y = x := by
  unfold note
  by_cases h : x ∈ history
  · rw [if_pos h]
    exact ⟨.inl, fun hy ↦ hy.elim id fun heq ↦ heq ▸ h⟩
  · rw [if_neg h, List.mem_append, List.mem_singleton]

theorem mem_firstSeen {arrivals : List α} {y : α} : y ∈ firstSeen arrivals ↔ y ∈ arrivals := by
  induction arrivals using List.reverseRecOn with
  | nil => exact Iff.rfl
  | append_singleton arrivals x ih =>
      rw [firstSeen_append_singleton, mem_note, ih, List.mem_append, List.mem_singleton]

theorem nodup_firstSeen (arrivals : List α) : (firstSeen arrivals).Nodup := by
  induction arrivals using List.reverseRecOn with
  | nil => exact List.nodup_nil
  | append_singleton arrivals x ih =>
      rw [firstSeen_append_singleton, note]
      by_cases h : x ∈ firstSeen arrivals
      · rw [if_pos h]
        exact ih
      · rw [if_neg h]
        exact ih.append (List.nodup_singleton x) (List.disjoint_singleton.mpr h)

/-- `filter(|x| seen.insert(x))`: what is not in `seen` yet, each item once. -/
def keepNew (seen : List α) : List α → List α
  | [] => []
  | x :: xs => if x ∈ seen then keepNew seen xs else x :: keepNew (x :: seen) xs

theorem keepNew_append_singleton (seen arrivals : List α) (x : α) :
    keepNew seen (arrivals ++ [x]) =
      keepNew seen arrivals ++ if x ∈ seen ∨ x ∈ arrivals then [] else [x] := by
  induction arrivals generalizing seen with
  | nil =>
      by_cases h : x ∈ seen <;> simp [keepNew, h]
  | cons y arrivals ih =>
      rw [List.cons_append, keepNew, keepNew]
      by_cases h : y ∈ seen
      · have hsame : (x ∈ seen ∨ x ∈ y :: arrivals) ↔ (x ∈ seen ∨ x ∈ arrivals) := by
          rw [List.mem_cons]
          refine ⟨fun hx ↦ ?_, fun hx ↦ hx.imp_right .inr⟩
          rcases hx with hx | hx | hx
          · exact .inl hx
          · exact .inl (hx ▸ h)
          · exact .inr hx
        rw [if_pos h, if_pos h, ih]
        simp only [hsame]
      · have hsame : (x ∈ y :: seen ∨ x ∈ arrivals) ↔ (x ∈ seen ∨ x ∈ y :: arrivals) := by
          rw [List.mem_cons, List.mem_cons, or_left_comm, or_assoc]
        rw [if_neg h, if_neg h, ih, List.cons_append]
        simp only [hsame]

/-- The items kept are the new ones, in the order of their first arrival. -/
theorem keepNew_eq (seen arrivals : List α) :
    keepNew seen arrivals = (firstSeen arrivals).filter (· ∉ seen) := by
  induction arrivals using List.reverseRecOn with
  | nil => rfl
  | append_singleton arrivals x ih =>
      rw [keepNew_append_singleton, firstSeen_append_singleton, note, ih]
      by_cases hx : x ∈ arrivals
      · rw [if_pos (.inr hx), if_pos (mem_firstSeen.mpr hx), List.append_nil]
      · rw [if_neg (mt mem_firstSeen.mp hx), List.filter_append]
        by_cases hseen : x ∈ seen <;> simp [hx, hseen]

theorem keepNew_nil (arrivals : List α) : keepNew [] arrivals = firstSeen arrivals := by
  rw [keepNew_eq]
  exact List.filter_eq_self.mpr fun _ _ ↦ by simp

theorem mem_keepNew {seen arrivals : List α} {x : α} :
    x ∈ keepNew seen arrivals ↔ x ∈ arrivals ∧ x ∉ seen := by
  rw [keepNew_eq, List.mem_filter, mem_firstSeen, decide_eq_true_iff]

theorem nodup_keepNew (seen arrivals : List α) : (keepNew seen arrivals).Nodup := by
  rw [keepNew_eq]
  exact (nodup_firstSeen arrivals).filter _

/-- Filtering first and deduplicating then keeps the same items. -/
theorem keepNew_filter (seen before arrivals : List α) :
    keepNew seen (arrivals.filter (· ∉ before)) = keepNew (seen ++ before) arrivals := by
  induction arrivals generalizing seen with
  | nil => rfl
  | cons x arrivals ih =>
      by_cases hbefore : x ∈ before
      · rw [List.filter_cons_of_neg (by simpa using hbefore), ih, keepNew,
          if_pos (List.mem_append_right seen hbefore)]
      · rw [List.filter_cons_of_pos (by simpa using hbefore), keepNew, keepNew, ih, ih]
        by_cases hseen : x ∈ seen <;> simp [hseen, hbefore]

theorem keepNew_of_nodup {seen arrivals : List α} (hnodup : arrivals.Nodup)
    (hnew : ∀ x ∈ arrivals, x ∉ seen) : keepNew seen arrivals = arrivals := by
  induction arrivals generalizing seen with
  | nil => rfl
  | cons x arrivals ih =>
      rw [List.nodup_cons] at hnodup
      rw [keepNew, if_neg (hnew x List.mem_cons_self), ih hnodup.2]
      intro y hy
      rw [List.mem_cons, not_or]
      refine ⟨fun heq ↦ hnodup.1 (heq ▸ hy), hnew y (List.mem_cons_of_mem x hy)⟩

theorem keepNew_sublist (seen arrivals : List α) :
    (keepNew seen arrivals).Sublist (firstSeen arrivals) := by
  rw [keepNew_eq]
  exact List.filter_sublist

omit [DecidableEq α]

/-- The last `n` items. -/
def recent (n : Nat) (xs : List α) : List α :=
  xs.drop (xs.length - n)

/-- `while xs.len() > n { xs.pop_front() }`. -/
def trimFront (n : Nat) : List α → List α
  | [] => []
  | x :: xs => if n < xs.length + 1 then trimFront n xs else x :: xs

theorem trimFront_eq_recent (n : Nat) (xs : List α) : trimFront n xs = recent n xs := by
  induction xs with
  | nil => simp [trimFront, recent]
  | cons x xs ih =>
      rw [trimFront, recent, List.length_cons]
      by_cases h : n < xs.length + 1
      · have hdrop : xs.length + 1 - n = (xs.length - n) + 1 := by omega
        rw [if_pos h, ih, hdrop, List.drop_succ_cons, recent]
      · have hdrop : xs.length + 1 - n = 0 := by omega
        rw [if_neg h, hdrop, List.drop_zero]

theorem recent_append_of_le {n : Nat} (xs : List α) {ys : List α} (h : n ≤ ys.length) :
    recent n (xs ++ ys) = recent n ys := by
  have hdrop : (xs ++ ys).length - n = xs.length + (ys.length - n) := by
    rw [List.length_append]
    omega
  rw [recent, hdrop, List.drop_length_add_append, recent]

-- what the window has dropped is never needed again
theorem recent_recent_append (n : Nat) (xs : List α) (x : α) :
    recent n (recent n xs ++ [x]) = recent n (xs ++ [x]) := by
  by_cases h : xs.length ≤ n
  · have hall : recent n xs = xs := by
      rw [recent, Nat.sub_eq_zero_of_le h, List.drop_zero]
    rw [hall]
  · have hsplit : xs = xs.take (xs.length - n) ++ recent n xs := (List.take_append_drop _ xs).symm
    have hlen : n ≤ (recent n xs ++ [x]).length := by
      rw [List.length_append, recent, List.length_drop]
      omega
    have happend : xs ++ [x] = xs.take (xs.length - n) ++ (recent n xs ++ [x]) := by
      rw [← List.append_assoc, ← hsplit]
    rw [happend, recent_append_of_le _ hlen]

theorem recent_sublist (n : Nat) (xs : List α) : (recent n xs).Sublist xs :=
  List.drop_sublist _ xs

theorem length_recent_le (n : Nat) (xs : List α) : (recent n xs).length ≤ n := by
  rw [recent, List.length_drop]
  omega

theorem recent_map {β : Type} (f : α → β) (n : Nat) (xs : List α) :
    recent n (xs.map f) = (recent n xs).map f := by
  rw [recent, recent, List.map_drop, List.length_map]

/-- `if xs.len() > n { xs.remove(0) }`, after a push to a window that was not over its size. -/
theorem recent_push {n : Nat} {window : List α} (h : window.length ≤ n) (x : α) :
    (if n < (window ++ [x]).length then (window ++ [x]).drop 1 else window ++ [x]) =
      recent n (window ++ [x]) := by
  rw [recent, List.length_append, List.length_singleton]
  by_cases hfull : n < window.length + 1
  · have hone : window.length + 1 - n = 1 := by omega
    rw [if_pos hfull, hone]
  · have hnone : window.length + 1 - n = 0 := by omega
    rw [if_neg hfull, hnone, List.drop_zero]

end LogosChat.Reasoning
