import Mathlib.Data.List.Nodup
import Mathlib.Order.Defs.Unbundled

/-!
# Reports made once

A component that appends a report to a log only when it has not made it before, and remembers which
ones it has made.  Whatever drains the log may then pass the reports on: over a whole run each is
passed on once.
-/

namespace LogosChat.Reasoning

/-- The log of a state, and the reports that the state remembers. -/
structure Reporter (σ α : Type) where
  log : σ → List α
  told : σ → α → Prop

namespace Reporter

variable {σ α : Type} (R : Reporter σ α) {allowed allowed' : α → Prop} {s t : σ}

/-- From `s` to `t` reports were appended: allowed ones, each of them new and now remembered. -/
def Grows (allowed : α → Prop) (s t : σ) : Prop :=
  ∃ new, R.log t = R.log s ++ new ∧ new.Nodup ∧ (∀ a ∈ new, allowed a ∧ ¬ R.told s a) ∧
    ∀ a, R.told t a ↔ R.told s a ∨ a ∈ new

variable {R}

theorem Grows.of_same (hlog : R.log t = R.log s) (htold : ∀ a, R.told t a ↔ R.told s a) :
    R.Grows allowed s t :=
  ⟨[], by rw [hlog, List.append_nil], List.nodup_nil, nofun, by simpa using htold⟩

theorem Grows.mono (h : R.Grows allowed s t) (hle : ∀ a, allowed a → allowed' a) :
    R.Grows allowed' s t := by
  obtain ⟨new, hlog, hnodup, hnew, htold⟩ := h
  exact ⟨new, hlog, hnodup, fun a ha ↦ ⟨hle a (hnew a ha).1, (hnew a ha).2⟩, htold⟩

/-- One report, made if it is new. -/
theorem Grows.single {a : α} (ha : allowed a) (hnew : ¬ R.told s a) (hlog : R.log t = R.log s ++ [a])
    (htold : ∀ b, R.told t b ↔ R.told s b ∨ b = a) : R.Grows allowed s t := by
  refine ⟨[a], hlog, List.nodup_singleton a, ?_, by simpa using htold⟩
  intro b hb
  rw [List.mem_singleton.mp hb]
  exact ⟨ha, hnew⟩

-- a later report is new to a state that remembers the earlier ones
theorem Grows.trans {u : σ} (h : R.Grows allowed s t) (h' : R.Grows allowed t u) :
    R.Grows allowed s u := by
  obtain ⟨first, hlog, hnodup, hnew, htold⟩ := h
  obtain ⟨later, hlog', hnodup', hnew', htold'⟩ := h'
  refine ⟨first ++ later, by rw [hlog', hlog, List.append_assoc], ?_, ?_, ?_⟩
  · refine List.nodup_append.mpr ⟨hnodup, hnodup', ?_⟩
    rintro a ha b hb rfl
    exact (hnew' a hb).2 ((htold a).mpr (.inr ha))
  · intro a ha
    obtain ha | ha := List.mem_append.mp ha
    · exact hnew a ha
    · exact ⟨(hnew' a ha).1, fun hbefore ↦ (hnew' a ha).2 ((htold a).mpr (.inl hbefore))⟩
  · intro a
    rw [htold', htold, List.mem_append, or_assoc]

instance (allowed : α → Prop) : IsPreorder σ (R.Grows allowed) where
  refl _ := .of_same rfl fun _ ↦ Iff.rfl
  trans _ _ _ := Grows.trans

/-- A reporter that is another one on the reports with `allowed`, and stands still on the others. -/
theorem Grows.lift {τ : Type} {R' : Reporter τ α} {s' t' : τ} (h : R.Grows allowed s t)
    (hlog : R'.log s' = R.log s) (hlog' : R'.log t' = R.log t)
    (htold : ∀ a, allowed a → (R'.told s' a ↔ R.told s a))
    (htold' : ∀ a, allowed a → (R'.told t' a ↔ R.told t a))
    (hother : ∀ a, ¬ allowed a → (R'.told t' a ↔ R'.told s' a)) (hle : ∀ a, allowed a → allowed' a) :
    R'.Grows allowed' s' t' := by
  obtain ⟨new, hnew, hnodup, hallowed, hgrown⟩ := h
  refine ⟨new, by rw [hlog', hnew, hlog], hnodup, fun a ha ↦ ?_, fun a ↦ ?_⟩
  · obtain ⟨hok, hfirst⟩ := hallowed a ha
    exact ⟨hle a hok, fun hbefore ↦ hfirst ((htold a hok).mp hbefore)⟩
  · by_cases hok : allowed a
    · rw [htold' a hok, hgrown, htold a hok]
    · have hnot : a ∉ new := fun ha ↦ hok (hallowed a ha).1
      rw [hother a hok]
      simp [hnot]

/-- What a state with an empty log leads to: the log is what was remembered since, each report once. -/
theorem Grows.of_empty (h : R.Grows allowed s t) (hempty : R.log s = []) :
    (R.log t).Nodup ∧ (∀ a ∈ R.log t, allowed a ∧ ¬ R.told s a) ∧
      ∀ a, R.told t a ↔ R.told s a ∨ a ∈ R.log t := by
  obtain ⟨new, hlog, h⟩ := h
  rw [hempty, List.nil_append] at hlog
  rw [hlog]
  exact h

end Reporter

end LogosChat.Reasoning
