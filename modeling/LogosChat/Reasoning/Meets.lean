import LogosChat.Reasoning.Call

/-!
# What a call keeps and what it returns

Rules for an invariant of the state, a relation between the states before and after, and a property of
what is returned, all three at once.
-/

namespace LogosChat.Reasoning.Call

variable {σ τ ε ε' α β : Type}

/-- From a state with `I` the call keeps `I`, leads to a state related to it by `R`, and returns only
what has `Q`. -/
def Meets (I : σ → Prop) (R : σ → σ → Prop) (Q : α → Prop) (m : Call σ ε α) : Prop :=
  ∀ s, I s → I (m s).2 ∧ R s (m s).2 ∧ ∀ a, (m s).1 = .ok a → Q a

section Rules

variable {I : σ → Prop} {R : σ → σ → Prop} {Q : α → Prop} {S : β → Prop} {m : Call σ ε α}
  {f : α → Call σ ε β}

section Refl

variable [Std.Refl R]

theorem meets_pure {a : α} (h : Q a) : (pure a : Call σ ε α).Meets I R Q := by
  intro s hs
  refine ⟨hs, refl s, fun b hb ↦ ?_⟩
  cases hb
  exact h

theorem meets_read {g : σ → α} (h : ∀ s, I s → Q (g s)) : (read g : Call σ ε α).Meets I R Q := by
  intro s hs
  refine ⟨hs, refl s, fun b hb ↦ ?_⟩
  cases hb
  exact h s hs

theorem meets_fail (e : ε) : (fail e : Call σ ε α).Meets I R Q := fun s hs ↦ ⟨hs, refl s, nofun⟩

theorem meets_ofResult {r : Result ε α} (h : ∀ a, r = .ok a → Q a) :
    (ofResult r : Call σ ε α).Meets I R Q :=
  fun s hs ↦ ⟨hs, refl s, h⟩

-- where nothing is said of the value
theorem meets_read_any (g : σ → α) : (read g : Call σ ε α).Meets I R fun _ ↦ True :=
  meets_read fun _ _ ↦ trivial

theorem meets_ofResult_any (r : Result ε α) : (ofResult r : Call σ ε α).Meets I R fun _ ↦ True :=
  meets_ofResult fun _ _ ↦ trivial

end Refl

theorem Meets.bind [IsTrans σ R] (hm : m.Meets I R Q) (hf : ∀ a, Q a → (f a).Meets I R S) :
    (m >>= f).Meets I R S := by
  intro s hs
  obtain ⟨hI, hR, hQ⟩ := hm s hs
  cases heq : m s with
  | mk r t =>
      rw [heq] at hI hR hQ
      cases r with
      | ok a =>
          rw [bind_of_ok heq]
          obtain ⟨hI', hR', hS⟩ := hf a (hQ a rfl) t hI
          exact ⟨hI', IsTrans.trans _ _ _ hR hR', hS⟩
      | err e =>
          rw [bind_of_err heq]
          exact ⟨hI, hR, nofun⟩
      | panic =>
          rw [bind_of_panic heq]
          exact ⟨hI, hR, nofun⟩

theorem Meets.mapErr {g : ε → ε'} (h : m.Meets I R Q) : (m.mapErr g).Meets I R Q := by
  intro s hs
  obtain ⟨hI, hR, hQ⟩ := h s hs
  exact ⟨hI, hR, fun a ha ↦ hQ a (Result.mapErr_eq_ok.mp ha)⟩

/-- A call whose error is looked at returns in any case. -/
theorem Meets.attempt (h : m.Meets I R Q) :
    (m.attempt : Call σ ε' _).Meets I R fun answer ↦ ∀ a, answer = .ok a → Q a := by
  intro s hs
  obtain ⟨hI, hR, hQ⟩ := h s hs
  unfold Call.attempt
  cases heq : m s with
  | mk r t =>
      rw [heq] at hI hR hQ
      cases r with
      | ok a =>
          refine ⟨hI, hR, fun answer hanswer b hb ↦ ?_⟩
          cases hanswer
          cases hb
          exact hQ a rfl
      | err e =>
          refine ⟨hI, hR, fun answer hanswer b hb ↦ ?_⟩
          cases hanswer
          cases hb
      | panic => exact ⟨hI, hR, nofun⟩

theorem Meets.void [IsPreorder σ R] (h : m.Meets I R Q) : m.void.Meets I R fun _ ↦ True :=
  h.bind fun _ _ ↦ meets_pure trivial

theorem Meets.each [IsPreorder σ R] {f : α → Call σ ε Unit} {xs : List α}
    (hf : ∀ a ∈ xs, (f a).Meets I R fun _ ↦ True) : (Call.each f xs).Meets I R fun _ ↦ True := by
  induction xs with
  | nil => exact meets_pure trivial
  | cons x xs ih =>
      refine (hf x List.mem_cons_self).bind fun _ _ ↦ ?_
      exact ih fun a ha ↦ hf a (List.mem_cons_of_mem x ha)

theorem Meets.collect [IsPreorder σ R] {f : α → Call σ ε β} (hf : ∀ a, (f a).Meets I R fun _ ↦ True)
    (xs : List α) : (Call.collect f xs).Meets I R fun _ ↦ True := by
  induction xs with
  | nil => exact meets_pure trivial
  | cons x xs ih => exact (hf x).bind fun _ _ ↦ ih.bind fun _ _ ↦ meets_pure trivial

end Rules

/-- A call on a part of the state. -/
theorem Meets.on {I : τ → Prop} {R : τ → τ → Prop} {R' : σ → σ → Prop} {Q : α → Prop} {get : σ → τ}
    {put : τ → σ → σ} {J : σ → Prop} {m : Call τ ε α} (h : m.Meets I R Q) (hget : ∀ s, J s → I (get s))
    (hput : ∀ s t, J s → I t → R (get s) t → J (put t s) ∧ R' s (put t s)) :
    (m.on get put).Meets J R' Q := by
  intro s hs
  obtain ⟨hI, hR, hQ⟩ := h (get s) (hget s hs)
  obtain ⟨hJ, hR'⟩ := hput s _ hs hI hR
  exact ⟨hJ, hR', hQ⟩

end LogosChat.Reasoning.Call
