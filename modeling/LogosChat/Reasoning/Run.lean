import Mathlib.Data.List.Basic

/-!
# Runs of a state machine

A run is a list of events taken one after the other.  What every step keeps, a run keeps; and what
every step does to the state, seen as a reflexive and transitive relation, a run does.  A condition
on the steps of a run is stated of each step in the state it is taken from.
-/

namespace LogosChat.Reasoning

variable {σ ι : Type} (step : σ → ι → σ)

def run (s : σ) (events : List ι) : σ :=
  events.foldl step s

variable {step}

@[simp] theorem run_cons (s : σ) (e : ι) (events : List ι) :
    run step s (e :: events) = run step (step s e) events := rfl

theorem run_append (s : σ) (events more : List ι) :
    run step s (events ++ more) = run step (run step s events) more :=
  List.foldl_append

theorem run_invariant {Inv : σ → Prop} (hstep : ∀ s e, Inv s → Inv (step s e)) {s : σ}
    (hs : Inv s) (events : List ι) : Inv (run step s events) := by
  induction events generalizing s with
  | nil => exact hs
  | cons e events ih => exact ih (hstep s e hs)

theorem run_relates {Inv : σ → Prop} {rel : σ → σ → Prop} (hrefl : ∀ s, rel s s)
    (htrans : ∀ a b c, rel a b → rel b c → rel a c) (hstep : ∀ s e, Inv s → Inv (step s e))
    (hrel : ∀ s e, Inv s → rel s (step s e)) {s : σ} (hs : Inv s) (events : List ι) :
    rel s (run step s events) := by
  induction events generalizing s with
  | nil => exact hrefl s
  | cons e events ih => exact htrans _ _ _ (hrel s e hs) (ih (hstep s e hs))

/-- Two machines that stay related under every event are related after every run. -/
theorem run_simulates {τ : Type} {step' : τ → ι → τ} {R : σ → τ → Prop}
    (hstep : ∀ s t e, R s t → R (step s e) (step' t e)) {s : σ} {t : τ} (h : R s t) (events : List ι) :
    R (run step s events) (run step' t events) := by
  induction events generalizing s t with
  | nil => exact h
  | cons e events ih => exact ih (hstep s t e h)

/-! ## Conditions on the steps -/

variable (step) in
/-- `P` holds of every step of the run, in the state the step is taken from. -/
def Along (P : σ → ι → Prop) : σ → List ι → Prop
  | _, [] => True
  | s, e :: events => P s e ∧ Along P (step s e) events

section Along

variable {P Q : σ → ι → Prop} {Inv : σ → Prop}

theorem along_append {s : σ} {events more : List ι} :
    Along step P s (events ++ more) ↔ Along step P s events ∧ Along step P (run step s events) more := by
  induction events generalizing s with
  | nil => exact (true_and _).to_iff.symm
  | cons e events ih =>
      rw [List.cons_append, Along, Along, ih, and_assoc, run_cons]

theorem Along.of_forall {Q : ι → Prop} {events : List ι} (h : ∀ e ∈ events, Q e) (s : σ) :
    Along step (fun _ e ↦ Q e) s events := by
  induction events generalizing s with
  | nil => exact trivial
  | cons e events ih =>
      exact ⟨h e List.mem_cons_self, ih (fun x hx ↦ h x (List.mem_cons_of_mem e hx)) (step s e)⟩

theorem Along.and {s : σ} {events : List ι} (hP : Along step P s events) (hQ : Along step Q s events) :
    Along step (fun s e ↦ P s e ∧ Q s e) s events := by
  induction events generalizing s with
  | nil => exact trivial
  | cons e events ih => exact ⟨⟨hP.1, hQ.1⟩, ih hP.2 hQ.2⟩

/-- Wherever the run is cut, the next step meets the condition. -/
theorem along_iff_split {s : σ} {events : List ι} : Along step P s events ↔
    ∀ before e after, events = before ++ e :: after → P (run step s before) e := by
  constructor
  · rintro h before e after rfl
    exact (along_append.mp h).2.1
  · intro h
    induction events generalizing s with
    | nil => exact trivial
    | cons e events ih =>
        refine ⟨h [] e events rfl, ih fun before e' after hsplit ↦ ?_⟩
        exact h (e :: before) e' after (congrArg (e :: ·) hsplit)

/-- What every step that meets the condition keeps, a run of such steps keeps. -/
theorem Along.invariant (hstep : ∀ s e, Inv s → P s e → Inv (step s e)) {s : σ} (hs : Inv s)
    {events : List ι} (h : Along step P s events) : Inv (run step s events) := by
  induction events generalizing s with
  | nil => exact hs
  | cons e events ih => exact ih (hstep s e hs h.1) h.2

/-- Two conditions that agree where the first has held so far agree on whole runs. -/
theorem along_congr (hstep : ∀ s e, Inv s → P s e → Inv (step s e))
    (hiff : ∀ s e, Inv s → (P s e ↔ Q s e)) {s : σ} (hs : Inv s) (events : List ι) :
    Along step P s events ↔ Along step Q s events := by
  induction events generalizing s with
  | nil => exact Iff.rfl
  | cons e events ih =>
      refine ⟨fun h ↦ ?_, fun h ↦ ?_⟩
      · exact ⟨(hiff s e hs).mp h.1, (ih (hstep s e hs h.1)).mp h.2⟩
      · have hP : P s e := (hiff s e hs).mpr h.1
        exact ⟨hP, (ih (hstep s e hs hP)).mpr h.2⟩

/-- When a step keeps the invariant exactly when it meets the condition, every state that a run
reaches satisfies the invariant exactly when every step of the run meets the condition. -/
theorem along_iff_reached (hiff : ∀ s e, Inv s → (Inv (step s e) ↔ P s e)) {s : σ} (hs : Inv s)
    (events : List ι) : (∀ n, Inv (run step s (events.take n))) ↔ Along step P s events := by
  induction events generalizing s with
  | nil =>
      refine ⟨fun _ ↦ trivial, fun _ n ↦ ?_⟩
      rw [List.take_nil]
      exact hs
  | cons e events ih =>
      constructor
      · intro hreached
        have hnext : Inv (step s e) := hreached 1
        exact ⟨(hiff s e hs).mp hnext, (ih hnext).mp fun n ↦ hreached (n + 1)⟩
      · intro h n
        have hnext : Inv (step s e) := (hiff s e hs).mpr h.1
        cases n with
        | zero => exact hs
        | succ n => exact (ih hnext).mpr h.2 n

/-- What is never regained once it is lost is there at the end of a run exactly when every step meets the
condition under which a step keeps it. -/
theorem along_iff_end {Good : σ → Prop} (hgood : ∀ s, Inv s → Good s)
    (hback : ∀ s e, Good (step s e) → Good s) (hkeep : ∀ s e, Inv s → P s e → Inv (step s e))
    (hlose : ∀ s e, Inv s → Good (step s e) → P s e) {s : σ} (hs : Inv s) (events : List ι) :
    Good (run step s events) ↔ Along step P s events := by
  have hstart (s : σ) (events : List ι) (h : Good (run step s events)) : Good s := by
    induction events generalizing s with
    | nil => exact h
    | cons e events ih => exact hback s e (ih (step s e) h)
  induction events generalizing s with
  | nil => exact iff_of_true (hgood s hs) trivial
  | cons e events ih =>
      refine ⟨fun h ↦ ?_, fun h ↦ (ih (hkeep s e hs h.1)).mpr h.2⟩
      have hP : P s e := hlose s e hs (hstart (step s e) events h)
      exact ⟨hP, (ih (hkeep s e hs hP)).mp h⟩

/-- When a step ends well exactly when it starts well and meets the condition, so does a run. -/
theorem run_iff_along {Good : σ → Prop} (hstep : ∀ s e, Inv s → Inv (step s e))
    (hiff : ∀ s e, Inv s → (Good (step s e) ↔ Good s ∧ P s e)) {s : σ} (hs : Inv s) (events : List ι) :
    Good (run step s events) ↔ Good s ∧ Along step P s events := by
  induction events generalizing s with
  | nil => exact (and_true _).to_iff.symm
  | cons e events ih => rw [run_cons, ih (hstep s e hs), hiff s e hs, and_assoc, Along]

end Along

/-! ## What steps that meet a condition can lead to -/

variable (step) in
def CanReach (P : σ → ι → Prop) (s t : σ) : Prop :=
  ∃ events, Along step P s events ∧ run step s events = t

namespace CanReach

variable {P : σ → ι → Prop} {Inv : σ → Prop} {r s t : σ}

theorem refl (s : σ) : CanReach step P s s := ⟨[], trivial, rfl⟩

theorem single {e : ι} (h : P s e) : CanReach step P s (step s e) := ⟨[e], ⟨h, trivial⟩, rfl⟩

theorem trans (hrs : CanReach step P r s) (hst : CanReach step P s t) : CanReach step P r t := by
  obtain ⟨events, halong, rfl⟩ := hrs
  obtain ⟨more, hmore, rfl⟩ := hst
  exact ⟨events ++ more, along_append.mpr ⟨halong, hmore⟩, run_append r events more⟩

theorem invariant (hstep : ∀ s e, Inv s → P s e → Inv (step s e)) (hs : Inv s)
    (h : CanReach step P s t) : Inv t := by
  obtain ⟨events, halong, rfl⟩ := h
  exact halong.invariant hstep hs

end CanReach

end LogosChat.Reasoning
