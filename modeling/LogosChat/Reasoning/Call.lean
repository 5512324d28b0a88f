import LogosChat.Reasoning.Result
import Mathlib.Data.List.Forall2
import Mathlib.Order.Defs.Unbundled

/-!
# Calls on a state

A Rust method with `&mut` access returns a `Result` and leaves the state as it is at that moment: an
`Err` or a panic does not undo what the call did before it.  A call is therefore a function from a
state to an outcome and a state, and `?` is its `bind`.
-/

namespace LogosChat.Reasoning

/-- What a call returns and the state it leaves. -/
def Call (σ ε α : Type) : Type := σ → Result ε α × σ

namespace Call

variable {σ τ ε ε' α β : Type}

protected def bind (m : Call σ ε α) (f : α → Call σ ε β) : Call σ ε β := fun s ↦
  match m s with
  | (.ok a, s') => f a s'
  | (.err e, s') => (.err e, s')
  | (.panic, s') => (.panic, s')

instance : Monad (Call σ ε) where
  pure a := fun s ↦ (.ok a, s)
  bind := Call.bind

/-- A field of the state, or a value computed from it. -/
def read (f : σ → α) : Call σ ε α := fun s ↦ (.ok (f s), s)

def modify (f : σ → σ) : Call σ ε Unit := fun s ↦ (.ok (), f s)

def fail (e : ε) : Call σ ε α := fun s ↦ (.err e, s)

/-- A step that does not touch the state. -/
def ofResult (r : Result ε α) : Call σ ε α := fun s ↦ (r, s)

/-- `map_err`. -/
def mapErr (g : ε → ε') (m : Call σ ε α) : Call σ ε' α := fun s ↦ ((m s).1.mapErr g, (m s).2)

/-- The `Result` itself, where the code looks at it instead of returning its error. -/
def attempt (m : Call σ ε α) : Call σ ε' (Except ε α) := fun s ↦
  match m s with
  | (.ok a, s') => (.ok (.ok a), s')
  | (.err e, s') => (.ok (.error e), s')
  | (.panic, s') => (.panic, s')

/-- A call on a part of the state. -/
def on (get : σ → τ) (put : τ → σ → σ) (m : Call τ ε α) : Call σ ε α := fun s ↦
  ((m (get s)).1, put (m (get s)).2 s)

/-- The call without what it returns. -/
def void (m : Call σ ε α) : Call σ ε Unit := do
  let _ ← m

/-- `for x in xs { f(x)?; }`. -/
def each (f : α → Call σ ε Unit) : List α → Call σ ε Unit
  | [] => pure ()
  | x :: xs => do
      f x
      each f xs

/-- `xs.map(f).collect::<Result<Vec<_>, _>>()`: the first error ends it. -/
def collect (f : α → Call σ ε β) : List α → Call σ ε (List β)
  | [] => pure []
  | x :: xs => do
      let y ← f x
      let ys ← collect f xs
      pure (y :: ys)

/-! ## What a sequence does -/

section Bind

variable {m : Call σ ε α} {f : α → Call σ ε β} {s t : σ}

@[simp] theorem pure_apply (a : α) (s : σ) : (pure a : Call σ ε α) s = (.ok a, s) := rfl

@[simp] theorem read_bind (g : σ → α) (f : α → Call σ ε β) (s : σ) :
    (read g >>= f) s = f (g s) s := rfl

@[simp] theorem ofResult_apply (r : Result ε α) (s : σ) :
    (ofResult r : Call σ ε α) s = (r, s) := rfl

@[simp] theorem ofResult_ok_bind (a : α) (f : α → Call σ ε β) (s : σ) :
    ((ofResult (.ok a) : Call σ ε α) >>= f) s = f a s := rfl

@[simp] theorem ofResult_err_bind (e : ε) (f : α → Call σ ε β) (s : σ) :
    ((ofResult (.err e) : Call σ ε α) >>= f) s = (.err e, s) := rfl

/-- A sequence that starts with a step off the state returns if that step does, and the rest after it. -/
theorem ofResult_bind_returns_iff {r : Result ε α} {f : α → Call σ ε β} {s : σ} :
    ((ofResult r >>= f) s).1 ≠ .panic ↔ r ≠ .panic ∧ ∀ a, r = .ok a → (f a s).1 ≠ .panic := by
  cases r with
  | ok a =>
      show (f a s).1 ≠ .panic ↔ _
      simp
  | err e =>
      show (Result.err e : Result ε β) ≠ .panic ↔ _
      simp
  | panic =>
      show (Result.panic : Result ε β) ≠ .panic ↔ _
      simp

theorem bind_modify_returns_iff {m : Call σ ε Unit} {g : σ → σ} {s : σ} :
    ((m >>= fun _ ↦ modify g) s).1 ≠ .panic ↔ (m s).1 ≠ .panic := by
  show (Call.bind m _ s).1 ≠ .panic ↔ _
  unfold Call.bind
  cases m s with
  | mk r t => cases r <;> simp [modify]

theorem bind_assoc {γ : Type} (m : Call σ ε α) (f : α → Call σ ε β) (g : β → Call σ ε γ) :
    (m >>= f) >>= g = m >>= fun a ↦ f a >>= g := by
  funext s
  show Call.bind (Call.bind m f) g s = Call.bind m (fun a ↦ Call.bind (f a) g) s
  unfold Call.bind
  cases m s with
  | mk r s' => cases r <;> rfl

theorem bind_of_ok {a : α} (h : m s = (.ok a, t)) : (m >>= f) s = f a t := by
  show Call.bind m f s = _
  rw [Call.bind, h]

theorem bind_of_err {e : ε} (h : m s = (.err e, t)) : (m >>= f) s = (.err e, t) := by
  show Call.bind m f s = _
  rw [Call.bind, h]

theorem bind_of_panic (h : m s = (.panic, t)) : (m >>= f) s = (.panic, t) := by
  show Call.bind m f s = _
  rw [Call.bind, h]

/-- A call that does not succeed is the end of the sequence. -/
theorem bind_of_not_ok {r : Result ε α} (h : m s = (r, t)) (hr : ∀ a, r ≠ .ok a) :
    ∃ r', (m >>= f) s = (r', t) ∧ ∀ b, r' ≠ .ok b := by
  cases r with
  | ok a => exact absurd rfl (hr a)
  | err e => exact ⟨.err e, bind_of_err h, nofun⟩
  | panic => exact ⟨.panic, bind_of_panic h, nofun⟩

/-- A call may be replaced by where it is after its first steps. -/
theorem bind_of_eq {m' : Call σ ε α} (h : m s = m' t) : (m >>= f) s = (m' >>= f) t := by
  show Call.bind m f s = Call.bind m' f t
  rw [Call.bind, Call.bind, h]

/-- What is made of the answer does not touch the state. -/
theorem bind_pure_snd (g : α → β) (s : σ) : ((m >>= fun a ↦ pure (g a)) s).2 = (m s).2 := by
  show (Call.bind m _ s).2 = _
  unfold Call.bind
  cases m s with
  | mk r t => cases r <;> rfl

theorem on_of_eq {get : τ → σ} {put : σ → τ → τ} {s : τ} {r : Result ε α}
    (h : m (get s) = (r, t)) : m.on get put s = (r, put t s) := by
  rw [on, h]

theorem mapErr_of_ok {g : ε → ε'} {a : α} (h : m s = (.ok a, t)) : m.mapErr g s = (.ok a, t) := by
  rw [mapErr, h]
  rfl

theorem mapErr_of_err {g : ε → ε'} {e : ε} (h : m s = (.err e, t)) :
    m.mapErr g s = (.err (g e), t) := by
  rw [mapErr, h]
  rfl

theorem eq_ok_of_mapErr {g : ε → ε'} {a : α} (h : m.mapErr g s = (.ok a, t)) : m s = (.ok a, t) := by
  obtain ⟨hresult, hstate⟩ := Prod.mk.inj h
  exact Prod.ext (Result.mapErr_eq_ok.mp hresult) hstate

theorem attempt_of_ok {a : α} (h : m s = (.ok a, t)) :
    (m.attempt : Call σ ε' _) s = (.ok (.ok a), t) := by
  rw [attempt, h]

theorem attempt_of_err {e : ε} (h : m s = (.err e, t)) :
    (m.attempt : Call σ ε' _) s = (.ok (.error e), t) := by
  rw [attempt, h]

theorem bind_eq_ok {b : β} (h : (m >>= f) s = (.ok b, t)) :
    ∃ a u, m s = (.ok a, u) ∧ f a u = (.ok b, t) := by
  cases heq : m s with
  | mk r u =>
      cases r with
      | ok a => exact ⟨a, u, rfl, (bind_of_ok heq).symm.trans h⟩
      | err e => cases (bind_of_err heq).symm.trans h
      | panic => cases (bind_of_panic heq).symm.trans h

theorem ofResult_eq_ok {r : Result ε α} {a : α} (h : (ofResult r : Call σ ε α) s = (.ok a, t)) :
    r = .ok a ∧ s = t :=
  Prod.mk.inj h

theorem exists_of_mem_left {R : α → β → Prop} {xs : List α} {ys : List β} (h : List.Forall₂ R xs ys)
    {x : α} (hmem : x ∈ xs) : ∃ y ∈ ys, R x y := by
  induction h with
  | nil => cases hmem
  | @cons _ y _ _ hxy _ ih =>
      obtain rfl | hmem := List.mem_cons.mp hmem
      · exact ⟨y, List.mem_cons_self, hxy⟩
      · obtain ⟨y', hy', hR⟩ := ih hmem
        exact ⟨y', List.mem_cons_of_mem y hy', hR⟩

theorem collect_eq_ok {xs : List α} {ys : List β} (h : collect f xs s = (.ok ys, t)) :
    List.Forall₂ (fun x y ↦ ∃ s t, f x s = (.ok y, t)) xs ys := by
  induction xs generalizing s ys with
  | nil =>
      cases h
      exact .nil
  | cons x xs ih =>
      obtain ⟨y, u, hfirst, h⟩ := bind_eq_ok h
      obtain ⟨rest, v, hrest, h⟩ := bind_eq_ok h
      cases h
      exact .cons ⟨s, u, hfirst⟩ (ih hrest)

end Bind

/-! ## What every step keeps

A relation between the states before and after a call that each primitive step respects, and that
chains, is respected by the call, however it ends. -/

/-- A part of the state is left as it is. -/
def Same (g : σ → τ) (s t : σ) : Prop := g t = g s

instance (g : σ → τ) : IsPreorder σ (Same g) where
  refl _ := rfl
  trans _ _ _ hst htu := Eq.trans htu hst

/-- The call takes every state to one related to it. -/
def Keeps (R : σ → σ → Prop) (m : Call σ ε α) : Prop := ∀ s, R s (m s).2

section Keeps

variable {R : σ → σ → Prop} {m : Call σ ε α} {f : α → Call σ ε β}

theorem Keeps.of_eq (h : m.Keeps R) {s t : σ} {r : Result ε α} (heq : m s = (r, t)) : R s t := by
  have hkeeps := h s
  rw [heq] at hkeeps
  exact hkeeps

theorem Keeps.mono {R' : σ → σ → Prop} (h : m.Keeps R) (hle : ∀ s t, R s t → R' s t) : m.Keeps R' :=
  fun s ↦ hle s _ (h s)

section Refl

variable [Std.Refl R]

theorem keeps_pure (a : α) : (pure a : Call σ ε α).Keeps R := fun s ↦ refl s

theorem keeps_read (g : σ → α) : (read g : Call σ ε α).Keeps R := fun s ↦ refl s

theorem keeps_fail (e : ε) : (fail e : Call σ ε α).Keeps R := fun s ↦ refl s

theorem keeps_ofResult (r : Result ε α) : (ofResult r : Call σ ε α).Keeps R := fun s ↦ refl s

end Refl

theorem Keeps.mapErr {g : ε → ε'} (h : m.Keeps R) : (m.mapErr g).Keeps R := h

theorem Keeps.attempt (h : m.Keeps R) : (m.attempt : Call σ ε' _).Keeps R := by
  intro s
  have hs := h s
  unfold Call.attempt
  cases heq : m s with
  | mk r s' =>
      rw [heq] at hs
      cases r <;> exact hs

/-- What follows needs to be right only for what the first call returns. -/
theorem bind_rel [IsTrans σ R] {s : σ} (hm : R s (m s).2)
    (hf : ∀ a t, m s = (.ok a, t) → R t (f a t).2) : R s ((m >>= f) s).2 := by
  cases heq : m s with
  | mk r t =>
      rw [heq] at hm
      cases r with
      | ok a =>
          rw [Call.bind_of_ok heq]
          exact IsTrans.trans _ _ _ hm (hf a t heq)
      | err e =>
          rw [bind_of_err heq]
          exact hm
      | panic =>
          rw [bind_of_panic heq]
          exact hm

theorem Keeps.bind_of_ok [IsTrans σ R] (hm : m.Keeps R)
    (hf : ∀ s a t, m s = (.ok a, t) → R t (f a t).2) : (m >>= f).Keeps R :=
  fun s ↦ bind_rel (hm s) (hf s)

theorem Keeps.bind [IsTrans σ R] (hm : m.Keeps R) (hf : ∀ a, (f a).Keeps R) : (m >>= f).Keeps R :=
  hm.bind_of_ok fun _ a t _ ↦ hf a t

theorem keeps_ofResult_bind [IsPreorder σ R] {r : Result ε α}
    (hf : ∀ a, r = .ok a → (f a).Keeps R) : (ofResult r >>= f).Keeps R := by
  refine Keeps.bind_of_ok (keeps_ofResult r) fun s a t h ↦ ?_
  exact hf a (congrArg Prod.fst h) t

theorem Keeps.void [IsPreorder σ R] (h : m.Keeps R) : m.void.Keeps R :=
  h.bind fun _ ↦ keeps_pure ()

theorem Keeps.each [IsPreorder σ R] {f : α → Call σ ε Unit} {xs : List α}
    (hf : ∀ a ∈ xs, (f a).Keeps R) : (Call.each f xs).Keeps R := by
  induction xs with
  | nil => exact keeps_pure ()
  | cons x xs ih =>
      apply (hf x List.mem_cons_self).bind
      exact fun _ ↦ ih fun a ha ↦ hf a (List.mem_cons_of_mem x ha)

theorem Keeps.collect [IsPreorder σ R] (hf : ∀ a, (f a).Keeps R) (xs : List α) :
    (Call.collect f xs).Keeps R := by
  induction xs with
  | nil => exact keeps_pure []
  | cons x xs ih => exact (hf x).bind fun _ ↦ ih.bind fun _ ↦ keeps_pure _

end Keeps

/-! ## Calls that do not panic -/

/-- The call returns, in whatever state it is made. -/
def Safe (m : Call σ ε α) : Prop := ∀ s, (m s).1 ≠ .panic

section Safe

variable {m : Call σ ε α} {f : α → Call σ ε β}

theorem safe_pure (a : α) : (pure a : Call σ ε α).Safe := fun _ ↦ nofun

theorem safe_read (g : σ → α) : (read g : Call σ ε α).Safe := fun _ ↦ nofun

theorem safe_ofResult {r : Result ε α} (h : r ≠ .panic) : (ofResult r : Call σ ε α).Safe := fun _ ↦ h

theorem Safe.bind (hm : m.Safe) (hf : ∀ a, (f a).Safe) : (m >>= f).Safe := by
  intro s
  cases heq : m s with
  | mk r t =>
      cases r with
      | ok a =>
          rw [bind_of_ok heq]
          exact hf a t
      | err e =>
          rw [bind_of_err heq]
          exact nofun
      | panic => exact absurd (congrArg Prod.fst heq) (hm s)

theorem Safe.mapErr {g : ε → ε'} (h : m.Safe) : (m.mapErr g).Safe := by
  intro s hpanic
  have hs := h s
  rw [Call.mapErr] at hpanic
  cases heq : (m s).1 with
  | ok a =>
      rw [heq] at hpanic
      cases hpanic
  | err e =>
      rw [heq] at hpanic
      cases hpanic
  | panic => exact hs heq

theorem Safe.on {get : τ → σ} {put : σ → τ → τ} (h : m.Safe) : (m.on get put).Safe :=
  fun s ↦ h (get s)

end Safe

end Call

end LogosChat.Reasoning
