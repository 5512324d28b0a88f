import Mathlib.Data.List.Basic

/-!
# Rust calls as values

A call either returns `Ok`, returns `Err`, or panics.  Keeping the panic as a third outcome lets a
model index, unwrap and run its loops exactly where the code does, and leaves "never panics" as a
theorem about the model instead of an assumption built into it.
-/

namespace LogosChat.Reasoning

/-- The outcome of a call that returns `Result<α, ε>`. -/
inductive Result (ε α : Type) where
  | ok (a : α)
  | err (e : ε)
  | panic
deriving DecidableEq, Repr

/-- The error type of a call that does not return a `Result`: it can only succeed or panic. -/
abbrev Infallible := Empty

namespace Result

variable {ε ε' α β : Type}

protected def bind : Result ε α → (α → Result ε β) → Result ε β
  | .ok a, f => f a
  | .err e, _ => .err e
  | .panic, _ => .panic

instance : Monad (Result ε) where
  pure := .ok
  bind := Result.bind

@[simp] theorem ok_bind (a : α) (f : α → Result ε β) : (Result.ok a >>= f) = f a := rfl

@[simp] theorem err_bind (e : ε) (f : α → Result ε β) :
    ((Result.err e : Result ε α) >>= f) = .err e := rfl

@[simp] theorem panic_bind (f : α → Result ε β) :
    ((Result.panic : Result ε α) >>= f) = .panic := rfl

/-- A sequence succeeds exactly when both halves do. -/
theorem bind_eq_ok {x : Result ε α} {f : α → Result ε β} {b : β} :
    x >>= f = .ok b ↔ ∃ a, x = .ok a ∧ f a = .ok b := by
  cases x <;> simp

/-- What is made of an answer cannot panic. -/
theorem bind_ok_ne_panic_iff {x : Result ε α} {g : α → β} :
    (x >>= fun a ↦ .ok (g a)) ≠ .panic ↔ x ≠ .panic := by
  cases x <;> simp

theorem exists_ok_of_ne_panic {x : Result Infallible α} (h : x ≠ .panic) : ∃ a, x = .ok a := by
  cases x with
  | ok a => exact ⟨a, rfl⟩
  | err e => exact e.elim
  | panic => exact absurd rfl h

/-- The call does not panic, and each of its errors satisfies `P`. -/
def FailsIn (P : ε → Prop) : Result ε α → Prop
  | .ok _ => True
  | .err e => P e
  | .panic => False

section FailsIn

variable {P : ε → Prop} {x : Result ε α}

@[simp] theorem failsIn_ok (a : α) : (Result.ok a : Result ε α).FailsIn P := trivial

@[simp] theorem failsIn_err (e : ε) : (Result.err e : Result ε α).FailsIn P ↔ P e := Iff.rfl

theorem FailsIn.ne_panic (h : x.FailsIn P) : x ≠ .panic := by
  intro hpanic
  rw [hpanic] at h
  exact h

theorem FailsIn.of_err {e : ε} (h : x.FailsIn P) (he : x = .err e) : P e := by
  rw [he] at h
  exact h

theorem FailsIn.mono {Q : ε → Prop} (h : x.FailsIn P) (hPQ : ∀ e, P e → Q e) : x.FailsIn Q := by
  cases x with
  | ok a => trivial
  | err e => exact hPQ e h
  | panic => exact h

theorem FailsIn.bind {f : α → Result ε β} (hx : x.FailsIn P)
    (hf : ∀ a, x = .ok a → (f a).FailsIn P) : (x >>= f).FailsIn P := by
  cases x with
  | ok a => exact hf a rfl
  | err e => exact hx
  | panic => exact hx

end FailsIn

/-- `map_err`. -/
def mapErr (g : ε → ε') : Result ε α → Result ε' α
  | .ok a => .ok a
  | .err e => .err (g e)
  | .panic => .panic

@[simp] theorem mapErr_eq_ok {g : ε → ε'} {x : Result ε α} {a : α} :
    x.mapErr g = .ok a ↔ x = .ok a := by
  cases x <;> simp [mapErr]

theorem FailsIn.mapErr {P : ε → Prop} {Q : ε' → Prop} {g : ε → ε'} {x : Result ε α}
    (h : x.FailsIn P) (hg : ∀ e, P e → Q (g e)) : (x.mapErr g).FailsIn Q := by
  cases x with
  | ok a => trivial
  | err e => exact hg e h
  | panic => exact h

/-- `expect`: an `Err` becomes a panic. -/
def expect : Result ε α → Result ε' α
  | .ok a => .ok a
  | .err _ => .panic
  | .panic => .panic

@[simp] theorem expect_ok (a : α) : (Result.ok a : Result ε α).expect = (.ok a : Result ε' α) := rfl

/-- A call that returns no `Result`, inside one that does. -/
def lift : Result Infallible α → Result ε α
  | .ok a => .ok a
  | .panic => .panic

def isOk : Result ε α → Bool
  | .ok _ => true
  | _ => false

theorem isOk_iff {x : Result ε α} : x.isOk = true ↔ ∃ a, x = .ok a := by
  cases x <;> simp [isOk]

/-- Whether the call came back. -/
def returned : Result ε α → Bool
  | .panic => false
  | _ => true

theorem returned_iff {x : Result ε α} : x.returned = true ↔ x ≠ .panic := by
  cases x <;> simp [returned]

/-- `xs[i]`, which panics out of bounds. -/
def index (xs : List α) (i : Nat) : Result ε α :=
  match xs[i]? with
  | some a => .ok a
  | none => .panic

theorem index_of_lt {xs : List α} {i : Nat} (h : i < xs.length) :
    (index xs i : Result ε α) = .ok xs[i] := by
  simp [index, List.getElem?_eq_getElem h]

theorem index_eq_ok {xs : List α} {i : Nat} {a : α} :
    (index xs i : Result ε α) = .ok a ↔ xs[i]? = some a := by
  unfold index
  split <;> simp_all

/-- `xs[i] = a`, which panics out of bounds. -/
def setIndex (xs : List α) (i : Nat) (a : α) : Result ε (List α) :=
  if i < xs.length then .ok (xs.set i a) else .panic

theorem setIndex_of_lt {xs : List α} {i : Nat} {a : α} (h : i < xs.length) :
    (setIndex xs i a : Result ε (List α)) = .ok (xs.set i a) :=
  if_pos h

theorem setIndex_eq_ok {xs ys : List α} {i : Nat} {a : α} :
    (setIndex xs i a : Result ε (List α)) = .ok ys ↔ i < xs.length ∧ xs.set i a = ys := by
  unfold setIndex
  by_cases h : i < xs.length <;> simp [h]

/-- `xs.split_at(mid)`, which panics when `mid` is past the end. -/
def splitAt (xs : List α) (mid : Nat) : Result ε (List α × List α) :=
  if mid ≤ xs.length then .ok (xs.take mid, xs.drop mid) else .panic

theorem splitAt_of_le {xs : List α} {mid : Nat} (h : mid ≤ xs.length) :
    (splitAt xs mid : Result ε (List α × List α)) = .ok (xs.take mid, xs.drop mid) :=
  if_pos h

end Result

end LogosChat.Reasoning
