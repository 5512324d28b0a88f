import LogosChat.Reasoning.Result

/-!
# Self-delimiting frames

A frame codec reads one value off the front of the input and hands back the rest.  `many` is the
loop that reads frames until the input is exhausted.  Since a frame carries its own extent, the
loop inverts concatenation, and comparing two concatenations by prefix is the same as comparing the
lists of values by prefix.
-/

namespace LogosChat.Reasoning

variable {ε α β : Type}

/-- `while !body.is_empty() { let (a, rest) = step(body)?; out.push(a); body = rest }`.  The fuel
bounds the iterations; a loop that would outlive it is reported as a panic. -/
def many (step : List β → Result ε (α × List β)) : Nat → List β → List α → Result ε (List α)
  | _, [], out => .ok out
  | 0, _ :: _, _ => .panic
  | fuel + 1, b :: bs, out => do
      let (a, rest) ← step (b :: bs)
      many step fuel rest (out ++ [a])

theorem many_cons {step : List β → Result ε (α × List β)} {fuel : Nat} {body : List β}
    {out : List α} (hne : body ≠ []) :
    many step (fuel + 1) body out =
      (do let (a, rest) ← step body; many step fuel rest (out ++ [a])) := by
  cases body with
  | nil => exact absurd rfl hne
  | cons b bs => rfl

/-- A step that always consumes something keeps the loop within one iteration per input element. -/
theorem many_failsIn {P : ε → Prop} {step : List β → Result ε (α × List β)}
    (hstep : ∀ body, (step body).FailsIn P)
    (hconsume : ∀ body a rest, step body = .ok (a, rest) → rest.length < body.length)
    (fuel : Nat) (body : List β) (out : List α) (hfuel : body.length ≤ fuel) :
    (many step fuel body out).FailsIn P := by
  induction fuel generalizing body out with
  | zero =>
      have hnil : body = [] := List.eq_nil_of_length_eq_zero (by omega)
      subst hnil
      simp [many]
  | succ fuel ih =>
      cases body with
      | nil => simp [many]
      | cons b bs =>
          rw [many_cons (by simp)]
          apply Result.FailsIn.bind (hstep _)
          intro ⟨a, rest⟩ hok
          have hlt := hconsume _ _ _ hok
          exact ih rest (out ++ [a]) (by omega)

/-- A loop whose steps follow those of another one, up to what they read, follows it. -/
theorem many_of_ok {α' ε' : Type} {step : List β → Result ε (α × List β)}
    {step' : List β → Result ε' (α' × List β)} {f : α → α'}
    (hstep : ∀ body a rest, step body = .ok (a, rest) → step' body = .ok (f a, rest))
    {fuel : Nat} {body : List β} {out as : List α} (h : many step fuel body out = .ok as) :
    many step' fuel body (out.map f) = .ok (as.map f) := by
  induction fuel generalizing body out with
  | zero =>
      cases body with
      | nil =>
          cases h
          rfl
      | cons b bs => cases h
  | succ fuel ih =>
      cases body with
      | nil =>
          cases h
          rfl
      | cons b bs =>
          rcases Result.bind_eq_ok.mp h with ⟨⟨a, rest⟩, hok, h⟩
          have hnext := ih h
          rw [List.map_append, List.map_singleton] at hnext
          rw [many_cons (by simp), hstep _ _ _ hok, Result.ok_bind]
          exact hnext

/-- A codec for one frame.  `Fits` is the set of values whose encoding the decoder reads back; an
encoder may still emit bytes for values outside it. -/
structure FrameCodec (ε α β : Type) where
  encode : α → List β
  decode : List β → Result ε (α × List β)
  Fits : α → Prop
  encode_ne_nil : ∀ a, encode a ≠ []
  decode_encode : ∀ a rest, Fits a → decode (encode a ++ rest) = .ok (a, rest)
  decode_sound : ∀ body a rest, decode body = .ok (a, rest) → Fits a ∧ body = encode a ++ rest

namespace FrameCodec

variable (c : FrameCodec ε α β)

/-- Frames back to back. -/
def encodeAll (as : List α) : List β :=
  as.flatMap c.encode

@[simp] theorem encodeAll_nil : c.encodeAll [] = [] := rfl

@[simp] theorem encodeAll_cons (a : α) (as : List α) :
    c.encodeAll (a :: as) = c.encode a ++ c.encodeAll as := rfl

@[simp] theorem encodeAll_append (as bs : List α) :
    c.encodeAll (as ++ bs) = c.encodeAll as ++ c.encodeAll bs :=
  List.flatMap_append

theorem encode_length_pos (a : α) : 0 < (c.encode a).length :=
  List.length_pos_iff.mpr (c.encode_ne_nil a)

theorem length_le_encodeAll_length (as : List α) : as.length ≤ (c.encodeAll as).length := by
  induction as with
  | nil => simp
  | cons a as ih =>
      have hpos := c.encode_length_pos a
      simp only [encodeAll_cons, List.length_cons, List.length_append]
      omega

theorem encodeAll_eq_nil {as : List α} : c.encodeAll as = [] ↔ as = [] := by
  refine ⟨fun h => ?_, fun h => by rw [h, encodeAll_nil]⟩
  have hle := c.length_le_encodeAll_length as
  rw [h] at hle
  exact List.eq_nil_of_length_eq_zero (Nat.le_zero.mp hle)

theorem decode_consumes (body : List β) (a : α) (rest : List β)
    (h : c.decode body = .ok (a, rest)) : rest.length < body.length := by
  have hbody := (c.decode_sound _ _ _ h).2
  have hpos := c.encode_length_pos a
  rw [hbody, List.length_append]
  omega

/-- What the loop accepts is a concatenation of encodings of values that fit. -/
theorem many_sound {fuel : Nat} {body : List β} {out as : List α}
    (h : many c.decode fuel body out = .ok as) :
    ∃ es, as = out ++ es ∧ body = c.encodeAll es ∧ ∀ e ∈ es, c.Fits e := by
  induction fuel generalizing body out with
  | zero =>
      cases body with
      | nil => exact ⟨[], by simpa [many] using h.symm, rfl, by simp⟩
      | cons b bs => simp [many] at h
  | succ fuel ih =>
      cases body with
      | nil => exact ⟨[], by simpa [many] using h.symm, rfl, by simp⟩
      | cons b bs =>
          rw [many_cons (by simp)] at h
          rcases Result.bind_eq_ok.mp h with ⟨⟨a, rest⟩, hstep, hrest⟩
          have hsound := c.decode_sound _ _ _ hstep
          rcases ih hrest with ⟨es, has, hes, hall⟩
          refine ⟨a :: es, by rw [has, List.append_assoc, List.singleton_append], ?_, ?_⟩
          · rw [hsound.2, hes, encodeAll_cons]
          · simpa using ⟨hsound.1, hall⟩

/-- The loop reads back every list of values that fit. -/
theorem many_encodeAll {fuel : Nat} {es out : List α} (hfit : ∀ e ∈ es, c.Fits e)
    (hfuel : es.length ≤ fuel) :
    many c.decode fuel (c.encodeAll es) out = .ok (out ++ es) := by
  induction es generalizing fuel out with
  | nil => cases fuel <;> simp [many]
  | cons e es ih =>
      cases fuel with
      | zero => simp at hfuel
      | succ fuel =>
          have hne : c.encodeAll (e :: es) ≠ [] := fun h => by cases c.encodeAll_eq_nil.mp h
          rw [many_cons hne, encodeAll_cons, c.decode_encode e _ (hfit e (by simp))]
          simp only [Result.ok_bind]
          rw [ih (fun x hx => hfit x (by simp [hx])) (by simpa using hfuel), List.append_assoc,
            List.singleton_append]

/-- Two frames that fit and start the same input are the same frame, with the same rest. -/
theorem encode_append_inj {a b : α} {r s : List β} (ha : c.Fits a) (hb : c.Fits b)
    (h : c.encode a ++ r = c.encode b ++ s) : a = b ∧ r = s := by
  have hdec := c.decode_encode a r ha
  rw [h, c.decode_encode b s hb] at hdec
  cases hdec
  exact ⟨rfl, rfl⟩

/-- No prefix of a concatenation of frames cuts a frame or rereads its tail: the prefix order on
bytes is the prefix order on values. -/
theorem encodeAll_prefix_iff {as bs : List α} (ha : ∀ a ∈ as, c.Fits a) (hb : ∀ b ∈ bs, c.Fits b) :
    c.encodeAll as <+: c.encodeAll bs ↔ as <+: bs := by
  refine ⟨fun h => ?_, fun h => ?_⟩
  · -- one frame at a time: the first frame of `as` and of `bs` start the same bytes
    induction as generalizing bs with
    | nil => exact List.nil_prefix
    | cons a as ih =>
        rcases h with ⟨t, ht⟩
        cases bs with
        | nil =>
            have hnil : c.encodeAll (a :: as) = [] := (List.append_eq_nil_iff.mp ht).1
            cases c.encodeAll_eq_nil.mp hnil
        | cons b bs =>
            rw [encodeAll_cons, encodeAll_cons, List.append_assoc] at ht
            have hinj := c.encode_append_inj (ha a (by simp)) (hb b (by simp)) ht
            have htail : as <+: bs := ih (fun x hx => ha x (by simp [hx]))
              (fun x hx => hb x (by simp [hx])) ⟨t, hinj.2⟩
            rw [hinj.1]
            exact (List.prefix_cons_inj b).mpr htail
  · rcases h with ⟨t, ht⟩
    exact ⟨c.encodeAll t, by rw [← ht, encodeAll_append]⟩

theorem encodeAll_injective {as bs : List α} (ha : ∀ a ∈ as, c.Fits a) (hb : ∀ b ∈ bs, c.Fits b)
    (h : c.encodeAll as = c.encodeAll bs) : as = bs := by
  have hab := (c.encodeAll_prefix_iff ha hb).mp (h ▸ List.prefix_rfl)
  have hba := (c.encodeAll_prefix_iff hb ha).mp (h ▸ List.prefix_rfl)
  exact hab.eq_of_length (Nat.le_antisymm hab.length_le hba.length_le)

end FrameCodec

end LogosChat.Reasoning
