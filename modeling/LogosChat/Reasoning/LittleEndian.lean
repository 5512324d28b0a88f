import Mathlib.Data.Nat.Digits.Lemmas

/-!
# Fixed-width little-endian integers

`leBytes k n` is what `to_le_bytes` writes for a `k`-byte integer and `leNat` is the value that
`from_le_bytes` reads back.  The two are inverse in both directions: every width-`k` byte string is
the encoding of exactly one value below `256 ^ k`.
-/

namespace LogosChat.Reasoning

/-- The low `k` bytes of `n`, least significant first. -/
def leBytes : Nat → Nat → List UInt8
  | 0, _ => []
  | k + 1, n => UInt8.ofNat n :: leBytes k (n / 256)

/-- The value of a little-endian byte string. -/
def leNat (bs : List UInt8) : Nat :=
  Nat.ofDigits 256 (bs.map UInt8.toNat)

@[simp] theorem leNat_nil : leNat [] = 0 := rfl

@[simp] theorem leNat_cons (b : UInt8) (bs : List UInt8) :
    leNat (b :: bs) = b.toNat + 256 * leNat bs := by
  simp [leNat, Nat.ofDigits_cons]

@[simp] theorem leBytes_length (k n : Nat) : (leBytes k n).length = k := by
  induction k generalizing n with
  | zero => rfl
  | succ k ih => simp [leBytes, ih]

theorem leNat_lt (bs : List UInt8) : leNat bs < 256 ^ bs.length := by
  have h := Nat.ofDigits_lt_base_pow_length (b := 256) (l := bs.map UInt8.toNat) (by decide)
    (by
      intro d hd
      rcases List.mem_map.mp hd with ⟨b, -, hb⟩
      rw [← hb]
      exact b.toNat_lt)
  simpa [leNat] using h

/-- Writing a value and reading it back keeps its low `k` bytes. -/
theorem leNat_leBytes (k n : Nat) : leNat (leBytes k n) = n % 256 ^ k := by
  induction k generalizing n with
  | zero => simp [leBytes, Nat.mod_one]
  | succ k ih =>
      have hbyte : (UInt8.ofNat n).toNat = n % 256 := by simp
      rw [leBytes, leNat_cons, ih, hbyte, pow_succ, Nat.mul_comm (256 ^ k) 256, Nat.mod_mul]

theorem leNat_leBytes_of_lt {k n : Nat} (h : n < 256 ^ k) : leNat (leBytes k n) = n := by
  rw [leNat_leBytes, Nat.mod_eq_of_lt h]

/-- Every byte string of width `k` is the encoding of its own value. -/
theorem leBytes_leNat (bs : List UInt8) : leBytes bs.length (leNat bs) = bs := by
  induction bs with
  | nil => rfl
  | cons b bs ih =>
      have hhead : UInt8.ofNat (b.toNat + 256 * leNat bs) = b := by
        apply UInt8.toNat_inj.mp
        have hb := b.toNat_lt
        rw [UInt8.toNat_ofNat']
        omega
      have htail : (b.toNat + 256 * leNat bs) / 256 = leNat bs := by
        have hb := b.toNat_lt
        omega
      rw [List.length_cons, leBytes, leNat_cons, hhead, htail, ih]

theorem leBytes_leNat_of_length {k : Nat} {bs : List UInt8} (h : bs.length = k) :
    leBytes k (leNat bs) = bs := by
  subst h
  exact leBytes_leNat bs

theorem leNat_append (xs ys : List UInt8) :
    leNat (xs ++ ys) = leNat xs + 256 ^ xs.length * leNat ys := by
  rw [leNat, List.map_append, Nat.ofDigits_append, List.length_map]
  rfl

theorem leNat_concat (xs : List UInt8) (a : UInt8) :
    leNat (xs ++ [a]) = leNat xs + 256 ^ xs.length * a.toNat := by
  rw [leNat_append, leNat_cons, leNat_nil, Nat.mul_zero, Nat.add_zero]

/-- Of two strings of one length, the last byte decides first. -/
theorem leNat_concat_lt_iff {xs ys : List UInt8} (h : xs.length = ys.length) (a b : UInt8) :
    leNat (xs ++ [a]) < leNat (ys ++ [b]) ↔ a < b ∨ a = b ∧ leNat xs < leNat ys := by
  have hxs := leNat_lt xs
  have hys := leNat_lt ys
  rw [leNat_concat, leNat_concat, UInt8.lt_iff_toNat_lt, ← UInt8.toNat_inj, ← h]
  rw [← h] at hys
  generalize 256 ^ xs.length = base at *
  rcases Nat.lt_trichotomy a.toNat b.toNat with hlt | heq | hgt
  · have hnext : base * (a.toNat + 1) ≤ base * b.toNat := Nat.mul_le_mul_left base hlt
    rw [Nat.mul_add] at hnext
    simp only [hlt, true_or, iff_true]
    omega
  · rw [heq]
    omega
  · have hnext : base * (b.toNat + 1) ≤ base * a.toNat := Nat.mul_le_mul_left base hgt
    rw [Nat.mul_add] at hnext
    omega

end LogosChat.Reasoning
