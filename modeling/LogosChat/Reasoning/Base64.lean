import LogosChat.Reasoning.Bytes

/-!
# Base64

Four characters of the standard alphabet for three bytes, padded at the end.  A text is read only in
its canonical form: the padding has to be there, and the bits behind the last byte have to be zero.
-/

namespace LogosChat.Reasoning

def base64Char (n : Nat) : Char :=
  if n < 26 then Char.ofNat (65 + n)
  else if n < 52 then Char.ofNat (71 + n)
  else if n < 62 then Char.ofNat (n - 4)
  else if n = 62 then '+'
  else '/'

def base64Value (c : Char) : Option Nat :=
  if 'A' ≤ c ∧ c ≤ 'Z' then some (c.toNat - 65)
  else if 'a' ≤ c ∧ c ≤ 'z' then some (c.toNat - 71)
  else if '0' ≤ c ∧ c ≤ '9' then some (c.toNat + 4)
  else if c = '+' then some 62
  else if c = '/' then some 63
  else none

def base64Chars : Bytes → List Char
  | [] => []
  | [a] => [base64Char (a.toNat / 4), base64Char (a.toNat % 4 * 16), '=', '=']
  | [a, b] =>
      [base64Char (a.toNat / 4), base64Char (a.toNat % 4 * 16 + b.toNat / 16),
        base64Char (b.toNat % 16 * 4), '=']
  | a :: b :: c :: rest =>
      base64Char (a.toNat / 4) :: base64Char (a.toNat % 4 * 16 + b.toNat / 16) ::
        base64Char (b.toNat % 16 * 4 + c.toNat / 64) :: base64Char (c.toNat % 64) :: base64Chars rest

/-- `STANDARD.encode`. -/
def base64Encode (bs : Bytes) : String := String.ofList (base64Chars bs)

def unbase64Chars : List Char → Option Bytes
  | [] => some []
  | p :: q :: r :: s :: rest => do
      let p ← base64Value p
      let q ← base64Value q
      let first := UInt8.ofNat (p * 4 + q / 16)
      if s = '=' ∧ rest = [] then
        if r = '=' then
          if q % 16 = 0 then some [first] else none
        else
          let r ← base64Value r
          if r % 4 = 0 then some [first, UInt8.ofNat (q % 16 * 16 + r / 4)] else none
      else
        let r ← base64Value r
        let s ← base64Value s
        let bytes ← unbase64Chars rest
        some (first :: UInt8.ofNat (q % 16 * 16 + r / 4) :: UInt8.ofNat (r % 4 * 64 + s) :: bytes)
  | _ => none

/-- `STANDARD.decode`, without the reason for a failure. -/
def base64Decode (text : String) : Option Bytes := unbase64Chars text.toList

theorem base64Value_base64Char : ∀ n < 64, base64Value (base64Char n) = some n := by
  decide

theorem base64Char_ne_pad : ∀ n < 64, base64Char n ≠ '=' := by
  decide

-- the last two bits of one character and the first four of the next make a byte again
theorem ofNat_joined (a : UInt8) {n : Nat} (h : n = a.toNat) : UInt8.ofNat n = a := by
  rw [h, UInt8.ofNat_toNat]

theorem unbase64Chars_base64Chars (bs : Bytes) : unbase64Chars (base64Chars bs) = some bs := by
  induction bs using base64Chars.induct with
  | case1 => rfl
  | case2 a =>
      have ha := a.toNat_lt
      rw [base64Chars, unbase64Chars, base64Value_base64Char _ (by omega),
        base64Value_base64Char _ (by omega)]
      simp only [Option.bind_eq_bind, Option.bind_some, and_self, ↓reduceIte]
      rw [if_pos (by omega), ofNat_joined a (by omega)]
  | case3 a b =>
      have ha := a.toNat_lt
      have hb := b.toNat_lt
      rw [base64Chars, unbase64Chars, base64Value_base64Char _ (by omega),
        base64Value_base64Char _ (by omega)]
      simp only [Option.bind_eq_bind, Option.bind_some, and_self, ↓reduceIte]
      rw [if_neg (base64Char_ne_pad _ (by omega)), base64Value_base64Char _ (by omega)]
      simp only [Option.bind_some]
      rw [if_pos (by omega), ofNat_joined a (by omega), ofNat_joined b (by omega)]
  | case4 a b c rest ih =>
      have ha := a.toNat_lt
      have hb := b.toNat_lt
      have hc := c.toNat_lt
      rw [base64Chars, unbase64Chars, base64Value_base64Char _ (by omega),
        base64Value_base64Char _ (by omega)]
      simp only [Option.bind_eq_bind, Option.bind_some]
      rw [if_neg fun h ↦ base64Char_ne_pad _ (by omega) h.1, base64Value_base64Char _ (by omega),
        base64Value_base64Char _ (by omega), ih]
      simp only [Option.bind_some]
      rw [ofNat_joined a (by omega), ofNat_joined b (by omega), ofNat_joined c (by omega)]

@[simp] theorem base64Decode_base64Encode (bs : Bytes) : base64Decode (base64Encode bs) = some bs := by
  rw [base64Decode, base64Encode, String.toList_ofList]
  exact unbase64Chars_base64Chars bs

end LogosChat.Reasoning
