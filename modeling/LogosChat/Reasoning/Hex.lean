import LogosChat.Reasoning.Utf8

/-!
# Hexadecimal text

Two characters for each byte: lower case when written, either case when read.
-/

namespace LogosChat.Reasoning

def hexChars : Bytes → List Char
  | [] => []
  | b :: bs => Nat.digitChar (b.toNat / 16) :: Nat.digitChar (b.toNat % 16) :: hexChars bs

/-- `hex::encode`. -/
def hexEncode (bs : Bytes) : String := String.ofList (hexChars bs)

def hexValue (c : Char) : Option Nat :=
  if '0' ≤ c ∧ c ≤ '9' then some (c.toNat - 48)
  else if 'a' ≤ c ∧ c ≤ 'f' then some (c.toNat - 87)
  else if 'A' ≤ c ∧ c ≤ 'F' then some (c.toNat - 55)
  else none

def unhexChars : List Char → Option Bytes
  | [] => some []
  -- an odd number of digits
  | [_] => none
  | high :: low :: rest => do
      let high ← hexValue high
      let low ← hexValue low
      let bytes ← unhexChars rest
      some (UInt8.ofNat (16 * high + low) :: bytes)

/-- `hex::decode`, without the reason for a failure. -/
def hexDecode (text : String) : Option Bytes := unhexChars text.toList

theorem hexValue_digitChar : ∀ d < 16, hexValue (Nat.digitChar d) = some d := by
  decide

theorem unhexChars_hexChars (bs : Bytes) : unhexChars (hexChars bs) = some bs := by
  induction bs with
  | nil => rfl
  | cons b bs ih =>
      have hb := b.toNat_lt
      have hdigits : 16 * (b.toNat / 16) + b.toNat % 16 = b.toNat := by omega
      rw [hexChars, unhexChars, hexValue_digitChar _ (by omega), hexValue_digitChar _ (by omega), ih]
      show some (UInt8.ofNat (16 * (b.toNat / 16) + b.toNat % 16) :: bs) = some (b :: bs)
      rw [hdigits, UInt8.ofNat_toNat]

@[simp] theorem hexDecode_hexEncode (bs : Bytes) : hexDecode (hexEncode bs) = some bs := by
  rw [hexDecode, hexEncode, String.toList_ofList]
  exact unhexChars_hexChars bs

theorem hexEncode_injective {a b : Bytes} (h : hexEncode a = hexEncode b) : a = b := by
  have hdecode := congrArg hexDecode h
  rw [hexDecode_hexEncode, hexDecode_hexEncode] at hdecode
  exact Option.some.inj hdecode

/-! ## The bytes of the text -/

theorem digitChar_lt : ∀ d < 16, (Nat.digitChar d).toNat < 0x7c := by
  decide

theorem lt_of_mem_hexChars (bs : Bytes) : ∀ c ∈ hexChars bs, c.toNat < 0x7c := by
  induction bs with
  | nil => simp [hexChars]
  | cons b bs ih =>
      have hb := b.toNat_lt
      rw [hexChars, List.forall_mem_cons, List.forall_mem_cons]
      exact ⟨digitChar_lt _ (by omega), digitChar_lt _ (by omega), ih⟩

theorem length_hexChars (bs : Bytes) : (hexChars bs).length = 2 * bs.length := by
  induction bs with
  | nil => rfl
  | cons b bs ih =>
      rw [hexChars, List.length_cons, List.length_cons, List.length_cons, ih]
      omega

theorem utf8_hexEncode (bs : Bytes) :
    utf8 (hexEncode bs) = (hexChars bs).map fun c ↦ UInt8.ofNat c.toNat :=
  utf8_ofList_of_ascii fun c hc ↦ Nat.lt_trans (lt_of_mem_hexChars bs c hc) (by decide)

theorem length_utf8_hexEncode (bs : Bytes) : (utf8 (hexEncode bs)).length = 2 * bs.length := by
  rw [utf8_hexEncode, List.length_map, length_hexChars]

/-- No digit is a `|`, nor anything behind it. -/
theorem lt_of_mem_utf8_hexEncode {bs : Bytes} {b : UInt8} (h : b ∈ utf8 (hexEncode bs)) :
    b.toNat < 0x7c := by
  rw [utf8_hexEncode] at h
  obtain ⟨c, hc, rfl⟩ := List.mem_map.mp h
  have hlt := lt_of_mem_hexChars bs c hc
  rw [UInt8.toNat_ofNat']
  omega

/-! ## One spelling

Read back, a text may come out in another case; a text of digits and lower-case letters does not. -/

/-- `is_ascii_digit` or `is_ascii_lowercase`. -/
def isLowerAlnum (b : UInt8) : Bool := (0x30 ≤ b && b ≤ 0x39) || (0x61 ≤ b && b ≤ 0x7a)

theorem isLowerAlnum_digitChar : ∀ d < 16, isLowerAlnum (UInt8.ofNat (Nat.digitChar d).toNat) = true := by
  decide

theorem isLowerAlnum_of_mem_hexChars {bs : Bytes} {c : Char} (h : c ∈ hexChars bs) :
    isLowerAlnum (UInt8.ofNat c.toNat) = true := by
  induction bs with
  | nil => cases h
  | cons b bs ih =>
      have hb := b.toNat_lt
      rw [hexChars, List.mem_cons, List.mem_cons] at h
      obtain rfl | rfl | h := h
      · exact isLowerAlnum_digitChar _ (by omega)
      · exact isLowerAlnum_digitChar _ (by omega)
      · exact ih h

/-- The digits by their code points. -/
theorem hexValue_eq (c : Char) : hexValue c =
    if 48 ≤ c.toNat ∧ c.toNat ≤ 57 then some (c.toNat - 48)
    else if 97 ≤ c.toNat ∧ c.toNat ≤ 102 then some (c.toNat - 87)
    else if 65 ≤ c.toNat ∧ c.toNat ≤ 70 then some (c.toNat - 55)
    else none := rfl

theorem hexValue_lt {c : Char} {v : Nat} (h : hexValue c = some v) : c.toNat < 0x80 ∧ v < 16 := by
  rw [hexValue_eq] at h
  split_ifs at h <;> cases h <;> omega

theorem digitChar_toNat : ∀ d < 16, (Nat.digitChar d).toNat = if d < 10 then 48 + d else 87 + d := by
  decide

/-- A digit in lower case is the one that its value is written as. -/
theorem digitChar_of_hexValue {c : Char} {v : Nat} (h : hexValue c = some v)
    (hlower : isLowerAlnum (UInt8.ofNat c.toNat) = true) : Nat.digitChar v = c := by
  have hlt := hexValue_lt h
  have hbyte : (UInt8.ofNat c.toNat).toNat = c.toNat := by
    rw [UInt8.toNat_ofNat']
    omega
  simp only [isLowerAlnum, UInt8.le_iff_toNat_le, hbyte, UInt8.reduceToNat, Bool.or_eq_true,
    Bool.and_eq_true, decide_eq_true_eq] at hlower
  apply Char.toNat_inj.mp
  rw [digitChar_toNat v hlt.2]
  rw [hexValue_eq] at h
  split_ifs at h <;> cases h <;> split <;> omega

theorem hexChars_of_unhexChars {cs : List Char} {bs : Bytes} (h : unhexChars cs = some bs)
    (hlower : ∀ c ∈ cs, isLowerAlnum (UInt8.ofNat c.toNat) = true) : hexChars bs = cs := by
  induction cs using unhexChars.induct generalizing bs with
  | case1 =>
      cases h
      rfl
  | case2 c => cases h
  | case3 high low rest ih =>
      rw [unhexChars] at h
      obtain ⟨hi, hhigh, h⟩ := Option.bind_eq_some_iff.mp h
      obtain ⟨lo, hlow, h⟩ := Option.bind_eq_some_iff.mp h
      obtain ⟨bytes, hbytes, h⟩ := Option.bind_eq_some_iff.mp h
      cases h
      have hhi := (hexValue_lt hhigh).2
      have hlo := (hexValue_lt hlow).2
      have hbyte : (UInt8.ofNat (16 * hi + lo)).toNat = 16 * hi + lo := by
        rw [UInt8.toNat_ofNat']
        omega
      have hdiv : (16 * hi + lo) / 16 = hi := by omega
      have hmod : (16 * hi + lo) % 16 = lo := by omega
      rw [hexChars, hbyte, hdiv, hmod,
        digitChar_of_hexValue hhigh (hlower high (by simp)),
        digitChar_of_hexValue hlow (hlower low (by simp)),
        ih hbytes fun c hc ↦ hlower c (by simp [hc])]

theorem lt_of_unhexChars {cs : List Char} {bs : Bytes} (h : unhexChars cs = some bs) :
    ∀ c ∈ cs, c.toNat < 0x80 := by
  induction cs using unhexChars.induct generalizing bs with
  | case1 => nofun
  | case2 c => cases h
  | case3 high low rest ih =>
      rw [unhexChars] at h
      obtain ⟨hi, hhigh, h⟩ := Option.bind_eq_some_iff.mp h
      obtain ⟨lo, hlow, h⟩ := Option.bind_eq_some_iff.mp h
      obtain ⟨bytes, hbytes, h⟩ := Option.bind_eq_some_iff.mp h
      intro c hc
      rw [List.mem_cons, List.mem_cons] at hc
      obtain rfl | rfl | hc := hc
      · exact (hexValue_lt hhigh).1
      · exact (hexValue_lt hlow).1
      · exact ih hbytes c hc

/-- A text of digits and lower-case letters is the one spelling of the bytes it is read as. -/
theorem hexEncode_of_hexDecode {s : String} {bs : Bytes} (h : hexDecode s = some bs)
    (hlower : (utf8 s).all isLowerAlnum = true) : hexEncode bs = s := by
  have hbytes : utf8 s = s.toList.map fun c ↦ UInt8.ofNat c.toNat := by
    conv_lhs => rw [← String.ofList_toList (s := s)]
    exact utf8_ofList_of_ascii (lt_of_unhexChars h)
  rw [hbytes, List.all_map, List.all_eq_true] at hlower
  rw [hexEncode, hexChars_of_unhexChars h hlower, String.ofList_toList]

end LogosChat.Reasoning
