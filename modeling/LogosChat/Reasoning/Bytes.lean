import Mathlib.Data.List.Basic

/-!
# Byte slices, byte arrays and UTF-8 text

The slice operations a parser is written with, each with the equation that inverts it.  `utf8` and
`fromUtf8` are `str::as_bytes` and `String::from_utf8`; they are inverse to each other.
`fromUtf8Lossy` is `String::from_utf8_lossy`, which error texts go through.
-/

namespace LogosChat.Reasoning

abbrev Bytes := List UInt8

-- one name for the instance that every search for a byte string in a list needs
instance : LawfulBEq Bytes := inferInstance

/-! ## Slices -/

/-- `strip_prefix`. -/
def stripPrefix (tag bs : Bytes) : Option Bytes :=
  if tag <+: bs then some (bs.drop tag.length) else none

theorem stripPrefix_eq_some_iff {tag bs rest : Bytes} :
    stripPrefix tag bs = some rest ↔ bs = tag ++ rest := by
  unfold stripPrefix
  by_cases h : tag <+: bs
  · rw [if_pos h]
    rcases h with ⟨t, ht⟩
    simp [← ht, eq_comm]
  · rw [if_neg h]
    refine ⟨nofun, fun hbs => ?_⟩
    exact absurd (hbs ▸ List.prefix_append tag rest) h

/-- `try_into` from a slice to an array of `n` bytes. -/
def tryIntoArray (n : Nat) (bs : Bytes) : Option (Vector UInt8 n) :=
  if h : bs.length = n then some ⟨bs.toArray, by simpa using h⟩ else none

theorem tryIntoArray_eq_some_iff {n : Nat} {bs : Bytes} {v : Vector UInt8 n} :
    tryIntoArray n bs = some v ↔ v.toList = bs := by
  unfold tryIntoArray
  by_cases h : bs.length = n
  · rw [dif_pos h, Option.some_inj, ← Vector.toList_inj, Vector.toList_mk, List.toList_toArray,
      eq_comm]
  · rw [dif_neg h]
    refine ⟨nofun, fun hv => ?_⟩
    exact absurd (hv ▸ Vector.length_toList) h

@[simp] theorem tryIntoArray_toList {n : Nat} (v : Vector UInt8 n) :
    tryIntoArray n v.toList = some v :=
  tryIntoArray_eq_some_iff.mpr rfl

/-! ## Text -/

/-- The bytes of a string. -/
def utf8 (s : String) : Bytes :=
  s.toByteArray.data.toList

/-- The string with these bytes, when they are valid UTF-8. -/
def fromUtf8 (bs : Bytes) : Option String :=
  String.fromUTF8? ⟨bs.toArray⟩

theorem fromUtf8_eq_some_iff {bs : Bytes} {s : String} : fromUtf8 bs = some s ↔ utf8 s = bs := by
  unfold fromUtf8 String.fromUTF8? utf8
  by_cases hvalid : (⟨bs.toArray⟩ : ByteArray).IsValidUTF8
  · rw [dif_pos hvalid, Option.some_inj]
    refine ⟨fun h => by rw [← h]; rfl, fun h => ?_⟩
    subst h
    rfl
  · rw [dif_neg hvalid]
    refine ⟨nofun, fun h => ?_⟩
    subst h
    exact absurd s.isValidUTF8 hvalid

@[simp] theorem fromUtf8_utf8 (s : String) : fromUtf8 (utf8 s) = some s :=
  fromUtf8_eq_some_iff.mpr rfl

theorem utf8_inj {s t : String} (h : utf8 s = utf8 t) : s = t := by
  have hread := congrArg fromUtf8 h
  rw [fromUtf8_utf8, fromUtf8_utf8] at hread
  exact Option.some.inj hread

/-- A run of one ASCII character takes one byte each. -/
theorem utf8_replicate_length {c : Char} (hc : c.utf8Size = 1) (n : Nat) :
    (utf8 (String.ofList (List.replicate n c))).length = n := by
  unfold utf8
  rw [String.toByteArray_ofList]
  simp [List.utf8Encode, hc]

/-- How many bytes a sequence that starts with `b` has; `0` when none starts so. -/
def sequenceWidth (b : UInt8) : Nat :=
  if b < 0x80 then 1
  else if 0xc2 ≤ b && b ≤ 0xdf then 2
  else if 0xe0 ≤ b && b ≤ 0xef then 3
  else if 0xf0 ≤ b && b ≤ 0xf4 then 4
  else 0

/-- Whether `c` may follow the first byte `b`: the ranges that shut out overlong forms, surrogates
and values past `U+10FFFF`. -/
def secondByte (b c : UInt8) : Bool :=
  if b = 0xe0 then 0xa0 ≤ c && c ≤ 0xbf
  else if b = 0xed then 0x80 ≤ c && c ≤ 0x9f
  else if b = 0xf0 then 0x90 ≤ c && c ≤ 0xbf
  else if b = 0xf4 then 0x80 ≤ c && c ≤ 0x8f
  else 0x80 ≤ c && c ≤ 0xbf

/-- The length of the longest start of `b :: rest` that a well-formed sequence could have. -/
def maximalSubpart (b : UInt8) : Bytes → Nat
  | [] => 1
  | c :: rest =>
      if 2 ≤ sequenceWidth b && secondByte b c then
        2 + ((rest.take (sequenceWidth b - 2)).takeWhile (fun d => 0x80 ≤ d && d ≤ 0xbf)).length
      else 1

/-- `String::from_utf8_lossy`: each ill-formed maximal subpart becomes one `U+FFFD`.  One sequence
is taken off the front per unit of fuel, so the length of the input is enough. -/
def lossyLoop : Nat → Bytes → String
  | _, [] => ""
  | 0, _ :: _ => ""
  | fuel + 1, b :: rest =>
      let width := maximalSubpart b rest
      (fromUtf8 ((b :: rest).take width)).getD "�" ++ lossyLoop fuel ((b :: rest).drop width)

def fromUtf8Lossy (bs : Bytes) : String :=
  lossyLoop bs.length bs

example : fromUtf8Lossy [0x63, 0xe9, 0x2e, 0xe2, 0x82] = "c�.�" := by decide

end LogosChat.Reasoning
