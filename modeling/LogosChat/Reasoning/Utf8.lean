import LogosChat.Reasoning.Bytes
import Mathlib.Data.List.TakeWhile

/-!
# Texts as bytes

The bytes of a text are read one well-formed sequence at a time, each the bytes of one character.
`fromUtf8Lossy` therefore finds nothing to replace in them, and what no sequence starts with, no text
does.
-/

namespace LogosChat.Reasoning

/-! ## Well-formed sequences -/

section Sequences

variable {b c : UInt8}

theorem sequenceWidth_eq (b : UInt8) : sequenceWidth b =
    if b.toNat < 0x80 then 1
    else if 0xc2 ≤ b.toNat ∧ b.toNat ≤ 0xdf then 2
    else if 0xe0 ≤ b.toNat ∧ b.toNat ≤ 0xef then 3
    else if 0xf0 ≤ b.toNat ∧ b.toNat ≤ 0xf4 then 4
    else 0 := by
  simp only [sequenceWidth, UInt8.lt_iff_toNat_lt, UInt8.le_iff_toNat_le, UInt8.reduceToNat,
    Bool.and_eq_true, decide_eq_true_eq]

theorem secondByte_of_ranges (hlow : 0x80 ≤ c.toNat) (hhigh : c.toNat ≤ 0xbf)
    (he0 : b.toNat = 0xe0 → 0xa0 ≤ c.toNat) (hed : b.toNat = 0xed → c.toNat ≤ 0x9f)
    (hf0 : b.toNat = 0xf0 → 0x90 ≤ c.toNat) (hf4 : b.toNat = 0xf4 → c.toNat ≤ 0x8f) :
    secondByte b c = true := by
  simp only [secondByte, UInt8.le_iff_toNat_le, UInt8.reduceToNat, ← UInt8.toNat_inj]
  split_ifs <;> simp only [Bool.and_eq_true, decide_eq_true_eq] <;> omega

/-- A byte that only follows others. -/
theorem continuation_ofNat (n : Nat) :
    (0x80 ≤ UInt8.ofNat (n % 64 + 128) && UInt8.ofNat (n % 64 + 128) ≤ 0xbf) = true := by
  simp only [UInt8.le_iff_toNat_le, UInt8.toNat_ofNat', UInt8.reduceToNat, Bool.and_eq_true,
    decide_eq_true_eq]
  omega

theorem maximalSubpart_of_ascii (h : sequenceWidth b = 1) (more : Bytes) : maximalSubpart b more = 1 := by
  cases more with
  | nil => rfl
  | cons d more => simp [maximalSubpart, h]

theorem maximalSubpart_of_wellFormed (tail : Bytes) (hwidth : sequenceWidth b = tail.length + 2)
    (hsecond : secondByte b c = true) (htail : ∀ d ∈ tail, (0x80 ≤ d && d ≤ 0xbf) = true)
    (more : Bytes) : maximalSubpart b (c :: (tail ++ more)) = tail.length + 2 := by
  have hall : tail.takeWhile (fun d ↦ 0x80 ≤ d && d ≤ 0xbf) = tail :=
    List.takeWhile_eq_self_iff.mpr htail
  simp [maximalSubpart, hwidth, hsecond, hall, Nat.add_comm]

end Sequences

/-- The bytes of a character are one sequence, whatever follows them. -/
theorem maximalSubpart_utf8EncodeChar (c : Char) :
    ∃ b rest, String.utf8EncodeChar c = b :: rest ∧
      ∀ more, maximalSubpart b (rest ++ more) = rest.length + 1 := by
  have hvalid : c.val.toNat < 0xd800 ∨ 0xdfff < c.val.toNat ∧ c.val.toNat < 0x110000 := c.valid
  unfold String.utf8EncodeChar
  dsimp only
  -- one case for each length, and in each the ranges of its bytes
  split_ifs with h1 h2 h3
  · refine ⟨_, _, rfl, fun more ↦ maximalSubpart_of_ascii ?_ more⟩
    rw [sequenceWidth_eq, UInt8.toNat_ofNat', if_pos (by omega)]
  · refine ⟨_, _, rfl, fun more ↦ maximalSubpart_of_wellFormed [] ?_ ?_ nofun more⟩
    · rw [sequenceWidth_eq, UInt8.toNat_ofNat', if_neg (by omega), if_pos (by omega), List.length_nil]
    · apply secondByte_of_ranges <;> simp only [UInt8.toNat_ofNat'] <;> omega
  · refine ⟨_, _, rfl, fun more ↦ maximalSubpart_of_wellFormed [_] ?_ ?_ ?_ more⟩
    · rw [sequenceWidth_eq, UInt8.toNat_ofNat', if_neg (by omega), if_neg (by omega),
        if_pos (by omega), List.length_singleton]
    · apply secondByte_of_ranges <;> simp only [UInt8.toNat_ofNat'] <;> omega
    · intro d hd
      rw [List.mem_singleton.mp hd]
      exact continuation_ofNat _
  · refine ⟨_, _, rfl, fun more ↦ maximalSubpart_of_wellFormed [_, _] ?_ ?_ ?_ more⟩
    · rw [sequenceWidth_eq, UInt8.toNat_ofNat', if_neg (by omega), if_neg (by omega),
        if_neg (by omega), if_pos (by omega)]
      rfl
    · apply secondByte_of_ranges <;> simp only [UInt8.toNat_ofNat'] <;> omega
    · intro d hd
      rcases List.mem_cons.mp hd with rfl | hd
      · exact continuation_ofNat _
      · rw [List.mem_singleton.mp hd]
        exact continuation_ofNat _

/-! ## Texts -/

theorem utf8_ofList_cons (c : Char) (cs : List Char) :
    utf8 (String.ofList (c :: cs)) = String.utf8EncodeChar c ++ utf8 (String.ofList cs) := by
  unfold utf8
  rw [String.toByteArray_ofList, String.toByteArray_ofList]
  simp [List.utf8Encode]

theorem utf8EncodeChar_of_ascii {c : Char} (h : c.toNat < 0x80) :
    String.utf8EncodeChar c = [UInt8.ofNat c.toNat] := by
  have hcode : c.val.toNat = c.toNat := rfl
  rw [String.utf8EncodeChar, if_pos (by omega)]
  rfl

/-- A text of ASCII characters has one byte for each. -/
theorem utf8_ofList_of_ascii {cs : List Char} (h : ∀ c ∈ cs, c.toNat < 0x80) :
    utf8 (String.ofList cs) = cs.map fun c ↦ UInt8.ofNat c.toNat := by
  induction cs with
  | nil => rfl
  | cons c cs ih =>
      rw [List.forall_mem_cons] at h
      rw [utf8_ofList_cons, utf8EncodeChar_of_ascii h.1, ih h.2, List.map_cons, List.singleton_append]

theorem fromUtf8_utf8EncodeChar (c : Char) :
    fromUtf8 (String.utf8EncodeChar c) = some (String.ofList [c]) := by
  rw [fromUtf8_eq_some_iff, utf8_ofList_cons]
  exact List.append_nil _

/-- What is read off the front of a text is its first character. -/
theorem utf8_ofList_cons_front (c : Char) (cs : List Char) :
    ∃ b rest, utf8 (String.ofList (c :: cs)) = b :: rest ∧
      fromUtf8 ((b :: rest).take (maximalSubpart b rest)) = some (String.ofList [c]) ∧
      (b :: rest).drop (maximalSubpart b rest) = utf8 (String.ofList cs) := by
  obtain ⟨b, rest, hchar, hwidth⟩ := maximalSubpart_utf8EncodeChar c
  refine ⟨b, rest ++ utf8 (String.ofList cs), by rw [utf8_ofList_cons, hchar]; rfl, ?_, ?_⟩
  · rw [hwidth, List.take_succ_cons, List.take_left, ← hchar, fromUtf8_utf8EncodeChar]
  · rw [hwidth, List.drop_succ_cons, List.drop_left]

theorem lossyLoop_utf8 (cs : List Char) {fuel : Nat} (h : (utf8 (String.ofList cs)).length ≤ fuel) :
    lossyLoop fuel (utf8 (String.ofList cs)) = String.ofList cs := by
  induction cs generalizing fuel with
  | nil => cases fuel <;> rfl
  | cons c cs ih =>
      obtain ⟨b, rest, hbytes, hfront, hrest⟩ := utf8_ofList_cons_front c cs
      rw [hbytes] at h ⊢
      cases fuel with
      | zero => cases h
      | succ fuel =>
          have hfuel : (utf8 (String.ofList cs)).length ≤ fuel := by
            have hpos : 0 < maximalSubpart b rest := by
              cases rest with
              | nil => exact Nat.one_pos
              | cons d rest =>
                  rw [maximalSubpart]
                  split_ifs <;> omega
            rw [← hrest, List.length_drop]
            omega
          rw [lossyLoop, hfront, hrest, ih hfuel, Option.getD_some, ← String.ofList_append]
          rfl

@[simp] theorem fromUtf8Lossy_utf8 (s : String) : fromUtf8Lossy (utf8 s) = s := by
  have hloop := lossyLoop_utf8 s.toList le_rfl
  rwa [String.ofList_toList] at hloop

/-- No text starts with bytes whose first sequence is ill-formed. -/
theorem utf8_ne_of_front {b : UInt8} {rest : Bytes}
    (h : fromUtf8 ((b :: rest).take (maximalSubpart b rest)) = none) (s : String) :
    utf8 s ≠ b :: rest := by
  intro hbytes
  rw [← String.ofList_toList (s := s)] at hbytes
  cases hs : s.toList with
  | nil =>
      rw [hs] at hbytes
      cases hbytes
  | cons c cs =>
      obtain ⟨b', rest', hbytes', hfront, -⟩ := utf8_ofList_cons_front c cs
      rw [hs, hbytes'] at hbytes
      cases hbytes
      rw [h] at hfront
      cases hfront

end LogosChat.Reasoning
