import LogosChat.Reasoning.Result

/-!
# Slices, words and lines of a text

`&s[..n]` counts bytes.  It is the characters before byte `n`, and a panic when that byte is inside a
character or past the end.  The other functions are those of the standard library that a program reads
its input with.
-/

namespace LogosChat.Reasoning

variable {ε : Type}

/-! ## Slices -/

/-- The characters that end within the first `n` bytes. -/
def takeBytes : Nat → List Char → List Char
  | _, [] => []
  | n, c :: cs => if c.utf8Size ≤ n then c :: takeBytes (n - c.utf8Size) cs else []

/-- `&s[..n]`. -/
def sliceTo (s : String) (n : Nat) : Result ε String :=
  let front := String.ofList (takeBytes n s.toList)
  if front.utf8ByteSize = n then .ok front else .panic

/-- `&s[..n.min(s.len())]`. -/
def cut (n : Nat) (s : String) : Result ε String := sliceTo s (min n s.utf8ByteSize)

/-- Byte `n` is the first of a character, or the end. -/
def IsCharBoundary (s : String) (n : Nat) : Prop :=
  ∃ front back, s = front ++ back ∧ front.utf8ByteSize = n

theorem utf8ByteSize_ofList_cons (c : Char) (cs : List Char) :
    (String.ofList (c :: cs)).utf8ByteSize = c.utf8Size + (String.ofList cs).utf8ByteSize := by
  rw [← List.singleton_append, String.ofList_append, String.utf8ByteSize_append]
  simp

theorem takeBytes_zero (cs : List Char) : takeBytes 0 cs = [] := by
  cases cs with
  | nil => rfl
  | cons c cs =>
      have hpos := c.utf8Size_pos
      rw [takeBytes, if_neg (by omega)]

theorem takeBytes_append (front back : List Char) :
    takeBytes (String.ofList front).utf8ByteSize (front ++ back) = front := by
  induction front with
  | nil => exact takeBytes_zero back
  | cons c front ih =>
      rw [utf8ByteSize_ofList_cons, List.cons_append, takeBytes, if_pos (Nat.le_add_right _ _),
        Nat.add_sub_cancel_left, ih]

theorem takeBytes_prefix (n : Nat) (cs : List Char) : takeBytes n cs <+: cs := by
  induction cs generalizing n with
  | nil => exact List.prefix_refl []
  | cons c cs ih =>
      rw [takeBytes]
      by_cases hfits : c.utf8Size ≤ n
      · rw [if_pos hfits]
        exact List.cons_prefix_cons.mpr ⟨rfl, ih _⟩
      · rw [if_neg hfits]
        exact List.nil_prefix

theorem sliceTo_append (front back : String) :
    (sliceTo (front ++ back) front.utf8ByteSize : Result ε String) = .ok front := by
  have htake : String.ofList (takeBytes front.utf8ByteSize (front ++ back).toList) = front := by
    have happend := takeBytes_append front.toList back.toList
    rw [String.ofList_toList] at happend
    rw [String.toList_append, happend, String.ofList_toList]
  rw [sliceTo, htake, if_pos rfl]

/-- A slice panics exactly off the boundaries of the characters. -/
theorem sliceTo_eq_panic_iff {s : String} {n : Nat} :
    (sliceTo s n : Result ε String) = .panic ↔ ¬ IsCharBoundary s n := by
  constructor
  · rintro hpanic ⟨front, back, rfl, rfl⟩
    rw [sliceTo_append] at hpanic
    cases hpanic
  · intro hnot
    apply if_neg
    intro hsize
    obtain ⟨back, hback⟩ := takeBytes_prefix n s.toList
    refine hnot ⟨_, String.ofList back, ?_, hsize⟩
    rw [← String.ofList_append, hback, String.ofList_toList]

/-- One byte for each character. -/
theorem utf8ByteSize_of_ascii {cs : List Char} (h : ∀ c ∈ cs, c.toNat < 0x80) :
    (String.ofList cs).utf8ByteSize = cs.length := by
  induction cs with
  | nil => rfl
  | cons c cs ih =>
      rw [List.forall_mem_cons] at h
      have hone : c.utf8Size = 1 := Char.utf8Size_eq_one_iff.mpr (Nat.le_of_lt_succ h.1)
      rw [utf8ByteSize_ofList_cons, ih h.2, hone, List.length_cons, Nat.add_comm]

theorem isCharBoundary_of_ascii {cs : List Char} (h : ∀ c ∈ cs, c.toNat < 0x80) {n : Nat}
    (hle : n ≤ cs.length) : IsCharBoundary (String.ofList cs) n := by
  refine ⟨String.ofList (cs.take n), String.ofList (cs.drop n), ?_, ?_⟩
  · rw [← String.ofList_append, List.take_append_drop]
  · rw [utf8ByteSize_of_ascii fun c hc ↦ h c (List.mem_of_mem_take hc), List.length_take]
    omega

/-! ## Words and lines -/

/-- `char::is_whitespace`. -/
def isWhitespace (c : Char) : Bool :=
  let n := c.toNat
  (0x9 ≤ n && n ≤ 0xd) || n == 0x20 || n == 0x85 || n == 0xa0 || n == 0x1680 ||
    (0x2000 ≤ n && n ≤ 0x200a) || n == 0x2028 || n == 0x2029 || n == 0x202f || n == 0x205f ||
    n == 0x3000

/-- `str::trim`. -/
def trim (s : String) : String :=
  String.ofList ((s.toList.dropWhile isWhitespace).reverse.dropWhile isWhitespace).reverse

/-- `str::split_whitespace`. -/
def splitWhitespace (s : String) : List String :=
  ((s.toList.splitOnP isWhitespace).filter (!·.isEmpty)).map String.ofList

/-- `lines().next()`, with no line read as an empty one.  A carriage return belongs to the end of the line
only before a line feed. -/
def firstLine (s : String) : String :=
  let line := s.toList.takeWhile (· != '\n')
  if s.toList.contains '\n' && line.getLast? == some '\r' then String.ofList line.dropLast
  else String.ofList line

end LogosChat.Reasoning
