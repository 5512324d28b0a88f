import LogosChat.Reasoning.Framing
import Mathlib.Data.List.Infix

/-!
# Following a journal

A journal is a file of frames that is only appended to, and whose last frame may not be complete yet.
A follower keeps the offset of the first frame it has not read, and at any time sees some prefix of
the file.  The frames it decodes are the written ones, one after the other; and when it sees the whole
file and finds no frame, it has read them all.
-/

namespace LogosChat.Reasoning.FrameCodec

variable {ε α β : Type} (c : FrameCodec ε α β)

/-- What is there of a frame that is not complete. -/
def Torn (tail : List β) : Prop :=
  tail = [] ∨ ∃ a, c.Fits a ∧ tail <+: c.encode a ∧ tail ≠ c.encode a

structure Journal (content : List β) (written : List α) : Prop where
  fits : ∀ a ∈ written, c.Fits a
  framed : ∃ tail, c.Torn tail ∧ content = c.encodeAll written ++ tail

variable {c} {a b : α} {tail visible rest more content : List β} {done left as bs cs : List α}

/-- A frame decoded from a prefix of the input is the one the input starts with. -/
theorem decode_of_isPrefix (ha : c.Fits a) (hvisible : visible <+: c.encode a ++ more)
    (hdecode : c.decode visible = .ok (b, rest)) : b = a := by
  obtain ⟨hb, hsplit⟩ := c.decode_sound _ _ _ hdecode
  obtain ⟨unseen, hunseen⟩ := hvisible
  rw [hsplit, List.append_assoc] at hunseen
  exact (c.encode_append_inj hb ha hunseen).1

theorem Torn.decode_ne_ok (htorn : c.Torn tail) (hvisible : visible <+: tail) :
    c.decode visible ≠ .ok (b, rest) := by
  intro hdecode
  obtain ⟨-, hsplit⟩ := c.decode_sound _ _ _ hdecode
  have hlength : (c.encode b).length ≤ tail.length := by
    have hle := hvisible.length_le
    rw [hsplit, List.length_append] at hle
    omega
  rcases htorn with rfl | ⟨a, ha, hpart, hne⟩
  · have hpos := c.encode_length_pos b
    rw [List.length_nil] at hlength
    omega
  · -- the frame would be the torn one, which is longer than what is there of it
    have hwhole : visible <+: c.encode a ++ [] := by
      rw [List.append_nil]
      exact hvisible.trans hpart
    rw [decode_of_isPrefix ha hwhole hdecode] at hlength
    exact hne (hpart.eq_of_length (Nat.le_antisymm hpart.length_le hlength))

theorem Journal.drop_done (h : c.Journal content (done ++ left)) :
    ∃ tail, c.Torn tail ∧ content.drop (c.encodeAll done).length = c.encodeAll left ++ tail := by
  obtain ⟨tail, htorn, hcontent⟩ := h.framed
  refine ⟨tail, htorn, ?_⟩
  rw [hcontent, encodeAll_append, List.append_assoc, List.drop_left]

/-- Whatever the follower sees, the frame it decodes is the next one. -/
theorem Journal.next (h : c.Journal content (done ++ left)) {seen : Nat}
    (hdecode : c.decode ((content.take seen).drop (c.encodeAll done).length) = .ok (a, rest)) :
    ∃ others, left = a :: others := by
  obtain ⟨tail, htorn, hdrop⟩ := h.drop_done
  have hvisible : (content.take seen).drop (c.encodeAll done).length <+: c.encodeAll left ++ tail := by
    rw [← hdrop]
    exact (List.take_prefix seen content).drop _
  cases left with
  | nil => exact absurd hdecode (htorn.decode_ne_ok hvisible)
  | cons b others =>
      have hfits : c.Fits b := h.fits b (by simp)
      rw [encodeAll_cons, List.append_assoc] at hvisible
      exact ⟨others, by rw [decode_of_isPrefix hfits hvisible hdecode]⟩

/-- A follower that sees the whole file and decodes nothing has read every frame. -/
theorem Journal.eq_nil_of_read (h : c.Journal content (done ++ left)) {seen : Nat}
    (hseen : content.length ≤ seen)
    (hnone : ∀ a rest, c.decode ((content.take seen).drop (c.encodeAll done).length) ≠ .ok (a, rest)) :
    left = [] := by
  obtain ⟨tail, -, hdrop⟩ := h.drop_done
  cases left with
  | nil => rfl
  | cons b others =>
      have hfits : c.Fits b := h.fits b (by simp)
      apply absurd (c.decode_encode b (c.encodeAll others ++ tail) hfits)
      rw [List.take_of_length_le hseen, hdrop, encodeAll_cons, List.append_assoc] at hnone
      exact hnone b _

theorem length_encodeAll_le_of_isPrefix (h : as <+: bs) :
    (c.encodeAll as).length ≤ (c.encodeAll bs).length := by
  obtain ⟨others, rfl⟩ := h
  rw [encodeAll_append, List.length_append]
  omega

/-- Of two prefixes of one list, the one with the shorter encoding is a prefix of the other. -/
theorem isPrefix_of_length_encodeAll_le (has : as <+: cs) (hbs : bs <+: cs)
    (hle : (c.encodeAll as).length ≤ (c.encodeAll bs).length) : as <+: bs := by
  rcases List.prefix_or_prefix_of_prefix has hbs with h | ⟨others, rfl⟩
  · exact h
  · rw [encodeAll_append, List.length_append] at hle
    have hnil : c.encodeAll others = [] := List.eq_nil_of_length_eq_zero (by omega)
    rw [c.encodeAll_eq_nil.mp hnil, List.append_nil]

end LogosChat.Reasoning.FrameCodec
