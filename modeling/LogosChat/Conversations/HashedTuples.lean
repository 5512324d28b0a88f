import LogosChat.Conversations.MessageIds
import LogosChat.Crypto

/-!
# What a message id hashes

`derive_message_id` joins the channel id, the sender, the timestamp and the content with a separator, and
writes no lengths.  The sender and the timestamp have a fixed width, so two tuples are taken for one
another only when the channel id of one runs through the sender and the timestamp of the other.
-/

namespace LogosChat.Conversations

open Reasoning Crypto

/-- The arguments of `derive_message_id`, with the sender as the key it is printed from. -/
structure HashedTuple where
  channelId : String
  sender : KeyBytes
  lamport : Int32
  content : Bytes
deriving DecidableEq

namespace HashedTuple

-- `|`
def bar : UInt8 := 0x7c

def senderText (t : HashedTuple) : String := (SignerKey.mk t.sender.toList).toHex

def components (t : HashedTuple) : List Bytes :=
  messageIdComponents t.channelId t.senderText t.lamport t.content

theorem deriveMessageId_eq (B : Build) (t : HashedTuple) :
    deriveMessageId B t.channelId t.senderText t.lamport t.content = B.blake2bHex t.components := rfl

/-- The byte string the hash is fed: one component after the other. -/
def fed (t : HashedTuple) : Bytes := t.components.flatten

/-- The part of a fixed width: the sender and the timestamp, each behind a separator. -/
def middle (t : HashedTuple) : Bytes := bar :: (utf8 t.senderText ++ bar :: toBeBytes t.lamport)

/-- The channel id of `t'` starts with that of `t` and runs on through the sender and the timestamp of
`t`, and the content of `t` ends in the rest of `t'`. -/
def RunsInto (t t' : HashedTuple) : Prop :=
  ∃ run, utf8 t'.channelId = utf8 t.channelId ++ (t.middle ++ run) ∧
    bar :: t.content = run ++ (t'.middle ++ bar :: t'.content)

variable {t t' : HashedTuple}

theorem fed_eq (t : HashedTuple) : t.fed =
    utf8 "deterministic_frame_id|" ++ (utf8 t.channelId ++ (t.middle ++ bar :: t.content)) := by
  have hbar : utf8 "|" = [bar] := by decide
  simp [fed, components, messageIdComponents, middle, hbar]

/-! ## The part of a fixed width -/

theorem length_senderText (t : HashedTuple) : (utf8 t.senderText).length = 64 := by
  rw [senderText, SignerKey.toHex, length_utf8_hexEncode, Vector.length_toList]

theorem length_middle (t : HashedTuple) : t.middle.length = 70 := by
  rw [middle, List.length_cons, List.length_append, List.length_cons, length_senderText, toBeBytes_length]

/-- A separator stands at its start, and none among the digits. -/
theorem middle_zero (t : HashedTuple) (rest : Bytes) : (t.middle ++ rest)[0]? = some bar := rfl

theorem middle_digit (t : HashedTuple) (rest : Bytes) {i : Nat} (hpos : 0 < i) (hle : i ≤ 64) :
    (t.middle ++ rest)[i]? ≠ some bar := by
  have hlength := length_senderText t
  intro hget
  obtain ⟨j, rfl⟩ := Nat.exists_eq_succ_of_ne_zero (Nat.pos_iff_ne_zero.mp hpos)
  have hdigit : (utf8 t.senderText)[j]? = some bar := by
    rw [middle, List.cons_append, List.getElem?_cons_succ, List.append_assoc,
      List.getElem?_append_left (by omega)] at hget
    exact hget
  have hlt := lt_of_mem_utf8_hexEncode (List.mem_of_getElem? hdigit)
  revert hlt
  decide

theorem middle_end (t : HashedTuple) (rest : Bytes) : (t.middle ++ bar :: rest)[70]? = some bar := by
  rw [List.getElem?_append_right (by rw [length_middle]), length_middle]
  rfl

theorem middle_inj {rest rest' : Bytes} (h : t.middle ++ rest = t'.middle ++ rest') :
    t.sender = t'.sender ∧ t.lamport = t'.lamport ∧ rest = rest' := by
  obtain ⟨hmiddle, hrest⟩ := List.append_inj h (by rw [length_middle, length_middle])
  obtain ⟨hsender, hstamp⟩ := List.append_inj (List.cons.inj hmiddle).2
    (by rw [length_senderText, length_senderText])
  refine ⟨?_, toBeBytes_injective (List.cons.inj hstamp).2, hrest⟩
  exact Vector.toList_inj.mp (hexEncode_injective (utf8_inj hsender))

/-- Two such parts are the same one or do not overlap. -/
theorem eq_nil_or_le_of_middle {run rest rest' : Bytes}
    (h : t.middle ++ bar :: rest = run ++ (t'.middle ++ bar :: rest')) :
    run = [] ∨ 70 ≤ run.length := by
  by_contra! hnot
  have hpos : 0 < run.length := List.length_pos_iff_ne_nil.mpr hnot.1
  have hright (i : Nat) (hi : run.length ≤ i) :
      (t.middle ++ bar :: rest)[i]? = (t'.middle ++ bar :: rest')[i - run.length]? := by
    rw [h, List.getElem?_append_right hi]
  by_cases hdigits : run.length ≤ 64
  -- the separator at the start of the second falls among the digits of the first
  · have hstart := hright run.length le_rfl
    rw [Nat.sub_self, middle_zero] at hstart
    exact middle_digit t _ hpos hdigits hstart
  -- the separator after the timestamp of the first falls among the digits of the second
  · have hend := hright 70 (by omega)
    rw [middle_end] at hend
    exact middle_digit t' _ (by omega) (by omega) hend.symm

/-! ## Re-splitting -/

theorem RunsInto.fed_eq_fed (h : RunsInto t t') : t.fed = t'.fed := by
  obtain ⟨run, hchannel, hcontent⟩ := h
  rw [fed_eq, fed_eq, hchannel, hcontent]
  simp only [List.append_assoc]

theorem RunsInto.ne (h : RunsInto t t') : t ≠ t' := by
  rintro rfl
  obtain ⟨run, hchannel, -⟩ := h
  have hlength := congrArg List.length hchannel
  rw [List.length_append, List.length_append, length_middle] at hlength
  omega

/-- The second split starts where the first does, or after the whole of its fixed part. -/
theorem eq_or_runsInto {run : Bytes} (hchannel : utf8 t'.channelId = utf8 t.channelId ++ run)
    (hrest : t.middle ++ bar :: t.content = run ++ (t'.middle ++ bar :: t'.content)) :
    t = t' ∨ RunsInto t t' := by
  rcases eq_nil_or_le_of_middle hrest with rfl | hle
  · obtain ⟨hsender, hlamport, hcontent⟩ := middle_inj hrest
    have hid : t'.channelId = t.channelId := utf8_inj (hchannel.trans (List.append_nil _))
    cases t
    cases t'
    cases hid
    cases hsender
    cases hlamport
    cases hcontent
    exact .inl rfl
  · right
    have hfront : t.middle <+: run ++ (t'.middle ++ bar :: t'.content) := by
      rw [← hrest]
      exact List.prefix_append _ _
    obtain ⟨more, rfl⟩ := List.prefix_of_prefix_length_le hfront (List.prefix_append _ _)
      (by rw [length_middle]; exact hle)
    rw [List.append_assoc, List.append_cancel_left_eq] at hrest
    exact ⟨more, hchannel, hrest⟩

theorem eq_or_runsInto_of_fed (h : t.fed = t'.fed) : t = t' ∨ RunsInto t t' ∨ RunsInto t' t := by
  rw [fed_eq, fed_eq, List.append_cancel_left_eq] at h
  rcases List.append_eq_append_iff.mp h with ⟨run, hchannel, hrest⟩ | ⟨run, hchannel, hrest⟩
  · rcases eq_or_runsInto hchannel hrest with heq | hruns
    · exact .inl heq
    · exact .inr (.inl hruns)
  · rcases eq_or_runsInto hchannel hrest with heq | hruns
    · exact .inl heq.symm
    · exact .inr (.inr hruns)

/-- What the hash is fed tells two tuples apart unless one runs into the other. -/
theorem fed_tells_apart_iff (t t' : HashedTuple) :
    (t.fed = t'.fed → t = t') ↔ ¬ RunsInto t t' ∧ ¬ RunsInto t' t := by
  constructor
  · intro h
    exact ⟨fun hruns ↦ hruns.ne (h hruns.fed_eq_fed),
      fun hruns ↦ hruns.ne (h hruns.fed_eq_fed.symm).symm⟩
  · rintro ⟨hnot, hnot'⟩ hfed
    rcases eq_or_runsInto_of_fed hfed with heq | hruns | hruns
    · exact heq
    · exact absurd hruns hnot
    · exact absurd hruns hnot'

/-- So two tuples share an id exactly when they are the same or one runs into the other, if the hash takes
its components as one string and has no collision on the two. -/
theorem deriveMessageId_eq_iff {P : Platform}
    (hjoins : ∀ a b : List Bytes, a.flatten = b.flatten →
      P.blake2b Platform.messageIdSize a = P.blake2b Platform.messageIdSize b)
    (hhash : P.HashesApart fun components ↦ components = t.components ∨ components = t'.components) :
    deriveMessageId P.build t.channelId t.senderText t.lamport t.content =
        deriveMessageId P.build t'.channelId t'.senderText t'.lamport t'.content ↔
      t = t' ∨ RunsInto t t' ∨ RunsInto t' t := by
  have hfed : P.build.blake2bHex t.components = P.build.blake2bHex t'.components ↔ t.fed = t'.fed :=
    ⟨fun h ↦ hhash _ _ (.inl rfl) (.inr rfl) (hexEncode_injective h), fun h ↦
      congrArg hexEncode (hjoins _ _ h)⟩
  rw [deriveMessageId_eq, deriveMessageId_eq, hfed]
  refine ⟨eq_or_runsInto_of_fed, ?_⟩
  rintro (rfl | hruns | hruns)
  · rfl
  · exact hruns.fed_eq_fed
  · exact hruns.fed_eq_fed.symm

def spoken : HashedTuple where
  channelId := "general"
  sender := Vector.replicate 32 0xa1
  lamport := 1
  content := utf8 (hexEncode (List.replicate 32 0xb2) ++ "|\x00\x00\x00\x02|hello")

def forged : HashedTuple where
  channelId := "general|" ++ hexEncode (List.replicate 32 0xa1) ++ "|\x00\x00\x00\x01"
  sender := Vector.replicate 32 0xb2
  lamport := 2
  content := utf8 "hello"

/-- Two messages with one id, of different channels, senders, timestamps and contents. -/
theorem spoken_fed_eq_forged : spoken.fed = forged.fed ∧ spoken ≠ forged := by
  decide +kernel

end HashedTuple

end LogosChat.Conversations
