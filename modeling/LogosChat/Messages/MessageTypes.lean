import LogosChat.Reasoning.LittleEndian
import LogosChat.Reasoning.Utf8

/-!
# Message bodies

A body that describes itself: the marker `[0xC7, 0x7E]`, a version and a CBOR envelope.  What does not
start so is a plain text of a build that knew no envelopes.  No text starts with the marker, so neither
is taken for the other.
-/

namespace LogosChat.Messages

open Reasoning

/-- Identifies one piece of content across peers. -/
structure ContentId where
  id : String
deriving DecidableEq

inductive MessageContent where
  | text (body : String)
  | unsupported (contentType : String) (fallback : Option String)
  | unsupportedFormat (version : UInt8)
  | malformed
  | unrecognized
deriving DecidableEq

/-- One-line rendering for any content. -/
def MessageContent.display : MessageContent → String
  | .text body => body
  | .unsupported _ (some line) => line
  | .unsupported contentType none => "[unsupported content: " ++ contentType ++ "]"
  | .unsupportedFormat version =>
      "[message needs a newer build: content format v" ++ toString version ++ "]"
  | .malformed => "[unreadable content]"
  | .unrecognized => "[unrecognized content]"

structure Message where
  content : MessageContent
  inReplyTo : Option ContentId
deriving DecidableEq

/-- The CBOR body of a content envelope. -/
structure Envelope where
  contentType : String
  content : Bytes
  inReplyTo : Option ContentId
  fallback : Option String
deriving DecidableEq

-- TEXT
def textType : String := "text/plain"

-- MAGIC
def magic : Bytes := [0xc7, 0x7e]

-- VERSION
def formatVersion : UInt8 := 1

def Envelope.text (body : String) (inReplyTo : Option ContentId) : Envelope :=
  { contentType := textType
    content := utf8 body
    inReplyTo := inReplyTo
    fallback := none }

/-- The CBOR library, on envelopes. -/
structure Ciborium where
  intoWriter : Envelope → Except String Bytes
  fromReader : Bytes → Except String Envelope

-- `Error`
inductive EncodeError where
  | encode (text : String)
deriving DecidableEq

def EncodeError.display : EncodeError → String
  | .encode text => "failed to encode content: " ++ text

variable (C : Ciborium)

def encode (envelope : Envelope) : Except EncodeError Bytes :=
  match C.intoWriter envelope with
  | .ok body => .ok (magic ++ formatVersion :: body)
  | .error e => .error (.encode e)

def encodeText (body : String) : Except EncodeError Bytes :=
  encode C (.text body none)

def encodeReply (inReplyTo : ContentId) (body : String) : Except EncodeError Bytes :=
  encode C (.text body (some inReplyTo))

/-- The version and the body, when the fixed header is there. -/
def splitHeader : Bytes → Option (UInt8 × Bytes)
  | a :: b :: version :: body => if [a, b] = magic then some (version, body) else none
  | _ => none

def decodeLegacy (bytes : Bytes) : MessageContent :=
  match fromUtf8 bytes with
  | some text => .text text
  | none => .unrecognized

def Envelope.message (envelope : Envelope) : Message :=
  { content :=
      if envelope.contentType = textType then .text (fromUtf8Lossy envelope.content)
      else .unsupported envelope.contentType envelope.fallback
    inReplyTo := envelope.inReplyTo }

def decode (bytes : Bytes) : Message :=
  match splitHeader bytes with
  | none => ⟨decodeLegacy bytes, none⟩
  | some (version, body) =>
      if formatVersion < version then ⟨.unsupportedFormat version, none⟩
      else if version < formatVersion then ⟨.malformed, none⟩
      else
        match C.fromReader body with
        | .error _ => ⟨.malformed, none⟩
        | .ok envelope => envelope.message

/-! ## The marker -/

variable {C}

theorem splitHeader_magic (version : UInt8) (body : Bytes) :
    splitHeader (magic ++ version :: body) = some (version, body) := by
  show (if [0xc7, 0x7e] = magic then some (version, body) else none) = _
  exact if_pos rfl

theorem splitHeader_eq_some {bytes body : Bytes} {version : UInt8}
    (h : splitHeader bytes = some (version, body)) : bytes = magic ++ version :: body := by
  unfold splitHeader at h
  split at h
  case h_1 a b version' body' =>
    by_cases hmagic : [a, b] = magic
    · rw [if_pos hmagic] at h
      cases h
      rw [← hmagic]
      rfl
    · rw [if_neg hmagic] at h
      cases h
  case h_2 => cases h

/-- `0xC7` wants a byte after it that `0x7E` is not. -/
theorem utf8_ne_magic (text : String) (rest : Bytes) : utf8 text ≠ magic ++ rest := by
  apply utf8_ne_of_front
  show fromUtf8 [0xc7] = none
  decide

theorem splitHeader_utf8 (text : String) : splitHeader (utf8 text) = none := by
  cases h : splitHeader (utf8 text) with
  | none => rfl
  | some header => exact absurd (splitHeader_eq_some h) (utf8_ne_magic text _)

/-! ## Round trips -/

/-- The library reads back this envelope. -/
def Ciborium.RoundTrips (C : Ciborium) (envelope : Envelope) : Prop :=
  ∃ body, C.intoWriter envelope = .ok body ∧ C.fromReader body = .ok envelope

theorem message_text (body : String) (inReplyTo : Option ContentId) :
    (Envelope.text body inReplyTo).message = ⟨.text body, inReplyTo⟩ := by
  unfold Envelope.message Envelope.text
  rw [if_pos rfl, fromUtf8Lossy_utf8]

theorem decode_magic_of_ok {body : Bytes} {envelope : Envelope} (h : C.fromReader body = .ok envelope) :
    decode C (magic ++ formatVersion :: body) = envelope.message := by
  rw [decode, splitHeader_magic]
  dsimp only
  rw [if_neg (by decide), if_neg (by decide), h]

theorem decode_encode {envelope : Envelope} (h : C.RoundTrips envelope) :
    ∃ bytes, encode C envelope = .ok bytes ∧ decode C bytes = envelope.message := by
  obtain ⟨body, hwrite, hread⟩ := h
  refine ⟨magic ++ formatVersion :: body, ?_, decode_magic_of_ok hread⟩
  rw [encode, hwrite]

theorem decode_utf8 (text : String) : decode C (utf8 text) = ⟨.text text, none⟩ := by
  rw [decode, splitHeader_utf8]
  dsimp only
  rw [decodeLegacy, fromUtf8_utf8]

/-- A text found under the marker is the one its envelope carries. -/
theorem decode_magic_eq_text {version : UInt8} {body : Bytes} {text : String}
    (h : (decode C (magic ++ version :: body)).content = .text text) :
    version = formatVersion ∧ ∃ envelope, C.fromReader body = .ok envelope ∧
      envelope.contentType = textType ∧ text = fromUtf8Lossy envelope.content := by
  rw [decode, splitHeader_magic] at h
  dsimp only at h
  split_ifs at h with hnewer holder
  have hversion : version = formatVersion :=
    UInt8.le_antisymm (UInt8.not_lt.mp hnewer) (UInt8.not_lt.mp holder)
  cases hread : C.fromReader body with
  | error e =>
      rw [hread] at h
      cases h
  | ok envelope =>
      rw [hread] at h
      dsimp only [Envelope.message] at h
      by_cases htype : envelope.contentType = textType
      · rw [if_pos htype] at h
        cases h
        exact ⟨hversion, envelope, rfl, htype, rfl⟩
      · rw [if_neg htype] at h
        cases h

/-- Bodies and replies are read back, a plain text is read as itself, and bytes that start with the
marker and a version are never read as a plain text: a text found there is that of the envelope. -/
theorem bodies_decode (C : Ciborium) (body : String) (id : ContentId)
    (htext : C.RoundTrips (.text body none)) (hreply : C.RoundTrips (.text body (some id))) :
    (∃ bytes, encodeText C body = .ok bytes ∧ decode C bytes = ⟨.text body, none⟩) ∧
    (∃ bytes, encodeReply C id body = .ok bytes ∧ decode C bytes = ⟨.text body, some id⟩) ∧
    (∀ bytes text, fromUtf8 bytes = some text → decode C bytes = ⟨.text text, none⟩) ∧
    (∀ version rest text, (decode C (magic ++ version :: rest)).content = .text text →
      utf8 text ≠ magic ++ version :: rest ∧ version = formatVersion ∧
        ∃ envelope, C.fromReader rest = .ok envelope ∧ envelope.contentType = textType ∧
          text = fromUtf8Lossy envelope.content) := by
  refine ⟨?_, ?_, fun bytes text h ↦ ?_, fun version rest text h ↦ ?_⟩
  · rw [← message_text]
    exact decode_encode htext
  · rw [← message_text]
    exact decode_encode hreply
  · rw [← fromUtf8_eq_some_iff.mp h]
    exact decode_utf8 text
  · exact ⟨utf8_ne_magic text _, decode_magic_eq_text h⟩

/-! ## A CBOR library to run the model on -/

namespace Sample

/-- The head of a CBOR item, in its shortest form. -/
def head (major : UInt8) (n : Nat) : Bytes :=
  if n < 24 then [major * 32 + UInt8.ofNat n]
  else if n < 2 ^ 8 then (major * 32 + 24) :: leBytes 1 n
  else if n < 2 ^ 16 then (major * 32 + 25) :: (leBytes 2 n).reverse
  else if n < 2 ^ 32 then (major * 32 + 26) :: (leBytes 4 n).reverse
  else (major * 32 + 27) :: (leBytes 8 n).reverse

def readHead : Bytes → Option (UInt8 × Nat × Bytes)
  | [] => none
  | b :: rest =>
      let info := (b % 32).toNat
      let width := 2 ^ (info - 24)
      if info < 24 then some (b / 32, info, rest)
      else if info ≤ 27 ∧ width ≤ rest.length then
        some (b / 32, leNat (rest.take width).reverse, rest.drop width)
      else none

def byteString (bytes : Bytes) : Bytes := head 2 bytes.length ++ bytes

def textString (text : String) : Bytes := head 3 (utf8 text).length ++ utf8 text

/-- A byte string or a text, with its major type.  Nothing else is read. -/
def readString (bytes : Bytes) : Option (UInt8 × Bytes × Bytes) := do
  let (major, n, rest) ← readHead bytes
  if (major = 2 ∨ major = 3) ∧ n ≤ rest.length then some (major, rest.take n, rest.drop n) else none

-- a field that is absent is not written
def field (key : String) (text : Option String) : List Bytes :=
  text.toList.map fun text ↦ textString key ++ textString text

def fields (envelope : Envelope) : List Bytes :=
  [textString "content_type" ++ textString envelope.contentType,
    textString "content" ++ byteString envelope.content] ++
  field "in_reply_to" (envelope.inReplyTo.map (·.id)) ++ field "fallback" envelope.fallback

/-- The fields that have been read. -/
structure Gathered where
  contentType : Option String := none
  content : Option Bytes := none
  inReplyTo : Option ContentId := none
  fallback : Option String := none

def asBytes (major : UInt8) (value : Bytes) : Option Bytes := if major = 2 then some value else none

def asText (major : UInt8) (value : Bytes) : Option String := if major = 3 then fromUtf8 value else none

/-- A key that is there twice is refused. -/
def fill {α : Type} (old new : Option α) : Option (Option α) :=
  if old.isNone ∧ new.isSome then some new else none

/-- One pair of the map.  An unknown key is skipped. -/
def setField (g : Gathered) (key : String) (major : UInt8) (value : Bytes) : Option Gathered := do
  if key = "content_type" then return { g with contentType := ← fill g.contentType (asText major value) }
  else if key = "content" then return { g with content := ← fill g.content (asBytes major value) }
  else if key = "in_reply_to" then
    return { g with inReplyTo := ← fill g.inReplyTo ((asText major value).map ContentId.mk) }
  else if key = "fallback" then return { g with fallback := ← fill g.fallback (asText major value) }
  else return g

def readFields : Nat → Bytes → Gathered → Option Gathered
  | 0, _, g => some g
  | n + 1, bytes, g => do
      let (major, key, bytes) ← readString bytes
      let key ← asText major key
      let (major, value, bytes) ← readString bytes
      readFields n bytes (← setField g key major value)

/-- Only the two last fields have a default. -/
def Gathered.envelope (g : Gathered) : Option Envelope := do
  return { contentType := ← g.contentType
           content := ← g.content
           inReplyTo := g.inReplyTo
           fallback := g.fallback }

def ciborium : Ciborium where
  intoWriter envelope := .ok (head 5 (fields envelope).length ++ (fields envelope).flatten)
  fromReader bytes :=
    match readHead bytes with
    | some (5, n, rest) =>
        match readFields n rest {} >>= Gathered.envelope with
        | some envelope => .ok envelope
        | none => .error "not an envelope"
    | _ => .error "not a map"

-- the bytes that the test of the encoder pins
example : encodeText ciborium "hi" = .ok ([0xc7, 0x7e, 0x01, 0xa2, 0x6c] ++ utf8 "content_type" ++
    [0x6a] ++ utf8 "text/plain" ++ [0x67] ++ utf8 "content" ++ [0x42, 0x68, 0x69]) := by
  decide +kernel

example : ciborium.fromReader ([0xa1, 0x6c] ++ utf8 "content_type" ++ [0x6a] ++ utf8 "text/plain") =
    .error "not an envelope" := by
  decide +kernel

end Sample

theorem bodies_decode_hi :
    (Sample.ciborium.RoundTrips (.text "hi" none) ∧
      Sample.ciborium.RoundTrips (.text "hi" (some ⟨"a1b2c3"⟩))) ∧
    ∃ bytes, encodeReply Sample.ciborium ⟨"a1b2c3"⟩ "hi" = .ok bytes ∧
      decode Sample.ciborium bytes = ⟨.text "hi", some ⟨"a1b2c3"⟩⟩ := by
  have htext : Sample.ciborium.RoundTrips (.text "hi" none) := ⟨_, rfl, by decide +kernel⟩
  have hreply : Sample.ciborium.RoundTrips (.text "hi" (some ⟨"a1b2c3"⟩)) := ⟨_, rfl, by decide +kernel⟩
  exact ⟨⟨htext, hreply⟩, (bodies_decode Sample.ciborium "hi" ⟨"a1b2c3"⟩ htext hreply).2.1⟩

end LogosChat.Messages
