import LogosChat.Accounts.Replay
import LogosChat.Reasoning.Framing
import LogosChat.Reasoning.LittleEndian

/-!
# Wire format

`payload := domain || entry*` and `entry := opcode || u16 LE len || body`.  Encoding and decoding are
translated separately; `decodeEntry_sound` and `decodeEntry_encodeEntry` say what one frame is, and
every statement about whole payloads follows from them through the frame codec.
-/

namespace LogosChat.Accounts

open Reasoning Crypto

/-- Domain-separation tag, prepended to every signed payload. -/
def accountLogDomain : Bytes := utf8 "logos:accounts:1" ++ [0]

-- the tag without the version segment
def domainStem : Bytes := utf8 "logos:accounts:"

/-- Largest payload that may be published or accepted. -/
def maxPayloadBytes : Nat := 128 * 1024

def opAdd : UInt8 := 0x01
def opRemove : UInt8 := 0x02
def opcodeMask : UInt8 := 0xf0

def dataEd25519 : UInt8 := 0x01
def dataText : UInt8 := 0x02

-- opcode (u8) plus body length (u16 LE)
def entryHeader : Nat := 3

/-- A log as canonical bytes, within the size cap.  Asserts nothing about whether they decode. -/
structure EncodedAccountLog where
  bytes : Bytes
  size : bytes.length ≤ maxPayloadBytes
deriving DecidableEq

@[ext] theorem EncodedAccountLog.ext {p q : EncodedAccountLog} (h : p.bytes = q.bytes) : p = q := by
  cases p
  cases q
  subst h
  rfl

/-- Wrap bytes as a payload: only the size is checked. -/
def EncodedAccountLog.fromBytes (bytes : Bytes) : Result AccountLogError EncodedAccountLog :=
  if h : bytes.length ≤ maxPayloadBytes then .ok ⟨bytes, h⟩
  else .err (.tooLarge maxPayloadBytes)

/-! ## Encoding -/

def encodeData : EntryData → Bytes
  | .ed25519Key key => dataEd25519 :: key.toList
  | .text value => dataText :: utf8 value
  | .unknown tag raw => tag :: raw

/-- An `Add` body: the context first, then the tagged data. -/
def encodeAdd (context : Context) (data : EntryData) : Bytes :=
  UInt8.ofNat context.asBytes.length :: (context.asBytes ++ encodeData data)

def AccountEntry.opcode : AccountEntry → UInt8
  | .add _ _ => opAdd
  | .remove _ => opRemove
  | .unknown opcode _ => opcode

def AccountEntry.body : AccountEntry → Bytes
  | .add context data => encodeAdd context data
  | .remove index => leBytes 4 index.toNat
  | .unknown _ body => body

/-- One turn of the encoder's loop.  The length is cut to a `u16`. -/
def encodeEntry (entry : AccountEntry) : Bytes :=
  entry.opcode :: (leBytes 2 (UInt16.ofNat entry.body.length).toNat ++ entry.body)

def encodeEntries (entries : List AccountEntry) : Result AccountLogError EncodedAccountLog :=
  EncodedAccountLog.fromBytes (accountLogDomain ++ entries.flatMap encodeEntry)

def AccountLog.encode {E : Ed25519} (L : AccountLog E) : Result AccountLogError EncodedAccountLog :=
  encodeEntries L.entries

/-! ## Decoding -/

/-- `split_at` that reports a truncated payload instead of panicking. -/
def splitAtChecked (body : Bytes) (mid : Nat) : Result AccountLogError (Bytes × Bytes) :=
  if body.length < mid then .err (.malformed "payload shorter than its declared layout")
  else Result.splitAt body mid

def decodeData (tag : UInt8) (data : Bytes) : Result AccountLogError EntryData :=
  if tag = dataEd25519 then
    match tryIntoArray 32 data with
    | some key => .ok (.ed25519Key key)
    | none =>
        .err (.malformed ("ed25519 key is " ++ toString data.length ++ " bytes, must be 32"))
  else if tag = dataText then
    match fromUtf8 data with
    | some value => .ok (.text value)
    | none => .err (.malformed "text record is not UTF-8")
  else .ok (.unknown tag data)

/-- `ctx_len || context || data_tag || data_body`, filling the entry body exactly. -/
def decodeAdd : Bytes → Result AccountLogError AccountEntry
  | [] => .err (.malformed "add body is empty")
  | ctxLen :: rest =>
      if ctxLen = 0 then .err (.malformed "add context length is zero") else do
        let (context, rest) ← splitAtChecked rest ctxLen.toNat
        let context ← Context.fromBytes context
        match rest with
        | [] => .err (.malformed "add context leaves no room for a data tag")
        | tag :: data =>
            let data ← decodeData tag data
            .ok (.add context data)

/-- The dispatch of `decode_entry` on the opcode. -/
def decodeBody (opcode : UInt8) (body : Bytes) : Result AccountLogError AccountEntry :=
  if opcode = opAdd then decodeAdd body
  else if opcode = opRemove then
    match tryIntoArray 4 body with
    | some index => .ok (.remove (UInt32.ofNat (leNat index.toList)))
    | none =>
        .err (.malformed ("remove body is " ++ toString body.length ++ " bytes, must be 4"))
  else .ok (.unknown opcode body)

-- `{opcode:#04x}`
def hexByte (b : UInt8) : String :=
  "0x" ++ String.ofList [Nat.digitChar (b.toNat / 16), Nat.digitChar (b.toNat % 16)]

/-- Parse one entry off the front of `input`, returning it and the rest. -/
def decodeEntry (input : Bytes) : Result AccountLogError (AccountEntry × Bytes) := do
  let (header, rest) ← splitAtChecked input entryHeader
  let opcode ← Result.index header 0
  if opcode &&& opcodeMask ≠ 0 then
    .err (.malformed ("entry opcode " ++ hexByte opcode ++ " has reserved high bits set"))
  else
    let len0 ← Result.index header 1
    let len1 ← Result.index header 2
    let (body, rest) ← splitAtChecked rest (leNat [len0, len1])
    let entry ← decodeBody opcode body
    .ok (entry, rest)

/-- Classify a payload that failed the domain check: our stem with a different version segment, or
a foreign domain altogether. -/
def domainError (payload : Bytes) : AccountLogError :=
  match stripPrefix domainStem payload with
  | none => .malformed "payload is missing the account-log domain prefix"
  | some rest =>
      match (rest.take 16).findIdx? (· == 0) with
      | some stop => .version (fromUtf8Lossy (rest.take stop))
      | none => .malformed "payload is missing the account-log domain prefix"

def decodeEntries (payload : Bytes) : Result AccountLogError (List AccountEntry) :=
  match stripPrefix accountLogDomain payload with
  | none => .err (domainError payload)
  | some body => many decodeEntry body.length body []

/-- Domain and version, entry framing to the exact end of the payload, and then the log's own
validity rules. -/
def EncodedAccountLog.decode (E : Ed25519) (p : EncodedAccountLog) :
    Result AccountLogError (AccountLog E) := do
  let entries ← decodeEntries p.bytes
  AccountLog.fromEntries E entries

/-! ## One entry -/

theorem splitAtChecked_eq_ok_iff {body front rest : Bytes} {mid : Nat} :
    splitAtChecked body mid = .ok (front, rest) ↔ body = front ++ rest ∧ front.length = mid := by
  unfold splitAtChecked
  by_cases h : body.length < mid
  · rw [if_pos h]
    refine ⟨nofun, fun hsplit => ?_⟩
    rw [hsplit.1, List.length_append] at h
    omega
  · rw [if_neg h, Result.splitAt_of_le (by omega), Result.ok.injEq, Prod.mk.injEq]
    refine ⟨fun hsplit => ?_, fun hsplit => ?_⟩
    · rw [← hsplit.1, ← hsplit.2, List.take_append_drop, List.length_take]
      exact ⟨rfl, by omega⟩
    · rw [hsplit.1, ← hsplit.2]
      simp

theorem splitAtChecked_failsIn (body : Bytes) (mid : Nat) :
    (splitAtChecked body mid).FailsIn (· ≠ .signatureInvalid) := by
  unfold splitAtChecked
  by_cases h : body.length < mid
  · simp [if_pos h]
  · simp [if_neg h, Result.splitAt_of_le (show mid ≤ body.length by omega)]

/-- The `unknown` shapes the decoder can produce: a tag or opcode it does not know. -/
def EntryData.Canonical : EntryData → Prop
  | .unknown tag _ => tag ≠ dataEd25519 ∧ tag ≠ dataText
  | _ => True

def AccountEntry.Canonical : AccountEntry → Prop
  | .add _ data => data.Canonical
  | .remove _ => True
  | .unknown opcode _ => opcode ≠ opAdd ∧ opcode ≠ opRemove

/-- The entries whose encoding is read back: no reserved bits, a known shape, and a body that the
`u16` length can count. -/
structure AccountEntry.WellFramed (entry : AccountEntry) : Prop where
  canonical : entry.Canonical
  opcode : entry.opcode &&& opcodeMask = 0
  body : entry.body.length < 2 ^ 16

theorem decodeData_sound {tag : UInt8} {raw : Bytes} {data : EntryData}
    (h : decodeData tag raw = .ok data) : encodeData data = tag :: raw ∧ data.Canonical := by
  unfold decodeData at h
  by_cases hkey : tag = dataEd25519
  · rw [if_pos hkey] at h
    cases hraw : tryIntoArray 32 raw with
    | none => simp [hraw] at h
    | some key =>
        rw [hraw] at h
        cases h
        rw [encodeData, tryIntoArray_eq_some_iff.mp hraw, hkey]
        exact ⟨rfl, trivial⟩
  · rw [if_neg hkey] at h
    by_cases htext : tag = dataText
    · rw [if_pos htext] at h
      cases hraw : fromUtf8 raw with
      | none => simp [hraw] at h
      | some value =>
          rw [hraw] at h
          cases h
          rw [encodeData, fromUtf8_eq_some_iff.mp hraw, htext]
          exact ⟨rfl, trivial⟩
    · rw [if_neg htext] at h
      cases h
      exact ⟨rfl, hkey, htext⟩

theorem decodeData_encodeData {tag : UInt8} {raw : Bytes} {data : EntryData}
    (hdata : data.Canonical) (h : encodeData data = tag :: raw) : decodeData tag raw = .ok data := by
  unfold decodeData
  cases data with
  | ed25519Key key =>
      cases h
      rw [if_pos rfl, tryIntoArray_toList]
  | text value =>
      cases h
      rw [if_neg (by decide), if_pos rfl, fromUtf8_utf8]
  | unknown tag' raw' =>
      cases h
      rw [if_neg hdata.1, if_neg hdata.2]

theorem encodeData_eq_cons (data : EntryData) : ∃ tag raw, encodeData data = tag :: raw := by
  cases data <;> exact ⟨_, _, rfl⟩

/-- The context length always fits its byte. -/
theorem contextLen_toNat (context : Context) :
    (UInt8.ofNat context.asBytes.length).toNat = context.asBytes.length := by
  have hlen : context.asBytes.length ≤ 81 := context.asBytes_length.2
  rw [UInt8.toNat_ofNat']
  omega

theorem decodeAdd_sound {body : Bytes} {entry : AccountEntry} (h : decodeAdd body = .ok entry) :
    ∃ context data, entry = .add context data ∧ body = encodeAdd context data ∧ data.Canonical := by
  cases body with
  | nil => cases h
  | cons ctxLen rest =>
      rw [decodeAdd] at h
      by_cases hzero : ctxLen = 0
      · rw [if_pos hzero] at h
        cases h
      rw [if_neg hzero] at h
      rcases Result.bind_eq_ok.mp h with ⟨⟨front, rest'⟩, hsplit, h⟩
      rcases splitAtChecked_eq_ok_iff.mp hsplit with ⟨hrest, hlen⟩
      rcases Result.bind_eq_ok.mp h with ⟨context, hcontext, h⟩
      have hbytes := Context.fromBytes_eq_ok_iff.mp hcontext
      cases rest' with
      | nil => cases h
      | cons tag raw =>
          rcases Result.bind_eq_ok.mp h with ⟨data, hdata, h⟩
          cases h
          rcases decodeData_sound hdata with ⟨hraw, hcanonical⟩
          refine ⟨context, data, rfl, ?_, hcanonical⟩
          have hbyte : ctxLen = UInt8.ofNat context.asBytes.length := by
            rw [hbytes, hlen, UInt8.ofNat_toNat]
          rw [encodeAdd, hraw, hbytes, ← hrest, ← hbytes, ← hbyte]

theorem decodeAdd_encodeAdd (context : Context) {data : EntryData} (hdata : data.Canonical) :
    decodeAdd (encodeAdd context data) = .ok (.add context data) := by
  have hlen := contextLen_toNat context
  have hpos := context.asBytes_length.1
  rcases encodeData_eq_cons data with ⟨tag, raw, hraw⟩
  have hzero : UInt8.ofNat context.asBytes.length ≠ 0 := by
    intro hz
    rw [hz] at hlen
    have hnat : (0 : UInt8).toNat = 0 := rfl
    omega
  have hsplit : splitAtChecked (context.asBytes ++ encodeData data)
      (UInt8.ofNat context.asBytes.length).toNat = .ok (context.asBytes, encodeData data) :=
    splitAtChecked_eq_ok_iff.mpr ⟨rfl, hlen.symm⟩
  rw [encodeAdd, decodeAdd, if_neg hzero, hsplit, Result.ok_bind]
  simp only [Context.fromBytes_asBytes, Result.ok_bind, hraw,
    decodeData_encodeData hdata hraw]

theorem decodeBody_sound {opcode : UInt8} {body : Bytes} {entry : AccountEntry}
    (h : decodeBody opcode body = .ok entry) :
    entry.opcode = opcode ∧ entry.body = body ∧ entry.Canonical := by
  unfold decodeBody at h
  by_cases hadd : opcode = opAdd
  · rw [if_pos hadd] at h
    rcases decodeAdd_sound h with ⟨context, data, hentry, hbody, hcanonical⟩
    subst hentry
    exact ⟨hadd.symm, hbody.symm, hcanonical⟩
  rw [if_neg hadd] at h
  by_cases hremove : opcode = opRemove
  · rw [if_pos hremove] at h
    cases harray : tryIntoArray 4 body with
    | none => simp [harray] at h
    | some index =>
        rw [harray] at h
        cases h
        have hlist := tryIntoArray_eq_some_iff.mp harray
        have hlt := leNat_lt index.toList
        rw [Vector.length_toList] at hlt
        refine ⟨hremove.symm, ?_, trivial⟩
        rw [AccountEntry.body, toNat_ofNat_u32 (by omega), hlist]
        exact leBytes_leNat_of_length (by rw [← hlist, Vector.length_toList])
  · rw [if_neg hremove] at h
    cases h
    exact ⟨rfl, rfl, hadd, hremove⟩

theorem decodeBody_body {entry : AccountEntry} (h : entry.Canonical) :
    decodeBody entry.opcode entry.body = .ok entry := by
  unfold decodeBody
  cases entry with
  | add context data => rw [AccountEntry.opcode, if_pos rfl]; exact decodeAdd_encodeAdd context h
  | unknown opcode body =>
      rw [AccountEntry.opcode, if_neg h.1, if_neg h.2]
      rfl
  | remove index =>
      have hlt : index.toNat < 256 ^ 4 := index.toNat_lt
      have harray : ∃ v, tryIntoArray 4 (leBytes 4 index.toNat) = some v := by
        unfold tryIntoArray
        rw [dif_pos (leBytes_length 4 _)]
        exact ⟨_, rfl⟩
      rcases harray with ⟨v, hv⟩
      rw [AccountEntry.opcode, if_neg (by decide), if_pos rfl, AccountEntry.body, hv]
      simp only [tryIntoArray_eq_some_iff.mp hv, leNat_leBytes_of_lt hlt, UInt32.ofNat_toNat]

/-! ## One frame -/

/-- The parse of an entry whose three header bytes are at hand. -/
theorem decodeEntry_cons (opcode len0 len1 : UInt8) (rest : Bytes) :
    decodeEntry (opcode :: len0 :: len1 :: rest) =
      if opcode &&& opcodeMask ≠ 0 then
        .err (.malformed ("entry opcode " ++ hexByte opcode ++ " has reserved high bits set"))
      else (do
        let (body, rest) ← splitAtChecked rest (leNat [len0, len1])
        let entry ← decodeBody opcode body
        .ok (entry, rest)) := by
  have hsplit : splitAtChecked (opcode :: len0 :: len1 :: rest) entryHeader =
      .ok ([opcode, len0, len1], rest) :=
    splitAtChecked_eq_ok_iff.mpr ⟨rfl, rfl⟩
  rw [decodeEntry, hsplit]
  rfl

theorem decodeEntry_short {input : Bytes} (h : input.length < entryHeader) :
    decodeEntry input = .err (.malformed "payload shorter than its declared layout") := by
  rw [decodeEntry, splitAtChecked, if_pos h, Result.err_bind]

theorem exists_header {input : Bytes} (h : ¬ input.length < entryHeader) :
    ∃ opcode len0 len1 rest, input = opcode :: len0 :: len1 :: rest := by
  match input, h with
  | opcode :: len0 :: len1 :: rest, _ => exact ⟨opcode, len0, len1, rest, rfl⟩
  | [], h => exact absurd (by decide) h
  | [_], h => exact absurd (by decide : 1 < entryHeader) h
  | [_, _], h => exact absurd (by decide : 2 < entryHeader) h

/-- Below `2 ^ 16` bytes the cut to a `u16` keeps the length. -/
theorem leNat_bodyLength {n : Nat} (h : n < 2 ^ 16) :
    leNat (leBytes 2 (UInt16.ofNat n).toNat) = n := by
  have hnat : (UInt16.ofNat n).toNat = n := by
    rw [UInt16.toNat_ofNat', Nat.mod_eq_of_lt h]
  rw [hnat, leNat_leBytes_of_lt (by omega)]

theorem decodeEntry_sound {input rest : Bytes} {entry : AccountEntry}
    (h : decodeEntry input = .ok (entry, rest)) :
    entry.WellFramed ∧ input = encodeEntry entry ++ rest := by
  by_cases hshort : input.length < entryHeader
  · rw [decodeEntry_short hshort] at h
    cases h
  rcases exists_header hshort with ⟨opcode, len0, len1, tail, hinput⟩
  rw [hinput, decodeEntry_cons] at h
  by_cases hmask : opcode &&& opcodeMask ≠ 0
  · rw [if_pos hmask] at h
    cases h
  rw [if_neg hmask] at h
  rcases Result.bind_eq_ok.mp h with ⟨⟨body, rest'⟩, hsplit, h⟩
  rcases Result.bind_eq_ok.mp h with ⟨entry', hbody, h⟩
  cases h
  rcases splitAtChecked_eq_ok_iff.mp hsplit with ⟨htail, hlen⟩
  rcases decodeBody_sound hbody with ⟨hop, heq, hcanonical⟩
  have hlt : body.length < 2 ^ 16 := by
    have hbound : leNat [len0, len1] < 256 ^ 2 := leNat_lt [len0, len1]
    omega
  have hbytes : leBytes 2 (UInt16.ofNat body.length).toNat = [len0, len1] := by
    rw [UInt16.toNat_ofNat', Nat.mod_eq_of_lt hlt, hlen]
    exact leBytes_leNat [len0, len1]
  refine ⟨⟨hcanonical, by rw [hop]; exact not_not.mp hmask, by rw [heq]; exact hlt⟩, ?_⟩
  rw [encodeEntry, hop, heq, hbytes, hinput, htail]
  simp

theorem decodeEntry_encodeEntry {entry : AccountEntry} (h : entry.WellFramed) (rest : Bytes) :
    decodeEntry (encodeEntry entry ++ rest) = .ok (entry, rest) := by
  have hlen := leNat_bodyLength h.body
  have hwidth := leBytes_length 2 (UInt16.ofNat entry.body.length).toNat
  rcases List.length_eq_two.mp hwidth with ⟨len0, len1, hbytes⟩
  rw [hbytes] at hlen
  rw [encodeEntry, hbytes]
  show decodeEntry (entry.opcode :: len0 :: len1 :: (entry.body ++ rest)) = _
  rw [decodeEntry_cons, if_neg (not_not.mpr h.opcode),
    splitAtChecked_eq_ok_iff.mpr ⟨rfl, hlen.symm⟩, Result.ok_bind]
  dsimp only
  rw [decodeBody_body h.canonical, Result.ok_bind]

/-- The frame codec of the format.  It reads back exactly the well-framed entries. -/
def entryCodec : FrameCodec AccountLogError AccountEntry UInt8 where
  encode := encodeEntry
  decode := decodeEntry
  Fits := AccountEntry.WellFramed
  encode_ne_nil := fun _ => List.cons_ne_nil _ _
  decode_encode := fun _ rest h => decodeEntry_encodeEntry h rest
  decode_sound := fun _ _ _ h => decodeEntry_sound h

/-! ## Whole payloads -/

theorem decodeEntries_eq_ok_iff {payload : Bytes} {entries : List AccountEntry} :
    decodeEntries payload = .ok entries ↔
      payload = accountLogDomain ++ entryCodec.encodeAll entries ∧
        ∀ entry ∈ entries, entry.WellFramed := by
  unfold decodeEntries
  cases hstrip : stripPrefix accountLogDomain payload with
  | none =>
      refine ⟨nofun, fun h => ?_⟩
      rw [stripPrefix_eq_some_iff.mpr h.1] at hstrip
      cases hstrip
  | some body =>
      have hpayload := stripPrefix_eq_some_iff.mp hstrip
      show many entryCodec.decode body.length body [] = .ok entries ↔ _
      refine ⟨fun h => ?_, fun h => ?_⟩
      · rcases entryCodec.many_sound h with ⟨es, hes, hbody, hfit⟩
        rw [List.nil_append] at hes
        subst hes
        exact ⟨by rw [hpayload, hbody], hfit⟩
      · have hbody : body = entryCodec.encodeAll entries := by
          rw [h.1] at hpayload
          exact (List.append_cancel_left hpayload).symm
        rw [hbody]
        exact entryCodec.many_encodeAll h.2 (entryCodec.length_le_encodeAll_length entries)

theorem fromBytes_eq_ok_iff {bytes : Bytes} {p : EncodedAccountLog} :
    EncodedAccountLog.fromBytes bytes = .ok p ↔ p.bytes = bytes := by
  unfold EncodedAccountLog.fromBytes
  by_cases h : bytes.length ≤ maxPayloadBytes
  · rw [dif_pos h, Result.ok.injEq]
    exact ⟨fun hp => hp ▸ rfl, fun hp => EncodedAccountLog.ext hp.symm⟩
  · rw [dif_neg h]
    exact ⟨nofun, fun hp => absurd (hp ▸ p.size) h⟩

theorem encode_eq_ok_iff {E : Ed25519} {L : AccountLog E} {p : EncodedAccountLog} :
    L.encode = .ok p ↔ p.bytes = accountLogDomain ++ entryCodec.encodeAll L.entries :=
  fromBytes_eq_ok_iff

/-- A payload decodes to a log exactly when it is the encoding of its entries, all well framed. -/
theorem decode_eq_ok_iff {E : Ed25519} {p : EncodedAccountLog} {L : AccountLog E} :
    p.decode E = .ok L ↔
      p.bytes = accountLogDomain ++ entryCodec.encodeAll L.entries ∧
        ∀ entry ∈ L.entries, entry.WellFramed := by
  unfold EncodedAccountLog.decode
  rw [Result.bind_eq_ok, ← decodeEntries_eq_ok_iff]
  refine ⟨fun h => ?_, fun h => ⟨_, h, AccountLog.fromEntries_eq_ok_iff.mpr rfl⟩⟩
  rcases h with ⟨entries, hentries, hlog⟩
  rw [AccountLog.fromEntries_eq_ok_iff.mp hlog]
  exact hentries

/-! ## How decoding fails

No input makes the decoder panic, and it never reports a refused signature. -/

theorem decodeData_failsIn (tag : UInt8) (raw : Bytes) :
    (decodeData tag raw).FailsIn (· ≠ .signatureInvalid) := by
  unfold decodeData
  by_cases hkey : tag = dataEd25519
  · rw [if_pos hkey]
    cases tryIntoArray 32 raw <;> simp
  rw [if_neg hkey]
  by_cases htext : tag = dataText
  · rw [if_pos htext]
    cases fromUtf8 raw <;> simp
  · simp [if_neg htext]

theorem decodeAdd_failsIn (body : Bytes) : (decodeAdd body).FailsIn (· ≠ .signatureInvalid) := by
  cases body with
  | nil => simp [decodeAdd]
  | cons ctxLen rest =>
      rw [decodeAdd]
      by_cases hzero : ctxLen = 0
      · simp [if_pos hzero]
      rw [if_neg hzero]
      apply Result.FailsIn.bind (splitAtChecked_failsIn _ _)
      intro ⟨front, rest'⟩ _
      apply Result.FailsIn.bind (Context.fromBytes_failsIn _)
      intro context _
      cases rest' with
      | nil => simp
      | cons tag raw =>
          apply Result.FailsIn.bind (decodeData_failsIn tag raw)
          simp

theorem decodeBody_failsIn (opcode : UInt8) (body : Bytes) :
    (decodeBody opcode body).FailsIn (· ≠ .signatureInvalid) := by
  unfold decodeBody
  by_cases hadd : opcode = opAdd
  · rw [if_pos hadd]
    exact decodeAdd_failsIn body
  rw [if_neg hadd]
  by_cases hremove : opcode = opRemove
  · rw [if_pos hremove]
    cases tryIntoArray 4 body <;> simp
  · simp [if_neg hremove]

theorem decodeEntry_failsIn (input : Bytes) :
    (decodeEntry input).FailsIn (· ≠ .signatureInvalid) := by
  by_cases hshort : input.length < entryHeader
  · simp [decodeEntry_short hshort]
  rcases exists_header hshort with ⟨opcode, len0, len1, rest, hinput⟩
  rw [hinput, decodeEntry_cons]
  by_cases hmask : opcode &&& opcodeMask ≠ 0
  · simp [if_pos hmask]
  rw [if_neg hmask]
  apply Result.FailsIn.bind (splitAtChecked_failsIn _ _)
  intro ⟨body, rest'⟩ _
  apply Result.FailsIn.bind (decodeBody_failsIn opcode body)
  simp

theorem domainError_ne_signatureInvalid (payload : Bytes) :
    domainError payload ≠ .signatureInvalid := by
  unfold domainError
  split
  · simp
  · split <;> simp

-- the entry loop ends within the payload's own length
theorem decodeEntries_failsIn (payload : Bytes) :
    (decodeEntries payload).FailsIn (· ≠ .signatureInvalid) := by
  unfold decodeEntries
  cases stripPrefix accountLogDomain payload with
  | none => exact domainError_ne_signatureInvalid payload
  | some body =>
      exact many_failsIn decodeEntry_failsIn entryCodec.decode_consumes _ _ _ le_rfl

theorem encode_failsIn {E : Ed25519} (L : AccountLog E) :
    L.encode.FailsIn (· ≠ .signatureInvalid) := by
  unfold AccountLog.encode encodeEntries EncodedAccountLog.fromBytes
  split <;> simp

theorem decode_failsIn (E : Ed25519) (p : EncodedAccountLog) :
    (p.decode E).FailsIn (· ≠ .signatureInvalid) :=
  (decodeEntries_failsIn _).bind fun _ _ => fromEntries_failsIn E _

end LogosChat.Accounts
