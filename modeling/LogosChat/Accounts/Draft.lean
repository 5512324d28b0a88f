import LogosChat.Accounts.Canonical

/-!
# Drafts

The editable log an owner authors on.  A draft only ever grows by entries this build can read, and
a rejected entry leaves it as it was.
-/

namespace LogosChat.Accounts

open Reasoning Crypto

/-- The two `Unknown` shapes: an entry this build cannot interpret. -/
def AccountEntry.isUnreadable : AccountEntry → Bool
  | .unknown _ _ => true
  | .add _ (.unknown _ _) => true
  | _ => false

/-- The position of the first entry this build cannot interpret, over the whole history. -/
def AccountLog.firstUnreadable {E : Ed25519} (L : AccountLog E) : Option Nat :=
  L.entries.findIdx? AccountEntry.isUnreadable

-- the keys met so far are the loop's `seen` set
def singleUseLoop : Finset KeyBytes → List IndexedAccountEntry → Result AccountLogError Unit
  | _, [] => .ok ()
  | seen, ⟨index, .add _ (.ed25519Key key)⟩ :: rest =>
      if key ∈ seen then
        .err (.malformed ("key at position " ++ toString index ++ " is live more than once"))
      else singleUseLoop (insert key seen) rest
  | seen, _ :: rest => singleUseLoop seen rest

/-- No Ed25519 key is live under more than one entry. -/
def ensureSingleUseKeys {E : Ed25519} (L : AccountLog E) : Result AccountLogError Unit := do
  let live ← L.liveIndexed.lift
  singleUseLoop ∅ live

/-- An editable account log, used for publishing new entries. -/
structure AccountLogDraft (E : Ed25519) where
  log : AccountLog E

namespace AccountLogDraft

variable {E : Ed25519}

/-- A draft for an account that has published nothing. -/
def new : AccountLogDraft E := ⟨AccountLog.empty⟩

def fromLog (L : AccountLog E) : Result AccountLogError (AccountLogDraft E) :=
  match L.firstUnreadable with
  | some position =>
      .err (.malformed ("entry at position " ++ toString position ++
        " is not readable by this build, so the log cannot be re-signed"))
  | none => .ok ⟨L⟩

/-- Append `entry`, keeping it only if the result is still a valid log.  The result is the draft
after the call; on an error the caller still holds the draft it had. -/
def push (d : AccountLogDraft E) (entry : AccountEntry) :
    Result AccountLogError (AccountLogDraft E) :=
  if entry.isUnreadable then
    .err (.malformed "cannot author an entry this build cannot read")
  else do
    let log ← AccountLog.fromEntries E (d.log.entries ++ [entry])
    ensureSingleUseKeys log
    .ok ⟨log⟩

def add (d : AccountLogDraft E) (context : Context) (data : EntryData) :
    Result AccountLogError (AccountLogDraft E) :=
  d.push (.add context data)

def revoke (d : AccountLogDraft E) (index : UInt32) : Result AccountLogError (AccountLogDraft E) :=
  d.push (.remove index)

theorem fromLog_eq_ok {L : AccountLog E} {d : AccountLogDraft E} (h : fromLog L = .ok d) :
    d.log = L := by
  unfold fromLog at h
  cases hread : L.firstUnreadable with
  | some position => simp [hread] at h
  | none =>
      rw [hread] at h
      cases h
      rfl

/-- An accepted entry is appended and nothing else changes. -/
theorem push_eq_ok {d d' : AccountLogDraft E} {entry : AccountEntry} (h : d.push entry = .ok d') :
    entry.isUnreadable = false ∧ d'.log.entries = d.log.entries ++ [entry] := by
  unfold push at h
  by_cases hread : entry.isUnreadable = true
  · rw [if_pos hread] at h
    cases h
  · rw [if_neg hread] at h
    rcases Result.bind_eq_ok.mp h with ⟨log, hlog, h⟩
    rcases Result.bind_eq_ok.mp h with ⟨_, -, h⟩
    cases h
    exact ⟨by simpa using hread, AccountLog.fromEntries_eq_ok_iff.mp hlog⟩

/-- Append every entry, stopping at the first one that is rejected. -/
def pushAll (d : AccountLogDraft E) : List AccountEntry → Result AccountLogError (AccountLogDraft E)
  | [] => .ok d
  | entry :: rest => do
      let d ← d.push entry
      d.pushAll rest

theorem pushAll_append (d : AccountLogDraft E) (entries more : List AccountEntry) :
    d.pushAll (entries ++ more) = (do
      let d ← d.pushAll entries
      d.pushAll more) := by
  induction entries generalizing d with
  | nil => rfl
  | cons entry rest ih =>
      rw [List.cons_append, pushAll, pushAll]
      cases d.push entry with
      | ok d' => exact ih d'
      | _ => rfl

theorem pushAll_eq_ok {entries : List AccountEntry} {d d' : AccountLogDraft E}
    (h : d.pushAll entries = .ok d') : d'.log.entries = d.log.entries ++ entries := by
  induction entries generalizing d with
  | nil =>
      cases h
      exact (List.append_nil _).symm
  | cons entry rest ih =>
      rcases Result.bind_eq_ok.mp h with ⟨mid, hpush, hrest⟩
      rw [ih hrest, (push_eq_ok hpush).2, List.append_assoc, List.singleton_append]

theorem singleUseLoop_failsIn (vals : List IndexedAccountEntry) (seen : Finset KeyBytes) :
    (singleUseLoop seen vals).FailsIn (· ≠ .signatureInvalid) := by
  fun_induction singleUseLoop seen vals with
  | case1 => trivial
  | case2 => simp
  | case3 _ _ _ _ _ _ ih => exact ih
  | case4 _ _ _ _ ih => exact ih

theorem push_failsIn (d : AccountLogDraft E) (entry : AccountEntry) :
    (d.push entry).FailsIn (· ≠ .signatureInvalid) := by
  unfold push
  by_cases hread : entry.isUnreadable = true
  · simp [if_pos hread]
  rw [if_neg hread]
  apply (fromEntries_failsIn E _).bind
  intro log _
  rcases liveIndexed_ok log with ⟨vals, hvals⟩
  have hkeys : (ensureSingleUseKeys log).FailsIn (· ≠ .signatureInvalid) := by
    rw [ensureSingleUseKeys, hvals]
    exact singleUseLoop_failsIn vals ∅
  exact hkeys.bind fun _ _ ↦ trivial

theorem pushAll_failsIn (entries : List AccountEntry) (d : AccountLogDraft E) :
    (d.pushAll entries).FailsIn (· ≠ .signatureInvalid) := by
  induction entries generalizing d with
  | nil => trivial
  | cons entry rest ih => exact (d.push_failsIn entry).bind fun d' _ ↦ ih d'

end AccountLogDraft

/-! ## The logs a build of this crate can hold -/

/-- A log came off the wire, or out of a draft grown by accepted entries (`add` and `revoke` are
`push`). -/
inductive Held (E : Ed25519) : AccountLog E → Prop where
  | decoded {p : EncodedAccountLog} {L : AccountLog E} : p.decode E = .ok L → Held E L
  | new : Held E (AccountLogDraft.new : AccountLogDraft E).log
  | fromLog {L : AccountLog E} {d : AccountLogDraft E} :
      Held E L → AccountLogDraft.fromLog L = .ok d → Held E d.log
  | push {d d' : AccountLogDraft E} {entry : AccountEntry} :
      Held E d.log → d.push entry = .ok d' → Held E d'.log

/-- The body of a `Text` entry can be counted by a `u16`. -/
def AccountEntry.TextFits : AccountEntry → Prop
  | .add context (.text value) => 2 + context.asBytes.length + (utf8 value).length < 2 ^ 16
  | _ => True

theorem encodeAdd_length (context : Context) (data : EntryData) :
    (encodeAdd context data).length = 1 + context.asBytes.length + (encodeData data).length := by
  simp only [encodeAdd, List.length_cons, List.length_append]
  omega

theorem textFits_of_wellFramed {entry : AccountEntry} (h : entry.WellFramed) : entry.TextFits := by
  unfold AccountEntry.TextFits
  split
  · have hbody := h.body
    rw [AccountEntry.body, encodeAdd_length, encodeData, List.length_cons] at hbody
    omega
  · trivial

/-- A readable entry can fail to be read back only by a `Text` that is too long. -/
theorem wellFramed_of_textFits {entry : AccountEntry} (hread : entry.isUnreadable = false)
    (h : entry.TextFits) : entry.WellFramed := by
  cases entry with
  | unknown opcode body => simp [AccountEntry.isUnreadable] at hread
  | remove index =>
      exact ⟨trivial, by show opRemove &&& opcodeMask = 0; decide, by
        rw [AccountEntry.body, leBytes_length]; decide⟩
  | add context data =>
      have hop : (AccountEntry.add context data).opcode &&& opcodeMask = 0 := by
        show opAdd &&& opcodeMask = 0
        decide
      have hcontext : context.asBytes.length ≤ 81 := context.asBytes_length.2
      cases data with
      | unknown tag body => simp [AccountEntry.isUnreadable] at hread
      | ed25519Key key =>
          refine ⟨trivial, hop, ?_⟩
          rw [AccountEntry.body, encodeAdd_length, encodeData, List.length_cons,
            Vector.length_toList]
          omega
      | text value =>
          refine ⟨trivial, hop, ?_⟩
          rw [AccountEntry.body, encodeAdd_length, encodeData, List.length_cons]
          have hfits : 2 + context.asBytes.length + (utf8 value).length < 2 ^ 16 := h
          omega

theorem held_wellFramed_iff {E : Ed25519} {L : AccountLog E} (hL : Held E L) :
    ∀ entry ∈ L.entries, entry.WellFramed ↔ entry.TextFits := by
  induction hL with
  | decoded hdec =>
      intro entry hmem
      have hframed := (decode_eq_ok_iff.mp hdec).2 entry hmem
      exact ⟨fun _ => textFits_of_wellFramed hframed, fun _ => hframed⟩
  | new =>
      intro entry hmem
      cases hmem
  | fromLog _ hfrom ih =>
      rw [AccountLogDraft.fromLog_eq_ok hfrom]
      exact ih
  | push _ hpush ih =>
      rcases AccountLogDraft.push_eq_ok hpush with ⟨hread, hentries⟩
      intro entry hmem
      rw [hentries, List.mem_append, List.mem_singleton] at hmem
      rcases hmem with hold | hnew
      · exact ih entry hold
      · subst hnew
        exact ⟨textFits_of_wellFramed, wellFramed_of_textFits hread⟩

/-! ## Encoding what is held -/

/-- The size of a payload of these entries. -/
def encodedLength (entries : List AccountEntry) : Nat :=
  accountLogDomain.length + (entries.map fun entry ↦ entryHeader + entry.body.length).sum

theorem encodeEntry_length (entry : AccountEntry) :
    (encodeEntry entry).length = entryHeader + entry.body.length := by
  have hwidth := leBytes_length 2 (UInt16.ofNat entry.body.length).toNat
  rw [encodeEntry, List.length_cons, List.length_append, hwidth, entryHeader]
  omega

theorem encodedLength_eq (entries : List AccountEntry) :
    encodedLength entries = (accountLogDomain ++ entryCodec.encodeAll entries).length := by
  have hsize : entryCodec.encodeAll entries = entries.flatMap encodeEntry := rfl
  rw [encodedLength, List.length_append, hsize, List.length_flatMap]
  simp only [encodeEntry_length]

theorem length_lt_of_encodedLength {entries : List AccountEntry}
    (h : encodedLength entries ≤ maxPayloadBytes) : entries.length < 2 ^ 32 := by
  have hentries := entryCodec.length_le_encodeAll_length entries
  rw [encodedLength_eq, List.length_append, maxPayloadBytes] at h
  omega

/-- The only thing the encoder checks is the size of the whole. -/
theorem exists_encode_iff {E : Ed25519} {L : AccountLog E} :
    (∃ p, L.encode = .ok p) ↔ encodedLength L.entries ≤ maxPayloadBytes := by
  rw [encodedLength_eq]
  refine ⟨fun ⟨p, hp⟩ ↦ ?_, fun hsize ↦ ⟨⟨_, hsize⟩, encode_eq_ok_iff.mpr rfl⟩⟩
  rw [← encode_eq_ok_iff.mp hp]
  exact p.size

/-- What is emitted is read back as the same log exactly when every entry is well framed. -/
theorem decode_encode_iff {E : Ed25519} {L : AccountLog E} {p : EncodedAccountLog}
    (hp : L.encode = .ok p) : p.decode E = .ok L ↔ ∀ entry ∈ L.entries, entry.WellFramed := by
  rw [decode_eq_ok_iff, encode_eq_ok_iff.mp hp]
  simp

/-- A held log survives its own encoding exactly when it is refused for its size or no `Text` entry
outgrows the `u16` that counts its body. -/
theorem held_roundtrip_iff (E : Ed25519) (L : AccountLog E) (hL : Held E L) :
    (∀ p, L.encode = .ok p → p.decode E = .ok L) ↔
      maxPayloadBytes < encodedLength L.entries ∨ ∀ entry ∈ L.entries, entry.TextFits := by
  have hframed : (∀ entry ∈ L.entries, entry.WellFramed) ↔ ∀ entry ∈ L.entries, entry.TextFits :=
    forall₂_congr (held_wellFramed_iff hL)
  by_cases hsize : encodedLength L.entries ≤ maxPayloadBytes
  · rcases exists_encode_iff.mpr hsize with ⟨p, hp⟩
    have hroundtrip : (∀ q, L.encode = .ok q → q.decode E = .ok L) ↔ p.decode E = .ok L := by
      refine ⟨fun h ↦ h p hp, fun h q hq ↦ ?_⟩
      rw [hp] at hq
      cases hq
      exact h
    rw [hroundtrip, decode_encode_iff hp, hframed]
    exact ⟨.inr, fun h ↦ h.resolve_left (by omega)⟩
  · refine ⟨fun _ ↦ .inl (by omega), fun _ p hp ↦ ?_⟩
    exact absurd (exists_encode_iff.mp ⟨p, hp⟩) hsize

/-- A text can be the first entry of any draft, however long it is. -/
theorem push_text (E : Ed25519) (context : Context) (value : String) :
    ∃ d : AccountLogDraft E, AccountLogDraft.new.push (.add context (.text value)) = .ok d ∧
      d.log.entries = [.add context (.text value)] := by
  let log : AccountLog E := ⟨[.add context (.text value)], ⟨[false], rfl⟩, rfl⟩
  have hlog : AccountLog.fromEntries E [.add context (.text value)] = .ok log :=
    AccountLog.fromEntries_eq_ok_iff.mpr rfl
  refine ⟨⟨log⟩, ?_, rfl⟩
  unfold AccountLogDraft.push
  rw [if_neg (by simp [AccountEntry.isUnreadable])]
  show (AccountLog.fromEntries E [.add context (.text value)] >>= _) = _
  rw [hlog, Result.ok_bind]
  rfl

theorem held_roundtrip_short_text :
    ∃ d : AccountLogDraft Ed25519.sample,
      AccountLogDraft.new.push (.add (.literal "a.b" (by decide)) (.text "hi")) = .ok d ∧
      ∀ p, d.log.encode = .ok p → p.decode Ed25519.sample = .ok d.log := by
  rcases push_text Ed25519.sample (.literal "a.b" (by decide)) "hi" with ⟨d, hd, hentries⟩
  refine ⟨d, hd, (held_roundtrip_iff _ d.log (.push .new hd)).mpr (.inr ?_)⟩
  intro entry hmem
  rw [hentries, List.mem_singleton] at hmem
  subst hmem
  show 2 + (Context.literal "a.b" (by decide)).asBytes.length + (utf8 "hi").length < 2 ^ 16
  decide

/-! ## The length that wraps -/

/-- An `Add` body of a multiple of `2 ^ 16` bytes is announced as empty. -/
theorem decodeEntry_wrapped_add {context : Context} {data : EntryData}
    (h : (encodeAdd context data).length % 2 ^ 16 = 0) :
    decodeEntry (encodeEntry (.add context data)) = .err (.malformed "add body is empty") := by
  have hzero : (UInt16.ofNat (encodeAdd context data).length).toNat = 0 := by
    rw [UInt16.toNat_ofNat', h]
  have hbytes : encodeEntry (.add context data) = opAdd :: 0 :: 0 :: encodeAdd context data := by
    rw [encodeEntry, AccountEntry.body, hzero]
    rfl
  have hsplit : splitAtChecked (encodeAdd context data) (leNat [0, 0]) =
      .ok ([], encodeAdd context data) :=
    splitAtChecked_eq_ok_iff.mpr ⟨rfl, rfl⟩
  rw [hbytes, decodeEntry_cons, if_neg (by decide), hsplit]
  rfl

theorem decode_wrapped_add {E : Ed25519} {L : AccountLog E} {p : EncodedAccountLog}
    {context : Context} {data : EntryData} (hentries : L.entries = [.add context data])
    (hp : L.encode = .ok p) (h : (encodeAdd context data).length % 2 ^ 16 = 0) :
    p.decode E = .err (.malformed "add body is empty") := by
  have hbytes : p.bytes = accountLogDomain ++ encodeEntry (.add context data) := by
    rw [encode_eq_ok_iff.mp hp, hentries, FrameCodec.encodeAll_cons, FrameCodec.encodeAll_nil,
      List.append_nil]
    rfl
  have hne : encodeEntry (.add context data) ≠ [] := List.cons_ne_nil _ _
  rw [EncodedAccountLog.decode, decodeEntries, stripPrefix_eq_some_iff.mpr hbytes]
  dsimp only
  rw [encodeEntry_length, entryHeader, Nat.add_comm 3, many_cons hne, decodeEntry_wrapped_add h]
  rfl

/-- With the context "a.b" this makes a body of `2 ^ 16` bytes: a length byte, the context, a tag
and the text. -/
def wrappingText : String := String.ofList (List.replicate 65531 'x')

/-- One accepted entry, encoded within the size cap, that no reader can decode. -/
theorem wrapping_text_is_unreadable :
    ∃ d : AccountLogDraft Ed25519.sample, ∃ p,
      AccountLogDraft.new.push (.add (.literal "a.b" (by decide)) (.text wrappingText)) = .ok d ∧
      d.log.encode = .ok p ∧
      p.decode Ed25519.sample = .err (.malformed "add body is empty") := by
  rcases push_text Ed25519.sample (.literal "a.b" (by decide)) wrappingText with ⟨d, hd, hentries⟩
  have hcontext : (Context.literal "a.b" (by decide)).asBytes.length = 3 := by decide
  have htext : (utf8 wrappingText).length = 65531 := utf8_replicate_length (by decide) 65531
  have hbody : (encodeAdd (.literal "a.b" (by decide)) (.text wrappingText)).length = 2 ^ 16 := by
    rw [encodeAdd_length, hcontext, encodeData, List.length_cons, htext]
    omega
  have hdomain : accountLogDomain.length = 17 := by decide
  have hsize : encodedLength d.log.entries ≤ maxPayloadBytes := by
    rw [hentries, encodedLength, hdomain, List.map_singleton, List.sum_singleton,
      AccountEntry.body, hbody]
    decide
  rcases exists_encode_iff.mpr hsize with ⟨p, hp⟩
  exact ⟨d, p, hd, hp, decode_wrapped_add hentries hp (by rw [hbody, Nat.mod_self])⟩

-- the two frames are compared field by field: opcode, length, context, tag
theorem text_of_first_frame {context : Context} {value : String} {first : AccountEntry} {rest : Bytes}
    (hframed : first.WellFramed)
    (h : encodeEntry first ++ rest = encodeEntry (.add context (.text value))) :
    ∃ front, utf8 value = front ++ rest ∧
      first.body.length = 2 + context.asBytes.length + front.length := by
  simp only [encodeEntry, List.cons_append, List.append_assoc] at h
  obtain ⟨hopcode, h⟩ := List.cons.inj h
  have hbody := (List.append_inj h (by rw [leBytes_length, leBytes_length])).2
  cases first with
  | remove index => cases hopcode
  | unknown opcode body => exact absurd hopcode hframed.canonical.1
  | add context' data =>
      obtain ⟨tag, raw, hdata⟩ := encodeData_eq_cons data
      simp only [AccountEntry.body, encodeAdd, hdata, List.cons_append, List.append_assoc] at hbody
      obtain ⟨hcount, hbody⟩ := List.cons.inj hbody
      have hcontext : context'.asBytes.length = context.asBytes.length := by
        rw [← contextLen_toNat context', hcount, contextLen_toNat]
      have htext := (List.append_inj hbody hcontext).2
      refine ⟨raw, (List.cons.inj htext).2.symm, ?_⟩
      rw [AccountEntry.body, encodeAdd_length, hdata, List.length_cons, hcontext]
      omega

/-- A `Text` that wraps the length is not read back as something else either: the bytes that are left
over would have to start an entry, and no printable character does. -/
theorem decode_ne_ok_of_wrapped_text {E : Ed25519} {p : EncodedAccountLog} {context : Context}
    {value : String} (hbytes : p.bytes = accountLogDomain ++ encodeEntry (.add context (.text value)))
    (hlong : ¬ (AccountEntry.add context (.text value)).TextFits)
    (hplain : ∀ b ∈ utf8 value, b &&& opcodeMask ≠ 0) (L : AccountLog E) : p.decode E ≠ .ok L := by
  intro hdecode
  obtain ⟨hpayload, hframed⟩ := decode_eq_ok_iff.mp hdecode
  have hall : entryCodec.encodeAll L.entries = encodeEntry (.add context (.text value)) :=
    List.append_cancel_left (hpayload.symm.trans hbytes)
  cases hentries : L.entries with
  | nil =>
      rw [hentries] at hall
      cases hall
  | cons first others =>
      rw [hentries, FrameCodec.encodeAll_cons] at hall
      rw [hentries] at hframed
      have hfirst : first.WellFramed := hframed first List.mem_cons_self
      obtain ⟨front, htext, hlen⟩ := text_of_first_frame hfirst hall
      cases others with
      | nil =>
          have hfits : (AccountEntry.add context (.text value)).TextFits := by
            show 2 + context.asBytes.length + (utf8 value).length < 2 ^ 16
            rw [htext, FrameCodec.encodeAll_nil, List.append_nil, ← hlen]
            exact hfirst.body
          exact hlong hfits
      | cons next others =>
          have hnext : next.WellFramed := hframed next (by simp)
          apply hplain next.opcode _ hnext.opcode
          rw [htext]
          exact List.mem_append_right front (List.mem_cons_self)

end LogosChat.Accounts
