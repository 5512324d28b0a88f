import LogosChat.Accounts.Canonical
import LogosChat.Accounts.Live

/-!
# Builds that read more or less

Versions of this crate may differ in the data tags and in the opcodes they can read.  What they share
is the framing, the `Remove` opcode and the context part of an `Add`.  A `Reader` is such a version:
its decoder is the one of the crate with the readable parts left open.  Stripped of what a build made
of them, its entries are those of a reader that reads nothing.
-/

namespace LogosChat.Accounts

open Reasoning Crypto

/-! ## Tombstones, whatever an entry is -/

section Removes

variable {α β : Type} (removes : α → Option UInt32)

/-- The fault tests of `filter_mask_removed`, for entries of any type. -/
def removeFaultBy (entries : List α) (removed : List Bool) (position target : Nat) :
    Result AccountLogError (Option String) :=
  if position ≤ target then .ok (some "is not strictly earlier") else do
    let gone ← Result.index removed target
    if gone then .ok (some "is already removed") else
    let entry ← Result.index entries target
    if (removes entry).isSome then .ok (some "is itself a remove") else .ok none

def maskLoopBy (entries : List α) : List α → Nat → List Bool → Result AccountLogError (List Bool)
  | [], _, removed => .ok removed
  | entry :: rest, position, removed =>
      match removes entry with
      | none => maskLoopBy entries rest (position + 1) removed
      | some index => do
          match ← removeFaultBy removes entries removed position index.toNat with
          | some fault =>
              .err (.malformed ("remove at position " ++ toString position ++ " targets entry " ++
                toString index ++ ", which " ++ fault))
          | none =>
              let removed ← Result.setIndex removed index.toNat true
              maskLoopBy entries rest (position + 1) removed

def filterMaskRemovedBy (entries : List α) : Result AccountLogError (List Bool) :=
  maskLoopBy removes entries entries 0 (List.replicate entries.length false)

def enumerateBy (entries : List α) : List (UInt32 × α) :=
  entries.zipIdx.map fun (entry, index) ↦ (UInt32.ofNat index, entry)

def keepLiveBy (removed : List Bool) : List (UInt32 × α) → Result AccountLogError (List (UInt32 × α))
  | [] => .ok []
  | val :: rest => do
      let gone ← Result.index removed val.1.toNat
      let kept ← keepLiveBy removed rest
      .ok (if !gone && !(removes val.2).isSome then val :: kept else kept)

def validLiveEntriesBy (entries : List α) : Result AccountLogError (List (UInt32 × α)) := do
  let removed ← filterMaskRemovedBy removes entries
  keepLiveBy removes removed (enumerateBy entries)

/-! ### Nothing else of an entry is looked at -/

variable {removes} {removes' : β → Option UInt32} {f : α → β}

theorem index_map (entries : List α) (i : Nat) :
    (Result.index (entries.map f) i : Result AccountLogError β) =
      (Result.index entries i >>= fun a ↦ .ok (f a)) := by
  unfold Result.index
  rw [List.getElem?_map]
  cases entries[i]? <;> rfl

theorem removeFaultBy_map (hf : ∀ a, removes' (f a) = removes a) (entries : List α)
    (removed : List Bool) (position target : Nat) :
    removeFaultBy removes' (entries.map f) removed position target =
      removeFaultBy removes entries removed position target := by
  unfold removeFaultBy
  rw [index_map]
  cases (Result.index entries target : Result AccountLogError α) with
  | ok entry => simp only [Result.ok_bind, hf]
  | err e => rfl
  | panic => rfl

theorem maskLoopBy_map (hf : ∀ a, removes' (f a) = removes a) (entries rest : List α)
    (position : Nat) (removed : List Bool) :
    maskLoopBy removes' (entries.map f) (rest.map f) position removed =
      maskLoopBy removes entries rest position removed := by
  induction rest generalizing position removed with
  | nil => rfl
  | cons entry rest ih =>
      rw [List.map_cons, maskLoopBy, maskLoopBy, hf]
      cases removes entry with
      | none => exact ih _ _
      | some index =>
          simp only [removeFaultBy_map hf, ih]

theorem filterMaskRemovedBy_map (hf : ∀ a, removes' (f a) = removes a) (entries : List α) :
    filterMaskRemovedBy removes' (entries.map f) = filterMaskRemovedBy removes entries := by
  rw [filterMaskRemovedBy, List.length_map, maskLoopBy_map hf]
  rfl

theorem enumerateBy_map (entries : List α) :
    enumerateBy (entries.map f) = (enumerateBy entries).map (Prod.map id f) := by
  rw [enumerateBy, enumerateBy, List.zipIdx_map, List.map_map, List.map_map]
  rfl

theorem keepLiveBy_map (hf : ∀ a, removes' (f a) = removes a) (removed : List Bool)
    (vals : List (UInt32 × α)) :
    keepLiveBy removes' removed (vals.map (Prod.map id f)) =
      (keepLiveBy removes removed vals >>= fun kept ↦ .ok (kept.map (Prod.map id f))) := by
  induction vals with
  | nil => rfl
  | cons val rest ih =>
      rw [List.map_cons, keepLiveBy, keepLiveBy, ih]
      show (Result.index removed val.1.toNat >>= _) = _
      cases (Result.index removed val.1.toNat : Result AccountLogError Bool) with
      | err e => rfl
      | panic => rfl
      | ok gone =>
          rw [Result.ok_bind, Result.ok_bind]
          cases keepLiveBy removes removed rest with
          | err e => rfl
          | panic => rfl
          | ok kept =>
              simp only [Result.ok_bind, Prod.map_snd, hf]
              split <;> rfl

theorem validLiveEntriesBy_map (hf : ∀ a, removes' (f a) = removes a) (entries : List α) :
    validLiveEntriesBy removes' (entries.map f) =
      (validLiveEntriesBy removes entries >>= fun kept ↦ .ok (kept.map (Prod.map id f))) := by
  rw [validLiveEntriesBy, validLiveEntriesBy, filterMaskRemovedBy_map hf, enumerateBy_map]
  cases filterMaskRemovedBy removes entries with
  | err e => rfl
  | panic => rfl
  | ok removed =>
      rw [Result.ok_bind, Result.ok_bind]
      exact keepLiveBy_map hf removed (enumerateBy entries)

end Removes

/-! ## Readers -/

/-- An entry as a build holds it.  The data of an `Add`, and an entry of another opcode, are of types
of its own, which have room for what it cannot read. -/
inductive EntryOf (δ ο : Type) where
  | add (context : Context) (data : δ)
  | remove (index : UInt32)
  | other (entry : ο)

namespace EntryOf

variable {δ ο : Type}

def removes : EntryOf δ ο → Option UInt32
  | .remove index => some index
  | _ => none

def context? : EntryOf δ ο → Option Context
  | .add context _ => some context
  | _ => none

/-- What is left of an entry without what the build made of it. -/
def shape : EntryOf δ ο → EntryOf Unit Unit
  | .add context _ => .add context ()
  | .remove index => .remove index
  | .other _ => .other ()

@[simp] theorem removes_shape (e : EntryOf δ ο) : e.shape.removes = e.removes := by
  cases e <;> rfl

@[simp] theorem context?_shape (e : EntryOf δ ο) : e.shape.context? = e.context? := by
  cases e <;> rfl

end EntryOf

/-- A version of the crate: what it makes of the data of an `Add`, by its tag, what it makes of an
entry of an opcode that is neither `Add` nor `Remove`, and which logs it finds well typed. -/
structure Reader where
  Data : Type
  Other : Type
  readData : UInt8 → Bytes → Result AccountLogError Data
  readOther : UInt8 → Bytes → Result AccountLogError Other
  ensureValidTypes : List (EntryOf Data Other) → Result AccountLogError Unit

namespace Reader

variable (R : Reader)

abbrev Entry := EntryOf R.Data R.Other

def decodeAdd : Bytes → Result AccountLogError R.Entry
  | [] => .err (.malformed "add body is empty")
  | ctxLen :: rest =>
      if ctxLen = 0 then .err (.malformed "add context length is zero") else do
        let (context, rest) ← splitAtChecked rest ctxLen.toNat
        let context ← Context.fromBytes context
        match rest with
        | [] => .err (.malformed "add context leaves no room for a data tag")
        | tag :: data =>
            let data ← R.readData tag data
            .ok (.add context data)

def decodeBody (opcode : UInt8) (body : Bytes) : Result AccountLogError R.Entry :=
  if opcode = opAdd then R.decodeAdd body
  else if opcode = opRemove then
    match tryIntoArray 4 body with
    | some index => .ok (.remove (UInt32.ofNat (leNat index.toList)))
    | none =>
        .err (.malformed ("remove body is " ++ toString body.length ++ " bytes, must be 4"))
  else do
    let entry ← R.readOther opcode body
    .ok (.other entry)

def decodeEntry (input : Bytes) : Result AccountLogError (R.Entry × Bytes) := do
  let (header, rest) ← splitAtChecked input entryHeader
  let opcode ← Result.index header 0
  if opcode &&& opcodeMask ≠ 0 then
    .err (.malformed ("entry opcode " ++ hexByte opcode ++ " has reserved high bits set"))
  else
    let len0 ← Result.index header 1
    let len1 ← Result.index header 2
    let (body, rest) ← splitAtChecked rest (leNat [len0, len1])
    let entry ← R.decodeBody opcode body
    .ok (entry, rest)

def decodeEntries (payload : Bytes) : Result AccountLogError (List R.Entry) :=
  match stripPrefix accountLogDomain payload with
  | none => .err (domainError payload)
  | some body => many R.decodeEntry body.length body []

/-- The entries of a payload, when the build accepts it. -/
def decode (p : EncodedAccountLog) : Result AccountLogError (List R.Entry) := do
  let entries ← R.decodeEntries p.bytes
  let _ ← filterMaskRemovedBy EntryOf.removes entries
  R.ensureValidTypes entries
  .ok entries

/-- The reader that can read nothing beyond what all builds share. -/
def bare : Reader where
  Data := Unit
  Other := Unit
  readData _ _ := .ok ()
  readOther _ _ := .ok ()
  ensureValidTypes _ := .ok ()

/-! ### What every build sees -/

variable {R}

theorem decodeAdd_bare {body : Bytes} {e : R.Entry} (h : R.decodeAdd body = .ok e) :
    bare.decodeAdd body = .ok e.shape := by
  cases body with
  | nil => cases h
  | cons ctxLen rest =>
      rw [decodeAdd] at h ⊢
      by_cases hzero : ctxLen = 0
      · rw [if_pos hzero] at h
        cases h
      · rw [if_neg hzero] at h ⊢
        rcases Result.bind_eq_ok.mp h with ⟨⟨front, rest'⟩, hsplit, h⟩
        rcases Result.bind_eq_ok.mp h with ⟨context, hcontext, h⟩
        rw [hsplit, Result.ok_bind]
        dsimp only at h ⊢
        rw [hcontext, Result.ok_bind]
        cases rest' with
        | nil => cases h
        | cons tag raw =>
            rcases Result.bind_eq_ok.mp h with ⟨data, -, h⟩
            cases h
            rfl

theorem decodeBody_bare {opcode : UInt8} {body : Bytes} {e : R.Entry}
    (h : R.decodeBody opcode body = .ok e) : bare.decodeBody opcode body = .ok e.shape := by
  unfold decodeBody at h ⊢
  by_cases hadd : opcode = opAdd
  · rw [if_pos hadd] at h ⊢
    exact decodeAdd_bare h
  rw [if_neg hadd] at h ⊢
  by_cases hremove : opcode = opRemove
  · rw [if_pos hremove] at h ⊢
    cases hbody : tryIntoArray 4 body with
    | none => simp [hbody] at h
    | some index =>
        rw [hbody] at h
        cases h
        rfl
  · rw [if_neg hremove] at h ⊢
    rcases Result.bind_eq_ok.mp h with ⟨entry, -, h⟩
    cases h
    rfl

-- the extent of an entry is decided before its body is looked at
theorem decodeEntry_bare {input rest : Bytes} {e : R.Entry}
    (h : R.decodeEntry input = .ok (e, rest)) : bare.decodeEntry input = .ok (e.shape, rest) := by
  unfold decodeEntry at h ⊢
  rcases Result.bind_eq_ok.mp h with ⟨⟨header, tail⟩, hsplit, h⟩
  rcases Result.bind_eq_ok.mp h with ⟨opcode, hopcode, h⟩
  rw [hsplit, Result.ok_bind]
  dsimp only at h ⊢
  rw [hopcode, Result.ok_bind]
  by_cases hmask : opcode &&& opcodeMask ≠ 0
  · rw [if_pos hmask] at h
    cases h
  · rw [if_neg hmask] at h ⊢
    rcases Result.bind_eq_ok.mp h with ⟨len0, hlen0, h⟩
    rcases Result.bind_eq_ok.mp h with ⟨len1, hlen1, h⟩
    rcases Result.bind_eq_ok.mp h with ⟨⟨body, tail'⟩, hbody, h⟩
    rcases Result.bind_eq_ok.mp h with ⟨entry, hentry, h⟩
    cases h
    rw [hlen0, Result.ok_bind, hlen1, Result.ok_bind, hbody, Result.ok_bind]
    dsimp only
    rw [decodeBody_bare hentry]
    rfl

theorem decodeEntries_bare {payload : Bytes} {es : List R.Entry}
    (h : R.decodeEntries payload = .ok es) :
    bare.decodeEntries payload = .ok (es.map EntryOf.shape) := by
  unfold decodeEntries at h ⊢
  cases hbody : stripPrefix accountLogDomain payload with
  | none =>
      rw [hbody] at h
      cases h
  | some body =>
      rw [hbody] at h
      exact many_of_ok (fun _ _ _ ↦ decodeEntry_bare) h

theorem decode_eq_ok {p : EncodedAccountLog} {es : List R.Entry} (h : R.decode p = .ok es) :
    R.decodeEntries p.bytes = .ok es ∧ ∃ removed, filterMaskRemovedBy EntryOf.removes es = .ok removed := by
  rcases Result.bind_eq_ok.mp h with ⟨entries, hentries, h⟩
  rcases Result.bind_eq_ok.mp h with ⟨removed, hremoved, h⟩
  rcases Result.bind_eq_ok.mp h with ⟨_, -, h⟩
  cases h
  exact ⟨hentries, removed, hremoved⟩

end Reader

/-! ## This crate is such a build -/

def AccountEntry.removes : AccountEntry → Option UInt32
  | .remove index => some index
  | _ => none

theorem AccountEntry.isSome_removes (entry : AccountEntry) :
    entry.removes.isSome = entry.isRemove := by
  cases entry <;> rfl

theorem removeFaultBy_eq (entries : List AccountEntry) (removed : List Bool)
    (position target : Nat) :
    removeFaultBy AccountEntry.removes entries removed position target =
      removeFault entries removed position target := by
  simp only [removeFaultBy, removeFault, AccountEntry.isSome_removes]

theorem maskLoopBy_eq (entries rest : List AccountEntry) (position : Nat) (removed : List Bool) :
    maskLoopBy AccountEntry.removes entries rest position removed =
      maskLoop entries rest position removed := by
  induction rest generalizing position removed with
  | nil => rfl
  | cons entry rest ih =>
      cases entry with
      | add context data => exact ih _ _
      | unknown opcode body => exact ih _ _
      | remove index =>
          have hnext : maskLoopBy AccountEntry.removes entries rest (position + 1) =
              maskLoop entries rest (position + 1) := funext (ih _)
          rw [maskLoopBy, maskLoop]
          dsimp only [AccountEntry.removes]
          rw [removeFaultBy_eq]
          cases removeFault entries removed position index.toNat with
          | err e => rfl
          | panic => rfl
          | ok fault =>
              cases fault with
              | some detail => rfl
              | none => exact congrArg (Result.setIndex removed index.toNat true >>= ·) hnext

theorem filterMaskRemovedBy_eq (entries : List AccountEntry) :
    filterMaskRemovedBy AccountEntry.removes entries = filterMaskRemoved entries :=
  maskLoopBy_eq entries entries 0 _

def IndexedAccountEntry.pair (val : IndexedAccountEntry) : UInt32 × AccountEntry :=
  (val.index, val.entry)

theorem keepLiveBy_eq (removed : List Bool) (vals : List IndexedAccountEntry) :
    keepLiveBy AccountEntry.removes removed (vals.map IndexedAccountEntry.pair) =
      (keepLive removed vals >>= fun kept ↦ .ok (kept.map IndexedAccountEntry.pair)) := by
  induction vals with
  | nil => rfl
  | cons val rest ih =>
      rw [List.map_cons, keepLiveBy, keepLive, ih]
      show (Result.index removed val.index.toNat >>= _) = _
      cases (Result.index removed val.index.toNat : Result AccountLogError Bool) with
      | err e => rfl
      | panic => rfl
      | ok gone =>
          rw [Result.ok_bind, Result.ok_bind]
          cases keepLive removed rest with
          | err e => rfl
          | panic => rfl
          | ok kept =>
              simp only [Result.ok_bind, IndexedAccountEntry.pair, AccountEntry.isSome_removes]
              split <;> rfl

theorem validLiveEntriesBy_eq (entries : List AccountEntry) :
    validLiveEntriesBy AccountEntry.removes entries =
      (validLiveEntries entries >>= fun vals ↦ .ok (vals.map IndexedAccountEntry.pair)) := by
  have henumerate : enumerateBy entries = (enumerate entries).map IndexedAccountEntry.pair := by
    rw [enumerateBy, enumerate, List.map_map]
    rfl
  rw [validLiveEntriesBy, validLiveEntries, filterMaskRemovedBy_eq, henumerate]
  cases filterMaskRemoved entries with
  | err e => rfl
  | panic => rfl
  | ok removed => exact keepLiveBy_eq removed (enumerate entries)

/-- An entry of this crate: what it cannot read is kept with its tag or opcode. -/
def EntryOf.toAccount : EntryOf EntryData (UInt8 × Bytes) → AccountEntry
  | .add context data => .add context data
  | .remove index => .remove index
  | .other entry => .unknown entry.1 entry.2

def AccountEntry.toReader : AccountEntry → EntryOf EntryData (UInt8 × Bytes)
  | .add context data => .add context data
  | .remove index => .remove index
  | .unknown opcode body => .other (opcode, body)

theorem AccountEntry.toAccount_toReader (entry : AccountEntry) : entry.toReader.toAccount = entry := by
  cases entry <;> rfl

theorem AccountEntry.removes_toReader (entry : AccountEntry) : entry.toReader.removes = entry.removes := by
  cases entry <;> rfl

theorem AccountEntry.map_toAccount_toReader (entries : List AccountEntry) :
    (entries.map AccountEntry.toReader).map EntryOf.toAccount = entries := by
  rw [List.map_map]
  conv_rhs => rw [← List.map_id entries]
  exact List.map_congr_left fun entry _ ↦ entry.toAccount_toReader

/-- The build that this crate is. -/
def Reader.crate (E : Ed25519) : Reader where
  Data := EntryData
  Other := UInt8 × Bytes
  readData := Accounts.decodeData
  readOther opcode body := .ok (opcode, body)
  ensureValidTypes entries := Accounts.ensureValidTypes E (entries.map EntryOf.toAccount)

namespace Reader

variable {E : Ed25519}

theorem crate_decodeAdd (body : Bytes) :
    Accounts.decodeAdd body = ((crate E).decodeAdd body >>= fun e ↦ .ok e.toAccount) := by
  cases body with
  | nil => rfl
  | cons ctxLen rest =>
      rw [Accounts.decodeAdd, decodeAdd]
      by_cases hzero : ctxLen = 0
      · rw [if_pos hzero, if_pos hzero]
        rfl
      · rw [if_neg hzero, if_neg hzero]
        cases splitAtChecked rest ctxLen.toNat with
        | err e => rfl
        | panic => rfl
        | ok parts =>
            rcases parts with ⟨front, rest'⟩
            rw [Result.ok_bind, Result.ok_bind]
            dsimp only
            cases Context.fromBytes front with
            | err e => rfl
            | panic => rfl
            | ok context =>
                cases rest' with
                | nil => rfl
                | cons tag raw =>
                    show (Accounts.decodeData tag raw >>= _) =
                      ((Accounts.decodeData tag raw >>= _) >>= _)
                    cases Accounts.decodeData tag raw <;> rfl

theorem crate_decodeBody (opcode : UInt8) (body : Bytes) :
    Accounts.decodeBody opcode body =
      ((crate E).decodeBody opcode body >>= fun e ↦ .ok e.toAccount) := by
  unfold Accounts.decodeBody decodeBody
  by_cases hadd : opcode = opAdd
  · rw [if_pos hadd, if_pos hadd]
    exact crate_decodeAdd body
  rw [if_neg hadd, if_neg hadd]
  by_cases hremove : opcode = opRemove
  · rw [if_pos hremove, if_pos hremove]
    cases tryIntoArray 4 body <;> rfl
  · rw [if_neg hremove, if_neg hremove]
    rfl

theorem crate_decodeEntry (input : Bytes) :
    Accounts.decodeEntry input =
      ((crate E).decodeEntry input >>= fun r ↦ .ok (r.1.toAccount, r.2)) := by
  by_cases hshort : input.length < entryHeader
  · rw [Accounts.decodeEntry, decodeEntry, splitAtChecked, if_pos hshort]
    rfl
  rcases exists_header hshort with ⟨opcode, len0, len1, rest, hinput⟩
  have hsplit : splitAtChecked (opcode :: len0 :: len1 :: rest) entryHeader =
      .ok ([opcode, len0, len1], rest) :=
    splitAtChecked_eq_ok_iff.mpr ⟨rfl, rfl⟩
  rw [hinput, decodeEntry_cons, decodeEntry, hsplit]
  show _ = ((if opcode &&& opcodeMask ≠ 0 then _ else _) >>= _)
  by_cases hmask : opcode &&& opcodeMask ≠ 0
  · rw [if_pos hmask, if_pos hmask]
    rfl
  · rw [if_neg hmask, if_neg hmask]
    show _ = ((splitAtChecked rest (leNat [len0, len1]) >>= _) >>= _)
    cases splitAtChecked rest (leNat [len0, len1]) with
    | err e => rfl
    | panic => rfl
    | ok parts =>
        rcases parts with ⟨body, tail⟩
        rw [Result.ok_bind, Result.ok_bind]
        dsimp only
        rw [@crate_decodeBody E]
        cases (crate E).decodeBody opcode body <;> rfl

theorem crate_decodeEntries {payload : Bytes} {entries : List AccountEntry} :
    Accounts.decodeEntries payload = .ok entries ↔
      (crate E).decodeEntries payload = .ok (entries.map AccountEntry.toReader) := by
  have hdown (input rest : Bytes) (e : (crate E).Entry)
      (h : (crate E).decodeEntry input = .ok (e, rest)) :
      Accounts.decodeEntry input = .ok (e.toAccount, rest) := by
    rw [@crate_decodeEntry E, h]
    rfl
  have hup (input rest : Bytes) (entry : AccountEntry)
      (h : Accounts.decodeEntry input = .ok (entry, rest)) :
      (crate E).decodeEntry input = .ok (entry.toReader, rest) := by
    rw [@crate_decodeEntry E] at h
    rcases Result.bind_eq_ok.mp h with ⟨⟨e, rest'⟩, he, h⟩
    cases h
    rw [he]
    cases e <;> rfl
  unfold Accounts.decodeEntries decodeEntries
  cases stripPrefix accountLogDomain payload with
  | none => exact ⟨nofun, nofun⟩
  | some body =>
      refine ⟨fun h ↦ many_of_ok (fun input entry rest ↦ hup input rest entry) h, fun h ↦ ?_⟩
      have hback := many_of_ok (fun input e rest ↦ hdown input rest e) h
      exact hback.trans (congrArg Result.ok (AccountEntry.map_toAccount_toReader entries))

/-- What the crate decodes is what its reader decodes. -/
theorem crate_decode {p : EncodedAccountLog} {L : AccountLog E} :
    p.decode E = .ok L ↔ (crate E).decode p = .ok (L.entries.map AccountEntry.toReader) := by
  rw [decode_eq_ok_iff, ← decodeEntries_eq_ok_iff, @crate_decodeEntries E]
  refine ⟨fun h ↦ ?_, fun h ↦ (decode_eq_ok h).1⟩
  rcases L.removes with ⟨removed, hremoved⟩
  have hmask : filterMaskRemovedBy EntryOf.removes (L.entries.map AccountEntry.toReader) =
      .ok removed := by
    rw [filterMaskRemovedBy_map AccountEntry.removes_toReader, filterMaskRemovedBy_eq, hremoved]
  have htypes : (crate E).ensureValidTypes (L.entries.map AccountEntry.toReader) = .ok () := by
    show Accounts.ensureValidTypes E ((L.entries.map AccountEntry.toReader).map EntryOf.toAccount) = _
    rw [AccountEntry.map_toAccount_toReader, L.types]
  refine Result.bind_eq_ok.mpr ⟨_, h, ?_⟩
  refine Result.bind_eq_ok.mpr ⟨removed, hmask, ?_⟩
  exact Result.bind_eq_ok.mpr ⟨(), htypes, rfl⟩

/-! ## Two builds on one payload -/

/-- The live entries of a log, by position and by the context that selects them. -/
def positions {δ ο : Type} (vals : List (UInt32 × EntryOf δ ο)) : List (UInt32 × Option Context) :=
  vals.map fun val ↦ (val.1, val.2.context?)

/-- Two builds derive the same log, up to what they can read of it. -/
structure Agree {R S : Reader} (es : List R.Entry) (fs : List S.Entry) : Prop where
  length : es.length = fs.length
  contexts : es.map EntryOf.context? = fs.map EntryOf.context?
  tombstones : ∃ removed, filterMaskRemovedBy EntryOf.removes es = .ok removed ∧
    filterMaskRemovedBy EntryOf.removes fs = .ok removed
  live : ∃ vals vals', validLiveEntriesBy EntryOf.removes es = .ok vals ∧
    validLiveEntriesBy EntryOf.removes fs = .ok vals' ∧ positions vals = positions vals'

-- an accepted log, as one of this crate in which nothing can be read
def unread {δ ο : Type} : EntryOf δ ο → AccountEntry
  | .add context _ => .add context (.unknown 0 [])
  | .remove index => .remove index
  | .other _ => .unknown 0 []

theorem exists_validLiveEntriesBy {δ ο : Type} {es : List (EntryOf δ ο)} {removed : List Bool}
    (h : filterMaskRemovedBy EntryOf.removes es = .ok removed) :
    ∃ vals, validLiveEntriesBy EntryOf.removes es = .ok vals := by
  have hunread : ∀ e : EntryOf δ ο, (unread e).removes = e.removes := by
    intro e
    cases e <;> rfl
  have hmask : filterMaskRemoved (es.map unread) = .ok removed := by
    rw [← filterMaskRemovedBy_eq, filterMaskRemovedBy_map hunread, h]
  have hlive := validLiveEntriesBy_eq (es.map unread)
  rw [validLiveEntries_eq hmask, validLiveEntriesBy_map hunread] at hlive
  rcases Result.bind_eq_ok.mp hlive with ⟨vals, hvals, -⟩
  exact ⟨vals, hvals⟩

theorem positions_shape {δ ο : Type} (vals : List (UInt32 × EntryOf δ ο)) :
    positions (vals.map (Prod.map id EntryOf.shape)) = positions vals := by
  simp [positions]

/-- Builds that both accept a payload derive the same number of entries, the same tombstones, the
same live positions and the same contexts from it, whatever else they can read. -/
theorem builds_agree (R S : Reader) (p : EncodedAccountLog) (es : List R.Entry) (fs : List S.Entry)
    (hR : R.decode p = .ok es) (hS : S.decode p = .ok fs) : Agree es fs := by
  rcases decode_eq_ok hR with ⟨hes, removed, hremoved⟩
  rcases decode_eq_ok hS with ⟨hfs, removed', hremoved'⟩
  have hshape : es.map EntryOf.shape = fs.map EntryOf.shape := by
    have hbare := decodeEntries_bare hes
    rw [decodeEntries_bare hfs] at hbare
    exact (Result.ok.inj hbare).symm
  have hmask : filterMaskRemovedBy EntryOf.removes es = filterMaskRemovedBy EntryOf.removes fs := by
    rw [← filterMaskRemovedBy_map EntryOf.removes_shape es, hshape,
      filterMaskRemovedBy_map EntryOf.removes_shape]
  rcases exists_validLiveEntriesBy hremoved with ⟨vals, hvals⟩
  rcases exists_validLiveEntriesBy hremoved' with ⟨vals', hvals'⟩
  refine ⟨?_, ?_, ⟨removed, hremoved, hmask ▸ hremoved⟩, vals, vals', hvals, hvals', ?_⟩
  · rw [← List.length_map (f := EntryOf.shape), hshape, List.length_map]
  · have hcontexts := congrArg (List.map EntryOf.context?) hshape
    rw [List.map_map, List.map_map] at hcontexts
    simpa only [Function.comp_def, EntryOf.context?_shape] using hcontexts
  · have hlive := validLiveEntriesBy_map EntryOf.removes_shape es
    rw [hshape, validLiveEntriesBy_map EntryOf.removes_shape, hvals, hvals'] at hlive
    rw [← positions_shape vals, ← Result.ok.inj hlive, positions_shape]

-- the reader that can read nothing accepts whatever another build accepts
theorem decode_bare {R : Reader} {p : EncodedAccountLog} {es : List R.Entry}
    (h : R.decode p = .ok es) : bare.decode p = .ok (es.map EntryOf.shape) := by
  rcases decode_eq_ok h with ⟨hes, removed, hremoved⟩
  refine Result.bind_eq_ok.mpr ⟨_, decodeEntries_bare hes, ?_⟩
  rw [← filterMaskRemovedBy_map EntryOf.removes_shape] at hremoved
  exact Result.bind_eq_ok.mpr ⟨removed, hremoved, rfl⟩

/-- A log of a later version: data of an unassigned tag, an unassigned opcode, and a tombstone. -/
def laterLog : AccountLog Ed25519.sample :=
  ⟨[.add (.literal "chat.signer" Context.chatSigner_isOk) (.unknown 0x7f [1, 2]), .unknown 0x03 [0xff],
    .remove 0], ⟨[true, false, false], rfl⟩, rfl⟩

def laterPayload : EncodedAccountLog :=
  ⟨accountLogDomain ++ entryCodec.encodeAll laterLog.entries, by decide⟩

theorem decode_laterPayload : laterPayload.decode Ed25519.sample = .ok laterLog := by
  refine decode_eq_ok_iff.mpr ⟨rfl, fun entry hmem ↦ ?_⟩
  rcases List.mem_cons.mp hmem with rfl | hmem
  · exact ⟨⟨by decide, by decide⟩, by decide, by decide⟩
  rcases List.mem_cons.mp hmem with rfl | hmem
  · exact ⟨⟨by decide, by decide⟩, by decide, by decide⟩
  · cases List.mem_singleton.mp hmem
    exact ⟨trivial, by decide, by decide⟩

theorem builds_agree_laterLog :
    Agree (R := crate Ed25519.sample) (S := bare) (laterLog.entries.map AccountEntry.toReader)
      ((laterLog.entries.map AccountEntry.toReader).map EntryOf.shape) := by
  have hcrate := crate_decode.mp decode_laterPayload
  exact builds_agree _ bare laterPayload _ _ hcrate (decode_bare hcrate)

end Reader

end LogosChat.Accounts
