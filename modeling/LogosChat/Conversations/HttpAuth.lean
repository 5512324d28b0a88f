import LogosChat.Accounts.Keys
import LogosChat.Accounts.Record
import LogosChat.Conversations.Identity

/-!
# Account logs over HTTP

The auth service that fetches an account's log from a directory and answers from it: a signer is
valid when the log endorses it under `chat.signer`, revoked when it did, and invalid otherwise.  The
directory is untrusted; what it answers to each attempt of a lookup is a parameter.
-/

namespace LogosChat.Conversations

open Reasoning Crypto Accounts

inductive HttpAccountError where
  | http (error : String)
  | server (status : Nat) (text : String)
  | io (error : String)
  | decode (error : AccountLogError)
  | addr (error : AccountAddrError)
  | notChatEnabled
  | accountNotFound (addr : String)
deriving DecidableEq

/-- A response.  Reading its body may fail once `body` has been read; `text` is the body as text, if
it can be read as such. -/
structure Response where
  status : Nat
  body : Bytes
  fault : Option String
  text : Option String

namespace Response

/-- `take(limit).read_to_end`. -/
def read (resp : Response) (limit : Nat) : Except String Bytes :=
  match resp.fault with
  | some error => if resp.body.length < limit then .error error else .ok (resp.body.take limit)
  | none => .ok (resp.body.take limit)

def shed (resp : Response) : Bool := (500 ≤ resp.status && resp.status < 600) || resp.status = 429

def success (resp : Response) : Result HttpAccountError Response :=
  if 200 ≤ resp.status ∧ resp.status < 300 then .ok resp
  else .err (.server resp.status (resp.text.getD ""))

end Response

def lookupRetries : Nat := 4

/-- The largest valid response: a signature, then the payload. -/
def maxArtifactBytes : Nat := 64 + maxPayloadBytes

/-- `Endpoint::get` from `attempt` on, with `left` retries. -/
def retrying (answers : Nat → Except String Response) : Nat → Nat → Except String Response
  | 0, attempt => answers attempt
  | left + 1, attempt =>
      match answers attempt with
      | .error error => .error error
      | .ok resp => if resp.shed then retrying answers left (attempt + 1) else .ok resp

def chatSignerContext : Context := .literal "chat.signer" Context.chatSigner_isOk

section ChatRead

variable {E : Ed25519}

/-- Every installation key the account still endorses, oldest first. -/
def chatSigners (account : AccountRecord E) : Result Infallible (List E.VerifyingKey) :=
  account.parsedLog.ed25519KeysFor chatSignerContext

/-- Keys the account endorsed and has since withdrawn. -/
def revokedChatSigners (account : AccountRecord E) : Result Infallible (List E.VerifyingKey) :=
  account.parsedLog.revokedEd25519KeysFor chatSignerContext

end ChatRead

/-- The client, with what the directory answers to each attempt of a lookup. -/
structure HttpAuthClient (E : Ed25519) where
  answers : AccountAddr E → Nat → Except String Response

namespace HttpAuthClient

variable {E : Ed25519}

def fetch (client : HttpAuthClient E) (addr : AccountAddr E) :
    Result HttpAccountError (Option SignedAccountLog) :=
  match retrying (client.answers addr) lookupRetries 0 with
  | .error error => .err (.http error)
  | .ok resp =>
      if resp.status = 404 then .ok none else do
        let resp ← resp.success
        -- one byte past the cap, never the whole body
        match resp.read (maxArtifactBytes + 1) with
        | .error error => .err (.io error)
        | .ok body =>
            if maxArtifactBytes < body.length then .err (.decode (.tooLarge maxPayloadBytes)) else do
              let signedLog ← (SignedAccountLog.fromBytes body).mapErr .decode
              .ok (some signedLog)

def getAccount (client : HttpAuthClient E) (addr : AccountAddr E) :
    Result HttpAccountError (Option (AccountRecord E)) := do
  match ← client.fetch addr with
  | none => .ok none
  | some signedLog =>
      let account ← (AccountRecord.new addr signedLog).mapErr .decode
      .ok (some account)

def validateSigner (client : HttpAuthClient E) (signerKey : SignerKey)
    (participantId : ParticipantId) : Result HttpAccountError AuthResult :=
  -- a malformed claim is a definite no, not a failure to decide
  match AccountAddr.tryFrom E participantId.bytes with
  | .panic => .panic
  | .err _ => .ok .invalid
  | .ok addr =>
      match E.fromCanonicalSlice signerKey.bytes with
      | .panic => .panic
      | .err _ => .ok .invalid
      | .ok signer => do
          match ← client.getAccount addr with
          | none => .ok .invalid
          | some account =>
              let live ← (chatSigners account).lift
              if signer ∈ live then .ok .valid
              else
                let revoked ← (revokedChatSigners account).lift
                if signer ∈ revoked then .ok .revoked else .ok .invalid

def signersForParticipant (client : HttpAuthClient E) (participantId : ParticipantId) :
    Result HttpAccountError (List SignerKey) := do
  let addr ← (AccountAddr.tryFrom E participantId.bytes).mapErr .addr
  match ← client.getAccount addr with
  | none => .err (.accountNotFound addr.display)
  | some account =>
      let live ← (chatSigners account).lift
      let signers := live.map fun k ↦ (⟨(E.keyBytes k).toList⟩ : SignerKey)
      if signers.isEmpty then .err .notChatEnabled else .ok signers

/-! ## What the answers say of the log -/

theorem getAccount_eq_some {client : HttpAuthClient E} {addr : AccountAddr E}
    {account : AccountRecord E} (h : client.getAccount addr = .ok (some account)) :
    ∃ p : EncodedAccountLog, p.decode E = .ok account.parsedLog := by
  rcases Result.bind_eq_ok.mp h with ⟨fetched, -, h⟩
  cases fetched with
  | none => cases h
  | some signedLog =>
      rcases Result.bind_eq_ok.mp h with ⟨account', hnew, h⟩
      cases h
      rcases Result.bind_eq_ok.mp (Result.mapErr_eq_ok.mp hnew) with ⟨log, hlog, hrecord⟩
      cases hrecord
      exact ⟨signedLog.payload, (SignedAccountLog.verify_eq_ok_iff.mp hlog).2⟩

/-- The entry endorses this signer's key under `chat.signer`. -/
def EndorsesSigner (entry : AccountEntry) (signer : SignerKey) : Prop :=
  ∃ bytes : KeyBytes, entry = .add chatSignerContext (.ed25519Key bytes) ∧ bytes.toList = signer.bytes

/-- The answers for a participant whose account log is `L`. -/
structure SignersSpec (client : HttpAuthClient E) (participant : ParticipantId) (L : AccountLog E) :
    Prop where
  valid_iff : ∀ signer, client.validateSigner signer participant = .ok .valid ↔
    ∃ val : IndexedAccountEntry, LiveIn L.entries val ∧ EndorsesSigner val.entry signer
  revoked_iff : ∀ signer, client.validateSigner signer participant = .ok .revoked ↔
    (∃ entry ∈ L.entries, EndorsesSigner entry signer) ∧
      ∀ (p : Nat) (entry : AccountEntry), L.entries[p]? = some entry →
        EndorsesSigner entry signer → L.Tombstoned p
  invalid_iff : ∀ signer, client.validateSigner signer participant = .ok .invalid ↔
    ∀ entry ∈ L.entries, ¬ EndorsesSigner entry signer
  signers_of_some : (∃ signer, client.validateSigner signer participant = .ok .valid) →
    ∃ signers, client.signersForParticipant participant = .ok signers ∧
      ∀ signer, signer ∈ signers ↔ client.validateSigner signer participant = .ok .valid
  error_of_none : (∀ signer, client.validateSigner signer participant ≠ .ok .valid) →
    client.signersForParticipant participant = .err .notChatEnabled

theorem keyFor_eq_some_iff_endorses (hE : E.KeepsBytes) {signer : SignerKey} {key : E.VerifyingKey}
    (hkey : E.fromCanonicalSlice signer.bytes = .ok key) (entry : AccountEntry) :
    entry.keyFor E chatSignerContext = some key ↔ EndorsesSigner entry signer := by
  rcases Ed25519.fromCanonicalSlice_eq_ok_iff.mp hkey with ⟨array, harray, hparse⟩
  rw [keyFor_eq_some_iff]
  refine exists_congr fun bytes ↦ and_congr_right fun _ ↦ ⟨fun h ↦ ?_, fun h ↦ ?_⟩
  · have hsame : bytes = array :=
      (hE bytes key (Ed25519.fromCanonicalBytes_eq_ok_iff.mp h)).symm.trans
        (hE array key (Ed25519.fromCanonicalBytes_eq_ok_iff.mp hparse))
    rw [hsame]
    exact harray
  · rw [← harray] at h
    rw [Vector.toList_inj.mp h]
    exact hparse

-- the keys of a log are usable ones, so a signer that is not a key is not among them
theorem not_endorses_of_malformed {L : AccountLog E} {signer : SignerKey} {e : Ed25519Error}
    (h : E.fromCanonicalSlice signer.bytes = .err e) {entry : AccountEntry}
    (hmem : entry ∈ L.entries) : ¬ EndorsesSigner entry signer := by
  rintro ⟨bytes, rfl, hbytes⟩
  rcases ensureValidTypes_eq_ok_iff.mp L.types _ _ hmem with ⟨key, hkey⟩
  rw [Ed25519.fromCanonicalSlice_eq_ok_iff.mpr ⟨bytes, hbytes, hkey⟩] at h
  cases h

theorem fromCanonicalSlice_ne_panic (bytes : Bytes) : E.fromCanonicalSlice bytes ≠ .panic := by
  unfold Ed25519.fromCanonicalSlice
  cases tryIntoArray 32 bytes with
  | none => nofun
  | some array => exact (E.fromCanonicalBytes_failsIn array).ne_panic

section Verdict

variable (live revoked : List E.VerifyingKey) (key : E.VerifyingKey)

/-- The answer for a key, from the two lists. -/
def verdict : AuthResult :=
  if key ∈ live then .valid else if key ∈ revoked then .revoked else .invalid

variable {live revoked key}

theorem verdict_eq_valid_iff : verdict live revoked key = .valid ↔ key ∈ live := by
  unfold verdict
  split_ifs with hlive hrevoked <;> simp [hlive]

theorem verdict_eq_revoked_iff (h : live.Disjoint revoked) :
    verdict live revoked key = .revoked ↔ key ∈ revoked := by
  unfold verdict
  split_ifs with hlive hrevoked
  · simpa using h hlive
  · simp [hrevoked]
  · simp [hrevoked]

theorem verdict_eq_invalid_iff :
    verdict live revoked key = .invalid ↔ ¬ (key ∈ live ∨ key ∈ revoked) := by
  unfold verdict
  split_ifs with hlive hrevoked <;> simp [*]

end Verdict

section Fetched

variable {client : HttpAuthClient E} {participant : ParticipantId} {addr : AccountAddr E}
  {account : AccountRecord E} {live revoked : List E.VerifyingKey} {signer : SignerKey}
  (haddr : AccountAddr.tryFrom E participant.bytes = .ok addr)
  (haccount : client.getAccount addr = .ok (some account))
  (hlive : chatSigners account = .ok live) (hrevoked : revokedChatSigners account = .ok revoked)

include haddr haccount hlive hrevoked in
theorem validateSigner_of_key {key : E.VerifyingKey}
    (h : E.fromCanonicalSlice signer.bytes = .ok key) :
    client.validateSigner signer participant = .ok (verdict live revoked key) := by
  rw [validateSigner, haddr]
  dsimp only
  rw [h]
  dsimp only
  rw [haccount, Result.ok_bind]
  dsimp only
  rw [hlive, hrevoked, verdict]
  show (if key ∈ live then _ else if key ∈ revoked then _ else _) = _
  split_ifs <;> rfl

include haddr haccount hlive in
theorem signersForParticipant_eq :
    client.signersForParticipant participant =
      if live = [] then .err .notChatEnabled
      else .ok (live.map fun k ↦ (⟨(E.keyBytes k).toList⟩ : SignerKey)) := by
  rw [signersForParticipant, haddr]
  show (client.getAccount addr >>= _) = _
  rw [haccount, Result.ok_bind]
  dsimp only
  rw [hlive]
  cases live <;> rfl

include haddr haccount hlive hrevoked in
/-- Either the signer is a key, and the lists decide, or it is none and the log does not name it. -/
theorem validateSigner_cases (signer : SignerKey) :
    (∃ key, E.fromCanonicalSlice signer.bytes = .ok key ∧
      client.validateSigner signer participant = .ok (verdict live revoked key)) ∨
    client.validateSigner signer participant = .ok .invalid ∧
      ∀ entry ∈ account.parsedLog.entries, ¬ EndorsesSigner entry signer := by
  cases hkey : E.fromCanonicalSlice signer.bytes with
  | ok key => exact .inl ⟨key, rfl, validateSigner_of_key haddr haccount hlive hrevoked hkey⟩
  | err e =>
      refine .inr ⟨?_, fun entry hmem ↦ not_endorses_of_malformed hkey hmem⟩
      rw [validateSigner, haddr]
      dsimp only
      rw [hkey]
  | panic => exact absurd hkey (fromCanonicalSlice_ne_panic _)

include haddr haccount hlive hrevoked in
-- the signers found valid are the bytes of the live keys
theorem validateSigner_eq_valid_iff (hE : E.KeepsBytes)
    (hspec : KeysSpec account.parsedLog chatSignerContext live revoked) (signer : SignerKey) :
    client.validateSigner signer participant = .ok .valid ↔
      ∃ key ∈ live, (⟨(E.keyBytes key).toList⟩ : SignerKey) = signer := by
  refine ⟨fun h ↦ ?_, fun h ↦ ?_⟩
  · rcases validateSigner_cases haddr haccount hlive hrevoked signer with
      ⟨key, hkey, hcode⟩ | ⟨hcode, -⟩
    · rw [hcode, Result.ok.injEq, verdict_eq_valid_iff] at h
      rcases Ed25519.fromCanonicalSlice_eq_ok_iff.mp hkey with ⟨array, harray, hparse⟩
      refine ⟨key, h, ?_⟩
      rw [hE array key (Ed25519.fromCanonicalBytes_eq_ok_iff.mp hparse), harray]
    · rw [hcode] at h
      cases h
  · rcases h with ⟨key, hmem, rfl⟩
    rcases (hspec.live_iff key).mp hmem with ⟨val, -, hkeyFor⟩
    rcases keyFor_eq_some_iff.mp hkeyFor with ⟨bytes, -, hparse⟩
    have hbytes := hE bytes key (Ed25519.fromCanonicalBytes_eq_ok_iff.mp hparse)
    have hkey : E.fromCanonicalSlice (E.keyBytes key).toList = .ok key :=
      Ed25519.fromCanonicalSlice_eq_ok_iff.mpr ⟨bytes, congrArg Vector.toList hbytes.symm, hparse⟩
    rw [validateSigner_of_key haddr haccount hlive hrevoked hkey, verdict_eq_valid_iff.mpr hmem]

include haddr haccount in
/-- The client answers from the log it has fetched. -/
theorem signersSpec (hE : E.KeepsBytes) : SignersSpec client participant account.parsedLog := by
  rcases getAccount_eq_some haccount with ⟨p, hdec⟩
  rcases keysSpec account.parsedLog chatSignerContext (length_lt_of_decode hdec).le with
    ⟨live, revoked, hlive, hrevoked, hspec⟩
  have hcases := validateSigner_cases haddr haccount hlive hrevoked
  have hvalid := validateSigner_eq_valid_iff haddr haccount hlive hrevoked hE hspec
  have hsigners := signersForParticipant_eq haddr haccount hlive
  have hadded {signer : SignerKey} {key : E.VerifyingKey}
      (hkey : E.fromCanonicalSlice signer.bytes = .ok key) :
      key ∈ account.parsedLog.keysAdded chatSignerContext ↔
        ∃ entry ∈ account.parsedLog.entries, EndorsesSigner entry signer := by
    rw [mem_keysAdded_iff]
    simp only [keyFor_eq_some_iff_endorses hE hkey]
  refine ⟨fun signer ↦ ?_, fun signer ↦ ?_, fun signer ↦ ?_, fun h ↦ ?_, fun h ↦ ?_⟩
  · rcases hcases signer with ⟨key, hkey, hcode⟩ | ⟨hcode, hnone⟩
    · rw [hcode, Result.ok.injEq, verdict_eq_valid_iff, hspec.live_iff]
      simp only [keyFor_eq_some_iff_endorses hE hkey]
    · rw [hcode]
      refine ⟨nofun, fun h ↦ ?_⟩
      rcases h with ⟨val, hval, hend⟩
      exact absurd hend (hnone _ (List.mem_of_getElem? hval.entry))
  · rcases hcases signer with ⟨key, hkey, hcode⟩ | ⟨hcode, hnone⟩
    · rw [hcode, Result.ok.injEq, verdict_eq_revoked_iff hspec.disjoint, hspec.revoked_iff,
        hadded hkey]
      simp only [keyFor_eq_some_iff_endorses hE hkey]
    · rw [hcode]
      refine ⟨nofun, fun h ↦ ?_⟩
      rcases h.1 with ⟨entry, hmem, hend⟩
      exact absurd hend (hnone entry hmem)
  · rcases hcases signer with ⟨key, hkey, hcode⟩ | ⟨hcode, hnone⟩
    · rw [hcode, Result.ok.injEq, verdict_eq_invalid_iff, ← hspec.added_iff, hadded hkey]
      push Not
      rfl
    · rw [hcode]
      exact ⟨fun _ ↦ hnone, fun _ ↦ rfl⟩
  · rcases h with ⟨signer, hsigner⟩
    rcases (hvalid signer).mp hsigner with ⟨key, hmem, -⟩
    rw [if_neg (List.ne_nil_of_mem hmem)] at hsigners
    refine ⟨_, hsigners, fun other ↦ ?_⟩
    rw [hvalid, List.mem_map]
  · have hempty : live = [] := by
      refine List.eq_nil_iff_forall_not_mem.mpr fun key hmem ↦ ?_
      exact h _ ((hvalid _).mpr ⟨key, hmem, rfl⟩)
    rw [hsigners, if_pos hempty]

end Fetched

/-- In a log of at most `2 ^ 32` entries the keys of a context are divided into live and revoked
ones; and the answers on a log that was fetched for a well-formed address are read off it. -/
theorem signers_follow_log (E : Ed25519) (hE : E.KeepsBytes) :
    (∀ (L : AccountLog E) (context : Context), L.entries.length ≤ 2 ^ 32 →
      ∃ live revoked, L.ed25519KeysFor context = .ok live ∧
        L.revokedEd25519KeysFor context = .ok revoked ∧ KeysSpec L context live revoked) ∧
    ∀ (client : HttpAuthClient E) (participant : ParticipantId) (addr : AccountAddr E)
      (account : AccountRecord E), AccountAddr.tryFrom E participant.bytes = .ok addr →
      client.getAccount addr = .ok (some account) → SignersSpec client participant account.parsedLog :=
  ⟨keysSpec, fun _ _ _ _ haddr haccount ↦ signersSpec haddr haccount hE⟩

/-- The directory that serves one artifact to whoever asks. -/
def serving (signed : SignedAccountLog) : HttpAuthClient E :=
  ⟨fun _ _ ↦ .ok ⟨200, signed.toBytes, none, none⟩⟩

theorem fetch_serving {signed : SignedAccountLog} (addr : AccountAddr E)
    (h : accountLogDomain.length ≤ signed.payload.bytes.length) :
    (serving signed).fetch addr = .ok (some signed) := by
  have hsize := signed.payload.size
  have hlen : signed.toBytes.length ≤ maxArtifactBytes := by
    rw [SignedAccountLog.toBytes, List.length_append, Vector.length_toList, maxArtifactBytes]
    omega
  have htake : signed.toBytes.take (maxArtifactBytes + 1) = signed.toBytes :=
    List.take_of_length_le (by omega)
  show (if maxArtifactBytes < (signed.toBytes.take (maxArtifactBytes + 1)).length then _ else
    ((SignedAccountLog.fromBytes (signed.toBytes.take (maxArtifactBytes + 1))).mapErr _ >>= _)) = _
  rw [htake, if_neg (by omega), SignedAccountLog.fromBytes_toBytes signed h]
  rfl

/-- An installation that was endorsed and withdrawn, and another endorsed after it. -/
def replacedSignerLog : AccountLog Ed25519.sample :=
  ⟨[.add chatSignerContext (.ed25519Key (Vector.replicate 32 1)), .remove 0,
    .add chatSignerContext (.ed25519Key (Vector.replicate 32 2))], ⟨[true, false, false], rfl⟩, rfl⟩

def replacedSignerPayload : EncodedAccountLog :=
  ⟨accountLogDomain ++ entryCodec.encodeAll replacedSignerLog.entries, by decide⟩

theorem decode_replacedSignerPayload :
    replacedSignerPayload.decode Ed25519.sample = .ok replacedSignerLog := by
  refine decode_eq_ok_iff.mpr ⟨rfl, fun entry hmem ↦ ?_⟩
  rcases List.mem_cons.mp hmem with rfl | hmem
  · exact ⟨trivial, by decide, by decide⟩
  rcases List.mem_cons.mp hmem with rfl | hmem
  · exact ⟨trivial, by decide, by decide⟩
  · cases List.mem_singleton.mp hmem
    exact ⟨trivial, by decide, by decide⟩

theorem signers_follow_replacedSignerLog :
    SignersSpec (serving (AccountRecord.sampleSigned replacedSignerPayload))
      ⟨Ed25519.sampleKey.toList⟩ replacedSignerLog := by
  have hdomain : accountLogDomain.length ≤ replacedSignerPayload.bytes.length := by
    rw [replacedSignerPayload, List.length_append]
    exact Nat.le_add_right _ _
  have haccount : (serving (AccountRecord.sampleSigned replacedSignerPayload)).getAccount
      AccountRecord.sampleAddr = .ok (some ⟨AccountRecord.sampleAddr,
        AccountRecord.sampleSigned replacedSignerPayload, replacedSignerLog⟩) := by
    rw [getAccount, fetch_serving _ hdomain, Result.ok_bind]
    dsimp only
    rw [AccountRecord.new, AccountRecord.sampleSigned_verify decode_replacedSignerPayload]
    rfl
  exact (signers_follow_log Ed25519.sample Ed25519.sample_keepsBytes).2 _ _
    AccountRecord.sampleAddr _ rfl haccount

end HttpAuthClient

end LogosChat.Conversations
