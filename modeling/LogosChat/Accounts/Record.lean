import LogosChat.Accounts.Canonical
import LogosChat.Reasoning.AppendOnly
import LogosChat.Reasoning.Hex

/-!
# Account records

The newest valid log seen for an account, in its signed and decoded forms.  An update verifies the
candidate, decodes it, and adopts it only when its payload strictly extends the one held; seen from
outside, a record is an append-only register of payload bytes.
-/

namespace LogosChat.Accounts

open Reasoning Crypto

/-- A routable representation of an account: its verifying key. -/
structure AccountAddr (E : Ed25519) where
  pubkey : E.VerifyingKey
deriving DecidableEq

/-- Failures parsing an address. -/
inductive AccountAddrError where
  | invalidAddress
deriving DecidableEq

namespace AccountAddr

variable {E : Ed25519}

/-- `AccountAddr::try_from`: exactly 32 bytes forming a valid key. -/
def tryFrom (E : Ed25519) (value : Bytes) : Result AccountAddrError (AccountAddr E) :=
  match tryIntoArray 32 value with
  | none => .err .invalidAddress
  | some bytes => do
      let pubkey ← (E.fromCanonicalBytes bytes).mapErr fun _ ↦ .invalidAddress
      .ok ⟨pubkey⟩

def toBytes (addr : AccountAddr E) : Bytes := (E.keyBytes addr.pubkey).toList

/-- The hex of the account's verifying key. -/
def display (addr : AccountAddr E) : String := hexEncode addr.toBytes

theorem tryFrom_toBytes (hE : E.ReadsBack) (addr : AccountAddr E) : tryFrom E addr.toBytes = .ok addr := by
  have hkey : E.fromCanonicalBytes (E.keyBytes addr.pubkey) = .ok addr.pubkey :=
    Ed25519.fromCanonicalBytes_eq_ok_iff.mpr (hE addr.pubkey)
  unfold tryFrom toBytes
  rw [tryIntoArray_toList]
  dsimp only
  rw [hkey]
  rfl

theorem tryFrom_failsIn (value : Bytes) : (tryFrom E value).FailsIn fun _ ↦ True := by
  unfold tryFrom
  split
  · trivial
  · apply Result.FailsIn.bind
    · exact (E.fromCanonicalBytes_failsIn _).mapErr fun _ _ ↦ trivial
    · exact fun _ _ ↦ trivial

end AccountAddr

/-- A payload, plus the account's signature over exactly those bytes. -/
structure SignedAccountLog where
  payload : EncodedAccountLog
  signature : Ed25519Signature
deriving DecidableEq

namespace SignedAccountLog

variable {E : Ed25519}

def verify (s : SignedAccountLog) (addr : AccountAddr E) : Result AccountLogError (AccountLog E) := do
  (E.verify addr.pubkey s.payload.bytes s.signature).mapErr AccountLogError.ofEd25519
  s.payload.decode E

def sign (E : Ed25519) (key : E.SigningKey) (payload : EncodedAccountLog) : SignedAccountLog :=
  { payload := payload, signature := E.sign key payload.bytes }

def signatureLen : Nat := 64

/-- The transmitted artifact: `signature || payload`. -/
def toBytes (s : SignedAccountLog) : Bytes := s.signature.toList ++ s.payload.bytes

/-- Splits and checks sizes only. -/
def fromBytes (artifact : Bytes) : Result AccountLogError SignedAccountLog :=
  if artifact.length < signatureLen + accountLogDomain.length then
    .err (.malformed "artifact too short to hold a signature and a payload")
  else do
    let (signature, payload) ← Result.splitAt artifact signatureLen
    match tryIntoArray 64 signature with
    | none => .panic
    | some signature => do
        let payload ← EncodedAccountLog.fromBytes payload
        .ok { payload := payload, signature := signature }

theorem fromBytes_toBytes (s : SignedAccountLog) (h : accountLogDomain.length ≤ s.payload.bytes.length) :
    fromBytes s.toBytes = .ok s := by
  have hlen : s.toBytes.length = signatureLen + s.payload.bytes.length := by
    rw [toBytes, List.length_append, Vector.length_toList, signatureLen]
  have hsplit : (Result.splitAt s.toBytes signatureLen : Result AccountLogError (Bytes × Bytes)) =
      .ok (s.signature.toList, s.payload.bytes) := by
    rw [Result.splitAt_of_le (by omega), toBytes]
    have htake : signatureLen = s.signature.toList.length := Vector.length_toList.symm
    rw [htake, List.take_left, List.drop_left]
  rw [fromBytes, if_neg (by omega), hsplit, Result.ok_bind]
  dsimp only
  rw [tryIntoArray_toList, fromBytes_eq_ok_iff.mpr rfl]
  rfl

/-- The account signed these bytes. -/
def Authentic (s : SignedAccountLog) (addr : AccountAddr E) : Prop :=
  E.verifyStrict addr.pubkey s.payload.bytes s.signature = true

theorem verify_of_authentic {s : SignedAccountLog} {addr : AccountAddr E} (h : s.Authentic addr) :
    s.verify addr = s.payload.decode E := by
  unfold Authentic at h
  rw [verify, Ed25519.verify, if_pos h]
  rfl

theorem verify_of_not_authentic {s : SignedAccountLog} {addr : AccountAddr E}
    (h : ¬ s.Authentic addr) : s.verify addr = .err .signatureInvalid := by
  unfold Authentic at h
  rw [verify, Ed25519.verify, if_neg h]
  rfl

theorem verify_eq_ok_iff {s : SignedAccountLog} {addr : AccountAddr E} {L : AccountLog E} :
    s.verify addr = .ok L ↔ s.Authentic addr ∧ s.payload.decode E = .ok L := by
  by_cases h : s.Authentic addr
  · rw [verify_of_authentic h]
    simp [h]
  · rw [verify_of_not_authentic h]
    simp [h]

theorem verify_failsIn (s : SignedAccountLog) (addr : AccountAddr E) :
    (s.verify addr).FailsIn fun _ ↦ True := by
  by_cases h : s.Authentic addr
  · rw [verify_of_authentic h]
    exact (decode_failsIn E s.payload).mono fun _ _ ↦ trivial
  · rw [verify_of_not_authentic h]
    trivial

end SignedAccountLog

/-- How a candidate related to the log already held. -/
inductive Outcome where
  | updated
  | unchanged (freshness : LogFreshness)
  | signatureInvalid
  | malformed (error : AccountLogError)
deriving DecidableEq

def Outcome.fromError : AccountLogError → Outcome
  | .signatureInvalid => .signatureInvalid
  | error => .malformed error

/-- The newest log seen for an account.  What the fields have to do with each other is
`AccountRecord.Holds`. -/
structure AccountRecord (E : Ed25519) where
  addr : AccountAddr E
  signedLog : SignedAccountLog
  parsedLog : AccountLog E
deriving DecidableEq

structure AccountRecordUpdate (E : Ed25519) where
  outcome : Outcome
  record : AccountRecord E

namespace AccountRecord

variable {E : Ed25519}

/-- A record for the first log seen for `addr`. -/
def new (addr : AccountAddr E) (signedLog : SignedAccountLog) :
    Result AccountLogError (AccountRecord E) := do
  let parsedLog ← signedLog.verify addr
  .ok { addr := addr, signedLog := signedLog, parsedLog := parsedLog }

def update (r : AccountRecord E) (candidate : SignedAccountLog) :
    Result Infallible (AccountRecordUpdate E) :=
  match candidate.verify r.addr with
  | .panic => .panic
  -- short circuit on error
  | .err e => .ok { outcome := Outcome.fromError e, record := r }
  | .ok candidateLog =>
      match compareLogFreshness r.signedLog.payload.bytes candidate.payload.bytes with
      | .newer =>
          .ok { outcome := .updated,
                record := { addr := r.addr, signedLog := candidate, parsedLog := candidateLog } }
      | other => .ok { outcome := .unchanged other, record := r }

/-- A sequence of updates, each on the record the one before it returned. -/
def updateAll (r : AccountRecord E) : List SignedAccountLog → Result Infallible (AccountRecord E)
  | [] => .ok r
  | candidate :: rest => do
      let u ← r.update candidate
      u.record.updateAll rest

/-! ## What one update can do -/

theorem update_cases (r : AccountRecord E) (candidate : SignedAccountLog) :
    (¬ candidate.Authentic r.addr ∧ r.update candidate = .ok ⟨.signatureInvalid, r⟩) ∨
    (candidate.Authentic r.addr ∧ ∃ e, candidate.payload.decode E = .err e ∧
      r.update candidate = .ok ⟨.malformed e, r⟩) ∨
    (candidate.Authentic r.addr ∧ ∃ L, candidate.payload.decode E = .ok L ∧
      (compareLogFreshness r.signedLog.payload.bytes candidate.payload.bytes = .newer ∧
          r.update candidate = .ok ⟨.updated, ⟨r.addr, candidate, L⟩⟩ ∨
        ∃ f, compareLogFreshness r.signedLog.payload.bytes candidate.payload.bytes = f ∧
          f ≠ .newer ∧ r.update candidate = .ok ⟨.unchanged f, r⟩)) := by
  unfold update
  by_cases hsig : candidate.Authentic r.addr
  · rw [SignedAccountLog.verify_of_authentic hsig]
    have hfails := decode_failsIn E candidate.payload
    cases hdec : candidate.payload.decode E with
    | panic => exact absurd hdec hfails.ne_panic
    | err e =>
        have hmalformed : Outcome.fromError e = .malformed e := by
          have hne := hfails.of_err hdec
          cases e with
          | signatureInvalid => exact absurd rfl hne
          | _ => rfl
        refine .inr (.inl ⟨hsig, e, rfl, ?_⟩)
        show Result.ok (AccountRecordUpdate.mk (Outcome.fromError e) r) = _
        rw [hmalformed]
    | ok L =>
        refine .inr (.inr ⟨hsig, L, rfl, ?_⟩)
        cases hfresh : compareLogFreshness r.signedLog.payload.bytes candidate.payload.bytes with
        | newer => exact .inl ⟨rfl, rfl⟩
        | _ => exact .inr ⟨_, rfl, nofun, rfl⟩
  · rw [SignedAccountLog.verify_of_not_authentic hsig]
    exact .inl ⟨hsig, rfl⟩

theorem newer_iff_strictExtends (existing candidate : Bytes) :
    compareLogFreshness existing candidate = .newer ↔ StrictExtends candidate existing :=
  compare_eq_newer_iff existing candidate

/-- The outcome of an update, and what it leaves in the record. -/
structure UpdateSpec (r : AccountRecord E) (candidate : SignedAccountLog)
    (u : AccountRecordUpdate E) : Prop where
  signatureInvalid_iff : u.outcome = .signatureInvalid ↔ ¬ candidate.Authentic r.addr
  malformed_iff : ∀ e, u.outcome = .malformed e ↔
    candidate.Authentic r.addr ∧ candidate.payload.decode E = .err e
  unchanged_iff : ∀ f, u.outcome = .unchanged f ↔
    candidate.Authentic r.addr ∧ (∃ L, candidate.payload.decode E = .ok L) ∧
      compareLogFreshness r.signedLog.payload.bytes candidate.payload.bytes = f ∧ f ≠ .newer
  updated_iff : u.outcome = .updated ↔
    u.record.signedLog.payload.bytes ≠ r.signedLog.payload.bytes
  kept_or_extended : u.record = r ∨
    u.record.signedLog = candidate ∧
      StrictExtends u.record.signedLog.payload.bytes r.signedLog.payload.bytes

theorem update_spec (r : AccountRecord E) (candidate : SignedAccountLog) :
    ∃ u, r.update candidate = .ok u ∧ UpdateSpec r candidate u := by
  rcases update_cases r candidate with ⟨hsig, hu⟩ | ⟨hsig, e, hdec, hu⟩ | ⟨hsig, L, hdec, h⟩
  · exact ⟨_, hu, by simp [hsig], by simp [hsig], by simp [hsig], by simp, .inl rfl⟩
  · refine ⟨_, hu, by simp [hsig], ?_, by simp [hdec], by simp, .inl rfl⟩
    intro e'
    simp [hsig, hdec]
  · rcases h with ⟨hnew, hu⟩ | ⟨f, hf, hne, hu⟩
    · have hext := (newer_iff_strictExtends _ _).mp hnew
      refine ⟨_, hu, by simp [hsig], by simp [hdec], ?_, ?_, .inr ⟨rfl, hext⟩⟩
      · intro f
        rw [hnew]
        -- `unchanged newer` is no outcome of an update
        refine ⟨nofun, fun h ↦ ?_⟩
        exact absurd h.2.2.1.symm h.2.2.2
      · exact ⟨fun _ ↦ hext.2, fun _ ↦ rfl⟩
    · refine ⟨_, hu, by simp [hsig], by simp [hdec], ?_, by simp, .inl rfl⟩
      intro f'
      rw [hf]
      refine ⟨fun h ↦ ?_, fun h ↦ by rw [h.2.2.1]⟩
      cases h
      exact ⟨hsig, ⟨L, hdec⟩, rfl, hne⟩

/-- A candidate gets into the record only verified, and with a payload that strictly extends. -/
theorem record_of_update {r : AccountRecord E} {candidate : SignedAccountLog}
    {u : AccountRecordUpdate E} (h : r.update candidate = .ok u) :
    (u.record = r ∧ ∀ L, candidate.verify r.addr = .ok L →
      ¬ StrictExtends candidate.payload.bytes r.signedLog.payload.bytes) ∨
    ∃ L, candidate.verify r.addr = .ok L ∧
      StrictExtends candidate.payload.bytes r.signedLog.payload.bytes ∧
      u.record = ⟨r.addr, candidate, L⟩ := by
  rcases update_cases r candidate with ⟨hsig, hu⟩ | ⟨_, e, hdec, hu⟩ | ⟨hsig, L, hdec, hcase⟩
  · rw [hu] at h
    cases h
    exact .inl ⟨rfl, fun L hL ↦ absurd (SignedAccountLog.verify_eq_ok_iff.mp hL).1 hsig⟩
  · rw [hu] at h
    cases h
    refine .inl ⟨rfl, fun L hL ↦ ?_⟩
    rw [(SignedAccountLog.verify_eq_ok_iff.mp hL).2] at hdec
    cases hdec
  · rcases hcase with ⟨hnew, hu⟩ | ⟨f, hf, hne, hu⟩
    · rw [hu] at h
      cases h
      exact .inr ⟨L, SignedAccountLog.verify_eq_ok_iff.mpr ⟨hsig, hdec⟩,
        (newer_iff_strictExtends _ _).mp hnew, rfl⟩
    · rw [hu] at h
      cases h
      refine .inl ⟨rfl, fun _ _ hext ↦ hne ?_⟩
      exact hf.symm.trans ((newer_iff_strictExtends _ _).mpr hext)

/-! ## What every record satisfies -/

/-- The record is about `addr`, holds a log `addr` signed, and that log's own decoding. -/
structure Holds (r : AccountRecord E) (addr : AccountAddr E) : Prop where
  addr_eq : r.addr = addr
  verifies : r.signedLog.verify addr = .ok r.parsedLog
  decodes : r.signedLog.payload.decode E = .ok r.parsedLog

theorem holds_of_new {addr : AccountAddr E} {signedLog : SignedAccountLog} {r : AccountRecord E}
    (h : new addr signedLog = .ok r) : r.signedLog = signedLog ∧ r.Holds addr := by
  rcases Result.bind_eq_ok.mp h with ⟨L, hL, h⟩
  cases h
  exact ⟨rfl, rfl, hL, (SignedAccountLog.verify_eq_ok_iff.mp hL).2⟩

theorem Holds.update {r : AccountRecord E} {addr : AccountAddr E} (hr : r.Holds addr)
    {candidate : SignedAccountLog} {u : AccountRecordUpdate E} (h : r.update candidate = .ok u) :
    u.record.Holds addr := by
  rcases record_of_update h with ⟨hkept, _⟩ | ⟨L, hver, _, hrecord⟩
  · rw [hkept]
    exact hr
  · have hdec := (SignedAccountLog.verify_eq_ok_iff.mp hver).2
    rw [hrecord]
    exact ⟨hr.addr_eq, hr.addr_eq ▸ hver, hdec⟩

/-- Updates never panic, and keep what a record satisfies. -/
theorem updateAll_holds {addr : AccountAddr E} (candidates : List SignedAccountLog) :
    ∀ {r : AccountRecord E}, r.Holds addr →
      ∃ r', r.updateAll candidates = .ok r' ∧ r'.Holds addr := by
  induction candidates with
  | nil => exact fun hr ↦ ⟨_, rfl, hr⟩
  | cons candidate rest ih =>
      intro r hr
      rcases update_spec r candidate with ⟨u, hu, -⟩
      rcases ih (hr.update hu) with ⟨r', hrest, hr'⟩
      exact ⟨r', by rw [updateAll, hu, Result.ok_bind, hrest], hr'⟩

/-- Whatever candidates a record is offered, it stays a verified record of its account, and each
update either keeps it whole or strictly extends its payload, and says which. -/
theorem updates_keep_record (E : Ed25519) (addr : AccountAddr E) (signedLog : SignedAccountLog)
    (r₀ : AccountRecord E) (hnew : new addr signedLog = .ok r₀)
    (candidates : List SignedAccountLog) :
    ∃ r, r₀.updateAll candidates = .ok r ∧ r.Holds addr ∧
      ∀ candidate, ∃ u, r.update candidate = .ok u ∧ UpdateSpec r candidate u := by
  rcases updateAll_holds candidates (holds_of_new hnew).2 with ⟨r, hr, hholds⟩
  exact ⟨r, hr, hholds, update_spec r⟩

/-- A record of an account that has published an empty log. -/
def sampleAddr : AccountAddr Ed25519.sample := ⟨Ed25519.sample.verifyingKey Ed25519.sampleKey⟩

def sampleSigned : EncodedAccountLog → SignedAccountLog :=
  SignedAccountLog.sign Ed25519.sample Ed25519.sampleKey

def sampleRecord : AccountRecord Ed25519.sample :=
  { addr := sampleAddr, signedLog := sampleSigned freshPayload, parsedLog := AccountLog.empty }

theorem sampleSigned_verify {p : EncodedAccountLog} {L : AccountLog Ed25519.sample}
    (h : p.decode Ed25519.sample = .ok L) : (sampleSigned p).verify sampleAddr = .ok L :=
  SignedAccountLog.verify_eq_ok_iff.mpr ⟨Ed25519.sample_verify_sign _ _, h⟩

theorem new_sampleRecord : new sampleAddr (sampleSigned freshPayload) = .ok sampleRecord := by
  rw [new, sampleSigned_verify (decode_freshPayload Ed25519.sample), Result.ok_bind]
  rfl

theorem updates_keep_sampleRecord :
    ∃ r, sampleRecord.updateAll [sampleSigned unknownEntryPayload] = .ok r ∧ r.Holds sampleAddr ∧
      ∀ candidate, ∃ u, r.update candidate = .ok u ∧ UpdateSpec r candidate u :=
  updates_keep_record Ed25519.sample sampleAddr (sampleSigned freshPayload) sampleRecord
    new_sampleRecord [sampleSigned unknownEntryPayload]

/-! ## A record is an append-only register -/

-- a candidate that verifies is offered to the register; the others never reach it
theorem update_payload {r : AccountRecord E} {candidate : SignedAccountLog} {L : AccountLog E}
    (hver : candidate.verify r.addr = .ok L) {u : AccountRecordUpdate E}
    (h : r.update candidate = .ok u) :
    u.record.signedLog.payload.bytes =
      adopt r.signedLog.payload.bytes candidate.payload.bytes := by
  unfold adopt
  rcases record_of_update h with ⟨hkept, hnot⟩ | ⟨L', _, hext, hrecord⟩
  · rw [if_neg (hnot L hver), hkept]
  · rw [if_pos hext, hrecord]

theorem updateAll_payload {addr : AccountAddr E} {candidates : List SignedAccountLog}
    {r r' : AccountRecord E} (hr : r.Holds addr)
    (hver : ∀ c ∈ candidates, ∃ L, c.verify addr = .ok L) (h : r.updateAll candidates = .ok r') :
    r'.signedLog.payload.bytes =
      (candidates.map (·.payload.bytes)).foldl adopt r.signedLog.payload.bytes := by
  induction candidates generalizing r with
  | nil =>
      cases h
      rfl
  | cons candidate rest ih =>
      rcases Result.bind_eq_ok.mp h with ⟨u, hu, hrest⟩
      rcases hver candidate (by simp) with ⟨L, hL⟩
      have hfirst := update_payload (hr.addr_eq ▸ hL) hu
      rw [ih (hr.update hu) (fun c hc ↦ hver c (by simp [hc])) hrest, hfirst]
      rfl

/-- Every record there is came out of `new` and updates. -/
def Built (r : AccountRecord E) : Prop :=
  ∃ signedLog r₀ seen, new r.addr signedLog = .ok r₀ ∧ r₀.updateAll seen = .ok r

theorem Built.holds {r : AccountRecord E} (h : r.Built) : r.Holds r.addr := by
  rcases h with ⟨signedLog, r₀, seen, hnew, hseen⟩
  rcases updateAll_holds seen (holds_of_new hnew).2 with ⟨r', hr', hholds⟩
  rw [hseen] at hr'
  cases hr'
  exact hholds

-- the payloads a record has been shown, its own first
def shown (r : AccountRecord E) (candidates : List SignedAccountLog) : List Bytes :=
  (r.signedLog :: candidates).map (·.payload.bytes)

theorem updateAll_isNewest {r : AccountRecord E} {addr : AccountAddr E} (hr : r.Holds addr)
    {candidates : List SignedAccountLog} (hver : ∀ c ∈ candidates, ∃ L, c.verify addr = .ok L)
    (hcomp : ∀ x ∈ r.shown candidates, ∀ y ∈ r.shown candidates, Comparable x y) :
    ∃ r', r.updateAll candidates = .ok r' ∧ r'.Holds addr ∧
      IsNewest (r.shown candidates) r'.signedLog.payload.bytes := by
  rcases updateAll_holds candidates hr with ⟨r', hr', hholds⟩
  refine ⟨r', hr', hholds, ?_⟩
  rw [updateAll_payload hr hver hr']
  exact foldl_adopt_isNewest hcomp

-- what was shown decides the payload, and the payload decides the parsed log
theorem eq_of_isNewest {addr : AccountAddr E} {r r' : AccountRecord E} {xs ys : List Bytes}
    (hr : r.Holds addr) (hr' : r'.Holds addr) (hx : IsNewest xs r.signedLog.payload.bytes)
    (hy : IsNewest ys r'.signedLog.payload.bytes) (hsame : ∀ z, z ∈ xs ↔ z ∈ ys) :
    r.signedLog.payload = r'.signedLog.payload ∧ r.parsedLog = r'.parsedLog := by
  have hpayload : r.signedLog.payload = r'.signedLog.payload :=
    EncodedAccountLog.ext (hx.unique hy hsame)
  have hdec := hr.decodes
  rw [hpayload, hr'.decodes] at hdec
  exact ⟨hpayload, (Result.ok.inj hdec).symm⟩

-- a replica that was shown the same payloads ends in the same place
theorem updateAll_agrees {addr : AccountAddr E} {final replica : AccountRecord E} {xs : List Bytes}
    (hfinal : final.Holds addr) (hnewest : IsNewest xs final.signedLog.payload.bytes)
    (hcomp : ∀ x ∈ xs, ∀ y ∈ xs, Comparable x y) (hreplica : replica.Holds addr)
    {seen : List SignedAccountLog} (hseen : ∀ c ∈ seen, ∃ L, c.verify addr = .ok L)
    (hsame : ∀ x, x ∈ replica.shown seen ↔ x ∈ xs) :
    ∃ r', replica.updateAll seen = .ok r' ∧ r'.signedLog.payload = final.signedLog.payload ∧
      r'.parsedLog = final.parsedLog := by
  have hcomp' : ∀ x ∈ replica.shown seen, ∀ y ∈ replica.shown seen, Comparable x y :=
    fun x hx y hy ↦ hcomp x ((hsame x).mp hx) y ((hsame y).mp hy)
  rcases updateAll_isNewest hreplica hseen hcomp' with ⟨r', hr', hholds', hnewest'⟩
  exact ⟨r', hr', eq_of_isNewest hholds' hfinal hnewest' hnewest hsame⟩

/-- Candidates of one history, applied in any order and any number of times, leave the payload and
the parsed log of the longest; so do those of any other replica that was shown the same payloads. -/
theorem updates_converge (E : Ed25519) (r : AccountRecord E) (hr : r.Built)
    (candidates : List SignedAccountLog)
    (hver : ∀ c ∈ candidates, ∃ L, c.verify r.addr = .ok L)
    (hcomp : ∀ x ∈ r.shown candidates, ∀ y ∈ r.shown candidates, Comparable x y) :
    ∃ newest ∈ r.signedLog :: candidates, ∃ L, newest.payload.decode E = .ok L ∧
      (∀ c ∈ r.signedLog :: candidates, c.payload.bytes <+: newest.payload.bytes) ∧
      (∀ order : List SignedAccountLog, (∀ c, c ∈ order ↔ c ∈ candidates) →
        ∃ r', r.updateAll order = .ok r' ∧ r'.signedLog.payload = newest.payload ∧
          r'.parsedLog = L) ∧
      ∀ (replica : AccountRecord E) (seen : List SignedAccountLog), replica.Built →
        replica.addr = r.addr → (∀ c ∈ seen, ∃ L, c.verify r.addr = .ok L) →
        (∀ x, x ∈ replica.shown seen ↔ x ∈ r.shown candidates) →
        ∃ r', replica.updateAll seen = .ok r' ∧ r'.signedLog.payload = newest.payload ∧
          r'.parsedLog = L := by
  rcases updateAll_isNewest hr.holds hver hcomp with ⟨final, hfinal, hholds, hnewest⟩
  have hmem : final.signedLog.payload.bytes ∈
      (r.signedLog :: candidates).map (·.payload.bytes) := hnewest.mem
  rcases List.mem_map.mp hmem with ⟨newest, hin, hbytes⟩
  have hpayload : newest.payload = final.signedLog.payload := EncodedAccountLog.ext hbytes
  have hagree (replica : AccountRecord E) (seen : List SignedAccountLog) (hb : replica.Built)
      (haddr : replica.addr = r.addr) (hseen : ∀ c ∈ seen, ∃ L, c.verify r.addr = .ok L)
      (hsame : ∀ x, x ∈ replica.shown seen ↔ x ∈ r.shown candidates) :
      ∃ r', replica.updateAll seen = .ok r' ∧ r'.signedLog.payload = newest.payload ∧
        r'.parsedLog = final.parsedLog := by
    rw [hpayload]
    exact updateAll_agrees hholds hnewest hcomp (haddr ▸ hb.holds) hseen hsame
  refine ⟨newest, hin, final.parsedLog, hpayload ▸ hholds.decodes, ?_, ?_, hagree⟩
  · intro c hc
    rw [hbytes]
    exact hnewest.extends_all _ (List.mem_map.mpr ⟨c, hc, rfl⟩)
  · intro order horder
    apply hagree r order hr rfl
    · intro c hc
      exact hver c ((horder c).mp hc)
    · intro x
      simp only [shown, List.mem_map, List.mem_cons, horder]

-- the empty log again, after the log that extends it
theorem updates_converge_sampleRecord :
    ∃ r', sampleRecord.updateAll [sampleSigned unknownEntryPayload, sampleSigned freshPayload] =
        .ok r' ∧ freshPayload.bytes <+: r'.signedLog.payload.bytes ∧
      unknownEntryPayload.bytes <+: r'.signedLog.payload.bytes := by
  have hbuilt : sampleRecord.Built := ⟨_, _, [], new_sampleRecord, rfl⟩
  have hver : ∀ c ∈ [sampleSigned unknownEntryPayload, sampleSigned freshPayload],
      ∃ L, c.verify sampleRecord.addr = .ok L := by
    intro c hc
    rcases List.mem_pair.mp hc with heq | heq
    · exact ⟨_, heq ▸ sampleSigned_verify decode_unknownEntryPayload⟩
    · exact ⟨_, heq ▸ sampleSigned_verify (decode_freshPayload Ed25519.sample)⟩
  rcases updates_converge Ed25519.sample sampleRecord hbuilt _ hver (by decide) with
    ⟨newest, _, L, _, hlongest, horder, _⟩
  rcases horder _ (fun _ ↦ Iff.rfl) with ⟨r', hr', hpayload, _⟩
  refine ⟨r', hr', ?_, ?_⟩
  · rw [hpayload]
    exact hlongest (sampleSigned freshPayload) (by simp)
  · rw [hpayload]
    exact hlongest (sampleSigned unknownEntryPayload) (by simp)

end AccountRecord

end LogosChat.Accounts
