import LogosChat.Crypto
import LogosChat.Reasoning.Base64
import LogosChat.Reasoning.Hex
import LogosChat.Reasoning.LittleEndian
import LogosChat.Reasoning.Run
import Mathlib.Logic.Function.Basic

/-!
# The registry of key packages

A client registers its key package with a store and retrieves those of others.  Writes go over the
store's HTTP API or over the delivery network, reads always over HTTP, and each request is retried while
the store sheds load.  The store is not trusted: what it returns is verified under the key it was asked
for.
-/

namespace LogosChat.Components

open Reasoning Crypto

inductive ContactRegistryError where
  | http (error : String)
  | server (status : Nat) (text : String)
  | decode (error : String)
  | clock
  | signatureInvalid
  | publish (error : String)
deriving DecidableEq

inductive RegistryPublishMode where
  | http
  | delivery
deriving DecidableEq

/-! ## What is sent -/

structure SubmitRequest where
  deviceId : String
  payload : String
  signature : String

/-- `KeyPackageSubmissionV1`, before prost encodes it. -/
structure KeyPackageSubmission where
  deviceId : Bytes
  payload : Bytes
  signature : Bytes

structure FetchResponse where
  payload : String
  signature : String

/-- A response; `json` is its body read as a `FetchResponse`. -/
structure StoreResponse where
  status : Nat
  text : String
  json : Except String FetchResponse

/-- `POST /v0/keypackage`, and `GET /v0/keypackage/{device_id}`. -/
inductive StoreRequest where
  | submit (body : SubmitRequest)
  | fetch (deviceId : String)

/-- What a registry reaches: the answer to each attempt of a request, and the delivery network. -/
structure RegistryNetwork (σ : Type) where
  send : StoreRequest → Nat → σ → Except String StoreResponse × σ
  publish : String → KeyPackageSubmission → σ → Except String Unit × σ

/-- The bytes that are both signed and transmitted. -/
def encodePayload (timestampMs : Nat) (keyPackage : Bytes) : Bytes := leBytes 8 timestampMs ++ keyPackage

def decodePayload (payload : Bytes) : Option (Nat × Bytes) :=
  if payload.length < 8 then none else some (leNat (payload.take 8), payload.drop 8)

theorem decodePayload_encodePayload (timestampMs : Nat) (keyPackage : Bytes) :
    decodePayload (encodePayload timestampMs keyPackage) = some (timestampMs % 256 ^ 8, keyPackage) := by
  have hlen : (leBytes 8 timestampMs).length = 8 := leBytes_length 8 timestampMs
  rw [decodePayload, encodePayload, if_neg (by rw [List.length_append]; omega),
    List.take_left' hlen, List.drop_left' hlen, leNat_leBytes]

theorem decodePayload_eq_some {payload keyPackage : Bytes} {timestampMs : Nat}
    (h : decodePayload payload = some (timestampMs, keyPackage)) :
    payload = encodePayload timestampMs keyPackage := by
  unfold decodePayload at h
  split at h
  case isTrue => cases h
  case isFalse hlen =>
    cases h
    have htake : (payload.take 8).length = 8 := by
      rw [List.length_take]
      omega
    rw [encodePayload, leBytes_leNat_of_length htake, List.take_append_drop]

/-! ## Requests -/

def maxRetries : Nat := 4

def isSuccess (status : Nat) : Bool := 200 ≤ status && status < 300

/-- 5xx, with which the store sheds load, or 429. -/
def isTransientStatus (status : Nat) : Bool := (500 ≤ status && status < 600) || status = 429

def isTransient : Except String StoreResponse → Bool
  | .error _ => true
  | .ok resp => isTransientStatus resp.status

section Requests

variable {σ : Type}

/-- `send_retrying` from `attempt` on, with `left` retries.  The delays between the attempts are not
modelled. -/
def sendRetrying (send : Nat → σ → Except String StoreResponse × σ) :
    Nat → Nat → σ → Except String StoreResponse × σ
  | 0, attempt, s => send attempt s
  | left + 1, attempt, s =>
      let outcome := send attempt s
      if isTransient outcome.1 then sendRetrying send left (attempt + 1) outcome.2 else outcome

variable (N : RegistryNetwork σ)

def httpPost (body : SubmitRequest) (s : σ) : Result ContactRegistryError Unit × σ :=
  match sendRetrying (N.send (.submit body)) maxRetries 0 s with
  | (.error e, s) => (.err (.http e), s)
  | (.ok resp, s) =>
      if isSuccess resp.status then (.ok (), s) else (.err (.server resp.status resp.text), s)

/-- A fetch response with its base64 fields decoded but not yet verified. -/
structure FetchedBundle where
  payload : Bytes
  signature : Ed25519Signature

-- the reasons that `BASE64.decode` and `hex::decode` give are left out
def decodeResponse (body : FetchResponse) : Result ContactRegistryError FetchedBundle :=
  match base64Decode body.payload with
  | none => .err (.decode "payload is not base64")
  | some payload =>
      match base64Decode body.signature with
      | none => .err (.decode "signature is not base64")
      | some signature =>
          match tryIntoArray 64 signature with
          | none => .err (.decode "signature not 64 bytes")
          | some signature => .ok ⟨payload, signature⟩

def httpFetch (deviceId : String) (s : σ) :
    Result ContactRegistryError (Option FetchedBundle) × σ :=
  match sendRetrying (N.send (.fetch deviceId)) maxRetries 0 s with
  | (.error e, s) => (.err (.http e), s)
  | (.ok resp, s) =>
      if resp.status = 404 then (.ok none, s)
      else if isSuccess resp.status then
        match resp.json with
        | .error e => (.err (.http e), s)
        | .ok body => (do let bundle ← decodeResponse body; .ok (some bundle), s)
      else (.err (.server resp.status resp.text), s)

end Requests

/-! ## The registry -/

section Registry

variable {σ : Type} (E : Ed25519) (N : RegistryNetwork σ)

def keypackageSubmitAddress : String := "store-keypackage-v0"

variable {E} in
/-- The id of a device: the hex of its verifying key. -/
def deviceId (key : E.SigningKey) : String := hexEncode (E.keyBytes (E.verifyingKey key)).toList

variable {E} in
def submission (key : E.SigningKey) (timestampMs : Nat) (keyBundle : Bytes) : SubmitRequest :=
  let payload := encodePayload timestampMs keyBundle
  { deviceId := deviceId key
    payload := base64Encode payload
    signature := base64Encode (E.sign key payload).toList }

variable {E} in
/-- `register`, when the clock shows `clock`; `none` is a time before the epoch. -/
def register (mode : RegistryPublishMode) (key : E.SigningKey) (clock : Option Nat) (keyBundle : Bytes)
    (s : σ) : Result ContactRegistryError Unit × σ :=
  match clock with
  | none => (.err .clock, s)
  | some millis =>
      -- `as u64`
      let timestampMs := millis % 2 ^ 64
      match mode with
      | .http => httpPost N (submission key timestampMs keyBundle) s
      | .delivery =>
          let payload := encodePayload timestampMs keyBundle
          let published := N.publish keypackageSubmitAddress
            { deviceId := (E.keyBytes (E.verifyingKey key)).toList
              payload := payload
              signature := (E.sign key payload).toList } s
          match published with
          | (.ok (), s) => (.ok (), s)
          | (.error e, s) => (.err (.publish e), s)

/-- Verify over the received payload, under the key that was asked for. -/
def openBundle (deviceId : String) (bundle : FetchedBundle) : Result ContactRegistryError Bytes :=
  match hexDecode deviceId with
  | none => .err (.decode "device_id is not hexadecimal")
  | some bytes =>
      match tryIntoArray 32 bytes with
      | none => .err (.decode "device_id not a 32-byte key")
      | some devicePubkey => do
          let verifyingKey ← (E.fromCanonicalBytes devicePubkey).mapErr fun _ ↦
            .decode "device_id not a valid ed25519 vk"
          (E.verify verifyingKey bundle.payload bundle.signature).mapErr fun _ ↦ .signatureInvalid
          match decodePayload bundle.payload with
          | none => .err (.decode "short payload")
          | some (_, keyPackage) => .ok keyPackage

def retrieve (deviceId : String) (s : σ) : Result ContactRegistryError (Option Bytes) × σ :=
  match httpFetch N deviceId s with
  | (.ok none, s) => (.ok none, s)
  | (.ok (some bundle), s) =>
      (do let keyPackage ← openBundle E deviceId bundle; .ok (some keyPackage), s)
  | (.err e, s) => (.err e, s)
  | (.panic, s) => (.panic, s)

end Registry

section Retrieve

variable {E : Ed25519} {σ : Type} {N : RegistryNetwork σ} {deviceId : String} {s : σ}

theorem retrieve_fst_of_some {bundle : FetchedBundle} (h : (httpFetch N deviceId s).1 = .ok (some bundle)) :
    (retrieve E N deviceId s).1 =
      (do let keyPackage ← openBundle E deviceId bundle; .ok (some keyPackage)) := by
  rw [retrieve]
  cases hfetch : httpFetch N deviceId s with
  | mk answer s' =>
      rw [hfetch] at h
      cases h
      rfl

end Retrieve

/-- `EphemeralRegistry`: the bundles by device. -/
abbrev EphemeralRegistry := String → Option Bytes

namespace EphemeralRegistry

def register (registry : EphemeralRegistry) (deviceId : String) (keyBundle : Bytes) : EphemeralRegistry :=
  Function.update registry deviceId (some keyBundle)

def retrieve (registry : EphemeralRegistry) (deviceId : String) : Option Bytes := registry deviceId

end EphemeralRegistry

/-! ## Whatever the store answers -/

theorem openBundle_eq_ok {E : Ed25519} {deviceId : String} {bundle : FetchedBundle} {keyPackage : Bytes}
    (h : openBundle E deviceId bundle = .ok keyPackage) :
    ∃ (key : KeyBytes) (verifyingKey : E.VerifyingKey) (timestampMs : Nat),
      hexDecode deviceId = some key.toList ∧ E.parseKey key = .ok verifyingKey ∧
      bundle.payload = encodePayload timestampMs keyPackage ∧
      E.verifyStrict verifyingKey bundle.payload bundle.signature = true := by
  unfold openBundle at h
  split at h
  case h_1 => cases h
  case h_2 bytes hbytes =>
    split at h
    case h_1 => cases h
    case h_2 key hkey =>
      obtain ⟨verifyingKey, hparse, h⟩ := Result.bind_eq_ok.mp h
      obtain ⟨_, hverify, h⟩ := Result.bind_eq_ok.mp h
      rw [Result.mapErr_eq_ok] at hparse hverify
      split at h
      case h_1 => cases h
      case h_2 timestampMs other hpayload =>
        cases h
        refine ⟨key, verifyingKey, timestampMs, ?_, Ed25519.fromCanonicalBytes_eq_ok_iff.mp hparse,
          decodePayload_eq_some hpayload, ?_⟩
        · rw [tryIntoArray_eq_some_iff.mp hkey]
          exact hbytes
        · unfold Ed25519.verify at hverify
          split at hverify
          case isTrue hstrict => exact hstrict
          case isFalse => cases hverify

/-- A bundle that is retrieved for a device, from any store over any network, was signed with the key
that names the device. -/
theorem retrieved_bundle_is_signed {σ : Type} (E : Ed25519) (N : RegistryNetwork σ) (deviceId : String)
    (s : σ) (keyPackage : Bytes) (h : (retrieve E N deviceId s).1 = .ok (some keyPackage)) :
    ∃ (key : KeyBytes) (verifyingKey : E.VerifyingKey) (timestampMs : Nat) (signature : Ed25519Signature),
      hexDecode deviceId = some key.toList ∧ E.parseKey key = .ok verifyingKey ∧
      E.verifyStrict verifyingKey (encodePayload timestampMs keyPackage) signature = true := by
  unfold retrieve at h
  split at h
  case h_1 => cases h
  case h_2 bundle s' _ =>
    obtain ⟨other, hopen, hsome⟩ := Result.bind_eq_ok.mp h
    cases hsome
    obtain ⟨key, verifyingKey, timestampMs, hdevice, hparse, hpayload, hverify⟩ := openBundle_eq_ok hopen
    rw [hpayload] at hverify
    exact ⟨key, verifyingKey, timestampMs, bundle.signature, hdevice, hparse, hverify⟩
  case h_3 => cases h
  case h_4 => cases h

/-- A network whose store answers every request with one submission of the sample key. -/
def oneBundle : RegistryNetwork Unit where
  send _ _ s :=
    let body := @submission Ed25519.sampleCurve Ed25519.sampleKey 5 [1, 2, 3]
    (.ok ⟨200, "", .ok ⟨body.payload, body.signature⟩⟩, s)
  publish _ _ s := (.ok (), s)

/-! ## What is assumed of the store -/

/-- The submissions a store would serve, by device. -/
abbrev HeldPackages := String → Option FetchResponse

/-- A submission as it is served. -/
def SubmitRequest.served (body : SubmitRequest) : FetchResponse := ⟨body.payload, body.signature⟩

def HeldPackages.take (held : HeldPackages) (body : SubmitRequest) : HeldPackages :=
  Function.update held body.deviceId (some body.served)

section ServesLatest

variable {E : Ed25519} {σ : Type} {N : RegistryNetwork σ} {held : σ → HeldPackages}

end ServesLatest

/-! ## The registry of the tests stands for both -/

section Refinement

variable {E : Ed25519}

/-- For every device a submission is held of the bundle that the map has for it. -/
def Files (E : Ed25519) (held : HeldPackages) (registry : EphemeralRegistry) : Prop :=
  ∀ device,
    (registry device = none ∧ held device = none) ∨
    ∃ (key : E.SigningKey) (timestampMs : Nat) (keyBundle : Bytes), device = deviceId key ∧
      registry device = some keyBundle ∧ held device = some (submission key timestampMs keyBundle).served

theorem Files.take {held : HeldPackages} {registry : EphemeralRegistry} (h : Files E held registry)
    (key : E.SigningKey) (timestampMs : Nat) (keyBundle : Bytes) :
    Files E (held.take (submission key timestampMs keyBundle))
      (registry.register (deviceId key) keyBundle) := by
  intro device
  by_cases hdevice : device = deviceId key
  · subst hdevice
    refine .inr ⟨key, timestampMs, keyBundle, rfl, ?_, ?_⟩
    · exact Function.update_self _ _ _
    · exact Function.update_self _ _ _
  · have hregistry : registry.register (deviceId key) keyBundle device = registry device :=
      Function.update_of_ne hdevice _ _
    have hheld : held.take (submission key timestampMs keyBundle) device = held device :=
      Function.update_of_ne hdevice _ _
    rw [hregistry, hheld]
    exact h device

/-- What a device submitted is opened under its id. -/
theorem openBundle_submission (hE : E.VerifiesOwn) (hreads : E.ReadsBack) (key : E.SigningKey)
    (timestampMs : Nat) (keyBundle : Bytes) :
    (do
      let bundle ← decodeResponse (submission key timestampMs keyBundle).served
      openBundle E (deviceId key) bundle) = .ok keyBundle := by
  have hdecode : decodeResponse (submission key timestampMs keyBundle).served =
      .ok ⟨encodePayload timestampMs keyBundle, E.sign key (encodePayload timestampMs keyBundle)⟩ := by
    unfold decodeResponse submission SubmitRequest.served
    simp only [base64Decode_base64Encode, tryIntoArray_toList]
  rw [hdecode, Result.ok_bind, openBundle, deviceId, hexDecode_hexEncode]
  have hkey : E.fromCanonicalBytes (E.keyBytes (E.verifyingKey key)) = .ok (E.verifyingKey key) :=
    Ed25519.fromCanonicalBytes_eq_ok_iff.mpr (hreads _)
  have hverify : E.verify (E.verifyingKey key) (encodePayload timestampMs keyBundle)
      (E.sign key (encodePayload timestampMs keyBundle)) = .ok () := if_pos (hE key _)
  simp only [tryIntoArray_toList, hkey, hverify, Result.mapErr, Result.ok_bind,
    decodePayload_encodePayload]

/-- Whoever fetches it gets the bundle. -/
theorem retrieve_submission (hE : E.VerifiesOwn) (hreads : E.ReadsBack) {σ : Type}
    {N : RegistryNetwork σ} {key : E.SigningKey} {timestampMs : Nat} {keyBundle : Bytes} {s : σ}
    (h : (httpFetch N (deviceId key) s).1 = (do
      let bundle ← decodeResponse (submission key timestampMs keyBundle).served
      .ok (some bundle))) :
    (retrieve E N (deviceId key) s).1 = .ok (some keyBundle) := by
  have hopen := openBundle_submission hE hreads key timestampMs keyBundle
  obtain ⟨bundle, hdecode, hopen⟩ := Result.bind_eq_ok.mp hopen
  rw [hdecode, Result.ok_bind] at h
  rw [retrieve_fst_of_some h, hopen]
  rfl

theorem retrieved_bundle_is_signed_sample :
    ∃ (key : KeyBytes) (verifyingKey : KeyBytes) (timestampMs : Nat) (signature : Ed25519Signature),
      hexDecode (@deviceId Ed25519.sampleCurve Ed25519.sampleKey) = some key.toList ∧
      Ed25519.sampleCurve.parseKey key = .ok verifyingKey ∧
      Ed25519.sampleCurve.verifyStrict verifyingKey (encodePayload timestampMs [1, 2, 3]) signature =
        true := by
  exact retrieved_bundle_is_signed Ed25519.sampleCurve oneBundle _ () [1, 2, 3]
    (retrieve_submission Ed25519.sampleCurve_verifiesOwn Ed25519.sampleCurve_readsBack rfl)

/-- A call on the registry, by any device. -/
inductive RegistryCall (E : Ed25519) where
  | register (mode : RegistryPublishMode) (key : E.SigningKey) (clock : Option Nat) (keyBundle : Bytes)
  | retrieve (deviceId : String)

/-- A call that was made: a registration with whether the store acknowledged it, which it never does over
the delivery network, or a retrieve with its answer. -/
inductive RegistryEvent (E : Ed25519) where
  | registered (key : E.SigningKey) (keyBundle : Bytes) (acknowledged : Bool)
  | retrieved (deviceId : String) (answer : Result ContactRegistryError (Option Bytes))

/-- The log is one of the registry of the tests, which holds `registry` after it, but for registrations
that were not acknowledged and are missing from it, and for retrieves that the network or the store
failed. -/
inductive Explains : List (RegistryEvent E) → EphemeralRegistry → Prop where
  | start : Explains [] fun _ ↦ none
  | took {log registry} (key : E.SigningKey) (keyBundle : Bytes) (acknowledged : Bool) :
      Explains log registry →
        Explains (log ++ [.registered key keyBundle acknowledged])
          (registry.register (deviceId key) keyBundle)
  | missed {log registry} (key : E.SigningKey) (keyBundle : Bytes) :
      Explains log registry → Explains (log ++ [.registered key keyBundle false]) registry
  | answered {log registry} (deviceId : String) :
      Explains log registry →
        Explains (log ++ [.retrieved deviceId (.ok (registry.retrieve deviceId))]) registry
  | unreachable {log registry} (deviceId error : String) :
      Explains log registry → Explains (log ++ [.retrieved deviceId (.err (.http error))]) registry
  | refused {log registry} (deviceId : String) (status : Nat) (text : String) :
      Explains log registry →
        Explains (log ++ [.retrieved deviceId (.err (.server status text))]) registry

/-- The calls so far, and the state of the network with the store behind it. -/
structure RegistryWorld (E : Ed25519) (σ : Type) where
  log : List (RegistryEvent E)
  state : σ

namespace RegistryWorld

variable {σ : Type} {N : RegistryNetwork σ} {held : σ → HeldPackages}

def step (N : RegistryNetwork σ) (w : RegistryWorld E σ) : RegistryCall E → RegistryWorld E σ
  | .register mode key clock keyBundle =>
      let outcome := register N mode key clock keyBundle w.state
      ⟨w.log ++ [.registered key keyBundle (mode = .http && outcome.1.isOk)], outcome.2⟩
  | .retrieve deviceId =>
      let outcome := retrieve E N deviceId w.state
      ⟨w.log ++ [.retrieved deviceId outcome.1], outcome.2⟩

/-- The log is explained by a map whose bundles are the ones held. -/
def Accounted (held : σ → HeldPackages) (w : RegistryWorld E σ) : Prop :=
  ∃ registry, Explains w.log registry ∧ Files E (held w.state) registry

namespace Sample

/-- Whether each of the next answers arrives, and what is held. -/
structure Store where
  arrives : List Bool
  held : HeldPackages

/-- What the store would answer. -/
def Store.handle (s : Store) : StoreRequest → StoreResponse × HeldPackages
  | .submit body => (⟨200, "", .error "no body"⟩, s.held.take body)
  | .fetch deviceId =>
      match s.held deviceId with
      | none => (⟨404, "", .error "no body"⟩, s.held)
      | some body => (⟨200, "", .ok body⟩, s.held)

/-- The answers to the first attempt of one registration and to all of another are lost. -/
def start : Store := ⟨[false, true, false, false, false, false, false], fun _ ↦ none⟩

def calls : List (RegistryCall Ed25519.sampleCurve) :=
  [.register .http Ed25519.sampleKey (some 1000) [1, 2, 3],
    .register .http Ed25519.sampleKey (some 2000) [4],
    .retrieve (@deviceId Ed25519.sampleCurve Ed25519.sampleKey)]

end Sample

end RegistryWorld

end Refinement

end LogosChat.Components
