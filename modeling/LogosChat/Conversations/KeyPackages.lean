import LogosChat.Conversations.Services

/-!
# Key packages

Whoever is invited is named by a signer key, and the registry answers with any bytes it likes.  Each
group kind has its own way from those bytes to a package it hands to MLS; all three check that the
package is bound to the signer that was asked for and that the auth service finds its claim valid.
-/

namespace LogosChat.Conversations

open Reasoning

-- a 1184-byte ML-KEM-768 key and a 32-byte X25519 key
def hpkePublicKeyLen : Nat := 1184 + 32

/-- Rejects an HPKE public key of the wrong length, which `KeyPackageIn::validate` lets through. -/
def checkHpkePublicKey (key : Bytes) : Result ChatError Unit :=
  if key.length ≠ hpkePublicKeyLen then
    .err (.badBundleValue ("HPKE public key is " ++ toString key.length ++ " bytes, expected " ++
      toString hpkePublicKeyLen))
  else .ok ()

section Pipelines

variable (P : Platform)

/-- What GroupV1 and GroupV2 ask of the bytes they were given for `signer`. -/
def vetPackage (mismatch : SignerKey → Bytes → ChatError) (auth : AuthService) (signer : SignerKey)
    (bytes : Bytes) : Result ChatError KeyPackage := do
  let unchecked ← orErr .tlsCodec (P.mls.tlsDeserialize bytes)
  let keyPackage ← orErr .keyPackageVerify (P.mls.validate unchecked)
  checkHpkePublicKey keyPackage.hpkeInitKey
  if keyPackage.leafNode.signatureKey ≠ signer.bytes then
    .err (mismatch signer keyPackage.leafNode.signatureKey)
  else
    match keyPackage.signer.requireValid auth with
    | none => .err (.badBundleValue "invalid credential")
    | some _ => .ok keyPackage

/-- Asks the registry for the package of `signer`. -/
def retrievePackage {β : Type} (missing : SignerKey → ChatError)
    (vet : AuthService → SignerKey → Bytes → Result ChatError β) (signer : SignerKey) :
    Call (ServiceContext P) ChatError β := do
  let retrieved ← (ServiceContext.retrieve signer.toHex).mapErr .generic
  match retrieved with
  | none => Call.fail (missing signer)
  | some bytes =>
      let auth ← Call.read (·.auth)
      Call.ofResult (vet auth signer bytes)

/-! ## GroupV1 -/

namespace GroupV1

def missing (signer : SignerKey) : ChatError :=
  .protocol ("no keypackage for signer " ++ signer.toHex)

def vet : AuthService → SignerKey → Bytes → Result ChatError KeyPackage :=
  vetPackage P fun signer leafKey ↦
    .protocol ("keypackage for signer " ++ signer.toHex ++ " is bound to a different signing key (" ++
      hexEncode leafKey ++ ")")

/-- Fetch a signer's key package from the registry. -/
def keyPackageForSigner : SignerKey → Call (ServiceContext P) ChatError KeyPackage :=
  retrievePackage P missing (vet P)

end GroupV1

/-! ## GroupV2 -/

def noKeyPackage (_ : SignerKey) : ChatError := .generic "No key package"

/-- A member to add: the two ids read off the leaf, and the bytes de-mls is given. -/
structure FetchedMember where
  signatureKey : Bytes
  credential : Bytes
  keyPackage : Bytes
deriving DecidableEq

namespace GroupV2

def vet (auth : AuthService) (signer : SignerKey) (bytes : Bytes) :
    Result ChatError FetchedMember := do
  let validated ← vetPackage P (fun signer leafKey ↦
    .generic ("key package for " ++ signer.toHex ++ " is bound to a different signing key (" ++
      hexEncode leafKey ++ ")")) auth signer bytes
  .ok { signatureKey := validated.leafNode.signatureKey
        credential := validated.leafNode.credential.serializedContent
        keyPackage := bytes }

/-- Fetch each signer's key package, deduped. -/
def fetchKeyPackages (signers : List SignerKey) :
    Call (ServiceContext P) ChatError (List FetchedMember) :=
  Call.collect (retrievePackage P noKeyPackage (vet P)) (keepNew [] signers)

end GroupV2

/-! ## GroupV3 -/

/-- `mls_utils::unique`. -/
def unique (signers : List SignerKey) : List SignerKey := keepNew [] signers

/-- `mls_utils::member_diff`. -/
def memberDiff (new : List SignerKey) (existing : List Signer) : List SignerKey :=
  new.filter fun s ↦ s ∉ existing.map (·.signer)

namespace GroupV3

/-- Ensure that the package meets all the requirements.  The length of its HPKE key is not one. -/
def validateKeypackage (auth : AuthService) (expected : SignerKey) (bytes : Bytes) :
    Result KeyPackageError KeyPackage := do
  let unchecked ← orErr .decode (P.mls.tlsDeserializeExact bytes)
  let keyPackage ← orErr .mlsVerify (P.mls.validate unchecked)
  let reported ← orErr .typeConvert (Signer.fromLeafNode keyPackage.leafNode)
  if expected ≠ reported.signer then
    .err (.wrongPackage expected keyPackage.leafNode.signatureKey)
  else
    match reported.authStatus auth with
    | .valid => .ok keyPackage
    | status => .err (.authFailed reported status)

def vet (auth : AuthService) (signer : SignerKey) (bytes : Bytes) : Result ChatError KeyPackage :=
  (validateKeypackage P auth signer bytes).mapErr .keyPackage

/-- Fetch each signer's key package, deduped. -/
def fetchKeyPackages (signers : List SignerKey) :
    Call (ServiceContext P) ChatError (List KeyPackage) :=
  Call.collect (retrievePackage P noKeyPackage (vet P)) (keepNew [] signers)

end GroupV3

end Pipelines

/-! ## What a fetch does -/

section Fetch

variable {P : Platform} {β : Type} {missing : SignerKey → ChatError}
  {vet : AuthService → SignerKey → Bytes → Result ChatError β}

/-- What the registry and the auth service make of a signer, through one of the pipelines. -/
def admitted (missing : SignerKey → ChatError)
    (vet : AuthService → SignerKey → Bytes → Result ChatError β) (cx : ServiceContext P)
    (signer : SignerKey) : Result ChatError β :=
  match cx.registry.retrieve signer.toHex with
  | .error e => .err (.generic e)
  | .ok none => .err (missing signer)
  | .ok (some bytes) => vet cx.auth signer bytes

/-- The context after the registry was asked for these signers. -/
def ServiceContext.askedFor (cx : ServiceContext P) (signers : List SignerKey) : ServiceContext P :=
  { cx with registry := { cx.registry with
      asked := cx.registry.asked ++ signers.map SignerKey.toHex } }

@[simp] theorem ServiceContext.askedFor_nil (cx : ServiceContext P) : cx.askedFor [] = cx := by
  simp [askedFor]

@[simp] theorem ServiceContext.askedFor_askedFor (cx : ServiceContext P) (xs ys : List SignerKey) :
    (cx.askedFor xs).askedFor ys = cx.askedFor (xs ++ ys) := by
  simp [askedFor]

@[simp] theorem admitted_askedFor (cx : ServiceContext P) (xs : List SignerKey) (signer : SignerKey) :
    admitted missing vet (cx.askedFor xs) signer = admitted missing vet cx signer := rfl

theorem retrievePackage_eq (cx : ServiceContext P) (signer : SignerKey) :
    retrievePackage P missing vet signer cx = (admitted missing vet cx signer, cx.askedFor [signer]) := by
  show (Call.mapErr ChatError.generic (ServiceContext.retrieve signer.toHex) >>= _) cx = _
  unfold admitted
  cases hretrieve : cx.registry.retrieve signer.toHex with
  | error e =>
      refine Call.bind_of_err ?_
      rw [Call.mapErr, ServiceContext.retrieve, hretrieve]
      rfl
  | ok retrieved =>
      have hfirst : Call.mapErr ChatError.generic (ServiceContext.retrieve signer.toHex) cx =
          (.ok retrieved, cx.askedFor [signer]) := by
        rw [Call.mapErr, ServiceContext.retrieve, hretrieve]
        rfl
      rw [Call.bind_of_ok hfirst]
      cases retrieved <;> rfl

theorem admitted_ne_panic (hvet : ∀ auth signer bytes, vet auth signer bytes ≠ .panic)
    (cx : ServiceContext P) (signer : SignerKey) : admitted missing vet cx signer ≠ .panic := by
  unfold admitted
  split
  · nofun
  · nofun
  · exact hvet _ _ _

/-- A fetch asks for the signers in order until one is not admitted; it succeeds when all are. -/
theorem collect_retrievePackage (hvet : ∀ auth signer bytes, vet auth signer bytes ≠ .panic)
    (signers : List SignerKey) (cx : ServiceContext P) :
    (∃ members, List.Forall₂ (fun signer m ↦ admitted missing vet cx signer = .ok m) signers members ∧
      Call.collect (retrievePackage P missing vet) signers cx = (.ok members, cx.askedFor signers)) ∨
    ∃ before signer after e, signers = before ++ signer :: after ∧
      admitted missing vet cx signer = .err e ∧
      Call.collect (retrievePackage P missing vet) signers cx =
        (.err e, cx.askedFor (before ++ [signer])) := by
  induction signers generalizing cx with
  | nil => exact .inl ⟨[], .nil, by simp [Call.collect]⟩
  | cons signer signers ih =>
      have hfirst : retrievePackage P missing vet signer cx = _ := retrievePackage_eq cx signer
      cases hadmitted : admitted missing vet cx signer with
      | ok m =>
          rw [hadmitted] at hfirst
          have hrest := ih (cx.askedFor [signer])
          simp only [admitted_askedFor, ServiceContext.askedFor_askedFor] at hrest
          obtain ⟨members, hall, hok⟩ | ⟨before, bad, after, e, hsplit, hbad, herr⟩ := hrest
          · apply Or.inl
            refine ⟨m :: members, .cons hadmitted hall, ?_⟩
            rw [Call.collect, Call.bind_of_ok hfirst, Call.bind_of_ok hok]
            rfl
          · apply Or.inr
            refine ⟨signer :: before, bad, after, e, by rw [hsplit]; rfl, hbad, ?_⟩
            rw [Call.collect, Call.bind_of_ok hfirst, Call.bind_of_err herr]
            rfl
      | err e =>
          rw [hadmitted] at hfirst
          apply Or.inr
          refine ⟨[], signer, signers, e, rfl, hadmitted, ?_⟩
          rw [Call.collect, Call.bind_of_err hfirst]
          rfl
      | panic => exact absurd hadmitted (admitted_ne_panic hvet cx signer)

theorem collect_retrievePackage_eq_ok_iff (hvet : ∀ auth signer bytes, vet auth signer bytes ≠ .panic)
    {signers : List SignerKey} {cx : ServiceContext P} {members : List β} :
    (Call.collect (retrievePackage P missing vet) signers cx).1 = .ok members ↔
      List.Forall₂ (fun signer m ↦ admitted missing vet cx signer = .ok m) signers members := by
  obtain ⟨fetched, hall, hfetch⟩ | ⟨before, signer, after, e, hsplit, hadmitted, hfetch⟩ :=
    collect_retrievePackage hvet signers cx
  · rw [hfetch]
    constructor
    · intro h
      cases h
      exact hall
    · intro h
      have hsame : fetched = members := by
        refine List.right_unique_forall₂' (fun signer m m' hm hm' ↦ ?_) hall h
        exact Result.ok.inj (hm.symm.trans hm')
      rw [hsame]
  · rw [hfetch]
    refine iff_of_false nofun fun h ↦ ?_
    obtain ⟨m, -, hm⟩ := Call.exists_of_mem_left h (hsplit ▸ List.mem_append_right _ List.mem_cons_self)
    rw [hadmitted] at hm
    cases hm

end Fetch

/-! ## What an admitted package is -/

section Vetted

variable {P : Platform}

/-- The registry gives out these bytes for `signer`, and openmls reads a package in them that is bound
to the signer and whose claim the auth service finds valid. -/
structure Vetted (parse : Bytes → Except String P.mls.KeyPackageIn) (cx : ServiceContext P)
    (signer : SignerKey) (bytes : Bytes) (keyPackage : KeyPackage) : Prop where
  retrieved : cx.registry.retrieve signer.toHex = .ok (some bytes)
  decoded : ∃ unchecked, parse bytes = .ok unchecked ∧ P.mls.validate unchecked = .ok keyPackage
  bound : keyPackage.leafNode.signatureKey = signer.bytes
  valid : keyPackage.signer.authStatus cx.auth = .valid

theorem Vetted.unique {parse : Bytes → Except String P.mls.KeyPackageIn} {cx : ServiceContext P}
    {signer : SignerKey} {bytes bytes' : Bytes} {keyPackage keyPackage' : KeyPackage}
    (h : Vetted parse cx signer bytes keyPackage) (h' : Vetted parse cx signer bytes' keyPackage') :
    keyPackage = keyPackage' := by
  have hbytes := h.retrieved.symm.trans h'.retrieved
  cases hbytes
  obtain ⟨unchecked, hparse, hvalidate⟩ := h.decoded
  obtain ⟨unchecked', hparse', hvalidate'⟩ := h'.decoded
  have hunchecked := hparse.symm.trans hparse'
  cases hunchecked
  have hsame := hvalidate.symm.trans hvalidate'
  cases hsame
  rfl

theorem checkHpkePublicKey_eq_ok {key : Bytes} :
    checkHpkePublicKey key = .ok () ↔ key.length = hpkePublicKeyLen := by
  unfold checkHpkePublicKey
  by_cases h : key.length = hpkePublicKeyLen <;> simp [h]

theorem vetPackage_eq_ok {mismatch : SignerKey → Bytes → ChatError} {auth : AuthService}
    {signer : SignerKey} {bytes : Bytes} {keyPackage : KeyPackage} :
    vetPackage P mismatch auth signer bytes = .ok keyPackage ↔
      (∃ unchecked, P.mls.tlsDeserialize bytes = .ok unchecked ∧
        P.mls.validate unchecked = .ok keyPackage) ∧
      keyPackage.hpkeInitKey.length = hpkePublicKeyLen ∧
      keyPackage.leafNode.signatureKey = signer.bytes ∧
      keyPackage.signer.authStatus auth = .valid := by
  constructor
  · intro h
    obtain ⟨unchecked, hparse, h⟩ := Result.bind_eq_ok.mp h
    obtain ⟨kp, hvalidate, h⟩ := Result.bind_eq_ok.mp h
    obtain ⟨_, hlength, h⟩ := Result.bind_eq_ok.mp h
    by_cases hbound : kp.leafNode.signatureKey = signer.bytes
    · rw [if_neg (not_not.mpr hbound)] at h
      by_cases hvalid : kp.signer.authStatus auth = .valid
      · rw [Signer.requireValid_of_valid hvalid] at h
        cases h
        exact ⟨⟨unchecked, orErr_eq_ok.mp hparse, orErr_eq_ok.mp hvalidate⟩,
          checkHpkePublicKey_eq_ok.mp hlength, hbound, hvalid⟩
      · rw [Signer.requireValid_of_not_valid hvalid] at h
        cases h
    · rw [if_pos hbound] at h
      cases h
  · intro ⟨⟨unchecked, hparse, hvalidate⟩, hlength, hbound, hvalid⟩
    unfold vetPackage
    rw [hparse, orErr, Result.ok_bind, hvalidate, orErr, Result.ok_bind,
      checkHpkePublicKey_eq_ok.mpr hlength, Result.ok_bind, if_neg (not_not.mpr hbound),
      Signer.requireValid_of_valid hvalid]

theorem orErr_failsIn {ε ε' α : Type} {g : ε → ε'} (x : Except ε α) :
    (orErr g x).FailsIn fun _ ↦ True := by
  cases x <;> trivial

theorem vetPackage_failsIn (mismatch : SignerKey → Bytes → ChatError) (auth : AuthService)
    (signer : SignerKey) (bytes : Bytes) :
    (vetPackage P mismatch auth signer bytes).FailsIn fun _ ↦ True := by
  apply (orErr_failsIn _).bind
  intro unchecked _
  apply (orErr_failsIn _).bind
  intro keyPackage _
  apply Result.FailsIn.bind
  · unfold checkHpkePublicKey
    split <;> trivial
  · intro _ _
    split
    · trivial
    · split <;> trivial

theorem validateKeypackage_eq_ok {auth : AuthService} {signer : SignerKey} {bytes : Bytes}
    {keyPackage : KeyPackage} (h : GroupV3.validateKeypackage P auth signer bytes = .ok keyPackage) :
    (∃ unchecked, P.mls.tlsDeserializeExact bytes = .ok unchecked ∧
      P.mls.validate unchecked = .ok keyPackage) ∧
    keyPackage.leafNode.signatureKey = signer.bytes ∧
    keyPackage.signer.authStatus auth = .valid := by
  obtain ⟨unchecked, hparse, h⟩ := Result.bind_eq_ok.mp h
  obtain ⟨kp, hvalidate, h⟩ := Result.bind_eq_ok.mp h
  obtain ⟨reported, hreported, h⟩ := Result.bind_eq_ok.mp h
  have hclaim : reported = kp.signer := Signer.fromLeafNode_eq_ok (orErr_eq_ok.mp hreported)
  by_cases hbound : signer = reported.signer
  · rw [if_neg (not_not.mpr hbound)] at h
    cases hstatus : reported.authStatus auth with
    | valid =>
        rw [hstatus] at h
        cases h
        refine ⟨⟨unchecked, orErr_eq_ok.mp hparse, orErr_eq_ok.mp hvalidate⟩, ?_, ?_⟩
        · rw [hbound, hclaim]
          rfl
        · rw [← hclaim, hstatus]
    | revoked => rw [hstatus] at h; cases h
    | invalid => rw [hstatus] at h; cases h
    | unknown => rw [hstatus] at h; cases h
  · rw [if_pos hbound] at h
    cases h

theorem validateKeypackage_failsIn (auth : AuthService) (signer : SignerKey) (bytes : Bytes) :
    (GroupV3.validateKeypackage P auth signer bytes).FailsIn fun _ ↦ True := by
  apply (orErr_failsIn _).bind
  intro unchecked _
  apply (orErr_failsIn _).bind
  intro keyPackage _
  apply (orErr_failsIn _).bind
  intro reported _
  split
  · trivial
  · split <;> trivial

/-! ### The three pipelines -/

variable {cx : ServiceContext P} {signer : SignerKey}

/-- What a pipeline admits was looked up and passed its checks. -/
theorem admitted_eq_ok {β : Type} {missing : SignerKey → ChatError}
    {vet : AuthService → SignerKey → Bytes → Result ChatError β} {m : β} :
    admitted missing vet cx signer = .ok m ↔
      ∃ bytes, cx.registry.retrieve signer.toHex = .ok (some bytes) ∧ vet cx.auth signer bytes = .ok m := by
  unfold admitted
  cases cx.registry.retrieve signer.toHex with
  | error e => simp
  | ok retrieved => cases retrieved <;> simp

theorem GroupV1.vetted {keyPackage : KeyPackage}
    (h : admitted GroupV1.missing (GroupV1.vet P) cx signer = .ok keyPackage) :
    (∃ bytes, Vetted P.mls.tlsDeserialize cx signer bytes keyPackage) ∧
      keyPackage.hpkeInitKey.length = hpkePublicKeyLen := by
  obtain ⟨bytes, hretrieve, hvet⟩ := admitted_eq_ok.mp h
  obtain ⟨hdecoded, hlength, hbound, hvalid⟩ := vetPackage_eq_ok.mp hvet
  exact ⟨⟨bytes, hretrieve, hdecoded, hbound, hvalid⟩, hlength⟩

theorem GroupV2.vetted {m : FetchedMember}
    (h : admitted noKeyPackage (GroupV2.vet P) cx signer = .ok m) :
    ∃ keyPackage, Vetted P.mls.tlsDeserialize cx signer m.keyPackage keyPackage ∧
      keyPackage.signer = .fromLeaf m.signatureKey m.credential ∧ m.signatureKey = signer.bytes ∧
      keyPackage.hpkeInitKey.length = hpkePublicKeyLen := by
  obtain ⟨bytes, hretrieve, hvet⟩ := admitted_eq_ok.mp h
  obtain ⟨keyPackage, hvet, hm⟩ := Result.bind_eq_ok.mp hvet
  obtain ⟨hdecoded, hlength, hbound, hvalid⟩ := vetPackage_eq_ok.mp hvet
  cases hm
  exact ⟨keyPackage, ⟨hretrieve, hdecoded, hbound, hvalid⟩, rfl, hbound, hlength⟩

theorem GroupV3.vetted {keyPackage : KeyPackage}
    (h : admitted noKeyPackage (GroupV3.vet P) cx signer = .ok keyPackage) :
    ∃ bytes, Vetted P.mls.tlsDeserializeExact cx signer bytes keyPackage := by
  obtain ⟨bytes, hretrieve, hvet⟩ := admitted_eq_ok.mp h
  obtain ⟨hdecoded, hbound, hvalid⟩ := validateKeypackage_eq_ok (Result.mapErr_eq_ok.mp hvet)
  exact ⟨bytes, hretrieve, hdecoded, hbound, hvalid⟩

theorem GroupV1.vet_ne_panic (auth : AuthService) (signer : SignerKey) (bytes : Bytes) :
    GroupV1.vet P auth signer bytes ≠ .panic :=
  (vetPackage_failsIn _ auth signer bytes).ne_panic

theorem GroupV2.vet_ne_panic (auth : AuthService) (signer : SignerKey) (bytes : Bytes) :
    GroupV2.vet P auth signer bytes ≠ .panic := by
  apply Result.FailsIn.ne_panic
  exact (vetPackage_failsIn _ auth signer bytes).bind fun _ _ ↦ trivial

theorem GroupV3.vet_ne_panic (auth : AuthService) (signer : SignerKey) (bytes : Bytes) :
    GroupV3.vet P auth signer bytes ≠ .panic := by
  have h : (GroupV3.vet P auth signer bytes).FailsIn fun _ ↦ True :=
    (validateKeypackage_failsIn auth signer bytes).mapErr fun _ h ↦ h
  exact h.ne_panic

/-! ### The three fetches -/

theorem GroupV1.fetch_cases (signers : List SignerKey) (cx : ServiceContext P) :
    (∃ members, List.Forall₂ (fun signer m ↦
        admitted GroupV1.missing (GroupV1.vet P) cx signer = .ok m) signers members ∧
      Call.collect (GroupV1.keyPackageForSigner P) signers cx = (.ok members, cx.askedFor signers)) ∨
    ∃ before signer after e, signers = before ++ signer :: after ∧
      admitted GroupV1.missing (GroupV1.vet P) cx signer = .err e ∧
      Call.collect (GroupV1.keyPackageForSigner P) signers cx =
        (.err e, cx.askedFor (before ++ [signer])) :=
  collect_retrievePackage GroupV1.vet_ne_panic signers cx

theorem GroupV1.fetch_eq_ok_iff {signers : List SignerKey} {cx : ServiceContext P}
    {keyPackages : List KeyPackage} :
    (Call.collect (GroupV1.keyPackageForSigner P) signers cx).1 = .ok keyPackages ↔
      List.Forall₂ (fun signer k ↦
        admitted GroupV1.missing (GroupV1.vet P) cx signer = .ok k) signers keyPackages :=
  collect_retrievePackage_eq_ok_iff GroupV1.vet_ne_panic

theorem GroupV2.fetch_cases (signers : List SignerKey) (cx : ServiceContext P) :
    (∃ members, List.Forall₂ (fun signer m ↦
        admitted noKeyPackage (GroupV2.vet P) cx signer = .ok m) (keepNew [] signers) members ∧
      GroupV2.fetchKeyPackages P signers cx = (.ok members, cx.askedFor (keepNew [] signers))) ∨
    ∃ before signer after e, keepNew [] signers = before ++ signer :: after ∧
      admitted noKeyPackage (GroupV2.vet P) cx signer = .err e ∧
      GroupV2.fetchKeyPackages P signers cx = (.err e, cx.askedFor (before ++ [signer])) :=
  collect_retrievePackage GroupV2.vet_ne_panic _ cx

theorem GroupV3.fetch_cases (signers : List SignerKey) (cx : ServiceContext P) :
    (∃ members, List.Forall₂ (fun signer m ↦
        admitted noKeyPackage (GroupV3.vet P) cx signer = .ok m) (keepNew [] signers) members ∧
      GroupV3.fetchKeyPackages P signers cx = (.ok members, cx.askedFor (keepNew [] signers))) ∨
    ∃ before signer after e, keepNew [] signers = before ++ signer :: after ∧
      admitted noKeyPackage (GroupV3.vet P) cx signer = .err e ∧
      GroupV3.fetchKeyPackages P signers cx = (.err e, cx.askedFor (before ++ [signer])) :=
  collect_retrievePackage GroupV3.vet_ne_panic _ cx

/-- The members fetched sign under the keys that were asked for. -/
theorem GroupV2.fetched_keys {signers : List SignerKey} {members : List FetchedMember}
    (h : List.Forall₂ (fun signer m ↦ admitted noKeyPackage (GroupV2.vet P) cx signer = .ok m)
      signers members) :
    members.map (·.signatureKey) = signers.map (·.bytes) := by
  induction h with
  | nil => rfl
  | cons hm _ ih =>
      obtain ⟨_, -, -, hkey, -⟩ := GroupV2.vetted hm
      rw [List.map_cons, List.map_cons, hkey, ih]

end Vetted

end LogosChat.Conversations
