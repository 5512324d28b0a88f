import LogosChat.Conversations.Backends

/-!
# The services of a conversation

Every operation of a conversation works on one `ServiceContext`.  A service answers as it likes: the
delivery service and the store follow a list of answers, one for each request, and the registry and
the auth service are functions of what they are asked.  What the code asked for is kept beside the
answers: the envelopes published, the ids looked up and the key packages handed to MLS.
-/

namespace LogosChat.Conversations

open Reasoning

/-! ## Errors -/

inductive KeyPackageError where
  | mlsVerify (text : String)
  | typeConvert (error : TypeConversionError)
  | authFailed (signer : Signer) (authStatus : AuthStatus)
  | wrongPackage (expected : SignerKey) (got : Bytes)
  | decode (text : String)
deriving DecidableEq

inductive SendError where
  | mlsCreate (text : String)
  | delivery (text : String)
  | mlsMessageError (text : String)
deriving DecidableEq

inductive ChatError where
  | protocol (text : String)
  | protocolExpectation (got expected : String)
  | decodeError (text : String)
  | badBundleValue (text : String)
  | noConvo (convoId : String)
  | unsupportedConvoType (text : String)
  | storage (text : String)
  | mlsMessageError (text : String)
  | tlsCodec (text : String)
  | generic (text : String)
  | keyPackageVerify (text : String)
  | delivery (text : String)
  | mlsMergeCommit (text : String)
  | deMlsError (error : ConversationError)
  | unsupportedFunction (convoId function : String)
  | cannotRemoveSelf
  | notAGroupMember
  | cannotMessageSelf
  | participantResolution (text : String)
  | keyPackage (error : KeyPackageError)
  | groupCreate (text : String)
  | sendError (error : SendError)
  | conversionError (error : TypeConversionError)
deriving DecidableEq

/-- `map_err` and `?` on the answer of a backend. -/
def orErr {ε ε' α : Type} (g : ε → ε') : Except ε α → Result ε' α
  | .ok a => .ok a
  | .error e => .err (g e)

@[simp] theorem orErr_eq_ok {ε ε' α : Type} {g : ε → ε'} {x : Except ε α} {a : α} :
    orErr g x = .ok a ↔ x = .ok a := by
  cases x <;> simp [orErr]

theorem orErr_ne_panic {ε ε' α : Type} (g : ε → ε') (x : Except ε α) : orErr g x ≠ .panic := by
  cases x <;> exact nofun

/-! ## Envelopes -/

/-- An invite as it is sent, before prost encodes it. -/
inductive InviteType where
  | groupV1 (welcomeBytes : Bytes)
  | groupV2 (welcome : MemberWelcome)
  | groupV3 (welcomeBytes : Bytes)
deriving DecidableEq

inductive EnvelopePayload where
  | encrypted (plaintext : Bytes)
  | groupV3 (payload : GroupV3Payload)
  | invite (invite : InviteType)
deriving DecidableEq

/-- Outbound data with its address: an `EnvelopeV1` before prost encodes it. -/
structure AddressedEnvelope where
  deliveryAddress : String
  conversationHint : String
  payload : EnvelopePayload
deriving DecidableEq

section Addresses

variable (P : Platform)

/-- The rendezvous address of a signer's inbox. -/
def deliveryAddressFor (signer : SignerKey) : String :=
  P.blake2bHex Platform.deliveryAddrSize
    [utf8 "InboxV2|", utf8 "delivery_address|", utf8 signer.toHex]

def conversationIdFor (signer : SignerKey) : String :=
  P.blake2bHex Platform.convoIdSize
    [utf8 "InboxV2|", utf8 "conversation_id|", utf8 signer.toHex]

/-- The envelope all three kinds of invite travel in. -/
def inviteEnvelope (signer : SignerKey) (invite : InviteType) : AddressedEnvelope :=
  { deliveryAddress := deliveryAddressFor P signer
    conversationHint := conversationIdFor P signer
    payload := .invite invite }

/-- `delivery_address_from_id`: six bytes in GroupV1 and GroupV2, `DeliveryAddr` in GroupV3. -/
def deliveryAddressFromId (size : Nat) (convoId : String) : String :=
  P.blake2bHex size [utf8 "delivery_addr|", utf8 convoId]

end Addresses

/-! ## The delivery service -/

/-- The answers to come, `some` for an error, and what was published. -/
structure DeliveryService where
  answers : Nat → Option String := fun _ ↦ none
  requests : Nat := 0
  published : List AddressedEnvelope := []

namespace DeliveryService

/-- One more request, which the service refused. -/
def refused (ds : DeliveryService) : DeliveryService := { ds with requests := ds.requests + 1 }

def delivered (ds : DeliveryService) (envelopes : List AddressedEnvelope) : DeliveryService :=
  { ds with
    requests := ds.requests + envelopes.length
    published := ds.published ++ envelopes }

def publish (envelope : AddressedEnvelope) : Call DeliveryService String Unit := fun ds ↦
  match ds.answers ds.requests with
  | none => (.ok (), ds.delivered [envelope])
  | some e => (.err e, ds.refused)

-- what is subscribed to is the transport's business
def subscribe : Call DeliveryService String Unit := fun ds ↦
  match ds.answers ds.requests with
  | none => (.ok (), ds.refused)
  | some e => (.err e, ds.refused)

/-- The service accepts the next `n` requests. -/
def Accepts (ds : DeliveryService) (n : Nat) : Prop :=
  ∀ k < n, ds.answers (ds.requests + k) = none

instance (ds : DeliveryService) (n : Nat) : Decidable (ds.Accepts n) :=
  inferInstanceAs (Decidable (∀ k < n, _))

end DeliveryService

/-! ## The registry and the store -/

structure RegistrationService where
  retrieve : String → Except String (Option Bytes)
  asked : List String := []

inductive ConversationKind where
  | unknown (value : String)
  | groupV1
deriving DecidableEq

structure ConversationMeta where
  localConvoId : String
  kind : ConversationKind
deriving DecidableEq

/-- The answers to come, `some` for an error, and the records. -/
structure ConversationStore where
  answers : Nat → Option String := fun _ ↦ none
  requests : Nat := 0
  records : List ConversationMeta := []

namespace ConversationStore

/-- A request that fails does nothing. -/
def request {α : Type} (f : List ConversationMeta → α × List ConversationMeta) :
    Call ConversationStore String α := fun store ↦
  match store.answers store.requests with
  | none =>
      (.ok (f store.records).1,
        { store with requests := store.requests + 1, records := (f store.records).2 })
  | some e => (.err e, { store with requests := store.requests + 1 })

/-- `INSERT OR REPLACE`. -/
def saveConversation (record : ConversationMeta) : Call ConversationStore String Unit :=
  request fun records ↦
    ((), records.filter (fun r ↦ r.localConvoId ≠ record.localConvoId) ++ [record])

def loadConversation (convoId : String) : Call ConversationStore String (Option ConversationMeta) :=
  request fun records ↦ (records.find? (fun r ↦ r.localConvoId = convoId), records)

def loadConversations : Call ConversationStore String (List ConversationMeta) :=
  request fun records ↦ (records, records)

def hasConversation (convoId : String) : Call ConversationStore String Bool :=
  request fun records ↦ (records.any (fun r ↦ r.localConvoId = convoId), records)

end ConversationStore

/-! ## The context -/

/-- What MLS is handed: a package, or the bytes de-mls reads one from. -/
inductive Handed where
  | keyPackage (keyPackage : KeyPackage)
  | encoded (bytes : Bytes)
deriving DecidableEq

/-- One package handed to MLS, whom the code took it for, and the auth service's verdict on them at
that moment. -/
structure HandedOver where
  package : Handed
  signer : Signer
  verdict : AuthStatus
deriving DecidableEq

structure ServiceContext (P : Platform) where
  ds : DeliveryService := {}
  registry : RegistrationService
  store : ConversationStore := {}
  -- `mls_identity`
  self : Signer
  auth : AuthService
  -- what `MlsGroup::load` finds
  mlsStorage : Bytes → Except String (Option (MlsGroup P.mls.Secrets))
  causal : CausalHistoryStore := {}
  -- the wakeups armed, each with its delay and its conversation
  wakeups : List (Nat × String) := []
  draws : Nat := 0
  handed : List HandedOver := []

namespace ServiceContext

variable {P : Platform} {ε α : Type}

def onDs (m : Call DeliveryService ε α) : Call (ServiceContext P) ε α :=
  m.on (·.ds) fun ds cx ↦ { cx with ds := ds }

def onStore (m : Call ConversationStore ε α) : Call (ServiceContext P) ε α :=
  m.on (·.store) fun store cx ↦ { cx with store := store }

def publish (envelope : AddressedEnvelope) : Call (ServiceContext P) String Unit :=
  onDs (DeliveryService.publish envelope)

def subscribe : Call (ServiceContext P) String Unit :=
  onDs DeliveryService.subscribe

def retrieve (deviceId : String) : Call (ServiceContext P) String (Option Bytes) := fun cx ↦
  (orErr id (cx.registry.retrieve deviceId),
    { cx with registry := { cx.registry with asked := cx.registry.asked ++ [deviceId] } })

def wakeupIn (duration : Nat) (convoId : String) : Call (ServiceContext P) ε Unit :=
  Call.modify fun cx ↦ { cx with wakeups := cx.wakeups ++ [(duration, convoId)] }

/-- A number that was never drawn before. -/
def draw : Call (ServiceContext P) ε Nat := fun cx ↦
  (.ok cx.draws, { cx with draws := cx.draws + 1 })

/-- The packages pass to MLS. -/
def handing (cx : ServiceContext P) (packages : List (Handed × Signer)) : ServiceContext P :=
  { cx with
    handed := cx.handed ++ packages.map fun p ↦ ⟨p.1, p.2, p.2.authStatus cx.auth⟩ }

@[simp] theorem handing_nil (cx : ServiceContext P) : cx.handing [] = cx := by
  simp [handing]

@[simp] theorem handing_handing (cx : ServiceContext P) (xs ys : List (Handed × Signer)) :
    (cx.handing xs).handing ys = cx.handing (xs ++ ys) := by
  simp [handing]

def handOver (packages : List (Handed × Signer)) : Call (ServiceContext P) ε Unit :=
  Call.modify (·.handing packages)

/-- The envelope of a message and the state after it, for a conversation of this installation. -/
def onSend (convoId : String) (content : Bytes) : Call (ServiceContext P) ε ReliablePayload :=
  fun cx ↦
    match cx.causal.onSend P.build convoId cx.self.signer content with
    | .ok (payload, causal) => (.ok payload, { cx with causal := causal })
    | .panic => (.panic, cx)

def onReceive (convoId : String) (payload : ReliablePayload) : Call (ServiceContext P) ε Unit :=
  Call.modify fun cx ↦ { cx with causal := (cx.causal.onReceive convoId payload).2 }

end ServiceContext

/-- A conversation and the services it works on. -/
structure InSession (P : Platform) (C : Type) where
  convo : C
  cx : ServiceContext P

namespace InSession

variable {P : Platform} {C ε α : Type}

def onCx (m : Call (ServiceContext P) ε α) : Call (InSession P C) ε α :=
  m.on (·.cx) fun cx s ↦ { s with cx := cx }

theorem onCx_of_eq {m : Call (ServiceContext P) ε α} {s : InSession P C} {r : Result ε α}
    {cx : ServiceContext P} (h : m s.cx = (r, cx)) : onCx m s = (r, { s with cx := cx }) :=
  Call.on_of_eq h

/-- A conversation under construction: it is returned when `m` succeeds and dropped otherwise. -/
def constructing (convo : C) (m : Call (InSession P C) ε Unit) : Call (ServiceContext P) ε C :=
  fun cx ↦
    match m ⟨convo, cx⟩ with
    | (.ok _, s) => (.ok s.convo, s.cx)
    | (.err e, s) => (.err e, s.cx)
    | (.panic, s) => (.panic, s.cx)

theorem constructing_of_ok {convo : C} {m : Call (InSession P C) ε Unit} {cx : ServiceContext P}
    {t : InSession P C} (h : m ⟨convo, cx⟩ = (.ok (), t)) :
    constructing convo m cx = (.ok t.convo, t.cx) := by
  rw [constructing, h]

theorem constructing_of_err {convo : C} {m : Call (InSession P C) ε Unit} {cx : ServiceContext P}
    {e : ε} {t : InSession P C} (h : m ⟨convo, cx⟩ = (.err e, t)) :
    constructing convo m cx = (.err e, t.cx) := by
  rw [constructing, h]

theorem constructing_eq_ok {convo made : C} {m : Call (InSession P C) ε Unit}
    {cx cx' : ServiceContext P} (h : constructing convo m cx = (.ok made, cx')) :
    m ⟨convo, cx⟩ = (.ok (), ⟨made, cx'⟩) := by
  unfold constructing at h
  split at h
  case h_1 heq =>
    cases h
    exact heq
  case h_2 => cases h
  case h_3 => cases h

theorem constructing_snd (convo : C) (m : Call (InSession P C) ε Unit) (cx : ServiceContext P) :
    (constructing convo m cx).2 = (m ⟨convo, cx⟩).2.cx := by
  unfold constructing
  split <;> simp_all only

theorem constructing_of_not_ok {convo : C} {m : Call (InSession P C) ε Unit} {cx : ServiceContext P}
    {r : Result ε Unit} {t : InSession P C} (h : m ⟨convo, cx⟩ = (r, t)) (hr : ∀ a, r ≠ .ok a) :
    ∃ r', constructing convo m cx = (r', t.cx) ∧ ∀ a, r' ≠ .ok a := by
  unfold constructing
  rw [h]
  cases r with
  | ok a => exact absurd rfl (hr a)
  | err e => exact ⟨.err e, rfl, nofun⟩
  | panic => exact ⟨.panic, rfl, nofun⟩

end InSession

namespace Sample

/-- The services of the signer `[1]`: the registry answers every question with the one package of
the signer `[2]`, and whoever it is about, the auth service agrees. -/
abbrev services (P : Platform) : ServiceContext P where
  registry := { retrieve := fun _ ↦ .ok (some [2]) }
  self := .fromLeaf [1] []
  auth := { validateSigner := fun _ _ ↦ .ok .valid, signersForParticipant := fun _ ↦ .ok [] }
  mlsStorage _ := .ok none

-- a delivery service that is out of reach
abbrev offline : DeliveryService := { answers := fun _ ↦ some "offline" }

end Sample

/-! ## What a conversation reports -/

structure Content where
  bytes : Bytes
  sender : AuthenticatedSigner
  messageId : String
deriving DecidableEq

inductive Observation where
  | content (content : Content)
  | signersChanged
deriving DecidableEq

structure ConvoOutcome where
  convoId : String
  observations : List Observation
deriving DecidableEq

def ConvoOutcome.empty (convoId : String) : ConvoOutcome := ⟨convoId, []⟩

end LogosChat.Conversations
