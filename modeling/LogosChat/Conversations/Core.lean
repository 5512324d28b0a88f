import Mathlib.Data.List.AList
import LogosChat.Conversations.GroupV2
import LogosChat.Conversations.GroupV3

/-!
# The core

The core owns the services and the conversations loaded in this session.  It creates conversations,
joins those an invite brings to its inbox, and passes every other call on to a conversation.  A
GroupV1 conversation also leaves a record in the store, from which it is rebuilt for one call when it
is not loaded.
-/

namespace LogosChat.Conversations

open Reasoning

/-! ## The group kinds -/

inductive GroupKind where
  | v1
  | v2
  | v3
deriving DecidableEq

/-- `Box<dyn GroupConvo>`. -/
inductive GroupConvo (P : Platform) where
  | v1 (convo : GroupV1Convo P)
  | v2 (convo : GroupV2Convo P)
  | v3 (convo : GroupV3Convo P)

namespace InSession

variable {P : Platform} {C D ε α : Type}

/-- A call on a conversation, inside what holds it. -/
def within (wrap : C → D) (convo : C) (m : Call (InSession P C) ε α) : Call (InSession P D) ε α :=
  fun s ↦
    let after := m ⟨convo, s.cx⟩
    (after.1, ⟨wrap after.2.convo, after.2.cx⟩)

/-- A call on a conversation that is dropped afterwards. -/
def temporarily (convo : C) (m : Call (InSession P C) ε α) : Call (ServiceContext P) ε α := fun cx ↦
  let after := m ⟨convo, cx⟩
  (after.1, after.2.cx)

end InSession

namespace GroupConvo

variable {P : Platform} {ε α : Type}

def kind : GroupConvo P → GroupKind
  | .v1 _ => .v1
  | .v2 _ => .v2
  | .v3 _ => .v3

def id : GroupConvo P → String
  | .v1 convo => convo.convoId
  | .v2 convo => convo.convoId
  | .v3 convo => convo.convoId

/-- Dynamic dispatch. -/
def dispatch (v1 : Call (InSession P (GroupV1Convo P)) ε α)
    (v2 : Call (InSession P (GroupV2Convo P)) ε α) (v3 : Call (InSession P (GroupV3Convo P)) ε α) :
    Call (InSession P (GroupConvo P)) ε α := fun s ↦
  match s.convo with
  | .v1 convo => InSession.within .v1 convo v1 s
  | .v2 convo => InSession.within .v2 convo v2 s
  | .v3 convo => InSession.within .v3 convo v3 s

def sendContent (content : Bytes) : Call (InSession P (GroupConvo P)) ChatError String :=
  dispatch (GroupV1.sendContent content) (GroupV2.sendContent content) (GroupV3.sendContent content)

def handlePayload (payload : Bytes) : Call (InSession P (GroupConvo P)) ChatError ConvoOutcome :=
  dispatch (GroupV1.handlePayload payload) (GroupV2.handlePayload payload)
    (GroupV3.handlePayload payload)

def wakeup : Call (InSession P (GroupConvo P)) ChatError ConvoOutcome :=
  dispatch GroupV1.wakeup GroupV2.wakeup GroupV3.wakeup

def addSigner (members : List SignerKey) : Call (InSession P (GroupConvo P)) ChatError Unit :=
  dispatch (GroupV1.addSigner members) (GroupV2.addSigner members) (GroupV3.addSigner members)

def removeSigner (members : List SignerKey) : Call (InSession P (GroupConvo P)) ChatError Unit :=
  dispatch (GroupV1.removeSigner members) (GroupV2.removeSigner members) (GroupV3.removeSigner members)

def signers : GroupConvo P → Result ChatError (List Signer)
  | .v1 convo => .ok (GroupV1.signers convo)
  | .v2 convo => .ok (GroupV2.signers convo)
  | .v3 convo => orErr .conversionError (GroupV3.signers convo)

def canSend : GroupConvo P → Bool
  | .v1 convo => GroupV1.canSend convo
  | .v2 convo => GroupV2.canSend convo
  | .v3 convo => GroupV3.canSend convo

/-- The signature keys in the tree. -/
def seated : GroupConvo P → List SignerKey
  | .v1 convo => convo.mlsGroup.seated
  | .v2 convo => convo.conversation.membersView.map fun m ↦ ⟨m.signatureKey⟩
  | .v3 convo => convo.mlsGroup.seated

end GroupConvo

/-- A conversation in the cache.  A direct one is a GroupV1 group: a `DirectV1Convo` hands every call
on to the group inside it, and an invite brings that group itself. -/
inductive ConvoTypeOwned (P : Platform) where
  | direct (convo : GroupConvo P)
  | group (convo : GroupConvo P)

namespace ConvoTypeOwned

variable {P : Platform}

def convo : ConvoTypeOwned P → GroupConvo P
  | .direct convo => convo
  | .group convo => convo

def put (convo : GroupConvo P) : ConvoTypeOwned P → ConvoTypeOwned P
  | .direct _ => .direct convo
  | .group _ => .group convo

end ConvoTypeOwned

inductive ConversationClass where
  | dm
  | group
deriving DecidableEq

inductive PayloadOutcome where
  | empty
  | convo (outcome : ConvoOutcome)
  -- a new conversation
  | inbox (convoId : String) (conversationClass : ConversationClass)
deriving DecidableEq

/-! ## Making a conversation -/

section Making

variable {P : Platform}

/-- Writes the record of a GroupV1 conversation. -/
def persistConvo (convo : GroupV1Convo P) : Call (ServiceContext P) ChatError Unit :=
  (ServiceContext.onStore (ConversationStore.saveConversation
    { localConvoId := convo.convoId, kind := .groupV1 })).mapErr .storage

/-- `DirectV1Convo::new`. -/
def DirectV1.new (signers : List SignerKey) : Call (ServiceContext P) ChatError (ConvoTypeOwned P) := do
  let convo ← GroupV1.new
  let convo ← InSession.constructing convo (GroupV1.addSigner signers)
  pure (.direct (.v1 convo))

/-- The record is written before the first members are added. -/
def makeGroupV1 (signers : List SignerKey) : Call (ServiceContext P) ChatError (ConvoTypeOwned P) := do
  let convo ← GroupV1.new
  persistConvo convo
  let convo ← InSession.constructing convo (GroupV1.addSigner signers)
  pure (.group (.v1 convo))

def makeGroupV2 (name desc : String) (signers : List SignerKey) :
    Call (ServiceContext P) ChatError (ConvoTypeOwned P) := do
  let convo ← GroupV2.new name desc signers
  pure (.group (.v2 convo))

def makeGroupV3 (signers : List SignerKey) : Call (ServiceContext P) ChatError (ConvoTypeOwned P) := do
  let convo ← GroupV3.new signers
  pure (.group (.v3 convo))

/-- `load_convo`, without the reason that `hex::decode` gives. -/
def loadConvo (convoId : String) : Call (ServiceContext P) ChatError (GroupConvo P) := do
  let record ← (ServiceContext.onStore (ConversationStore.loadConversation convoId)).mapErr .storage
  match record with
  | none => Call.fail (.noConvo convoId)
  | some record =>
      match record.kind with
      | .unknown value => Call.fail (.unsupportedConvoType value)
      | .groupV1 =>
          match hexDecode record.localConvoId with
          | none => Call.fail (.generic "not a hexadecimal id")
          | some groupId =>
              let convo ← GroupV1.load record.localConvoId groupId
              pure (.v1 convo)

end Making

/-! ## The inbox -/

namespace InboxV2

variable {P : Platform}

def parseHeavyWelcome (welcomeBytes : Bytes) : Call (ServiceContext P) ChatError Bytes := do
  let extracted ← Call.ofResult (orErr .tlsCodec (P.mls.extractWelcome welcomeBytes))
  match extracted with
  | none => Call.fail (.protocolExpectation "something else" "Welcome")
  | some welcome => pure welcome

def handleHeavyInvite (welcomeBytes : Bytes) : Call (ServiceContext P) ChatError (GroupV1Convo P) := do
  let welcome ← parseHeavyWelcome welcomeBytes
  let convo ← GroupV1.newFromWelcome welcome
  persistConvo convo
  pure convo

/-- The conversation an invite brings.  A GroupV1 invite is taken for a direct conversation, and what
is no invite is skipped. -/
def handleFrame (payload : Bytes) :
    Call (ServiceContext P) ChatError (Option (GroupConvo P × ConversationClass)) :=
  match P.proto.decodeInboxFrame payload with
  | .error _ => pure none
  | .ok none => pure none
  | .ok (some (.groupV1 welcomeBytes)) => do
      let convo ← handleHeavyInvite welcomeBytes
      pure (some (.v1 convo, .dm))
  | .ok (some (.groupV2 welcomeBytes)) => do
      let welcome ← Call.ofResult (orErr .generic (P.proto.decodeMemberWelcome welcomeBytes))
      let convo ← GroupV2.newFromWelcome welcome
      pure (some (.v2 convo, .group))
  | .ok (some (.groupV3 welcomeBytes)) => do
      let welcome ← parseHeavyWelcome welcomeBytes
      let convo ← GroupV3.newFromWelcome welcome
      pure (some (.v3 convo, .group))

end InboxV2

/-! ## The core itself -/

structure Core (P : Platform) where
  services : ServiceContext P
  -- `pq_inbox.id()`
  inboxId : String
  cachedConvos : AList fun _ : String ↦ ConvoTypeOwned P := ∅

namespace Core

variable {P : Platform} {ε α : Type}

/-- A core at the start of a session. -/
def assemble (services : ServiceContext P) : Core P :=
  { services := services, inboxId := conversationIdFor P services.self.signer }

def onServices (m : Call (ServiceContext P) ε α) : Call (Core P) ε α :=
  m.on (·.services) fun cx c ↦ { c with services := cx }

/-- `cached_convos.get_mut`, and a call on the conversation it finds. -/
def onCached (convoId : String) (absent : Call (Core P) ε α)
    (m : ConvoTypeOwned P → Call (InSession P (GroupConvo P)) ε α) : Call (Core P) ε α := fun c ↦
  match c.cachedConvos.lookup convoId with
  | none => absent c
  | some owned =>
      let after := m owned ⟨owned.convo, c.services⟩
      (after.1,
        { c with
          services := after.2.cx
          cachedConvos := c.cachedConvos.replace convoId (owned.put after.2.convo) })

def registerConvo (owned : ConvoTypeOwned P) : Call (Core P) ChatError Unit := do
  let c ← Call.read fun c ↦ c
  if owned.convo.id ∈ c.cachedConvos then Call.fail (.generic "Convo already exists. Cannot save")
  else Call.modify fun c ↦ { c with cachedConvos := c.cachedConvos.insert owned.convo.id owned }

/-! ### Creating -/

/-- `get_signers_for_participants`, on the answers of the auth service. -/
def signersFor (auth : AuthService) (participants : List ParticipantId) :
    Except String (List SignerKey) :=
  (participants.mapM auth.signersForParticipant).map List.flatten

def getSignersForParticipants (participants : List ParticipantId) :
    Call (Core P) ChatError (List SignerKey) := do
  let auth ← Call.read (·.services.auth)
  Call.ofResult (orErr .participantResolution (signersFor auth participants))

/-- What all four kinds of conversation have in common. -/
def createConvo (make : List SignerKey → Call (ServiceContext P) ChatError (ConvoTypeOwned P))
    (participants : List ParticipantId) : Call (Core P) ChatError String := do
  let signers ← getSignersForParticipants participants
  let owned ← onServices (make signers)
  registerConvo owned
  pure owned.convo.id

def createDirectConvoV1 (participant : ParticipantId) : Call (Core P) ChatError String := do
  let self ← Call.read (·.services.self)
  if participant = self.participantId then Call.fail .cannotMessageSelf
  else createConvo DirectV1.new [participant]

def createGroupConvoV1 : List ParticipantId → Call (Core P) ChatError String :=
  createConvo makeGroupV1

def createGroupConvoV2 (participants : List ParticipantId) (name desc : String) :
    Call (Core P) ChatError String :=
  createConvo (makeGroupV2 name desc) participants

def createGroupConvoV3 : List ParticipantId → Call (Core P) ChatError String :=
  createConvo makeGroupV3

/-! ### Members -/

def groupAddSigners (convoId : String) (members : List SignerKey) : Call (Core P) ChatError Unit :=
  onCached convoId (Call.fail (.noConvo convoId)) fun
    | .group _ => GroupConvo.addSigner members
    | .direct convo => Call.fail (.unsupportedFunction convo.id "Add Member")

def groupAddParticipants (convoId : String) (participants : List ParticipantId) :
    Call (Core P) ChatError Unit := do
  let signers ← getSignersForParticipants participants
  groupAddSigners convoId signers

def groupRemoveSigners (convoId : String) (members : List SignerKey) : Call (Core P) ChatError Unit :=
  onCached convoId (Call.fail (.noConvo convoId)) fun
    | .group _ => GroupConvo.removeSigner members
    | .direct convo => Call.fail (.unsupportedFunction convo.id "Remove Member")

/-- Every installation of these participants. -/
def groupRemoveParticipants (convoId : String) (participants : List ParticipantId) :
    Call (Core P) ChatError Unit := do
  let found ← Call.read (·.cachedConvos.lookup convoId)
  match found with
  | none => Call.fail (.noConvo convoId)
  | some owned =>
      let signers ← Call.ofResult owned.convo.signers
      groupRemoveSigners convoId ((signers.filter (·.participantId ∈ participants)).map (·.signer))

/-! ### Messages -/

/-- A call on a conversation that is loaded, or else on one rebuilt from the store for it. -/
def onConvo (convoId : String) (m : Call (InSession P (GroupConvo P)) ChatError α) :
    Call (Core P) ChatError α :=
  onCached convoId
    (onServices do
      let convo ← loadConvo convoId
      InSession.temporarily convo m)
    fun _ ↦ m

def sendContent (convoId : String) (content : Bytes) : Call (Core P) ChatError String :=
  onConvo convoId (GroupConvo.sendContent content)

def dispatchToConvo (convoId : String) (payload : Bytes) : Call (Core P) ChatError PayloadOutcome := do
  let outcome ← onConvo convoId (GroupConvo.handlePayload payload)
  pure (.convo outcome)

def dispatchToInbox (payload : Bytes) : Call (Core P) ChatError PayloadOutcome := do
  let received ← onServices (InboxV2.handleFrame payload)
  match received with
  | none => pure .empty
  | some (convo, conversationClass) =>
      registerConvo <| match conversationClass with
        | .dm => .direct convo
        | .group => .group convo
      pure (.inbox convo.id conversationClass)

def handlePayload (payload : Bytes) : Call (Core P) ChatError PayloadOutcome := do
  let env ← Call.ofResult (orErr .decodeError (P.proto.decodeEnvelope payload))
  let c ← Call.read fun c ↦ c
  if env.conversationHint = c.inboxId then dispatchToInbox env.payload
  else if env.conversationHint ∈ c.cachedConvos then dispatchToConvo env.conversationHint env.payload
  else
    let stored ← onServices ((ServiceContext.onStore
      (ConversationStore.hasConversation env.conversationHint)).mapErr .storage)
    if stored then dispatchToConvo env.conversationHint env.payload else pure .empty

def wakeup (convoId : String) : Call (Core P) ChatError PayloadOutcome := do
  let c ← Call.read fun c ↦ c
  -- the inbox registers no timer: a conversation took its id
  if convoId = c.inboxId then Call.fail (.unsupportedFunction convoId "wakeup")
  else if convoId ∈ c.cachedConvos then
    let outcome ← onCached convoId (Call.fail (.generic "No Convo Found")) fun _ ↦ GroupConvo.wakeup
    pure (.convo outcome)
  else pure .empty

/-- The records of the store first and then the conversations loaded, each id once. -/
def listAllConversations : Call (Core P) ChatError (List String) := do
  let records ← onServices ((ServiceContext.onStore ConversationStore.loadConversations).mapErr .storage)
  let cached ← Call.read (·.cachedConvos.keys)
  pure (keepNew [] (records.map (·.localConvoId) ++ cached))

/-! ### A session -/

/-- What happens to a core: a call on it, or a change of the services between two calls. -/
inductive Event (P : Platform) where
  | createDirectConvoV1 (participant : ParticipantId)
  | createGroupConvoV1 (participants : List ParticipantId)
  | createGroupConvoV2 (participants : List ParticipantId) (name desc : String)
  | createGroupConvoV3 (participants : List ParticipantId)
  | groupAddParticipants (convoId : String) (participants : List ParticipantId)
  | groupAddSigners (convoId : String) (members : List SignerKey)
  | groupRemoveParticipants (convoId : String) (participants : List ParticipantId)
  | groupRemoveSigners (convoId : String) (members : List SignerKey)
  | sendContent (convoId : String) (content : Bytes)
  | handlePayload (payload : Bytes)
  | wakeup (convoId : String)
  | listAllConversations
  | servicesChange (retrieve : String → Except String (Option Bytes)) (auth : AuthService)
      (mlsStorage : Bytes → Except String (Option (MlsGroup P.mls.Secrets)))

def Event.call : Event P → Call (Core P) ChatError Unit
  | .createDirectConvoV1 participant => (Core.createDirectConvoV1 participant).void
  | .createGroupConvoV1 participants => (Core.createGroupConvoV1 participants).void
  | .createGroupConvoV2 participants name desc => (Core.createGroupConvoV2 participants name desc).void
  | .createGroupConvoV3 participants => (Core.createGroupConvoV3 participants).void
  | .groupAddParticipants convoId participants => Core.groupAddParticipants convoId participants
  | .groupAddSigners convoId members => Core.groupAddSigners convoId members
  | .groupRemoveParticipants convoId participants => Core.groupRemoveParticipants convoId participants
  | .groupRemoveSigners convoId members => Core.groupRemoveSigners convoId members
  | .sendContent convoId content => (Core.sendContent convoId content).void
  | .handlePayload payload => (Core.handlePayload payload).void
  | .wakeup convoId => (Core.wakeup convoId).void
  | .listAllConversations => Core.listAllConversations.void
  | .servicesChange retrieve auth mlsStorage =>
      Call.modify fun c ↦ { c with services := { c.services with
        registry := { c.services.registry with retrieve := retrieve }
        auth := auth
        mlsStorage := mlsStorage } }

/-- A call that failed, or panicked, leaves what it did. -/
def step (c : Core P) (e : Event P) : Core P := (e.call c).2

end Core

end LogosChat.Conversations
