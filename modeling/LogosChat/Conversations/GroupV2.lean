import LogosChat.Conversations.KeyPackages
import LogosChat.Conversations.Publishing

/-!
# GroupV2

A group over a de-mls conversation.  de-mls decides adds and removals by a vote, so the welcome of a
new member is ready only when a later operation lands its commit: every operation ends in `afterOp`,
which drains what de-mls has queued, sends the welcomes of those invited here, publishes the outbound
frames and arms the next wakeup.
-/

namespace LogosChat.Conversations

open Reasoning

structure GroupV2Convo (P : Platform) where
  convoId : String
  conversation : Conversation P.demls
  -- the invited members: signature key to credential
  pendingInvites : Bytes → Option Bytes := fun _ ↦ none
  memberDirectory : MemberId → Option SignerKey := fun _ ↦ none

namespace GroupV2

variable {P : Platform} {ε α : Type}

-- Blake2b::<U6>
def addressSize : Nat := 6

def onConversation (m : Call (Conversation P.demls) ε α) : Call (InSession P (GroupV2Convo P)) ε α :=
  m.on (·.convo.conversation) fun conversation s ↦
    { s with convo := { s.convo with conversation := conversation } }

/-! ## Reading the group -/

/-- The signer in the leaf we occupy. -/
def ownSigner (convo : GroupV2Convo P) : Option SignerKey :=
  (convo.conversation.membersView.find? fun m ↦
    MemberId.from m == convo.conversation.memberIdBytes).map fun m ↦ ⟨m.signatureKey⟩

def isMember (convo : GroupV2Convo P) : Bool := (ownSigner convo).isSome

/-- The seat each named signer holds, in group order. -/
def seatsOf (convo : GroupV2Convo P) (members : List SignerKey) : List MemberId :=
  (convo.conversation.membersView.filter fun m ↦ ⟨m.signatureKey⟩ ∈ members).map MemberId.from

def signers (convo : GroupV2Convo P) : List Signer :=
  convo.conversation.membersView.map fun m ↦
    .fromLeaf m.signatureKey m.credential.serializedContent

def canSend (convo : GroupV2Convo P) : Bool := isMember convo

def directoryOf (members : List GroupMember) (directory : MemberId → Option SignerKey) :
    MemberId → Option SignerKey :=
  members.foldl (fun directory m ↦
    Function.update directory (MemberId.from m) (some ⟨m.signatureKey⟩)) directory

/-! ## After every operation -/

/-- `invite_user_v2`. -/
def inviteUser (signer : SignerKey) (welcome : MemberWelcome) : Call (ServiceContext P) ChatError Unit :=
  (ServiceContext.publish (inviteEnvelope P signer (.groupV2 welcome))).mapErr .generic

def setPending (joiner : Bytes) (credential : Option Bytes) (convo : GroupV2Convo P) : GroupV2Convo P :=
  { convo with pendingInvites := Function.update convo.pendingInvites joiner credential }

/-- Sends the welcome to a joiner that we invited; it is no longer pending then. -/
def routeWelcome (welcome : MemberWelcome) (joiner : Bytes) :
    Call (InSession P (GroupV2Convo P)) ChatError Unit := do
  let invited ← Call.read (·.convo.pendingInvites joiner)
  if invited.isSome then
    Call.modify fun s ↦ { s with convo := setPending joiner none s.convo }
    InSession.onCx (inviteUser ⟨joiner⟩ welcome)
  else pure ()

def changeMembers (added : List GroupMember) (removed : List MemberId) (convo : GroupV2Convo P) :
    GroupV2Convo P :=
  { convo with
    memberDirectory := removed.foldl (fun directory id ↦ Function.update directory id none)
      (directoryOf added convo.memberDirectory) }

def routeEvent : ConversationEvent → Call (InSession P (GroupV2Convo P)) ChatError Unit
  | .welcomeReady welcome => Call.each (routeWelcome welcome) welcome.joinerIdentities
  | .membersChanged added removed =>
      Call.modify fun s ↦ { s with convo := changeMembers added removed s.convo }
  | _ => pure ()

def encodeFrame (P : Platform) (out : Outbound) : Bytes :=
  P.proto.encodeGroupV2Frame { payload := some (.deMlsWrapper out.payload), senderAppId := out.sender }

def frameEnvelope (P : Platform) (out : Outbound) : AddressedEnvelope :=
  { deliveryAddress := deliveryAddressFromId P addressSize out.conversationId
    conversationHint := out.conversationId
    payload := .encrypted (encodeFrame P out) }

def publishFrame (out : Outbound) : Call (InSession P (GroupV2Convo P)) ChatError Unit :=
  (InSession.onCx (ServiceContext.publish (frameEnvelope P out))).mapErr .generic

/-- Arms the alarm with the conversation's earliest deadline. -/
def rearm : Option Nat → Call (InSession P (GroupV2Convo P)) ChatError Unit
  | none => pure ()
  | some duration => do
      let convoId ← Call.read (·.convo.convoId)
      InSession.onCx (ServiceContext.wakeupIn duration convoId)

/-- Returns the events of the operation and the last frame it published. -/
def afterOp : Call (InSession P (GroupV2Convo P)) ChatError
    (List ConversationEvent × Option Bytes) := do
  let events ← onConversation Conversation.drainEvents
  let outbound ← onConversation Conversation.drainOutbound
  let wakeup ← Call.read (·.convo.conversation.nextWakeupIn)
  Call.each routeEvent events
  Call.each publishFrame outbound
  rearm wakeup
  pure (events, (outbound.map (encodeFrame P)).getLast?)

/-! ## Construction -/

def subscribe : Call (ServiceContext P) ChatError Unit :=
  ServiceContext.subscribe.mapErr .generic

/-- A conversation that de-mls has just made: its directory is read off the group. -/
def fromTurn (convoId : String) (turn : Turn P.demls.Core) (pendingInvites : Bytes → Option Bytes) :
    GroupV2Convo P :=
  { convoId := convoId
    conversation := { core := turn.core, events := turn.events, outbound := turn.outbound }
    pendingInvites := pendingInvites
    memberDirectory := directoryOf (P.demls.membersView turn.core) fun _ ↦ none }

/-- The end of both constructors. -/
def settle (convo : GroupV2Convo P) : Call (ServiceContext P) ChatError (GroupV2Convo P) :=
  InSession.constructing convo do
    InSession.onCx subscribe
    let _ ← afterOp

def handedMember (m : FetchedMember) : Handed × Signer :=
  (.encoded m.keyPackage, .fromLeaf m.signatureKey m.credential)

def pendingOf (invites : List FetchedMember) : Bytes → Option Bytes :=
  invites.foldl (fun pending m ↦ Function.update pending m.signatureKey (some m.credential))
    fun _ ↦ none

def new (name desc : String) (signers : List SignerKey) :
    Call (ServiceContext P) ChatError (GroupV2Convo P) := do
  let convoId ← do
    let n ← ServiceContext.draw
    pure (hexEncode (P.randomBytes 5 n))
  let invites ← fetchKeyPackages P signers
  ServiceContext.handOver (invites.map handedMember)
  let n ← ServiceContext.draw
  let self ← Call.read (·.self)
  let turn ← Call.ofResult (orErr .deMlsError
    (P.demls.create n convoId self name desc (invites.map (·.keyPackage))))
  settle (fromTurn convoId turn (pendingOf invites))

def newFromWelcome (welcome : MemberWelcome) : Call (ServiceContext P) ChatError (GroupV2Convo P) := do
  let n ← ServiceContext.draw
  let joined ← Call.ofResult (orErr .deMlsError (P.demls.join n welcome))
  match joined with
  | none => Call.fail (.generic "welcome not addressed to this member")
  | some (convoId, turn) => settle (fromTurn convoId turn fun _ ↦ none)

/-! ## Messages -/

def sendContent (content : Bytes) : Call (InSession P (GroupV2Convo P)) ChatError String := do
  let convoId ← Call.read (·.convo.convoId)
  let reliable ← InSession.onCx (ServiceContext.onSend convoId content)
  (onConversation (Conversation.sendMessage (P.proto.encodeReliable reliable))).mapErr .deMlsError
  let _ ← afterOp
  pure reliable.messageId

/-- The post among the events; de-mls emits at most one a frame. -/
def postOf : ConversationEvent → Option (Bytes × LeafNode)
  | .conversationMessage (some (.conversationMessage message)) sender => some (message, sender)
  | _ => none

def readPost (message : Bytes) (sender : LeafNode) :
    Call (InSession P (GroupV2Convo P)) ChatError (Option Content) := do
  let reliable ← Call.ofResult (orErr .generic (P.proto.decodeReliable message))
  let convoId ← Call.read (·.convo.convoId)
  InSession.onCx (ServiceContext.onReceive convoId reliable)
  let auth ← Call.read (·.cx.auth)
  pure (((Signer.fromLeaf sender.signatureKey sender.credential.serializedContent).requireValid
    auth).map fun author ↦
      { bytes := reliable.content, sender := author, messageId := reliable.messageId })

def changesSigners : ConversationEvent → Bool
  | .commitApplied | .welcomeReady _ | .membersChanged _ _ | .leaving => true
  | _ => false

def outcomeFromEvents (events : List ConversationEvent) :
    Call (InSession P (GroupV2Convo P)) ChatError ConvoOutcome := do
  let content ← match events.findSome? postOf with
    | none => pure none
    | some (message, sender) => readPost message sender
  let convoId ← Call.read (·.convo.convoId)
  pure
    { convoId := convoId
      observations := content.toList.map Observation.content ++
        if events.any changesSigners then [.signersChanged] else [] }

/-- The end of `handlePayload` and `wakeup`. -/
def report : Call (InSession P (GroupV2Convo P)) ChatError ConvoOutcome := do
  let (events, _) ← afterOp
  outcomeFromEvents events

/-- Passes a payload on to de-mls; `false` when it is not for de-mls. -/
def feed (payload : Bytes) : Call (InSession P (GroupV2Convo P)) ChatError Bool := do
  let encrypted ← Call.ofResult (orErr .decodeError (P.proto.decodeEncryptedPayload payload))
  match encrypted with
  | .other => Call.fail (.generic "Expected plaintext")
  | .plaintext bytes =>
      let seated ← Call.read fun s ↦ isMember s.convo
      if ¬ seated then pure false
      else
        let frame ← Call.ofResult (orErr .generic (P.proto.decodeGroupV2Frame bytes))
        match frame.payload with
        | some (.deMlsWrapper inner) =>
            (onConversation (Conversation.processInbound frame.senderAppId inner)).mapErr .deMlsError
            onConversation Conversation.poll
            pure true
        | _ => pure false

def handlePayload (payload : Bytes) : Call (InSession P (GroupV2Convo P)) ChatError ConvoOutcome := do
  let fed ← feed payload
  if fed then report else Call.read fun s ↦ .empty s.convo.convoId

def wakeup : Call (InSession P (GroupV2Convo P)) ChatError ConvoOutcome := do
  onConversation Conversation.poll
  report

/-! ## Members -/

/-- The loop of `addSigner`: the outcome so far, and whether a proposal was opened. -/
def proposeAll (existing : List Bytes) :
    List FetchedMember → Call (InSession P (GroupV2Convo P)) ChatError (Except ChatError Unit × Bool)
  | [] => pure (.ok (), false)
  | m :: members =>
      if m.signatureKey ∈ existing then proposeAll existing members
      else do
        Call.modify fun s ↦ { s with convo := setPending m.signatureKey (some m.credential) s.convo }
        InSession.onCx (ServiceContext.handOver [handedMember m])
        let answer ← (onConversation (Conversation.addMember m.keyPackage)).attempt
        match answer with
        | .ok _ =>
            let (result, _) ← proposeAll existing members
            pure (result, true)
        -- it raced the check above: nothing to invite
        | .error .alreadyMember =>
            Call.modify fun s ↦ { s with convo := setPending m.signatureKey none s.convo }
            proposeAll existing members
        | .error e =>
            Call.modify fun s ↦ { s with convo := setPending m.signatureKey none s.convo }
            pure (.error (.deMlsError e), false)

/-- `addSigner` up to its flush. -/
def propose (members : List SignerKey) :
    Call (InSession P (GroupV2Convo P)) ChatError (Except ChatError Unit) := do
  let fetched ← InSession.onCx (fetchKeyPackages P members)
  let existing ← Call.read fun s ↦ s.convo.conversation.membersView.map (·.signatureKey)
  let (result, added) ← proposeAll existing fetched
  if added then
    onConversation Conversation.poll
    pure result
  else pure result

/-- `result.and(flushed)`. -/
def andFlush (result : Except ChatError Unit) : Call (InSession P (GroupV2Convo P)) ChatError Unit := do
  let flushed ← afterOp.attempt
  match result, flushed with
  | .error e, _ => Call.fail e
  | .ok _, .error e => Call.fail e
  | .ok _, .ok _ => pure ()

def addSigner (members : List SignerKey) : Call (InSession P (GroupV2Convo P)) ChatError Unit := do
  let result ← propose members
  andFlush result

def removeAll : List MemberId → Call (InSession P (GroupV2Convo P)) ChatError (Except ChatError Unit)
  | [] => pure (.ok ())
  | target :: targets => do
      let answer ← (onConversation (Conversation.removeMember target)).attempt
      match answer with
      | .ok _ => removeAll targets
      -- left, or leaf reused since the seats were resolved
      | .error .memberGone => removeAll targets
      | .error e => pure (.error (.deMlsError e))

def removeSigner (members : List SignerKey) : Call (InSession P (GroupV2Convo P)) ChatError Unit := do
  let convo ← Call.read (·.convo)
  let targets := seatsOf convo members
  if (ownSigner convo).any (· ∈ members) then Call.fail .cannotRemoveSelf
  else if targets.isEmpty then Call.fail .notAGroupMember
  else
    let result ← removeAll targets
    andFlush result

end GroupV2

end LogosChat.Conversations
