import LogosChat.Conversations.GroupV1

/-!
# GroupV3

A group over one openmls group whose frames carry no causal history.  `addSigner` publishes its
commit first, merges it then and sends the welcomes last.
-/

namespace LogosChat.Conversations

open Reasoning

structure GroupV3Convo (P : Platform) where
  convoId : String
  mlsGroup : MlsGroup P.mls.Secrets

namespace GroupV3

variable {P : Platform} {ε α : Type}

def onGroup (m : Call (MlsGroup P.mls.Secrets) ε α) : Call (InSession P (GroupV3Convo P)) ε α :=
  m.on (·.convo.mlsGroup) fun group s ↦ { s with convo := { s.convo with mlsGroup := group } }

/-! ## Reading the group -/

/-- Fails on a member whose credential names no participant. -/
def signers (convo : GroupV3Convo P) : Except TypeConversionError (List Signer) :=
  convo.mlsGroup.members.mapM Signer.fromMember

-- whoever holds the conversation may send
def canSend (_ : GroupV3Convo P) : Bool := true

/-! ## Frames -/

/-- `frame_id`, on the encoded frame. -/
def frameId (P : Platform) (frame : Bytes) : String :=
  P.blake2bHex Platform.messageIdSize [utf8 "logos-chat|message_id|", frame]

/-- The header is a placeholder. -/
def toPayload (P : Platform) (message : P.mls.MlsMessageOut) : Result SendError GroupV3Payload := do
  let bytes ← orErr .mlsMessageError (P.mls.toBytes message)
  .ok { encryptedHeader := [0, 0, 0, 0], encryptedFrame := bytes }

def toEnvelope (P : Platform) (convoId : String) (message : P.mls.MlsMessageOut) :
    Result SendError AddressedEnvelope := do
  let payload ← toPayload P message
  .ok { deliveryAddress := deliveryAddressFromId P Platform.deliveryAddrSize convoId
        conversationHint := convoId
        payload := .groupV3 payload }

def publishEnvelope (envelope : AddressedEnvelope) :
    Call (InSession P (GroupV3Convo P)) SendError Unit :=
  (InSession.onCx (ServiceContext.publish envelope)).mapErr .delivery

def publishMlsMsg (message : P.mls.MlsMessageOut) :
    Call (InSession P (GroupV3Convo P)) SendError Unit := do
  let convoId ← Call.read (·.convo.convoId)
  let envelope ← Call.ofResult (toEnvelope P convoId message)
  publishEnvelope envelope

def sendFrame (frame : GroupV3Frame) : Call (InSession P (GroupV3Convo P)) SendError String := do
  let encoded := P.proto.encodeGroupV3Frame frame
  let message ← (onGroup (MlsGroup.createMessage P.mls encoded)).mapErr .mlsCreate
  publishMlsMsg message
  pure (frameId P encoded)

def sendContent (content : Bytes) : Call (InSession P (GroupV3Convo P)) ChatError String :=
  (sendFrame { content := some content }).mapErr .sendError

/-! ## Inbound messages -/

def handleMlsApplicationMessage (sender : Option GroupMember) (bytes : Bytes) :
    Call (InSession P (GroupV3Convo P)) ChatError ConvoOutcome := do
  let convoId ← Call.read (·.convo.convoId)
  let frame ← Call.ofResult (orErr .decodeError (P.proto.decodeGroupV3Frame bytes))
  match frame.content with
  | none => pure (.empty convoId)
  | some content =>
      let auth ← Call.read (·.cx.auth)
      let author := sender.bind fun leaf ↦
        (Signer.fromLeaf leaf.signatureKey leaf.credential.serializedContent).requireValid auth
      pure
        { convoId := convoId
          observations := author.toList.map fun author ↦
            .content { bytes := content, sender := author, messageId := frameId P bytes } }

/-- `EpochFingerprint::from`: a commit without an authenticator panics. -/
def epochFingerprint (commit : StagedCommit) : Result ChatError Unit :=
  if commit.epochAuthenticator.isSome then .ok () else .panic

def handleMlsCommit (commit : StagedCommit) :
    Call (InSession P (GroupV3Convo P)) ChatError ConvoOutcome := do
  Call.ofResult (epochFingerprint commit)
  (onGroup (MlsGroup.mergeStagedCommit P.mls commit)).mapErr .generic
  let convoId ← Call.read (·.convo.convoId)
  pure { convoId := convoId, observations := [.signersChanged] }

def handleMlsMsg (sender : Option UInt32) :
    ProcessedMessageContent → Call (InSession P (GroupV3Convo P)) ChatError ConvoOutcome
  | .applicationMessage bytes => do
      let author ← Call.read fun s ↦ sender.bind s.convo.mlsGroup.memberAt
      handleMlsApplicationMessage author bytes
  | .stagedCommitMessage commit => handleMlsCommit commit
  | .other => Call.read fun s ↦ .empty s.convo.convoId

def handleMlsProtocolMsg (message : ProtocolMessage) :
    Call (InSession P (GroupV3Convo P)) ChatError ConvoOutcome := do
  let convo ← Call.read (·.convo)
  -- also our own commits, which return after we merged them
  if message.epoch < convo.mlsGroup.epoch then pure (.empty convo.convoId)
  else
    let processed ← (onGroup (MlsGroup.processMessage P.mls message)).attempt
    match processed with
    | .ok (sender, content) => handleMlsMsg sender content
    | .error .cannotDecryptOwnMessage => pure (.empty convo.convoId)
    | .error e => Call.fail (.generic e.text)

def handlePayload (payload : Bytes) : Call (InSession P (GroupV3Convo P)) ChatError ConvoOutcome := do
  let payload ← Call.ofResult (orErr .decodeError (P.proto.decodeGroupV3Payload payload))
  let message ← Call.ofResult (orErr .generic (P.mls.protocolMessage payload.encryptedFrame))
  handleMlsProtocolMsg message

def wakeup : Call (InSession P (GroupV3Convo P)) ChatError ConvoOutcome :=
  Call.read fun s ↦ .empty s.convo.convoId

/-! ## Members -/

/-- `create_invite_v3`. -/
def createInvite (P : Platform) (signer : SignerKey) (welcome : P.mls.MlsMessageOut) :
    Result SendError AddressedEnvelope := do
  let welcomeBytes ← orErr .mlsMessageError (P.mls.toBytes welcome)
  .ok (inviteEnvelope P signer (.groupV3 welcomeBytes))

/-- One invite for each package, under the key in its leaf. -/
def createInvites (keyPackages : List KeyPackage) (welcome : P.mls.MlsMessageOut) :
    Call (InSession P (GroupV3Convo P)) SendError (List AddressedEnvelope) :=
  Call.collect (fun k ↦ Call.ofResult (createInvite P ⟨k.leafNode.signatureKey⟩ welcome)) keyPackages

/-- The packages pass to openmls, which stages the commit that seats them. -/
def addMembers (keyPackages : List KeyPackage) :
    Call (InSession P (GroupV3Convo P)) ChatError (P.mls.MlsMessageOut × P.mls.MlsMessageOut) := do
  InSession.onCx (ServiceContext.handOver (keyPackages.map fun k ↦ (.keyPackage k, k.signer)))
  (onGroup (MlsGroup.addMembers P.mls keyPackages)).mapErr .generic

def sendPendingCommit (commit : P.mls.MlsMessageOut) (dependent : List AddressedEnvelope) :
    Call (InSession P (GroupV3Convo P)) ChatError Unit := do
  let sent ← (publishMlsMsg commit).attempt
  match sent with
  | .error e =>
      -- that the commit could not be cleared is only logged
      let _ ← (onGroup (MlsGroup.clearPendingCommit P.mls)).attempt
      Call.fail (.sendError e)
  | .ok _ =>
      (onGroup (MlsGroup.mergePendingCommit P.mls)).mapErr .mlsMergeCommit
      Call.each (fun envelope ↦ (publishEnvelope envelope).mapErr .sendError) dependent

def addSigner (members : List SignerKey) : Call (InSession P (GroupV3Convo P)) ChatError Unit := do
  let seated ← Call.read fun s ↦ signers s.convo
  let existing ← Call.ofResult (orErr .conversionError seated)
  let keyPackages ← InSession.onCx (fetchKeyPackages P (unique (memberDiff members existing)))
  if keyPackages.isEmpty then pure ()
  else
    let (commit, welcome) ← addMembers keyPackages
    let invites ← (createInvites keyPackages welcome).mapErr .sendError
    sendPendingCommit commit invites

-- `todo!()`
def removeSigner (_ : List SignerKey) : Call (InSession P (GroupV3Convo P)) ChatError Unit :=
  Call.ofResult .panic

/-! ## Construction -/

def subscribe : Call (ServiceContext P) ChatError Unit :=
  ServiceContext.subscribe.mapErr .generic

/-- `create_group` and `init`.  Name and description go into an extension of the group, which only
`metadata` reads back. -/
def newGroup : Call (ServiceContext P) ChatError (GroupV3Convo P) := do
  let n ← ServiceContext.draw
  let self ← Call.read (·.self)
  let (groupId, secrets) ← Call.ofResult (orErr .groupCreate (P.mls.create n))
  subscribe
  pure { convoId := hexEncode groupId, mlsGroup := MlsGroup.new groupId secrets self }

def new (signers : List SignerKey) : Call (ServiceContext P) ChatError (GroupV3Convo P) := do
  let convo ← newGroup
  InSession.constructing convo (addSigner signers)

def newFromWelcome (welcome : Bytes) : Call (ServiceContext P) ChatError (GroupV3Convo P) := do
  let n ← ServiceContext.draw
  let group ← Call.ofResult (orErr .generic (P.mls.join n welcome))
  subscribe
  pure { convoId := hexEncode group.groupId, mlsGroup := group }

end GroupV3

end LogosChat.Conversations
