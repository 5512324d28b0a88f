import LogosChat.Conversations.KeyPackages
import LogosChat.Conversations.Publishing

/-!
# GroupV1

A group over one openmls group.  `addSigner` and `removeSigner` commit within the call: they merge
their own commit first and then publish the welcomes and the commit.
-/

namespace LogosChat.Conversations

open Reasoning

/-- A group with its creator as the only member. -/
def MlsGroup.new {κ : Type} (groupId : Bytes) (secrets : κ) (creator : Signer) : MlsGroup κ :=
  { groupId := groupId
    epoch := 0
    members := [{ signatureKey := creator.signer.bytes
                  credential := ⟨true, creator.participantId.bytes⟩
                  index := 0 }]
    ownLeafIndex := 0
    secrets := secrets }

def ProcessMessageError.text : ProcessMessageError → String
  | .cannotDecryptOwnMessage => "Cannot decrypt own messages."
  | .other text => text

structure GroupV1Convo (P : Platform) where
  mlsGroup : MlsGroup P.mls.Secrets
  convoId : String
  -- hashes of our last payloads, to drop them when they come back
  outboundMsgs : List String := []

namespace GroupV1

-- OUTBOUND_HASH_CACHE_SIZE
def outboundHashCacheSize : Nat := 25

-- Blake2b::<U6>
def addressSize : Nat := 6

variable {P : Platform} {ε α : Type}

def onGroup (m : Call (MlsGroup P.mls.Secrets) ε α) : Call (InSession P (GroupV1Convo P)) ε α :=
  m.on (·.convo.mlsGroup) fun group s ↦ { s with convo := { s.convo with mlsGroup := group } }

/-! ## Construction -/

def subscribe : Call (ServiceContext P) ChatError Unit :=
  ServiceContext.subscribe.mapErr .generic

/-- A conversation with the creator as the only participant. -/
def new : Call (ServiceContext P) ChatError (GroupV1Convo P) := do
  let n ← ServiceContext.draw
  let self ← Call.read (·.self)
  -- `unwrap`
  let (groupId, secrets) ← Call.ofResult (orErr id (P.mls.create n)).expect
  subscribe
  pure { mlsGroup := MlsGroup.new groupId secrets self, convoId := hexEncode groupId }

def newFromWelcome (welcome : Bytes) : Call (ServiceContext P) ChatError (GroupV1Convo P) := do
  let n ← ServiceContext.draw
  let group ← Call.ofResult (orErr .generic (P.mls.join n welcome))
  subscribe
  pure { mlsGroup := group, convoId := hexEncode group.groupId }

def load (convoId : String) (groupId : Bytes) : Call (ServiceContext P) ChatError (GroupV1Convo P) := do
  let stored ← Call.read (·.mlsStorage groupId)
  match stored with
  | .error e => Call.fail (.generic e)
  | .ok none => Call.fail (.noConvo "mls group not found")
  | .ok (some group) =>
      subscribe
      pure { mlsGroup := group, convoId := convoId }

/-! ## Messages -/

-- hash and cache, to detect the payload when it comes back
def remember (msgBytes : Bytes) (convo : GroupV1Convo P) : GroupV1Convo P :=
  let cache := convo.outboundMsgs ++ [P.blake2bHex Platform.messageIdSize [msgBytes]]
  { convo with
    outboundMsgs := if outboundHashCacheSize < cache.length then cache.drop 1 else cache }

/-- The envelope of a payload of this conversation. -/
def payloadEnvelope (convo : GroupV1Convo P) (msgBytes : Bytes) : AddressedEnvelope :=
  { deliveryAddress := deliveryAddressFromId P addressSize convo.convoId
    conversationHint := convo.convoId
    payload := .encrypted msgBytes }

def sendPayload (msgBytes : Bytes) : Call (InSession P (GroupV1Convo P)) ChatError Unit := do
  Call.modify fun s ↦ { s with convo := remember msgBytes s.convo }
  let envelope ← Call.read fun s ↦ payloadEnvelope s.convo msgBytes
  (InSession.onCx (ServiceContext.publish envelope)).mapErr .delivery

/-- `send_content`, which hands on to `send_message`. -/
def sendContent (content : Bytes) : Call (InSession P (GroupV1Convo P)) ChatError String := do
  let convoId ← Call.read (·.convo.convoId)
  let reliable ← InSession.onCx (ServiceContext.onSend convoId content)
  let message ← (onGroup (MlsGroup.createMessage P.mls (P.proto.encodeReliable reliable))).mapErr .generic
  let msgBytes ← Call.ofResult (orErr .mlsMessageError (P.mls.toBytes message))
  sendPayload msgBytes
  pure reliable.messageId

/-- What an application message says, when its sender is a member found valid. -/
def readContent (convoId : String) (sender : Option GroupMember) (bytes : Bytes) :
    Call (InSession P (GroupV1Convo P)) ChatError ConvoOutcome := do
  let reliable ← Call.ofResult (orErr .decodeError (P.proto.decodeReliable bytes))
  InSession.onCx (ServiceContext.onReceive convoId reliable)
  let auth ← Call.read (·.cx.auth)
  let author := sender.bind fun leaf ↦
    (Signer.fromLeaf leaf.signatureKey leaf.credential.serializedContent).requireValid auth
  pure
    { convoId := convoId
      observations := author.toList.map fun author ↦
        .content { bytes := reliable.content, sender := author, messageId := reliable.messageId } }

def handlePayload (payload : Bytes) : Call (InSession P (GroupV1Convo P)) ChatError ConvoOutcome := do
  let encrypted ← Call.ofResult (orErr .decodeError (P.proto.decodeEncryptedPayload payload))
  match encrypted with
  | .other => Call.fail (.protocolExpectation "None" "Some(Encryption::Plaintext)")
  | .plaintext bytes =>
      let convo ← Call.read (·.convo)
      let nothing := ConvoOutcome.empty convo.convoId
      if ¬ convo.mlsGroup.isActive then pure nothing
      -- sent from self
      else if P.blake2bHex Platform.messageIdSize [bytes] ∈ convo.outboundMsgs then pure nothing
      else
        let message ← Call.ofResult (orErr .generic (P.mls.protocolMessage bytes))
        if message.epoch < convo.mlsGroup.epoch then pure nothing
        else
          let (sender, content) ← (onGroup (MlsGroup.processMessage P.mls message)).mapErr
            (.generic ·.text)
          match content with
          | .applicationMessage bytes =>
              readContent convo.convoId (sender.bind convo.mlsGroup.memberAt) bytes
          | .stagedCommitMessage commit =>
              (onGroup (MlsGroup.mergeStagedCommit P.mls commit)).mapErr .generic
              pure nothing
          | .other => pure nothing

def wakeup : Call (InSession P (GroupV1Convo P)) ChatError ConvoOutcome :=
  Call.read fun s ↦ .empty s.convo.convoId

/-! ## Members -/

/-- `invite_user`. -/
def inviteUser (welcome : P.mls.MlsMessageOut) (signer : SignerKey) :
    Call (ServiceContext P) ChatError Unit := do
  let welcomeBytes ← Call.ofResult (orErr .mlsMessageError (P.mls.toBytes welcome))
  (ServiceContext.publish (inviteEnvelope P signer (.groupV1 welcomeBytes))).mapErr .generic

/-- The packages pass to openmls, which stages the commit that seats them. -/
def addMembers (keyPackages : List KeyPackage) :
    Call (InSession P (GroupV1Convo P)) ChatError (P.mls.MlsMessageOut × P.mls.MlsMessageOut) := do
  InSession.onCx (ServiceContext.handOver (keyPackages.map fun k ↦ (.keyPackage k, k.signer)))
  (onGroup (MlsGroup.addMembers P.mls keyPackages)).mapErr .generic

def mergePendingCommit : Call (InSession P (GroupV1Convo P)) ChatError Unit :=
  (onGroup (MlsGroup.mergePendingCommit P.mls)).mapErr .generic

/-- Sends the welcome to each new member and then the commit. -/
def announce (members : List SignerKey) (commit welcome : P.mls.MlsMessageOut) :
    Call (InSession P (GroupV1Convo P)) ChatError Unit := do
  Call.each (fun signer ↦ InSession.onCx (inviteUser welcome signer)) members
  let msgBytes ← Call.ofResult (orErr .mlsMessageError (P.mls.toBytes commit))
  sendPayload msgBytes

def addSigner (members : List SignerKey) : Call (InSession P (GroupV1Convo P)) ChatError Unit :=
  if 50 < members.length then
    Call.fail (.protocol "Cannot add more than 50 Members at a time")
  else do
    let seated ← Call.read (·.convo.mlsGroup.seated)
    -- seated signers, ours included, and repeated ones are skipped
    let members := keepNew seated members
    if members.isEmpty then pure ()
    else
      let keyPackages ← InSession.onCx (Call.collect (keyPackageForSigner P) members)
      let (commit, welcome) ← addMembers keyPackages
      mergePendingCommit
      announce members commit welcome

/-- The leaves that `members` name. -/
def leavesOf (group : MlsGroup P.mls.Secrets) (members : List SignerKey) : List UInt32 :=
  (group.members.filter fun m ↦ ⟨m.signatureKey⟩ ∈ members).map (·.index)

def removeSigner (members : List SignerKey) : Call (InSession P (GroupV1Convo P)) ChatError Unit := do
  let group ← Call.read (·.convo.mlsGroup)
  let leaves := leavesOf group members
  if group.ownLeafIndex ∈ leaves then Call.fail .cannotRemoveSelf
  else if leaves.isEmpty then Call.fail .notAGroupMember
  else
    let commit ← (onGroup (MlsGroup.removeMembers P.mls leaves)).mapErr .generic
    mergePendingCommit
    let msgBytes ← Call.ofResult (orErr .mlsMessageError (P.mls.toBytes commit))
    sendPayload msgBytes

def signers (convo : GroupV1Convo P) : List Signer :=
  convo.mlsGroup.members.map fun m ↦ .fromLeaf m.signatureKey m.credential.serializedContent

def canSend (convo : GroupV1Convo P) : Bool := convo.mlsGroup.isActive

end GroupV1

end LogosChat.Conversations
