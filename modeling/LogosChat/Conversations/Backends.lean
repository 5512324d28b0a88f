import LogosChat.Conversations.Identity
import LogosChat.Reasoning.Call

/-!
# What the conversations are built on

openmls, de-mls and prost, as the conversation code sees them: each is a set of functions about which
nothing is assumed.  What the code itself relies on is kept: a commit of our own is staged and then
merged or cleared, and de-mls queues its events and its outbound frames until they are drained.
-/

namespace LogosChat.Conversations

open Reasoning

/-! ## openmls -/

/-- An MLS group, over the secrets `κ` that openmls keeps to itself. -/
structure MlsGroup (κ : Type) where
  groupId : Bytes
  epoch : Nat
  members : List GroupMember
  ownLeafIndex : UInt32
  -- the roster a commit of our own leads to, until it is merged or cleared
  pendingCommit : Option (List GroupMember) := none
  isActive : Bool := true
  secrets : κ

/-- The messages of a staged commit, and the roster it leads to. -/
structure CommitBundle (κ μ : Type) where
  commit : μ
  welcome : μ
  members : List GroupMember
  secrets : κ

structure ProtocolMessage where
  epoch : Nat
  body : Bytes
deriving DecidableEq

/-- A commit of another member.  It carries no epoch authenticator when it removes us. -/
structure StagedCommit where
  members : List GroupMember
  epochAuthenticator : Option Bytes
deriving DecidableEq

inductive ProcessedMessageContent where
  | applicationMessage (bytes : Bytes)
  | stagedCommitMessage (commit : StagedCommit)
  | other

/-- A processed message: the leaf of its sender when a member sent it, and what it holds. -/
structure ProcessedMessage (κ : Type) where
  sender : Option UInt32
  content : ProcessedMessageContent
  secrets : κ

inductive ProcessMessageError where
  | cannotDecryptOwnMessage
  | other (text : String)
deriving DecidableEq

/-- openmls.  A function that draws randomness is given a number that is never given again. -/
structure OpenMls where
  Secrets : Type
  KeyPackageIn : Type
  MlsMessageOut : Type
  tlsDeserialize : Bytes → Except String KeyPackageIn
  tlsDeserializeExact : Bytes → Except String KeyPackageIn
  validate : KeyPackageIn → Except String KeyPackage
  toBytes : MlsMessageOut → Except String Bytes
  -- the id and the secrets of a new group
  create : Nat → Except String (Bytes × Secrets)
  -- `StagedWelcome::build_from_welcome`, `build` and `into_group`
  join : Nat → Bytes → Except String (MlsGroup Secrets)
  -- `MlsMessageIn::tls_deserialize_bytes`, and the welcome in it
  extractWelcome : Bytes → Except String (Option Bytes)
  addMembers : MlsGroup Secrets → List KeyPackage → Except String (CommitBundle Secrets MlsMessageOut)
  removeMembers : MlsGroup Secrets → List UInt32 → Except String (CommitBundle Secrets MlsMessageOut)
  mergePendingCommit : MlsGroup Secrets → Except String Secrets
  clearPendingCommit : MlsGroup Secrets → Except String Secrets
  createMessage : MlsGroup Secrets → Bytes → Except String (MlsMessageOut × Secrets)
  -- `MlsMessageIn::tls_deserialize_exact_bytes` and `try_into_protocol_message`
  protocolMessage : Bytes → Except String ProtocolMessage
  processMessage : MlsGroup Secrets → ProtocolMessage →
    Except ProcessMessageError (ProcessedMessage Secrets)
  mergeStagedCommit : MlsGroup Secrets → StagedCommit → Except String Secrets

namespace MlsGroup

variable (M : OpenMls)

/-- The commit is staged: epoch and roster wait for the merge. -/
def stage (group : MlsGroup M.Secrets) (bundle : CommitBundle M.Secrets M.MlsMessageOut) :
    MlsGroup M.Secrets :=
  { group with pendingCommit := some bundle.members, secrets := bundle.secrets }

def addMembers (keyPackages : List KeyPackage) :
    Call (MlsGroup M.Secrets) String (M.MlsMessageOut × M.MlsMessageOut) := fun group ↦
  match M.addMembers group keyPackages with
  | .ok bundle => (.ok (bundle.commit, bundle.welcome), group.stage M bundle)
  | .error e => (.err e, group)

def removeMembers (leaves : List UInt32) : Call (MlsGroup M.Secrets) String M.MlsMessageOut :=
  fun group ↦
    match M.removeMembers group leaves with
    | .ok bundle => (.ok bundle.commit, group.stage M bundle)
    | .error e => (.err e, group)

/-- The staged commit takes effect.  Without one nothing changes. -/
def merged (group : MlsGroup M.Secrets) (secrets : M.Secrets) : MlsGroup M.Secrets :=
  match group.pendingCommit with
  | some members =>
      { group with
        epoch := group.epoch + 1, members := members, pendingCommit := none, secrets := secrets }
  | none => group

def mergePendingCommit : Call (MlsGroup M.Secrets) String Unit := fun group ↦
  match M.mergePendingCommit group with
  | .ok secrets => (.ok (), group.merged M secrets)
  | .error e => (.err e, group)

def clearPendingCommit : Call (MlsGroup M.Secrets) String Unit := fun group ↦
  match M.clearPendingCommit group with
  | .ok secrets => (.ok (), { group with pendingCommit := none, secrets := secrets })
  | .error e => (.err e, group)

def createMessage (plaintext : Bytes) : Call (MlsGroup M.Secrets) String M.MlsMessageOut :=
  fun group ↦
    match M.createMessage group plaintext with
    | .ok (message, secrets) => (.ok message, { group with secrets := secrets })
    | .error e => (.err e, group)

def processMessage (message : ProtocolMessage) :
    Call (MlsGroup M.Secrets) ProcessMessageError (Option UInt32 × ProcessedMessageContent) :=
  fun group ↦
    match M.processMessage group message with
    | .ok processed =>
        (.ok (processed.sender, processed.content), { group with secrets := processed.secrets })
    | .error e => (.err e, group)

/-- Another member's commit takes effect; one that removes us leaves the group inactive. -/
def mergeStagedCommit (commit : StagedCommit) : Call (MlsGroup M.Secrets) String Unit := fun group ↦
  match M.mergeStagedCommit group commit with
  | .ok secrets =>
      (.ok (),
        { group with
          epoch := group.epoch + 1
          members := commit.members
          pendingCommit := none
          isActive := commit.epochAuthenticator.isSome
          secrets := secrets })
  | .error e => (.err e, group)

section Answers

variable {M} {group : MlsGroup M.Secrets}

theorem addMembers_of_ok {keyPackages : List KeyPackage}
    {bundle : CommitBundle M.Secrets M.MlsMessageOut}
    (h : M.addMembers group keyPackages = .ok bundle) :
    addMembers M keyPackages group = (.ok (bundle.commit, bundle.welcome), group.stage M bundle) := by
  rw [addMembers, h]

theorem addMembers_of_error {keyPackages : List KeyPackage} {e : String}
    (h : M.addMembers group keyPackages = .error e) :
    addMembers M keyPackages group = (.err e, group) := by
  rw [addMembers, h]

theorem removeMembers_of_ok {leaves : List UInt32}
    {bundle : CommitBundle M.Secrets M.MlsMessageOut}
    (h : M.removeMembers group leaves = .ok bundle) :
    removeMembers M leaves group = (.ok bundle.commit, group.stage M bundle) := by
  rw [removeMembers, h]

theorem removeMembers_of_error {leaves : List UInt32} {e : String}
    (h : M.removeMembers group leaves = .error e) :
    removeMembers M leaves group = (.err e, group) := by
  rw [removeMembers, h]

theorem mergePendingCommit_of_ok {secrets : M.Secrets}
    (h : M.mergePendingCommit group = .ok secrets) :
    mergePendingCommit M group = (.ok (), group.merged M secrets) := by
  rw [mergePendingCommit, h]

theorem mergePendingCommit_of_error {e : String} (h : M.mergePendingCommit group = .error e) :
    mergePendingCommit M group = (.err e, group) := by
  rw [mergePendingCommit, h]

theorem clearPendingCommit_of_ok {secrets : M.Secrets}
    (h : M.clearPendingCommit group = .ok secrets) :
    clearPendingCommit M group = (.ok (), { group with pendingCommit := none, secrets := secrets }) := by
  rw [clearPendingCommit, h]

theorem createMessage_of_ok {plaintext : Bytes} {message : M.MlsMessageOut} {secrets : M.Secrets}
    (h : M.createMessage group plaintext = .ok (message, secrets)) :
    createMessage M plaintext group = (.ok message, { group with secrets := secrets }) := by
  rw [createMessage, h]

theorem createMessage_of_error {plaintext : Bytes} {e : String}
    (h : M.createMessage group plaintext = .error e) :
    createMessage M plaintext group = (.err e, group) := by
  rw [createMessage, h]

@[simp] theorem merged_stage_epoch (bundle : CommitBundle M.Secrets M.MlsMessageOut)
    (secrets : M.Secrets) : ((group.stage M bundle).merged M secrets).epoch = group.epoch + 1 := rfl

end Answers

variable {M}

def memberAt {κ : Type} (group : MlsGroup κ) (index : UInt32) : Option GroupMember :=
  group.members.find? (·.index == index)

/-- The signature keys seated in the group. -/
def seated {κ : Type} (group : MlsGroup κ) : List SignerKey :=
  group.members.map fun m ↦ ⟨m.signatureKey⟩

end MlsGroup

/-! ## de-mls -/

/-- A de-mls member id: the big-endian leaf index. -/
abbrev MemberId := Bytes

/-- `to_be_bytes`. -/
def leafBytes (index : UInt32) : Bytes := (leBytes 4 index.toNat).reverse

def MemberId.from (member : GroupMember) : MemberId := leafBytes member.index

structure MemberWelcome where
  welcomeBytes : Bytes
  conversationSyncBytes : Bytes
  -- the signature keys of the joiners it admits
  joinerIdentities : List Bytes
deriving DecidableEq

/-- The payload of an application message; a post is a `conversationMessage`. -/
inductive AppMessage where
  | conversationMessage (message : Bytes)
  | other
deriving DecidableEq

inductive ConversationEvent where
  | conversationMessage (message : Option AppMessage) (sender : LeafNode)
  | welcomeReady (welcome : MemberWelcome)
  | membersChanged (added : List GroupMember) (removed : List MemberId)
  | commitApplied
  | leaving
  | other
deriving DecidableEq

structure Outbound where
  conversationId : String
  sender : Bytes
  payload : Bytes
deriving DecidableEq

inductive ConversationError where
  | alreadyMember
  | memberGone
  | other (text : String)
deriving DecidableEq

/-- What one de-mls call leads to: its state, and what it adds to the two queues. -/
structure Turn (κ : Type) where
  core : κ
  events : List ConversationEvent := []
  outbound : List Outbound := []

/-- de-mls.  A call may move its state and fill its queues also when it fails. -/
structure DeMls where
  Core : Type
  membersView : Core → List GroupMember
  memberIdBytes : Core → Bytes
  -- in nanoseconds
  nextWakeupIn : Core → Option Nat
  -- the draw, the id, the creator, the name and the description, and the initial members
  create : Nat → String → Signer → String → String → List Bytes →
    Except ConversationError (Turn Core)
  join : Nat → MemberWelcome → Except ConversationError (Option (String × Turn Core))
  sendMessage : Core → Bytes → Except ConversationError Unit × Turn Core
  -- the application id of the frame's sender, and the frame
  processInbound : Core → Bytes → Bytes → Except ConversationError Unit × Turn Core
  poll : Core → Turn Core
  addMember : Core → Bytes → Except ConversationError Unit × Turn Core
  removeMember : Core → MemberId → Except ConversationError Unit × Turn Core

/-- A de-mls conversation: its state, and what it has queued since the last drain. -/
structure Conversation (D : DeMls) where
  core : D.Core
  events : List ConversationEvent := []
  outbound : List Outbound := []

namespace Conversation

variable {D : DeMls}

def queued (conversation : Conversation D) (turn : Turn D.Core) : Conversation D :=
  { core := turn.core
    events := conversation.events ++ turn.events
    outbound := conversation.outbound ++ turn.outbound }

/-- A fallible de-mls call. -/
def turn (f : D.Core → Except ConversationError Unit × Turn D.Core) :
    Call (Conversation D) ConversationError Unit := fun conversation ↦
  match f conversation.core with
  | (.ok _, turn) => (.ok (), conversation.queued turn)
  | (.error e, turn) => (.err e, conversation.queued turn)

theorem turn_of_ok {f : D.Core → Except ConversationError Unit × Turn D.Core}
    {conversation : Conversation D} {t : Turn D.Core} (h : f conversation.core = (.ok (), t)) :
    turn f conversation = (.ok (), conversation.queued t) := by
  rw [turn, h]

theorem turn_of_error {f : D.Core → Except ConversationError Unit × Turn D.Core}
    {conversation : Conversation D} {e : ConversationError} {t : Turn D.Core}
    (h : f conversation.core = (.error e, t)) :
    turn f conversation = (.err e, conversation.queued t) := by
  rw [turn, h]

def sendMessage (bytes : Bytes) : Call (Conversation D) ConversationError Unit :=
  turn fun core ↦ D.sendMessage core bytes

def processInbound (senderAppId inner : Bytes) : Call (Conversation D) ConversationError Unit :=
  turn fun core ↦ D.processInbound core senderAppId inner

def addMember (keyPackage : Bytes) : Call (Conversation D) ConversationError Unit :=
  turn fun core ↦ D.addMember core keyPackage

def removeMember (target : MemberId) : Call (Conversation D) ConversationError Unit :=
  turn fun core ↦ D.removeMember core target

def poll {ε : Type} : Call (Conversation D) ε Unit :=
  Call.modify fun conversation ↦ conversation.queued (D.poll conversation.core)

def drainEvents {ε : Type} : Call (Conversation D) ε (List ConversationEvent) := fun conversation ↦
  (.ok conversation.events, { conversation with events := [] })

def drainOutbound {ε : Type} : Call (Conversation D) ε (List Outbound) := fun conversation ↦
  (.ok conversation.outbound, { conversation with outbound := [] })

def membersView (conversation : Conversation D) : List GroupMember := D.membersView conversation.core

def memberIdBytes (conversation : Conversation D) : Bytes := D.memberIdBytes conversation.core

def nextWakeupIn (conversation : Conversation D) : Option Nat := D.nextWakeupIn conversation.core

end Conversation

/-! ## prost -/

structure EnvelopeV1 where
  conversationHint : String
  payload : Bytes
deriving DecidableEq

inductive EncryptedPayload where
  | plaintext (payload : Bytes)
  | other
deriving DecidableEq

/-- An invite as it arrives, before its content is read. -/
inductive InviteFrame where
  | groupV1 (welcomeBytes : Bytes)
  | groupV2 (welcomeBytes : Bytes)
  | groupV3 (welcomeBytes : Bytes)
deriving DecidableEq

inductive GroupV2Payload where
  | deMlsWrapper (bytes : Bytes)
  | mlsCommitMessage (bytes : Bytes)
deriving DecidableEq

structure GroupV2Frame where
  payload : Option GroupV2Payload
  senderAppId : Bytes
deriving DecidableEq

structure GroupV3Payload where
  encryptedHeader : Bytes
  encryptedFrame : Bytes
deriving DecidableEq

/-- The content of a `GroupV3Frame`, when it is one. -/
structure GroupV3Frame where
  content : Option Bytes
deriving DecidableEq

/-- The messages that are decoded, and those whose bytes are hashed or sealed before they travel. -/
structure Proto where
  decodeEnvelope : Bytes → Except String EnvelopeV1
  decodeInboxFrame : Bytes → Except String (Option InviteFrame)
  decodeMemberWelcome : Bytes → Except String MemberWelcome
  decodeEncryptedPayload : Bytes → Except String EncryptedPayload
  decodeReliable : Bytes → Except String ReliablePayload
  encodeReliable : ReliablePayload → Bytes
  decodeGroupV2Frame : Bytes → Except String GroupV2Frame
  encodeGroupV2Frame : GroupV2Frame → Bytes
  decodeGroupV3Payload : Bytes → Except String GroupV3Payload
  decodeGroupV3Frame : Bytes → Except String GroupV3Frame
  encodeGroupV3Frame : GroupV3Frame → Bytes

/-! ## Everything together -/

/-- What the code is built against. -/
structure Platform where
  -- `Blake2b`, by its output size, on the components it is fed
  blake2b : Nat → List Bytes → Bytes
  -- random bytes, by their number and the draw
  randomBytes : Nat → Nat → Bytes
  overflowChecks : Bool
  proto : Proto
  mls : OpenMls
  demls : DeMls

namespace Platform

variable (P : Platform)

def blake2bHex (size : Nat) (components : List Bytes) : String :=
  hexEncode (P.blake2b size components)

-- `hash_size::MessageId`
def messageIdSize : Nat := 32

-- `hash_size::DeliveryAddr`
def deliveryAddrSize : Nat := 4

-- `hash_size::ConvoId`
def convoIdSize : Nat := 6

/-- The part the causal history is built against. -/
def build : Build :=
  { blake2b := P.blake2b messageIdSize, overflowChecks := P.overflowChecks }

end Platform

/-! ## A platform to run the model on

Every byte string is a key package, whose signer it names, and no backend ever fails. -/

namespace Sample

def keyPackage (signer : Bytes) : KeyPackage :=
  { leafNode := ⟨signer, ⟨true, []⟩⟩, hpkeInitKey := .replicate 1216 0, rest := [] }

def seat (index : UInt32) (signer : Bytes) : GroupMember :=
  { signatureKey := signer, credential := ⟨true, []⟩, index := index }

/-- Each newcomer takes the leftmost leaf that is free. -/
def seatNext (members : List GroupMember) : List KeyPackage → List GroupMember
  | [] => members
  | k :: packages =>
      let free := (List.range (members.length + 1)).find? fun i ↦
        UInt32.ofNat i ∉ members.map (·.index)
      seatNext (members ++ [seat (UInt32.ofNat (free.getD 0)) k.leafNode.signatureKey]) packages

abbrev mls : OpenMls where
  Secrets := Unit
  KeyPackageIn := KeyPackage
  MlsMessageOut := Bytes
  tlsDeserialize bytes := .ok (keyPackage bytes)
  tlsDeserializeExact bytes := .ok (keyPackage bytes)
  validate := .ok
  toBytes := .ok
  create n := .ok ([UInt8.ofNat n], ())
  join _ _ := .error "no welcome"
  extractWelcome _ := .ok none
  addMembers group packages :=
    .ok { commit := [], welcome := [], secrets := (), members := seatNext group.members packages }
  removeMembers group leaves :=
    .ok { commit := [], welcome := [], secrets := ()
          members := group.members.filter fun m ↦ m.index ∉ leaves }
  mergePendingCommit _ := .ok ()
  clearPendingCommit _ := .ok ()
  createMessage _ plaintext := .ok (plaintext, ())
  protocolMessage _ := .error "no message"
  processMessage _ _ := .error (.other "no message")
  mergeStagedCommit _ _ := .ok ()

-- the state of a conversation is its roster
abbrev demls : DeMls where
  Core := List GroupMember
  membersView := id
  memberIdBytes _ := leafBytes 0
  nextWakeupIn _ := none
  create _ _ creator _ _ _ := .ok { core := [seat 0 creator.signer.bytes] }
  join _ _ := .ok none
  sendMessage roster _ := (.ok (), { core := roster })
  processInbound roster _ _ := (.ok (), { core := roster })
  poll roster := { core := roster }
  addMember roster _ := (.ok (), { core := roster })
  removeMember roster _ := (.ok (), { core := roster })

abbrev proto : Proto where
  decodeEnvelope _ := .error "no envelope"
  decodeInboxFrame _ := .error "no frame"
  decodeMemberWelcome _ := .error "no welcome"
  decodeEncryptedPayload bytes := .ok (.plaintext bytes)
  decodeReliable _ := .error "no message"
  encodeReliable reliable := reliable.content
  decodeGroupV2Frame bytes := .ok ⟨some (.deMlsWrapper bytes), []⟩
  encodeGroupV2Frame _ := []
  decodeGroupV3Payload _ := .error "no payload"
  decodeGroupV3Frame _ := .error "no frame"
  encodeGroupV3Frame _ := []

abbrev platform : Platform where
  blake2b _ _ := []
  randomBytes _ draw := [UInt8.ofNat draw]
  overflowChecks := true
  proto := proto
  mls := mls
  demls := demls

end Sample

end LogosChat.Conversations
