import LogosChat.Accounts.Address
import LogosChat.Cli.App
import LogosChat.Conversations.Core

/-!
# The client's calls and events

`ChatClient` puts the core behind a lock.  A caller's thread makes one call on the core while it holds
the lock; the worker's thread makes another, for a payload that arrived or a wakeup that is due, and
turns what the core reports into events before it lets go of the lock.
-/

namespace LogosChat.Client

open Reasoning Crypto Accounts Conversations
open Cli (Event AccountSigner)

inductive ClientError where
  | chat (error : ChatError)
  | invalidAccountAddress (text : String)
deriving DecidableEq

variable {P : Platform} {E : Ed25519} {ε : Type}

/-! ## Members -/

/-- An account address as the core's participant id. -/
def accountId (account : AccountAddr E) : ParticipantId := ⟨account.toBytes⟩

variable (E) in
/-- The account a participant id names. -/
def accountOf (participantId : ParticipantId) : Result ClientError (AccountAddr E) :=
  (AccountAddr.tryFrom E participantId.bytes).mapErr fun _ ↦
    .invalidAccountAddress (hexEncode participantId.bytes)

variable (E) in
/-- `TryFrom<libchat::Signer>`. -/
def signerOf (member : Signer) : Result ClientError AccountSigner := do
  let account ← accountOf E member.participantId
  .ok { signer := member.signer, account := E.keyBytes account.pubkey }

variable (E) in
/-- A core member as the client's type; `none` for one whose credential does not decode. -/
def decodeSigner (member : Signer) : Option AccountSigner :=
  match signerOf E member with
  | .ok signer => some signer
  | _ => none

variable (E) in
def parseAccount (account : String) : Result ClientError (AccountAddr E) :=
  (AccountAddr.fromStr E account).mapErr fun _ ↦ .invalidAccountAddress account

variable (E) in
/-- Each account address as the core's participant id; the first that is none fails the call. -/
def accountIds (accounts : List String) : Result ClientError (List ParticipantId) :=
  accounts.mapM fun account ↦ do
    let addr ← parseAccount E account
    .ok (accountId addr)

/-! ## The calls of a caller -/

section Calls

variable (E)

def createDirectConversation (account : String) : Call (Core P) ClientError String := do
  let addr ← Call.ofResult (parseAccount E account)
  (Core.createDirectConvoV1 (accountId addr)).mapErr .chat

def createGroupConversation (accounts : List String) (name desc : String) :
    Call (Core P) ClientError String := do
  let accounts ← Call.ofResult (accountIds E accounts)
  (Core.createGroupConvoV2 accounts name desc).mapErr .chat

def addGroupParticipants (convoId : String) (accounts : List String) : Call (Core P) ClientError Unit := do
  let accounts ← Call.ofResult (accountIds E accounts)
  (Core.groupAddParticipants convoId accounts).mapErr .chat

def removeGroupParticipants (convoId : String) (accounts : List String) :
    Call (Core P) ClientError Unit := do
  let accounts ← Call.ofResult (accountIds E accounts)
  (Core.groupRemoveParticipants convoId accounts).mapErr .chat

end Calls

def sendMessage (convoId : String) (content : Bytes) : Call (Core P) ClientError String :=
  (Core.sendContent convoId content).mapErr .chat

def listAllConversations : Call (Core P) ClientError (List String) :=
  Core.listAllConversations.mapErr .chat

/-! ## Events -/

section Events

variable (E)

/-- `none` for a message whose sender does not decode. -/
def observationEvent (convoId : String) : Observation → Option Event
  | .content c => (decodeSigner E c.sender.signer).map fun sender ↦
      .messageReceived convoId c.bytes sender c.messageId
  | .signersChanged => some (.conversationMembersChanged convoId)

def convoEvents (outcome : ConvoOutcome) : List Event :=
  outcome.observations.filterMap (observationEvent E outcome.convoId)

/-- `inbox_events`: the core never reports anything observed with the invite. -/
def inboxEvents (convoId : String) (conversationClass : ConversationClass) : List Event :=
  [.conversationStarted convoId conversationClass]

def eventsFromInbound : PayloadOutcome → List Event
  | .empty => []
  | .convo outcome => convoEvents E outcome
  | .inbox convoId conversationClass => inboxEvents convoId conversationClass

end Events

def deliveryAckEvents (acks : List DeliveryAck) : List Event :=
  acks.map fun a ↦ .messageAcked a.conversationId a.messageId a.ackedBy

def missingEvents (missing : List MissingMessage) : List Event :=
  missing.map fun m ↦ .messageMissing m.conversationId m.frontier.messageId m.frontier.sender

/-! ## A turn of the worker -/

def takeAcks : Call (Core P) ε (List DeliveryAck) := fun c ↦
  (.ok c.services.causal.takeAcks.1,
    { c with services := { c.services with causal := c.services.causal.takeAcks.2 } })

def takeMissingMessages : Call (Core P) ε (List MissingMessage) := fun c ↦
  (.ok c.services.causal.takeMissing.1,
    { c with services := { c.services with causal := c.services.causal.takeMissing.2 } })

variable (E) in
/-- What the core is driven by, and what a failure of it is reported as.  The two drains follow in
any case. -/
def turn (drive : Call (Core P) ChatError PayloadOutcome) (onError : ChatError → List Event) :
    Call (Core P) Infallible (List Event) := do
  let outcome ← drive.attempt
  let acks ← takeAcks
  let missing ← takeMissingMessages
  let events := match outcome with
    | .ok outcome => eventsFromInbound E outcome
    | .error e => onError e
  pure (events ++ deliveryAckEvents acks ++ missingEvents missing)

variable (E) in
/-- A payload off the transport; `describe` is the `Display` of an error. -/
def inboundTurn (describe : ChatError → String) (bytes : Bytes) : Call (Core P) Infallible (List Event) :=
  turn E (Core.handlePayload bytes) fun e ↦ [.inboundError (describe e)]

variable (E) in
/-- A wakeup that is due; a failure is only logged. -/
def wakeupTurn (convoId : String) : Call (Core P) Infallible (List Event) :=
  turn E (Core.wakeup convoId) fun _ ↦ []

end LogosChat.Client
