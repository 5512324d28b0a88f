import LogosChat.Conversations.Core
import LogosChat.Crypto
import LogosChat.Messages.MessageTypes
import LogosChat.Reasoning.Text
import Mathlib.Data.List.AList
import Mathlib.Data.List.Sort

/-!
# The terminal app

The state of `chat-cli`: the chats it lists, the active one, and a copy of whether that one can be sent
to.  The client behind it is outside: what it answers during a call is an input of the call, and so are the
clock, the clipboard and the state file.
-/

namespace LogosChat.Cli

open Reasoning Crypto Conversations Messages

variable {ε α : Type}

/-! ## Messages and chats -/

/-- Attribution of a displayed message. -/
inductive MessageOrigin where
  | own
  | foreign (account : String)
deriving DecidableEq

structure DisplayMessage where
  fromSelf : Bool
  content : String
  timestamp : UInt64
  messageId : Option String
  deliveredTo : List String
  origin : MessageOrigin
deriving DecidableEq

/-- Milliseconds since the epoch; a clock set before it is a panic. -/
def now (clock : Int) : Result ε UInt64 :=
  if clock < 0 then .panic else .ok (UInt64.ofNat clock.toNat)

def DisplayMessage.new (clock : Int) (fromSelf : Bool) (content : String) (origin : MessageOrigin) :
    Result ε DisplayMessage := do
  let timestamp ← now clock
  .ok { fromSelf, content, timestamp, messageId := none, deliveredTo := [], origin }

/-- One-line snippet of a message body. -/
def snippetOf (body : String) : String :=
  let line := firstLine body
  let short := String.ofList (line.toList.take 24)
  if 24 < line.toList.length then short ++ "…" else short

/-- A reply's display body. -/
def replyBody (preview body : String) : String := "↩ " ++ preview ++ "\n" ++ body

-- `{:?}`
def classText : ConversationClass → String
  | .dm => "Dm"
  | .group => "Group"

structure ChatSession where
  chatId : String
  nickname : Option String
  kind : ConversationClass
  messages : List DisplayMessage
deriving DecidableEq

/-- The nickname if there is one, otherwise the start of the chat id. -/
def ChatSession.displayName (s : ChatSession) : Result ε String :=
  match s.nickname with
  | some nickname => .ok nickname
  | none => cut 8 s.chatId

/-- The chats by their ids, in the order in which the hash map lists them. -/
abbrev Chats := AList fun _ : String ↦ ChatSession

structure AppState where
  chats : Chats := ∅
  activeChat : Option String := none

structure App where
  state : AppState
  isActive : Bool
  commandOutput : List DisplayMessage
  status : String
  userName : String

/-! ## The client -/

/-- The client as the app sees it. -/
structure Client where
  addr : String
  installationName : String
  /-- The conversations loaded this session, each with what its own `can_send` says. -/
  convos : String → Option Bool

def Client.canSend (client : Client) (convoId : String) : Bool := (client.convos convoId).getD false

/-- A client that has loaded nothing this session. -/
def Client.idle (addr : String) : Client := { addr, installationName := addr, convos := fun _ ↦ none }

/-- A sender that the client has resolved to an account. -/
structure AccountSigner where
  signer : SignerKey
  account : KeyBytes
deriving DecidableEq

def AccountSigner.accountText (s : AccountSigner) : String := hexEncode s.account.toList

/-- A discrete chat event. -/
inductive Event where
  | conversationStarted (convoId : String) (kind : ConversationClass)
  | messageReceived (convoId : String) (content : Bytes) (sender : AccountSigner) (messageId : String)
  | messageAcked (convoId messageId : String) (ackedBy : SignerKey)
  | messageMissing (convoId messageId : String) (senderHint : SignerKey)
  | conversationMembersChanged (convoId : String)
  | inboundError (message : String)
deriving DecidableEq

/-- What the client and the system answer while the app handles one input. -/
structure Turn where
  client : Client
  clock : Int
  /-- `create_direct_conversation` and `create_group_conversation`. -/
  create : Except String String
  /-- The accounts of the members, of the invited and of the participants, as they are displayed. -/
  members : Except String (List String)
  pendingMembers : Except String (List String)
  participants : Except String (List String)
  /-- `add_group_participants` and `remove_group_participants`. -/
  update : Except String Unit
  /-- `send_message`. -/
  send : Except String String
  clipboard : Bool
  /-- What went wrong with the state file. -/
  save : Option String

def ofExcept : Except String α → Call App String α
  | .ok a => pure a
  | .error e => Call.fail e

def Turn.saveState (turn : Turn) : Call App String Unit :=
  match turn.save with
  | none => pure ()
  | some fault => Call.fail fault

/-! ## Parts of the screen -/

def setStatus (status : String) : Call App ε Unit := Call.modify fun app ↦ { app with status := status }

def addSystemMessage (clock : Int) (content : String) : Call App ε Unit := do
  let message ← Call.ofResult (DisplayMessage.new clock true content .own)
  Call.modify fun app ↦ { app with commandOutput := app.commandOutput ++ [message] }

def setSession (session : ChatSession) (chatId : String) : Call App ε Unit :=
  Call.modify fun app ↦
    { app with state := { app.state with chats := app.state.chats.replace chatId session } }

def setActiveChat (client : Client) (chatId : Option String) (app : App) : App :=
  { app with
    isActive := (chatId.map client.canSend).getD false
    state := { app.state with activeChat := chatId }
    commandOutput := [] }

/-- Insert a freshly created conversation and make it active. -/
def startSession (client : Client) (chatId : String) (kind : ConversationClass) (nickname : Option String)
    (app : App) : App :=
  let session : ChatSession := { chatId, nickname, kind, messages := [] }
  setActiveChat client (some chatId)
    { app with state := { app.state with chats := app.state.chats.insert chatId session } }

/-- A line of the chat list. -/
def chatRow (client : Client) (active : Option String) (s : ChatSession) : Result ε String := do
  let activeTag := if active = some s.chatId then " (active)" else ""
  let readOnlyTag := if client.canSend s.chatId then "" else " (read-only)"
  let name ← s.displayName
  let short ← cut 8 s.chatId
  .ok ("  • [" ++ classText s.kind ++ "] " ++ name ++ " (" ++ short ++ ")" ++ activeTag ++ readOnlyTag)

/-- Render the chat list. -/
def showChatsList (client : Client) (clock : Int) : Call App ε Unit := do
  Call.modify fun app ↦ { app with commandOutput := [] }
  let state ← Call.read App.state
  let sessions := state.chats.entries.map Sigma.snd
  if sessions.isEmpty then addSystemMessage clock "No chats yet. Use /dm or /new to start one."
  else do
    addSystemMessage clock ("── Your Chats (" ++ toString sessions.length ++ ") ──")
    Call.each (fun s ↦ do
      let label ← Call.ofResult (chatRow client state.activeChat s)
      addSystemMessage clock label) sessions

/-- Find a chat id by nickname (exact) or chat id prefix. -/
def resolveChatId (state : AppState) (query : String) : Option String :=
  match state.chats.entries.find? (fun e ↦ e.2.nickname == some query) with
  | some e => some e.1
  | none => state.chats.keys.find? fun id ↦ query.toList.isPrefixOf id.toList

/-- `self.state.chats[&chat_id].display_name()`. -/
def labelOf (state : AppState) (chatId : String) : Result ε String :=
  match state.chats.lookup chatId with
  | some session => session.displayName
  | none => .panic

def welcome (userName : String) (chatCount : Nat) : String :=
  if chatCount = 0 then "Welcome, " ++ userName ++ "! Type /help for commands."
  else "Welcome back, " ++ userName ++ "! " ++ toString chatCount ++
    " chat(s) loaded — read-only from a previous session; start a new /dm or /new to chat. Type /help."

/-- `ChatApp::new`, with the state the file holds.  It opens on the roster, with no active chat. -/
def new (client : Client) (clock : Int) (userName : String) (saved : AppState) (fault : Option String) :
    Result String App :=
  match fault with
  | some text => .err text
  | none =>
      let app : App :=
        { state := { saved with activeChat := none }
          isActive := false
          commandOutput := []
          status := welcome userName saved.chats.keys.length
          userName }
      match (showChatsList client clock : Call App String Unit) app with
      | (.ok _, opened) => .ok opened
      | (.err e, _) => .err e
      | (.panic, _) => .panic

/-! ## Events -/

section Events

variable (C : Ciborium) (client : Client) (clock : Int)

def onConversationStarted (chatId : String) (kind : ConversationClass) : Call App Infallible Unit := do
  let state ← Call.read App.state
  if chatId ∈ state.chats then pure ()
  else do
    let label ← Call.ofResult (cut 8 chatId)
    setStatus ("New " ++ classText kind ++ " (" ++ label ++ ")! Use /nickname to name it.")
    Call.modify (startSession client chatId kind none)

/-- The replied-to message as a preview, or the start of its id. -/
def previewOf (session : ChatSession) (target : String) : Result Infallible String :=
  match session.messages.find? (fun m ↦ m.messageId == some target) with
  | some m => .ok (snippetOf m.content)
  | none => do
      let short ← cut 8 target
      .ok ("re: " ++ short)

def bodyOf (session : ChatSession) (decoded : Message) : Result Infallible String :=
  match decoded.inReplyTo with
  | none => .ok decoded.content.display
  | some target => do
      let preview ← previewOf session target.id
      .ok (replyBody preview decoded.content.display)

def onMessageReceived (chatId : String) (content : Bytes) (sender : AccountSigner) (messageId : String) :
    Call App Infallible Unit := do
  let account := sender.accountText
  let origin := if account = client.addr then MessageOrigin.own else .foreign account
  let state ← Call.read App.state
  match state.chats.lookup chatId with
  | none => pure ()
  | some session => do
      let body ← Call.ofResult (bodyOf session (decode C content))
      let message ← Call.ofResult (DisplayMessage.new clock false body origin)
      let received := { message with messageId := some messageId }
      setSession { session with messages := session.messages ++ [received] } chatId

/-- `message.delivered_to`, on the first message with this id. -/
def markDelivered (messageId peer : String) : List DisplayMessage → List DisplayMessage
  | [] => []
  | m :: ms =>
      if m.messageId = some messageId then
        (if peer ∈ m.deliveredTo then m else { m with deliveredTo := m.deliveredTo ++ [peer] }) :: ms
      else m :: markDelivered messageId peer ms

def onMessageAcked (chatId messageId : String) (ackedBy : SignerKey) : Call App Infallible Unit := do
  let state ← Call.read App.state
  match state.chats.lookup chatId with
  | none => pure ()
  | some session =>
      -- sent before this session, or not ours
      if session.messages.all (fun m ↦ m.messageId != some messageId) then pure ()
      else do
        let short ← Call.ofResult (cut 8 ackedBy.toHex)
        let messages := markDelivered messageId (short ++ "…") session.messages
        setSession { session with messages := messages } chatId

def onMessageMissing (chatId : String) (senderHint : SignerKey) : Call App Infallible Unit := do
  let state ← Call.read App.state
  match state.chats.lookup chatId with
  | none => pure ()
  | some session => do
      let short ← Call.ofResult (cut 8 senderHint.toHex)
      let name ← Call.ofResult session.displayName
      setStatus ("A message from " ++ short ++ "… never arrived in '" ++ name ++ "'.")

/-- The line about the change, for a chat that is listed. -/
def announceMembersChanged (chatId : String) : Call App Infallible Unit := do
  let state ← Call.read App.state
  match state.chats.lookup chatId with
  | none => pure ()
  | some session => do
      let name ← Call.ofResult session.displayName
      setStatus ("Membership changed in " ++ name ++ ".")

def onMembersChanged (chatId : String) : Call App Infallible Unit := do
  announceMembersChanged chatId
  Call.modify fun app ↦
    if app.state.activeChat = some chatId then { app with isActive := client.canSend chatId } else app

def handleEvent : Event → Call App Infallible Unit
  | .conversationStarted convoId kind => onConversationStarted client convoId kind
  | .messageReceived convoId content sender messageId =>
      onMessageReceived C client clock convoId content sender messageId
  | .messageAcked convoId messageId ackedBy => onMessageAcked convoId messageId ackedBy
  | .messageMissing convoId _ senderHint => onMessageMissing convoId senderHint
  | .conversationMembersChanged convoId => onMembersChanged client convoId
  | .inboundError message => setStatus ("Could not process incoming message: " ++ message)

end Events

end LogosChat.Cli
