import LogosChat.Cli.App

/-!
# Commands

What the user types: a command that starts with `/`, or a message to the active chat.  A command answers
with a line for the user, with an error, or with nothing when it ends the app.
-/

namespace LogosChat.Cli

open Reasoning Crypto Conversations Messages

variable (C : Ciborium) (turn : Turn)

/-! ## Sending -/

/-- The active chat, if there is one and it can still be sent to. -/
def activeSendableChat (app : App) : Result String String :=
  match app.state.activeChat with
  | none => .err "No active chat. Use /dm or /new first."
  | some chatId =>
      if app.isActive then .ok chatId
      else .err ("Not an active conversation — it may be a stale one from a previous session, " ++
        "or you're no longer a member.")

/-- Put our own message in our own view. -/
def echoInto (chatId messageId body : String) : Call App String Unit := do
  let state ← Call.read App.state
  match state.chats.lookup chatId with
  | none => pure ()
  | some session => do
      let message ← Call.ofResult (DisplayMessage.new turn.clock true body .own)
      let sent := { message with messageId := some messageId }
      setSession { session with messages := session.messages ++ [sent] } chatId

def echoSent (chatId messageId body : String) : Call App String Unit := do
  echoInto turn chatId messageId body
  turn.saveState

/-- Encode, hand to the client and echo: the common part of `send_message` and `send_reply`. -/
def sendEncoded (encoded : Except EncodeError Bytes) (body : String) : Call App String Unit := do
  let app ← Call.read id
  let chatId ← Call.ofResult (activeSendableChat app)
  let _ ← ofExcept (encoded.mapError EncodeError.display)
  let messageId ← ofExcept turn.send
  echoSent turn chatId messageId body

def sendMessage (content : String) : Call App String Unit :=
  sendEncoded turn (encodeText C content) content

def sendReply (inReplyTo : ContentId) (content preview : String) : Call App String Unit :=
  sendEncoded turn (encodeReply C inReplyTo content) (replyBody preview content)

/-! ## The commands -/

/-- What a command says to the user. -/
abbrev Command := Call App String (Option String)

def say (text : String) : Command := pure (some text)

def helpLines : List String :=
  ["── Commands ──",
    "/account - Show your account address",
    "/dm <address> - Start a direct (1:1) chat",
    "/new <name> [address...] - Create a group chat",
    "/add <address> - Add someone to the active group",
    "/remove <address> - Remove someone from the active group",
    "/members - List members of the active conversation",
    "/reply <text> - Reply to the latest message",
    "/nickname <name> - Name the active chat",
    "/chats - List all chats",
    "/switch <name|id> - Switch active chat",
    "/delete <name|id> - Delete a chat",
    "/status - Show connection status",
    "/clear - Clear current chat messages",
    "/quit or Esc or Ctrl+C - Exit"]

def helpCommand : Command := do
  Call.each (addSystemMessage turn.clock) helpLines
  say "Help displayed"

def accountCommand : Command := do
  addSystemMessage turn.clock "── Your Account Address ──"
  addSystemMessage turn.clock turn.client.addr
  addSystemMessage turn.clock turn.client.installationName
  addSystemMessage turn.clock
    (if turn.clipboard then "Address copied to clipboard. Share it so others can reach you."
      else "Share this address so others can reach you.")
  say "Account address shown"

def dmCommand (args : String) : Command := do
  let address := trim args
  if address = "" then say "Usage: /dm <address>"
  else do
    let chatId ← ofExcept turn.create
    let label ← Call.ofResult (cut 8 chatId)
    Call.modify (startSession turn.client chatId .dm none)
    turn.saveState
    setStatus ("Direct chat started (" ++ label ++ "). Say hello!")
    say ("DM started (" ++ label ++ ")")

/-- A `BTreeSet`, or a sorted vector without its repeats. -/
def sortedUnique (xs : List String) : List String := (xs.insertionSort (· ≤ ·)).eraseReps

def newCommand (args : String) : Command :=
  match splitWhitespace args with
  | [] => say "Usage: /new <name> [address...]"
  | name :: tokens => do
      -- the creator is a member already
      let members := sortedUnique (tokens.filter (· != turn.client.addr))
      let chatId ← ofExcept turn.create
      let label ← Call.ofResult (cut 8 chatId)
      Call.modify (startSession turn.client chatId .group (some name))
      turn.saveState
      let text :=
        if members.isEmpty then "Group created (" ++ label ++ ")."
        else "Group created (" ++ label ++ "); " ++ toString members.length ++ " invite(s) pending."
      setStatus text
      say text

/-- The accounts in the group or invited to it; what the client cannot say counts as nobody. -/
def Turn.present : List String :=
  (turn.members.toOption.getD []) ++ (turn.pendingMembers.toOption.getD [])

def addCommand (args : String) : Command := do
  let address := trim args
  let state ← Call.read App.state
  if address = "" then say "Usage: /add <address>"
  else
    match state.activeChat with
    | none => Call.fail "No active conversation. Use /new to create a group."
    | some chatId =>
        if (state.chats.lookup chatId).map ChatSession.kind = some .dm then
          say "DMs are 1:1 — start a group with /new to add people."
        else if address = turn.client.addr then
          say "That's your own address — you're already in the group."
        else if turn.present.any (· == address) then
          say "That account is already in the group (or its invite is pending)."
        else do
          ofExcept turn.update
          setStatus "Invite pending — the group will commit it shortly."
          say "Invite pending"

def removeCommand (args : String) : Command := do
  let address := trim args
  let state ← Call.read App.state
  if address = "" then say "Usage: /remove <address>"
  else
    match state.activeChat with
    | none => Call.fail "No active conversation."
    | some _ => do
        ofExcept turn.update
        setStatus "Removal pending — the group will commit it shortly."
        say "Removal pending — the group will commit it shortly."

def memberRow (account : String) (isPending : Bool) : Call App String Unit := do
  let short ← Call.ofResult (cut 16 account)
  let youTag := if account = turn.client.addr then " (you)" else ""
  let pendingTag := if isPending then " (pending)" else ""
  addSystemMessage turn.clock ("  • " ++ short ++ "…" ++ youTag ++ pendingTag)

def membersCommand : Command := do
  let state ← Call.read App.state
  match state.activeChat with
  | none => Call.fail "No active conversation."
  | some _ => do
      let participants ← ofExcept turn.participants
      let pending ← ofExcept turn.pendingMembers
      let joined := sortedUnique participants
      let invited := sortedUnique (pending.filter (!joined.contains ·))
      let total := toString (joined.length + invited.length)
      addSystemMessage turn.clock ("── Members (" ++ total ++ ") ──")
      Call.each (fun account ↦ memberRow turn account false) joined
      Call.each (fun account ↦ memberRow turn account true) invited
      say (total ++ " member(s)")

/-- The most recent message with an id, and its preview. -/
def replyTarget (session : ChatSession) : Option (ContentId × String) :=
  session.messages.reverse.findSome? fun m ↦ m.messageId.map fun id ↦ (⟨id⟩, snippetOf m.content)

def replyCommand (args : String) : Command := do
  let text := trim args
  let state ← Call.read App.state
  if text = "" then say "Usage: /reply <text>"
  else
    match state.activeChat with
    | none => Call.fail "No active chat. Use /dm or /new first."
    | some chatId =>
        match (state.chats.lookup chatId).bind replyTarget with
        | none => say "Nothing to reply to yet."
        | some (target, preview) => do
            sendReply C turn target text preview
            say "Reply sent"

def nicknameCommand (args : String) : Command := do
  let state ← Call.read App.state
  if args = "" then say "Usage: /nickname <name>"
  else
    match state.activeChat with
    | none => Call.fail "No active chat."
    | some chatId =>
        match state.chats.lookup chatId with
        | none => Call.fail "Chat session not found."
        | some session => do
            setSession { session with nickname := some args } chatId
            turn.saveState
            setStatus ("Chat named '" ++ args ++ "'.")
            say ("Nickname set to '" ++ args ++ "'")

def chatsCommand : Command := do
  showChatsList turn.client turn.clock
  let state ← Call.read App.state
  let n := state.chats.keys.length
  say (if n = 0 then "No chats yet" else toString n ++ " chat(s)")

def switchCommand (args : String) : Command := do
  let state ← Call.read App.state
  if args = "" then say "Usage: /switch <nickname|id-prefix>"
  else
    match resolveChatId state args with
    | none => Call.fail ("No chat matching '" ++ args ++ "'.")
    | some chatId => do
        let label ← Call.ofResult (labelOf state chatId)
        Call.modify (setActiveChat turn.client (some chatId))
        turn.saveState
        setStatus ("Switched to '" ++ label ++ "'.")
        say ("Switched to '" ++ label ++ "'")

/-- The chats without this one; if it was active, the first of the others is. -/
def removeChat (chatId : String) (app : App) : App :=
  let chats := app.state.chats.erase chatId
  let activeChat := if app.state.activeChat = some chatId then chats.keys.head? else app.state.activeChat
  { app with state := { chats, activeChat } }

def deleteCommand (args : String) : Command := do
  let state ← Call.read App.state
  if args = "" then say "Usage: /delete <nickname|id-prefix>"
  else
    match resolveChatId state args with
    | none => Call.fail ("No chat matching '" ++ args ++ "'.")
    | some chatId => do
        let label ← Call.ofResult (labelOf state chatId)
        Call.modify (removeChat chatId)
        turn.saveState
        setStatus ("Deleted '" ++ label ++ "'.")
        say ("Deleted '" ++ label ++ "'")

/-- The active chat in the status. -/
def activeLabel (state : AppState) : Result String String :=
  match state.activeChat.bind state.chats.lookup with
  | none => .ok "none"
  | some session => do
      let name ← session.displayName
      let short ← cut 8 session.chatId
      .ok (name ++ " (" ++ short ++ ")")

def statusCommand : Command := do
  let app ← Call.read id
  let label ← Call.ofResult (activeLabel app.state)
  say ("User: " ++ app.userName ++ "\nIdentity: " ++ turn.client.installationName ++ "\nChats: " ++
    toString app.state.chats.keys.length ++ "\nActive: " ++ label)

/-- The messages of the active chat go, if it is listed. -/
def clearMessages : Call App String Unit := do
  let state ← Call.read App.state
  match state.activeChat with
  | none => pure ()
  | some chatId =>
      match state.chats.lookup chatId with
      | none => pure ()
      | some session => do
          setSession { session with messages := [] } chatId
          turn.saveState

def clearCommand : Command := do
  clearMessages turn
  say "Messages cleared"

/-- The text before the first space, and the text after it. -/
def splitCommand (cmd : String) : String × String :=
  (String.ofList (cmd.toList.takeWhile (· != ' ')),
    String.ofList ((cmd.toList.dropWhile (· != ' ')).drop 1))

def handleCommand (cmd : String) : Command :=
  let (command, args) := splitCommand cmd
  match command with
  | "/help" => helpCommand turn
  | "/account" => accountCommand turn
  | "/dm" => dmCommand turn args
  | "/new" => newCommand turn args
  | "/add" => addCommand turn args
  | "/remove" => removeCommand turn args
  | "/members" => membersCommand turn
  | "/reply" => replyCommand C turn args
  | "/nickname" => nicknameCommand turn args
  | "/chats" => chatsCommand turn
  | "/switch" => switchCommand turn args
  | "/delete" => deleteCommand turn args
  | "/status" => statusCommand turn
  | "/clear" => clearCommand turn
  | "/quit" => pure none
  | _ => say ("Unknown command: " ++ command ++ ". Type /help for commands.")

end LogosChat.Cli
