import LogosChat.Cli.Commands
import LogosChat.Reasoning.Run

/-!
# The copy of `can_send`

`is_active` is a copy of what the client says of the active chat.  It is taken anew when a chat is made
active and when the members of the active chat change.  A chat becomes active in one more way, when the
active one is deleted, and can be sent to anew in one more, when it is joined again; neither takes the copy.
-/

namespace LogosChat.Cli

open Reasoning Crypto Conversations Messages

variable {C : Ciborium} {client : Client} {turn : Turn} {clock : Int} {ε : Type}

/-! ## Calls that leave the copy alone -/

/-- The active chat and the copy. -/
def activeCopy (app : App) : Option String × Bool := (app.state.activeChat, app.isActive)

/-- The call changes neither. -/
abbrev LeavesCopy {α : Type} (m : Call App ε α) : Prop := m.Keeps (Call.Same activeCopy)

theorem setStatus_leavesCopy (status : String) : LeavesCopy (setStatus status : Call App ε Unit) :=
  fun _ ↦ rfl

theorem addSystemMessage_leavesCopy (content : String) :
    LeavesCopy (addSystemMessage clock content : Call App ε Unit) :=
  (Call.keeps_ofResult _).bind fun _ _ ↦ rfl

theorem setSession_leavesCopy (session : ChatSession) (chatId : String) :
    LeavesCopy (setSession session chatId : Call App ε Unit) :=
  fun _ ↦ rfl

theorem saveState_leavesCopy : LeavesCopy turn.saveState := by
  unfold Turn.saveState
  cases turn.save with
  | none => exact Call.keeps_pure ()
  | some fault => exact Call.keeps_fail fault

theorem ofExcept_leavesCopy {α : Type} (answer : Except String α) : LeavesCopy (ofExcept answer) := by
  cases answer with
  | ok a => exact Call.keeps_pure a
  | error e => exact Call.keeps_fail e

theorem say_leavesCopy (text : String) : LeavesCopy (say text) := Call.keeps_pure _

theorem showChatsList_leavesCopy : LeavesCopy (showChatsList client clock : Call App ε Unit) := by
  refine Call.Keeps.bind (fun _ ↦ rfl) fun _ ↦ (Call.keeps_read _).bind fun state ↦ ?_
  dsimp only
  split
  · exact addSystemMessage_leavesCopy _
  · refine (addSystemMessage_leavesCopy _).bind fun _ ↦ Call.Keeps.each fun s _ ↦ ?_
    exact (Call.keeps_ofResult _).bind fun label ↦ addSystemMessage_leavesCopy label

theorem echoInto_leavesCopy (chatId messageId body : String) :
    LeavesCopy (echoInto turn chatId messageId body) := by
  refine (Call.keeps_read _).bind fun state ↦ ?_
  split
  · exact Call.keeps_pure ()
  · exact (Call.keeps_ofResult _).bind fun _ ↦ setSession_leavesCopy _ _

theorem sendEncoded_leavesCopy (encoded : Except EncodeError Bytes) (body : String) :
    LeavesCopy (sendEncoded turn encoded body) := by
  refine (Call.keeps_read _).bind fun app ↦ (Call.keeps_ofResult _).bind fun chatId ↦ ?_
  refine (ofExcept_leavesCopy _).bind fun _ ↦ (ofExcept_leavesCopy _).bind fun messageId ↦ ?_
  exact (echoInto_leavesCopy _ _ _).bind fun _ ↦ saveState_leavesCopy

/-! ## Commands that leave the copy alone -/

theorem helpCommand_leavesCopy : LeavesCopy (helpCommand turn) :=
  (Call.Keeps.each fun _ _ ↦ addSystemMessage_leavesCopy _).bind fun _ ↦ say_leavesCopy _

theorem accountCommand_leavesCopy : LeavesCopy (accountCommand turn) := by
  refine (addSystemMessage_leavesCopy _).bind fun _ ↦ (addSystemMessage_leavesCopy _).bind fun _ ↦ ?_
  refine (addSystemMessage_leavesCopy _).bind fun _ ↦ (addSystemMessage_leavesCopy _).bind fun _ ↦ ?_
  exact say_leavesCopy _

theorem addCommand_leavesCopy (args : String) : LeavesCopy (addCommand turn args) := by
  refine (Call.keeps_read _).bind fun state ↦ ?_
  split
  · exact say_leavesCopy _
  split
  · exact Call.keeps_fail _
  split_ifs
  · exact say_leavesCopy _
  · exact say_leavesCopy _
  · exact say_leavesCopy _
  · exact (ofExcept_leavesCopy _).bind fun _ ↦ (setStatus_leavesCopy _).bind fun _ ↦ say_leavesCopy _

theorem removeCommand_leavesCopy (args : String) : LeavesCopy (removeCommand turn args) := by
  refine (Call.keeps_read _).bind fun state ↦ ?_
  split
  · exact say_leavesCopy _
  split
  · exact Call.keeps_fail _
  · exact (ofExcept_leavesCopy _).bind fun _ ↦ (setStatus_leavesCopy _).bind fun _ ↦ say_leavesCopy _

theorem memberRow_leavesCopy (account : String) (isPending : Bool) :
    LeavesCopy (memberRow turn account isPending) :=
  (Call.keeps_ofResult _).bind fun _ ↦ addSystemMessage_leavesCopy _

theorem membersCommand_leavesCopy : LeavesCopy (membersCommand turn) := by
  refine (Call.keeps_read _).bind fun state ↦ ?_
  split
  · exact Call.keeps_fail _
  refine (ofExcept_leavesCopy _).bind fun participants ↦ (ofExcept_leavesCopy _).bind fun pending ↦ ?_
  refine (addSystemMessage_leavesCopy _).bind fun _ ↦ ?_
  refine (Call.Keeps.each fun account _ ↦ memberRow_leavesCopy account false).bind fun _ ↦ ?_
  exact (Call.Keeps.each fun account _ ↦ memberRow_leavesCopy account true).bind fun _ ↦ say_leavesCopy _

theorem replyCommand_leavesCopy (args : String) : LeavesCopy (replyCommand C turn args) := by
  refine (Call.keeps_read _).bind fun state ↦ ?_
  split
  · exact say_leavesCopy _
  split
  · exact Call.keeps_fail _
  split
  · exact say_leavesCopy _
  · exact (sendEncoded_leavesCopy _ _).bind fun _ ↦ say_leavesCopy _

theorem nicknameCommand_leavesCopy (args : String) : LeavesCopy (nicknameCommand turn args) := by
  refine (Call.keeps_read _).bind fun state ↦ ?_
  split
  · exact say_leavesCopy _
  split
  · exact Call.keeps_fail _
  split
  · exact Call.keeps_fail _
  · refine (setSession_leavesCopy _ _).bind fun _ ↦ saveState_leavesCopy.bind fun _ ↦ ?_
    exact (setStatus_leavesCopy _).bind fun _ ↦ say_leavesCopy _

theorem chatsCommand_leavesCopy : LeavesCopy (chatsCommand turn) :=
  showChatsList_leavesCopy.bind fun _ ↦ (Call.keeps_read _).bind fun _ ↦ say_leavesCopy _

theorem statusCommand_leavesCopy : LeavesCopy (statusCommand turn) :=
  (Call.keeps_read _).bind fun _ ↦ (Call.keeps_ofResult _).bind fun _ ↦ say_leavesCopy _

theorem clearCommand_leavesCopy : LeavesCopy (clearCommand turn) := by
  refine Call.Keeps.bind ?_ fun _ ↦ say_leavesCopy _
  refine (Call.keeps_read _).bind fun state ↦ ?_
  split
  · exact Call.keeps_pure ()
  split
  · exact Call.keeps_pure ()
  · exact (setSession_leavesCopy _ _).bind fun _ ↦ saveState_leavesCopy

/-! ## Calls that take the copy anew -/

/-- What `is_active` is a copy of. -/
def canSendTo (client : Client) (activeChat : Option String) : Bool :=
  (activeChat.map client.canSend).getD false

/-- The copy is right, or as it was. -/
def Settles (client : Client) (app app' : App) : Prop :=
  activeCopy app' = activeCopy app ∨ app'.isActive = canSendTo client app'.state.activeChat

instance settlesPreorder : IsPreorder App (Settles client) where
  refl _ := .inl rfl
  trans a b c hab hbc := by
    rcases hbc with hsame | hright
    · rcases hab with hsame' | hright'
      · exact .inl (hsame.trans hsame')
      · right
        obtain ⟨hactive, hcopy⟩ := Prod.mk.inj hsame
        rw [hactive, hcopy]
        exact hright'
    · exact .inr hright

theorem settles_of_leavesCopy {α : Type} {m : Call App ε α} (h : LeavesCopy m) :
    m.Keeps (Settles client) :=
  h.mono fun _ _ hsame ↦ .inl hsame

theorem settles_setActiveChat (chatId : Option String) :
    (Call.modify (setActiveChat client chatId) : Call App ε Unit).Keeps (Settles client) :=
  fun _ ↦ .inr rfl

theorem settles_startSession (chatId : String) (kind : ConversationClass) (nickname : Option String) :
    (Call.modify (startSession client chatId kind nickname) : Call App ε Unit).Keeps (Settles client) :=
  fun _ ↦ .inr rfl

theorem settles_dmCommand (args : String) : (dmCommand turn args).Keeps (Settles turn.client) := by
  unfold dmCommand
  dsimp only
  split
  · exact settles_of_leavesCopy (say_leavesCopy _)
  refine (settles_of_leavesCopy (ofExcept_leavesCopy _)).bind fun chatId ↦ ?_
  refine (Call.keeps_ofResult _).bind fun label ↦ (settles_startSession _ _ _).bind fun _ ↦ ?_
  apply settles_of_leavesCopy
  exact saveState_leavesCopy.bind fun _ ↦ (setStatus_leavesCopy _).bind fun _ ↦ say_leavesCopy _

theorem settles_newCommand (args : String) : (newCommand turn args).Keeps (Settles turn.client) := by
  unfold newCommand
  split
  · exact settles_of_leavesCopy (say_leavesCopy _)
  refine (settles_of_leavesCopy (ofExcept_leavesCopy _)).bind fun chatId ↦ ?_
  refine (Call.keeps_ofResult _).bind fun label ↦ (settles_startSession _ _ _).bind fun _ ↦ ?_
  apply settles_of_leavesCopy
  exact saveState_leavesCopy.bind fun _ ↦ (setStatus_leavesCopy _).bind fun _ ↦ say_leavesCopy _

theorem settles_switchCommand (args : String) : (switchCommand turn args).Keeps (Settles turn.client) := by
  refine (Call.keeps_read _).bind fun state ↦ ?_
  split
  · exact settles_of_leavesCopy (say_leavesCopy _)
  split
  · exact Call.keeps_fail _
  refine (Call.keeps_ofResult _).bind fun label ↦ (settles_setActiveChat _).bind fun _ ↦ ?_
  apply settles_of_leavesCopy
  exact saveState_leavesCopy.bind fun _ ↦ (setStatus_leavesCopy _).bind fun _ ↦ say_leavesCopy _

/-! ## The deletion -/

/-- If the deletion removes the active chat, the copy is right for the chat that is active afterwards. -/
def DeletesWell (client : Client) (app : App) (args : String) : Prop :=
  ∀ chatId, resolveChatId app.state args = some chatId → app.state.activeChat = some chatId →
    app.isActive = canSendTo client (app.state.chats.erase chatId).keys.head?

theorem settles_deleteCommand {app : App} {args : String} (h : DeletesWell turn.client app args) :
    Settles turn.client app (deleteCommand turn args app).2 := by
  rw [deleteCommand, Call.read_bind]
  split
  · exact settles_of_leavesCopy (say_leavesCopy _) app
  cases hresolve : resolveChatId app.state args with
  | none => exact Call.keeps_fail _ app
  | some chatId =>
      refine Call.bind_rel (Call.keeps_ofResult _ app) fun label app' hlabel ↦ ?_
      obtain ⟨-, rfl⟩ := Call.ofResult_eq_ok hlabel
      refine Call.bind_rel ?_ fun _ app' _ ↦ settles_of_leavesCopy (saveState_leavesCopy.bind fun _ ↦
        (setStatus_leavesCopy _).bind fun _ ↦ say_leavesCopy _) app'
      show Settles turn.client app (removeChat chatId app)
      by_cases hactive : app.state.activeChat = some chatId
      · right
        show app.isActive = canSendTo turn.client (removeChat chatId app).state.activeChat
        rw [h chatId hresolve hactive]
        simp [removeChat, hactive]
      · left
        simp [activeCopy, removeChat, hactive]

/-- A deletion deletes well. -/
def CommandKeeps (client : Client) (app : App) (cmd : String) : Prop :=
  (splitCommand cmd).1 = "/delete" → (splitCommand cmd).2 ≠ "" → DeletesWell client app (splitCommand cmd).2

theorem settles_handleCommand {app : App} {cmd : String} (h : CommandKeeps turn.client app cmd) :
    Settles turn.client app (handleCommand C turn cmd app).2 := by
  unfold CommandKeeps at h
  rw [handleCommand]
  generalize splitCommand cmd = parts at h ⊢
  obtain ⟨command, args⟩ := parts
  dsimp only at h ⊢
  split
  · exact settles_of_leavesCopy helpCommand_leavesCopy app
  · exact settles_of_leavesCopy accountCommand_leavesCopy app
  · exact settles_dmCommand args app
  · exact settles_newCommand args app
  · exact settles_of_leavesCopy (addCommand_leavesCopy args) app
  · exact settles_of_leavesCopy (removeCommand_leavesCopy args) app
  · exact settles_of_leavesCopy membersCommand_leavesCopy app
  · exact settles_of_leavesCopy (replyCommand_leavesCopy args) app
  · exact settles_of_leavesCopy (nicknameCommand_leavesCopy args) app
  · exact settles_of_leavesCopy chatsCommand_leavesCopy app
  · exact settles_switchCommand args app
  · by_cases hargs : args = ""
    · left
      rw [deleteCommand, Call.read_bind, if_pos hargs]
      rfl
    · exact settles_deleteCommand (h rfl hargs)
  · exact settles_of_leavesCopy statusCommand_leavesCopy app
  · exact settles_of_leavesCopy clearCommand_leavesCopy app
  · exact .inl rfl
  · exact .inl rfl

/-! ## Events -/

theorem onMessageReceived_leavesCopy (chatId : String) (content : Bytes) (sender : AccountSigner)
    (messageId : String) :
    LeavesCopy (onMessageReceived C client clock chatId content sender messageId) := by
  refine (Call.keeps_read _).bind fun state ↦ ?_
  split
  · exact Call.keeps_pure ()
  · refine (Call.keeps_ofResult _).bind fun body ↦ (Call.keeps_ofResult _).bind fun message ↦ ?_
    exact setSession_leavesCopy _ _

theorem onMessageAcked_leavesCopy (chatId messageId : String) (ackedBy : SignerKey) :
    LeavesCopy (onMessageAcked chatId messageId ackedBy) := by
  refine (Call.keeps_read _).bind fun state ↦ ?_
  split
  · exact Call.keeps_pure ()
  split
  · exact Call.keeps_pure ()
  · exact (Call.keeps_ofResult _).bind fun _ ↦ setSession_leavesCopy _ _

theorem onMessageMissing_leavesCopy (chatId : String) (senderHint : SignerKey) :
    LeavesCopy (onMessageMissing chatId senderHint) := by
  refine (Call.keeps_read _).bind fun state ↦ ?_
  split
  · exact Call.keeps_pure ()
  · refine (Call.keeps_ofResult _).bind fun short ↦ (Call.keeps_ofResult _).bind fun name ↦ ?_
    exact setStatus_leavesCopy _

theorem announceMembersChanged_leavesCopy (chatId : String) :
    LeavesCopy (announceMembersChanged chatId) := by
  refine (Call.keeps_read _).bind fun state ↦ ?_
  split
  · exact Call.keeps_pure ()
  · exact (Call.keeps_ofResult _).bind fun name ↦ setStatus_leavesCopy _

theorem settles_onConversationStarted (chatId : String) (kind : ConversationClass) :
    (onConversationStarted client chatId kind).Keeps (Settles client) := by
  refine (Call.keeps_read _).bind fun state ↦ ?_
  split
  · exact Call.keeps_pure ()
  · refine (Call.keeps_ofResult _).bind fun label ↦ ?_
    exact (settles_of_leavesCopy (setStatus_leavesCopy _)).bind fun _ ↦ settles_startSession _ _ _

theorem settles_onMembersChanged (chatId : String) :
    (onMembersChanged client chatId).Keeps (Settles client) := by
  refine (settles_of_leavesCopy (announceMembersChanged_leavesCopy chatId)).bind fun _ app ↦ ?_
  show Settles client app (if app.state.activeChat = some chatId then _ else app)
  by_cases hactive : app.state.activeChat = some chatId
  · right
    rw [if_pos hactive]
    simp [canSendTo, hactive]
  · left
    rw [if_neg hactive]

/-- The one event that says so makes the copy right. -/
theorem onMembersChanged_right {app : App} {chatId : String}
    (hreturns : (onMembersChanged client chatId app).1 ≠ .panic)
    (hactive : app.state.activeChat = some chatId) :
    (onMembersChanged client chatId app).2.isActive =
      canSendTo client (onMembersChanged client chatId app).2.state.activeChat := by
  have hcopy := announceMembersChanged_leavesCopy chatId app
  rw [onMembersChanged] at hreturns ⊢
  rw [Call.bind_modify_returns_iff] at hreturns
  obtain ⟨_, hok⟩ := Result.exists_ok_of_ne_panic hreturns
  have hcall : announceMembersChanged chatId app = (.ok (), (announceMembersChanged chatId app).2) :=
    Prod.ext hok rfl
  have hactive' : (announceMembersChanged chatId app).2.state.activeChat = some chatId :=
    (Prod.mk.inj hcopy).1.trans hactive
  rw [Call.bind_of_ok hcall]
  show (if _ then _ else _ : App).isActive = canSendTo client (if _ then _ else _ : App).state.activeChat
  rw [if_pos hactive']
  simp [canSendTo, hactive']

theorem settles_handleEvent (event : Event) : (handleEvent C client clock event).Keeps (Settles client) := by
  cases event with
  | conversationStarted convoId kind => exact settles_onConversationStarted convoId kind
  | messageReceived convoId content sender messageId =>
      exact settles_of_leavesCopy (onMessageReceived_leavesCopy convoId content sender messageId)
  | messageAcked convoId messageId ackedBy =>
      exact settles_of_leavesCopy (onMessageAcked_leavesCopy convoId messageId ackedBy)
  | messageMissing convoId messageId senderHint =>
      exact settles_of_leavesCopy (onMessageMissing_leavesCopy convoId senderHint)
  | conversationMembersChanged convoId => exact settles_onMembersChanged convoId
  | inboundError message => exact settles_of_leavesCopy (setStatus_leavesCopy _)

end LogosChat.Cli
