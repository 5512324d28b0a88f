import LogosChat.Cli.App

/-!
# Events that cannot be rendered

The app shortens ids to their first eight bytes.  Ids that are printed from keys are ASCII and can be cut
anywhere; a conversation id comes from a welcome and the target of a reply from the body of a message, and
there the cut may fall inside a character.
-/

namespace LogosChat.Cli

open Reasoning Crypto Conversations Messages

/-! ## Shortened ids -/

/-- The first eight bytes end between two characters. -/
def CanBeCut (id : String) : Prop := IsCharBoundary id (min 8 id.utf8ByteSize)

theorem cut_ne_panic_iff {ε : Type} {id : String} : (cut 8 id : Result ε String) ≠ .panic ↔ CanBeCut id := by
  rw [cut, Ne, sliceTo_eq_panic_iff, not_not]
  rfl

theorem canBeCut_toHex (key : SignerKey) : CanBeCut key.toHex := by
  have hascii : ∀ c ∈ hexChars key.bytes, c.toNat < 0x80 := by
    intro c hc
    have hlt := lt_of_mem_hexChars key.bytes c hc
    omega
  apply isCharBoundary_of_ascii hascii
  rw [SignerKey.toHex, hexEncode, utf8ByteSize_of_ascii hascii]
  omega

theorem displayName_ne_panic_iff {ε : Type} {s : ChatSession} :
    (s.displayName : Result ε String) ≠ .panic ↔ (s.nickname = none → CanBeCut s.chatId) := by
  unfold ChatSession.displayName
  cases s.nickname with
  | some nickname => simp
  | none => simp [cut_ne_panic_iff]

/-! ## Events -/

/-- What an event asks of the ids it shortens, and of the clock. -/
def Renders (C : Ciborium) (clock : Int) (state : AppState) : Event → Prop
  | .conversationStarted convoId _ => convoId ∈ state.chats ∨ CanBeCut convoId
  | .messageReceived convoId content _ _ => ∀ session, state.chats.lookup convoId = some session →
      0 ≤ clock ∧ ∀ target, (decode C content).inReplyTo = some target →
        (∃ m ∈ session.messages, m.messageId = some target.id) ∨ CanBeCut target.id
  | .messageAcked .. => True
  | .messageMissing convoId _ _ => ∀ session, state.chats.lookup convoId = some session →
      session.nickname = none → CanBeCut session.chatId
  | .conversationMembersChanged convoId => ∀ session, state.chats.lookup convoId = some session →
      session.nickname = none → CanBeCut session.chatId
  | .inboundError _ => True

variable {C : Ciborium} {client : Client} {clock : Int} {app : App}

theorem onConversationStarted_returns_iff {chatId : String} {kind : ConversationClass} :
    (onConversationStarted client chatId kind app).1 ≠ .panic ↔
      chatId ∈ app.state.chats ∨ CanBeCut chatId := by
  rw [onConversationStarted, Call.read_bind]
  by_cases hlisted : chatId ∈ app.state.chats
  · simp [hlisted]
  · rw [if_neg hlisted, Call.ofResult_bind_returns_iff, cut_ne_panic_iff, or_iff_right hlisted]
    apply and_iff_left
    intro label _
    exact nofun

theorem previewOf_ne_panic_iff {session : ChatSession} {target : String} :
    previewOf session target ≠ .panic ↔
      (∃ m ∈ session.messages, m.messageId = some target) ∨ CanBeCut target := by
  unfold previewOf
  cases hfind : session.messages.find? (fun m ↦ m.messageId == some target) with
  | some m =>
      have hid : m.messageId = some target := by simpa using List.find?_some hfind
      exact iff_of_true nofun (.inl ⟨m, List.mem_of_find?_eq_some hfind, hid⟩)
  | none =>
      have hnone : ¬ ∃ m ∈ session.messages, m.messageId = some target := by
        rintro ⟨m, hm, hid⟩
        have hnot := List.find?_eq_none.mp hfind m hm
        simp [hid] at hnot
      dsimp only
      rw [Result.bind_ok_ne_panic_iff, cut_ne_panic_iff, or_iff_right hnone]

theorem bodyOf_ne_panic_iff {session : ChatSession} {decoded : Message} :
    bodyOf session decoded ≠ .panic ↔ ∀ target, decoded.inReplyTo = some target →
      (∃ m ∈ session.messages, m.messageId = some target.id) ∨ CanBeCut target.id := by
  unfold bodyOf
  cases decoded.inReplyTo with
  | none => exact iff_of_true nofun nofun
  | some target =>
      dsimp only
      rw [Result.bind_ok_ne_panic_iff, previewOf_ne_panic_iff]
      constructor
      · rintro h _ ⟨⟩
        exact h
      · intro h
        exact h target rfl

theorem new_ne_panic_iff {ε : Type} {fromSelf : Bool} {content : String} {origin : MessageOrigin} :
    (DisplayMessage.new clock fromSelf content origin : Result ε DisplayMessage) ≠ .panic ↔ 0 ≤ clock := by
  rw [DisplayMessage.new, Result.bind_ok_ne_panic_iff, now]
  by_cases hclock : clock < 0
  · rw [if_pos hclock]
    simp [hclock]
  · rw [if_neg hclock]
    simp [Int.not_lt.mp hclock]

theorem onMessageReceived_returns_iff {chatId : String} {content : Bytes} {sender : AccountSigner}
    {messageId : String} :
    (onMessageReceived C client clock chatId content sender messageId app).1 ≠ .panic ↔
      ∀ session, app.state.chats.lookup chatId = some session →
        0 ≤ clock ∧ ∀ target, (decode C content).inReplyTo = some target →
          (∃ m ∈ session.messages, m.messageId = some target.id) ∨ CanBeCut target.id := by
  rw [onMessageReceived, Call.read_bind]
  cases app.state.chats.lookup chatId with
  | none => exact iff_of_true nofun nofun
  | some session =>
      dsimp only
      rw [Call.ofResult_bind_returns_iff, bodyOf_ne_panic_iff]
      simp only [Call.ofResult_bind_returns_iff, new_ne_panic_iff]
      constructor
      · rintro ⟨hbody, hnew⟩ _ ⟨⟩
        obtain ⟨body, hok⟩ := Result.exists_ok_of_ne_panic (bodyOf_ne_panic_iff.mpr hbody)
        exact ⟨(hnew body hok).1, hbody⟩
      · intro h
        have hsession := h session rfl
        exact ⟨hsession.2, fun body _ ↦ ⟨hsession.1, fun _ _ ↦ nofun⟩⟩

theorem onMessageAcked_returns {chatId messageId : String} {ackedBy : SignerKey} :
    (onMessageAcked chatId messageId ackedBy app).1 ≠ .panic := by
  rw [onMessageAcked, Call.read_bind]
  cases app.state.chats.lookup chatId with
  | none => exact nofun
  | some session =>
      dsimp only
      by_cases hunknown : session.messages.all (fun m ↦ m.messageId != some messageId) = true
      · rw [if_pos hunknown]
        exact nofun
      · rw [if_neg hunknown, Call.ofResult_bind_returns_iff, cut_ne_panic_iff]
        exact ⟨canBeCut_toHex ackedBy, fun _ _ ↦ nofun⟩

theorem onMessageMissing_returns_iff {chatId : String} {senderHint : SignerKey} :
    (onMessageMissing chatId senderHint app).1 ≠ .panic ↔
      ∀ session, app.state.chats.lookup chatId = some session →
        session.nickname = none → CanBeCut session.chatId := by
  rw [onMessageMissing, Call.read_bind]
  cases app.state.chats.lookup chatId with
  | none => exact iff_of_true nofun nofun
  | some session =>
      have hhint : (cut 8 senderHint.toHex : Result Infallible String) ≠ .panic :=
        cut_ne_panic_iff.mpr (canBeCut_toHex senderHint)
      dsimp only
      simp only [Call.ofResult_bind_returns_iff, displayName_ne_panic_iff]
      constructor
      · rintro ⟨-, hname⟩ _ ⟨⟩
        obtain ⟨short, hok⟩ := Result.exists_ok_of_ne_panic hhint
        exact (hname short hok).1
      · intro h
        exact ⟨hhint, fun _ _ ↦ ⟨h session rfl, fun _ _ ↦ nofun⟩⟩

theorem onMembersChanged_returns_iff {chatId : String} :
    (onMembersChanged client chatId app).1 ≠ .panic ↔
      ∀ session, app.state.chats.lookup chatId = some session →
        session.nickname = none → CanBeCut session.chatId := by
  rw [onMembersChanged, Call.bind_modify_returns_iff, announceMembersChanged, Call.read_bind]
  cases app.state.chats.lookup chatId with
  | none => exact iff_of_true nofun nofun
  | some session =>
      dsimp only
      rw [Call.ofResult_bind_returns_iff, displayName_ne_panic_iff]
      constructor
      · rintro ⟨hname, -⟩ _ ⟨⟩
        exact hname
      · intro h
        exact ⟨h session rfl, fun _ _ ↦ nofun⟩

/-- In every state, whatever the client says and whatever the peers wrote, an event is handled without a
panic exactly if the ids it shortens can be cut and the clock is not before the epoch. -/
theorem handleEvent_returns_iff (C : Ciborium) (client : Client) (clock : Int) (app : App) (event : Event) :
    (handleEvent C client clock event app).1 ≠ .panic ↔ Renders C clock app.state event := by
  cases event with
  | conversationStarted convoId kind => exact onConversationStarted_returns_iff
  | messageReceived convoId content sender messageId => exact onMessageReceived_returns_iff
  | messageAcked convoId messageId ackedBy => exact iff_of_true onMessageAcked_returns trivial
  | messageMissing convoId messageId senderHint => exact onMessageMissing_returns_iff
  | conversationMembersChanged convoId => exact onMembersChanged_returns_iff
  | inboundError message => exact iff_of_true nofun trivial

def emptyApp : App := { state := {}, isActive := false, commandOutput := [], status := "", userName := "saro" }

/-- A welcome into a conversation whose id has a two-byte character at its eighth byte. -/
theorem accented_id_panics :
    (handleEvent ⟨fun _ ↦ .error "", fun _ ↦ .error ""⟩ (.idle "me") 0
      (.conversationStarted "groupe-é" .group) emptyApp).1 = .panic := by
  decide +kernel

end LogosChat.Cli
