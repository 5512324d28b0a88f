import LogosChat.Cli.ActiveChat

/-!
# Runs of the app

The app and its client side by side: the client works in the background and hands over events, the user
types, and the app takes the events one at a time.  A panic ends the app.
-/

namespace LogosChat.Cli

open Reasoning Crypto Conversations Messages

/-- The app, its client, the events that have not been handled, and whether the app still runs. -/
structure Sys where
  app : App
  client : Client
  pending : List Event
  running : Bool

/-- During a call of the app the client moves on, too: `turn` has the client as it is then, and `events`
are those it hands over meanwhile. -/
inductive Step where
  | background (after : Client) (events : List Event)
  | command (cmd : String) (turn : Turn) (events : List Event)
  | send (content : String) (turn : Turn) (events : List Event)
  | handle (clock : Int)
  /-- The hash map may list its entries in another order. -/
  | rehash (chats : Chats)

namespace Sys

def move (s : Sys) (after : Client) (events : List Event) : Sys :=
  { s with client := after, pending := s.pending ++ events }

def leave {ε α : Type} (s : Sys) (out : Result ε α × App) : Sys :=
  { s with app := out.2, running := out.1.returned }

def step (C : Ciborium) (s : Sys) (e : Step) : Sys :=
  if s.running then
    match e with
    | .background after events => s.move after events
    | .command cmd turn events => (s.move turn.client events).leave (handleCommand C turn cmd s.app)
    | .send content turn events => (s.move turn.client events).leave (sendMessage C turn content s.app)
    | .handle clock =>
        match s.pending with
        | [] => s
        | event :: rest => { s with pending := rest }.leave (handleEvent C s.client clock event s.app)
    | .rehash chats =>
        if chats.entries.Perm s.app.state.chats.entries then
          { s with app := { s.app with state := { s.app.state with chats := chats } } }
        else s
  else s

/-! ## What a run may do -/

/-- What the client says of a conversation it has loaded changes only together with the event for it. -/
def Announced (client after : Client) (events : List Event) : Prop :=
  ∀ convoId, client.convos convoId ≠ none → after.canSend convoId ≠ client.canSend convoId →
    .conversationMembersChanged convoId ∈ events

def Announces (s : Sys) : Step → Prop
  | .background after events => Announced s.client after events
  | .command _ turn events => Announced s.client turn.client events
  | .send _ turn events => Announced s.client turn.client events
  | .handle _ => True
  | .rehash _ => True

/-- A chat that is active without being loaded is loaded only together with that event, or while one is
under way. -/
def AnnouncesLoad (s : Sys) (after : Client) (events : List Event) : Prop :=
  ∀ convoId, s.app.state.activeChat = some convoId → s.client.convos convoId = none →
    after.canSend convoId = true → .conversationMembersChanged convoId ∈ s.pending ++ events

def Covered (s : Sys) : Step → Prop
  | .background after events => s.AnnouncesLoad after events
  | .command cmd turn events => s.AnnouncesLoad turn.client events ∧ CommandKeeps turn.client s.app cmd
  | .send _ turn events => s.AnnouncesLoad turn.client events
  | .handle _ => True
  | .rehash _ => True

/-! ## What every step keeps -/

/-- An event for the active chat is under way. -/
def Outstanding (s : Sys) : Prop :=
  ∃ convoId, s.app.state.activeChat = some convoId ∧ .conversationMembersChanged convoId ∈ s.pending

def CopyRight (s : Sys) : Prop := s.app.isActive = canSendTo s.client s.app.state.activeChat

/-- The copy is right, or will be looked at. -/
def Accounted (s : Sys) : Prop := s.CopyRight ∨ s.Outstanding

variable {C : Ciborium} {s : Sys}

theorem Accounted.move (h : s.Accounted) {after : Client} {events : List Event}
    (hannounced : Announced s.client after events) (hloads : s.AnnouncesLoad after events) :
    (s.move after events).Accounted := by
  rcases h with hright | ⟨convoId, hactive, hmem⟩
  · cases hactive : s.app.state.activeChat with
    | none =>
        left
        show s.app.isActive = canSendTo after s.app.state.activeChat
        rw [hright, hactive]
        rfl
    | some convoId =>
        by_cases hsame : after.canSend convoId = s.client.canSend convoId
        · left
          show s.app.isActive = canSendTo after s.app.state.activeChat
          rw [hright, hactive]
          exact hsame.symm
        · refine .inr ⟨convoId, hactive, ?_⟩
          by_cases hloaded : s.client.convos convoId = none
          · -- a chat that was not loaded could not be sent to before
            have hbefore : s.client.canSend convoId = false := by
              rw [Client.canSend, hloaded]
              rfl
            rw [hbefore, Bool.not_eq_false] at hsame
            exact hloads convoId hactive hloaded hsame
          · exact List.mem_append_right _ (hannounced convoId hloaded hsame)
  · exact .inr ⟨convoId, hactive, List.mem_append_left _ hmem⟩

theorem Accounted.leave {ε α : Type} {out : Result ε α × App} (h : s.Accounted)
    (hsettles : Settles s.client s.app out.2) : (s.leave out).Accounted := by
  rcases hsettles with hsame | hright
  · obtain ⟨hactive, hcopy⟩ := Prod.mk.inj hsame
    rcases h with hright | ⟨convoId, hconvo, hmem⟩
    · left
      show out.2.isActive = canSendTo s.client out.2.state.activeChat
      rw [hactive, hcopy]
      exact hright
    · exact .inr ⟨convoId, hactive.trans hconvo, hmem⟩
  · exact .inl hright

/-- An event is taken off the list only to be handled, and the one that matters makes the copy right. -/
theorem Accounted.handle {event : Event} {rest : List Event} {clock : Int} (h : s.Accounted)
    (hpending : s.pending = event :: rest)
    (hreturns : (handleEvent C s.client clock event s.app).1 ≠ .panic) :
    ({ s with pending := rest }.leave (handleEvent C s.client clock event s.app)).Accounted := by
  have hsettles : Settles s.client s.app (handleEvent C s.client clock event s.app).2 :=
    settles_handleEvent event s.app
  rcases h with hright | ⟨convoId, hactive, hmem⟩
  · have hrest : Accounted { s with pending := rest } := .inl hright
    exact hrest.leave hsettles
  · rw [hpending] at hmem
    rcases List.mem_cons.mp hmem with hevent | hmem
    · subst hevent
      exact .inl (onMembersChanged_right hreturns hactive)
    · have hrest : Accounted { s with pending := rest } := .inr ⟨convoId, hactive, hmem⟩
      exact hrest.leave hsettles

theorem accounted_step {e : Step} (h : s.running = true → s.Accounted) (hannounces : s.Announces e)
    (hcovered : s.Covered e) (hrunning : (step C s e).running = true) : (step C s e).Accounted := by
  by_cases hs : s.running = true
  · have hs' := h hs
    unfold step at hrunning ⊢
    rw [if_pos hs] at hrunning ⊢
    cases e with
    | background after events => exact hs'.move hannounces hcovered
    | command cmd turn events =>
        have hmoved := hs'.move hannounces hcovered.1
        exact hmoved.leave (settles_handleCommand hcovered.2)
    | send content turn events =>
        have hmoved := hs'.move hannounces hcovered
        exact hmoved.leave (settles_of_leavesCopy (sendEncoded_leavesCopy _ _) s.app)
    | handle clock =>
        cases hpending : s.pending with
        | nil => simpa [hpending] using hs'
        | cons event rest =>
            simp only [hpending] at hrunning ⊢
            exact hs'.handle hpending (Result.returned_iff.mp hrunning)
    | rehash chats =>
        dsimp only
        split_ifs with hperm
        · exact hs'
        · exact hs'
  · unfold step at hrunning
    rw [if_neg hs] at hrunning
    exact absurd hrunning hs

/-! ## Runs -/

/-- The copy says what the client says of the active chat, and a send is refused accordingly. -/
structure Mirrors (s : Sys) : Prop where
  active : ∀ convoId, s.app.state.activeChat = some convoId → s.app.isActive = s.client.canSend convoId
  inactive : s.app.state.activeChat = none → s.app.isActive = false
  refused : (∀ chatId, activeSendableChat s.app ≠ .ok chatId) ↔
    ∀ convoId, s.app.state.activeChat = some convoId → s.client.canSend convoId = false

theorem CopyRight.mirrors (h : s.CopyRight) : s.Mirrors where
  active := by
    intro convoId hactive
    rw [h, hactive]
    rfl
  inactive := by
    intro hactive
    rw [h, hactive]
    rfl
  refused := by
    unfold activeSendableChat
    rw [h]
    cases hactive : s.app.state.activeChat with
    | none => exact iff_of_true nofun nofun
    | some convoId =>
        cases hsend : s.client.canSend convoId with
        | true => simp [canSendTo, hsend]
        | false => simp [canSendTo, hsend]

end Sys

theorem new_closed {client : Client} {clock : Int} {userName : String} {saved : AppState}
    {fault : Option String} {app : App} (h : new client clock userName saved fault = .ok app) :
    activeCopy app = (none, false) := by
  unfold new at h
  cases fault with
  | some text => cases h
  | none =>
      dsimp only at h
      split at h
      case h_1 opened hopened =>
        cases h
        exact showChatsList_leavesCopy.of_eq hopened
      case h_2 => cases h
      case h_3 => cases h

/-- In every run in which what the client says of a loaded conversation changes only with an event for it,
in which no deletion of the active chat leaves the copy of another, and in which the active chat is loaded
only with such an event, too: as long as no such event is outstanding, `is_active` says whether the active
chat can be sent to. -/
theorem isActive_mirrors_canSend (C : Ciborium) {client : Client} {clock : Int} {userName : String}
    {saved : AppState} {fault : Option String} {app : App}
    (hnew : new client clock userName saved fault = .ok app) (pending : List Event) (steps : List Step)
    (hannounces : Along (Sys.step C) Sys.Announces ⟨app, client, pending, true⟩ steps)
    (hcovered : Along (Sys.step C) Sys.Covered ⟨app, client, pending, true⟩ steps)
    (hrunning : (run (Sys.step C) ⟨app, client, pending, true⟩ steps).running = true)
    (hnone : ¬ (run (Sys.step C) ⟨app, client, pending, true⟩ steps).Outstanding) :
    (run (Sys.step C) ⟨app, client, pending, true⟩ steps).Mirrors := by
  have hstart : Sys.Accounted ⟨app, client, pending, true⟩ := by
    obtain ⟨hactive, hcopy⟩ := Prod.mk.inj (new_closed hnew)
    left
    show app.isActive = canSendTo client app.state.activeChat
    rw [hactive, hcopy]
    rfl
  have hend := (hannounces.and hcovered).invariant
    (fun s e (h : s.running = true → s.Accounted) hstep ↦ Sys.accounted_step h hstep.1 hstep.2)
    (fun _ ↦ hstart) hrunning
  rcases hend with hright | houtstanding
  · exact hright.mirrors
  · exact absurd houtstanding hnone

/-! ## Three runs -/

def plainCbor : Ciborium := ⟨fun _ ↦ .error "", fun _ ↦ .error ""⟩

/-- A client that has loaded one conversation; `canSend` is what it says of it. -/
def loungeClient (canSend : Bool) : Client :=
  { Client.idle "me" with convos := fun id ↦ if id = "lounge" then some canSend else none }

/-- A turn in which that client creates it. -/
def loungeTurn : Turn :=
  { client := loungeClient true, clock := 0, create := .ok "lounge", members := .ok [],
    pendingMembers := .ok [], participants := .ok [], update := .ok (), send := .ok "1",
    clipboard := false, save := none }

def opened (state : AppState) (status : String) (lines : List String) : Sys where
  app :=
    { state
      isActive := false
      commandOutput := lines.map fun line ↦ ⟨true, line, 0, none, [], .own⟩
      status
      userName := "saro" }
  client := .idle "me"
  pending := []
  running := true

/-- The app with no state file. -/
def freshSys : Sys :=
  opened {} "Welcome, saro! Type /help for commands." ["No chats yet. Use /dm or /new to start one."]

/-- The state file of an earlier session that had the conversation, and the app opened on it. -/
def loungeSaved : AppState :=
  { chats := (∅ : Chats).insert "lounge"
      { chatId := "lounge", nickname := none, kind := .group, messages := [] } }

def restoredSys : Sys :=
  opened loungeSaved ("Welcome back, saro! 1 chat(s) loaded — read-only from a previous session; " ++
    "start a new /dm or /new to chat. Type /help.")
    ["── Your Chats (1) ──", "  • [Group] lounge (lounge) (read-only)"]

/-- The user starts the conversation, is removed from it, and the app is told. -/
def removalSteps : List Step :=
  [.command "/dm 00" loungeTurn [],
    .background (loungeClient false) [.conversationMembersChanged "lounge"], .handle 0]

theorem removal_mirrored : (run (Sys.step plainCbor) freshSys removalSteps).Mirrors := by
  have hnew : new (.idle "me") 0 "saro" {} none = .ok freshSys.app := rfl
  have hpending : (run (Sys.step plainCbor) freshSys removalSteps).pending = [] := by decide +kernel
  apply isActive_mirrors_canSend plainCbor hnew [] removalSteps
  · refine ⟨?_, ?_, trivial, trivial⟩
    · intro convoId hloaded
      exact absurd rfl hloaded
    · intro convoId hloaded _
      have hlounge : convoId = "lounge" := by
        by_contra hother
        exact hloaded (if_neg hother)
      rw [hlounge]
      exact List.mem_singleton_self _
  · refine ⟨⟨?_, ?_⟩, ?_, trivial, trivial⟩
    · intro convoId hactive
      cases hactive
    · intro hdelete
      exact absurd hdelete (by decide)
    · intro convoId _ _ hsend
      have hlounge : convoId = "lounge" := by
        by_contra hother
        rw [Client.canSend, show (loungeClient false).convos convoId = none from if_neg hother] at hsend
        cases hsend
      rw [hlounge]
      exact List.mem_append_right _ (List.mem_singleton_self _)
  · decide +kernel
  · rintro ⟨_, _, hmem⟩
    rw [show (⟨freshSys.app, .idle "me", [], true⟩ : Sys) = freshSys from rfl, hpending] at hmem
    cases hmem

/-- The user starts the conversation and deletes it. -/
def deleteSteps : List Step := [.command "/dm 00" loungeTurn [], .command "/delete lounge" loungeTurn []]

/-- The user switches to the conversation of the earlier session, and is invited to it again. -/
def rejoinSteps : List Step :=
  [.command "/switch lounge" { loungeTurn with client := .idle "me" } [],
    .background (loungeClient true) [.conversationStarted "lounge" .group], .handle 0]

/-- After the deletion there is no active chat and the copy says that it can be sent to; after the second
invitation the active chat can be sent to and the copy says that it cannot. -/
theorem copy_left_behind :
    (new (.idle "me") 0 "saro" {} none = .ok freshSys.app ∧
      Along (Sys.step plainCbor) Sys.Announces freshSys deleteSteps ∧
      (run (Sys.step plainCbor) freshSys deleteSteps).running = true ∧
      (run (Sys.step plainCbor) freshSys deleteSteps).pending = [] ∧
      (run (Sys.step plainCbor) freshSys deleteSteps).app.state.activeChat = none ∧
      (run (Sys.step plainCbor) freshSys deleteSteps).app.isActive = true) ∧
    (new (.idle "me") 0 "saro" loungeSaved none = .ok restoredSys.app ∧
      Along (Sys.step plainCbor) Sys.Announces restoredSys rejoinSteps ∧
      (run (Sys.step plainCbor) restoredSys rejoinSteps).running = true ∧
      (run (Sys.step plainCbor) restoredSys rejoinSteps).pending = [] ∧
      (run (Sys.step plainCbor) restoredSys rejoinSteps).app.state.activeChat = some "lounge" ∧
      (run (Sys.step plainCbor) restoredSys rejoinSteps).client.canSend "lounge" = true ∧
      (run (Sys.step plainCbor) restoredSys rejoinSteps).app.isActive = false) := by
  refine ⟨⟨rfl, ⟨?_, ?_, trivial⟩, ?_⟩, rfl, ⟨?_, ?_, trivial, trivial⟩, ?_⟩
  · intro convoId hloaded
    exact absurd rfl hloaded
  · intro convoId _ hchanged
    exact absurd rfl hchanged
  · decide +kernel
  · intro convoId hloaded
    exact absurd rfl hloaded
  · intro convoId hloaded
    exact absurd rfl hloaded
  · decide +kernel

end LogosChat.Cli
