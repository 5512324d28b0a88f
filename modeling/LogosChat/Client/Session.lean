import LogosChat.Client.Events
import LogosChat.Conversations.CoreHearing

/-!
# A session of the client

The callers' threads and the worker's thread take turns on the core, in any order.  The worker sends
the events of a turn after it has let go of the lock, so calls of others may come between a turn and
its events, but not another turn.  In every such session an event about a conversation follows the one
that announced it, and each acknowledgement and each gap is passed on once.
-/

namespace LogosChat.Client

open Reasoning Crypto Accounts Conversations
open Cli (Event AccountSigner)

/-! ## The session -/

structure Session (P : Platform) where
  core : Core P
  -- what was put into the application's channel
  events : List Event := []
  -- what the worker's last turn yielded and the worker has still to send
  outgoing : List Event := []
  -- the worker has not returned
  working : Bool := true
  -- the application holds its end of the channel
  listening : Bool := true
  -- the ids that the calls of this session have returned
  created : List String := []

inductive Step (P : Platform) where
  | createDirectConversation (account : String)
  | createGroupConversation (accounts : List String) (name desc : String)
  | addGroupParticipants (convoId : String) (accounts : List String)
  | removeGroupParticipants (convoId : String) (accounts : List String)
  | sendMessage (convoId : String) (content : Bytes)
  | listAllConversations
  -- the worker takes a payload, takes a wakeup, or sends the next event
  | inbound (bytes : Bytes)
  | wakeup (convoId : String)
  | emit
  -- the client is dropped, or a channel that the worker reads is closed
  | stop
  -- the application drops its receiver
  | deafen
  | servicesChange (retrieve : String → Except String (Option Bytes)) (auth : AuthService)
      (mlsStorage : Bytes → Except String (Option (MlsGroup P.mls.Secrets)))

namespace Session

variable {P : Platform} {E : Ed25519} {α : Type}

/-- A client that has just been built: `assemble` starts with an empty causal history. -/
def start (services : ServiceContext P) : Session P :=
  { core := .assemble { services with causal := {} } }

/-- A call of a caller's thread. -/
def call (m : Call (Core P) ClientError α) (s : Session P) : Session P :=
  { s with core := (m s.core).2 }

/-- A call that returns the id of a new conversation. -/
def create (m : Call (Core P) ClientError String) (s : Session P) : Session P :=
  match m s.core with
  | (.ok convoId, core) => { s with core := core, created := s.created ++ [convoId] }
  | (_, core) => { s with core := core }

/-- A turn of the worker, which takes none before it has sent the events of the last.  A panic ends the
worker; the lock is not poisoned. -/
def work (turn : Call (Core P) Infallible (List Event)) (s : Session P) : Session P :=
  if s.working ∧ s.outgoing = [] then
    match turn s.core with
    | (.ok events, core) => { s with core := core, outgoing := events }
    | (_, core) => { s with core := core, working := false }
  else s

/-- The worker sends an event, and returns when nobody listens. -/
def emit (s : Session P) : Session P :=
  match s.outgoing with
  | [] => s
  | event :: rest =>
      if ¬ s.working then s
      else if s.listening then { s with events := s.events ++ [event], outgoing := rest }
      else { s with working := false }

variable (E) in
def step (describe : ChatError → String) (s : Session P) : Step P → Session P
  | .createDirectConversation account => s.create (Client.createDirectConversation E account)
  | .createGroupConversation accounts name desc =>
      s.create (Client.createGroupConversation E accounts name desc)
  | .addGroupParticipants convoId accounts => s.call (Client.addGroupParticipants E convoId accounts)
  | .removeGroupParticipants convoId accounts =>
      s.call (Client.removeGroupParticipants E convoId accounts)
  | .sendMessage convoId content => s.call (Client.sendMessage convoId content)
  | .listAllConversations => s.call Client.listAllConversations
  | .inbound bytes => s.work (inboundTurn E describe bytes)
  | .wakeup convoId => s.work (wakeupTurn E convoId)
  | .emit => s.emit
  | .stop => { s with working := false }
  | .deafen => { s with listening := false }
  | .servicesChange retrieve auth mlsStorage =>
      { s with core := (Core.Event.servicesChange retrieve auth mlsStorage).call s.core |>.2 }

/-- Everything the worker has made of what the core reported. -/
def stream (s : Session P) : List Event := s.events ++ s.outgoing

end Session

/-! ## What the events say -/

/-- The conversation an event is about; the one that announces a conversation is about none yet. -/
def about : Event → Option String
  | .messageReceived convoId _ _ _ => some convoId
  | .messageAcked convoId _ _ => some convoId
  | .messageMissing convoId _ _ => some convoId
  | .conversationMembersChanged convoId => some convoId
  | _ => none

def announced : Event → Option String
  | .conversationStarted convoId _ => some convoId
  | _ => none

def ackOf : Event → Option DeliveryAck
  | .messageAcked convoId messageId ackedBy => some ⟨convoId, messageId, ackedBy⟩
  | _ => none

def gapOf : Event → Option MissingMessage
  | .messageMissing convoId messageId senderHint => some ⟨convoId, ⟨senderHint, messageId⟩⟩
  | _ => none

theorem mem_acks_iff {events : List Event} {a : DeliveryAck} : a ∈ events.filterMap ackOf ↔
    .messageAcked a.conversationId a.messageId a.ackedBy ∈ events := by
  rw [List.mem_filterMap]
  refine ⟨fun ⟨event, hevent, hack⟩ ↦ ?_, fun hevent ↦ ⟨_, hevent, rfl⟩⟩
  cases event with
  | messageAcked convoId messageId ackedBy =>
      cases hack
      exact hevent
  | _ => cases hack

theorem mem_gaps_iff {events : List Event} {m : MissingMessage} : m ∈ events.filterMap gapOf ↔
    .messageMissing m.conversationId m.frontier.messageId m.frontier.sender ∈ events := by
  rw [List.mem_filterMap]
  refine ⟨fun ⟨event, hevent, hgap⟩ ↦ ?_, fun hevent ↦ ⟨_, hevent, rfl⟩⟩
  cases event with
  | messageMissing convoId messageId senderHint =>
      cases hgap
      exact hevent
  | _ => cases hgap

/-! ## What a turn yields -/

section Turn

variable {P : Platform} {E : Ed25519} {c : Core P}

/-- The core once both logs are drained. -/
def drained (c : Core P) : Core P :=
  { c with services := { c.services with
    causal := { c.services.causal with acks := [], missing := [] } } }

/-- The events of a turn, by what the core answered and what it had recorded. -/
def batch (E : Ed25519) (onError : ChatError → List Event) (c : Core P) :
    Except ChatError PayloadOutcome → List Event
  | .ok outcome => eventsFromInbound E outcome ++ deliveryAckEvents c.services.causal.acks ++
      missingEvents c.services.causal.missing
  | .error e => onError e ++ deliveryAckEvents c.services.causal.acks ++
      missingEvents c.services.causal.missing

/-- A turn panics where the core does; otherwise it yields its batch and drains the core. -/
theorem turn_cases (drive : Call (Core P) ChatError PayloadOutcome) (onError : ChatError → List Event)
    (c : Core P) :
    (∃ c', drive c = (.panic, c') ∧ turn E drive onError c = (.panic, c')) ∨
      (∃ outcome c', drive c = (.ok outcome, c') ∧
        turn E drive onError c = (.ok (batch E onError c' (.ok outcome)), drained c')) ∨
      ∃ e c', drive c = (.err e, c') ∧
        turn E drive onError c = (.ok (batch E onError c' (.error e)), drained c') := by
  unfold turn
  cases heq : drive c with
  | mk r c' =>
      cases r with
      | ok outcome => exact .inr (.inl ⟨outcome, c', rfl, Call.bind_of_ok (Call.attempt_of_ok heq)⟩)
      | err e => exact .inr (.inr ⟨e, c', rfl, Call.bind_of_ok (Call.attempt_of_err heq)⟩)
      | panic =>
          refine .inl ⟨c', rfl, Call.bind_of_panic ?_⟩
          rw [Call.attempt, heq]

/-- What is read off a batch that has nothing of it before the drained reports. -/
theorem filterMap_batch {α : Type} {read : Event → Option α} {onError : ChatError → List Event}
    (hinbound : ∀ outcome, (eventsFromInbound E outcome).filterMap read = [])
    (herror : ∀ e, (onError e).filterMap read = []) (c : Core P)
    (outcome : Except ChatError PayloadOutcome) :
    (batch E onError c outcome).filterMap read =
      (deliveryAckEvents c.services.causal.acks).filterMap read ++
        (missingEvents c.services.causal.missing).filterMap read := by
  cases outcome with
  | ok outcome => rw [batch, List.filterMap_append, List.filterMap_append, hinbound, List.nil_append]
  | error e => rw [batch, List.filterMap_append, List.filterMap_append, herror, List.nil_append]

theorem filterMap_acks {α : Type} {read : Event → Option α}
    (h : ∀ c m k, read (.messageAcked c m k) = none) (acks : List DeliveryAck) :
    (deliveryAckEvents acks).filterMap read = [] := by
  rw [deliveryAckEvents, List.filterMap_map, List.filterMap_eq_nil_iff]
  exact fun a _ ↦ h _ _ _

theorem filterMap_gaps {α : Type} {read : Event → Option α}
    (h : ∀ c m k, read (.messageMissing c m k) = none) (missing : List MissingMessage) :
    (missingEvents missing).filterMap read = [] := by
  rw [missingEvents, List.filterMap_map, List.filterMap_eq_nil_iff]
  exact fun m _ ↦ h _ _ _

-- the events of a conversation are messages and changes of members
theorem filterMap_convoEvents {α : Type} {read : Event → Option α}
    (hreceived : ∀ c b k m, read (.messageReceived c b k m) = none)
    (hchanged : ∀ c, read (.conversationMembersChanged c) = none) (outcome : ConvoOutcome) :
    (convoEvents E outcome).filterMap read = [] := by
  rw [convoEvents, List.filterMap_filterMap, List.filterMap_eq_nil_iff]
  intro observation _
  cases observation with
  | signersChanged => exact hchanged _
  | content content =>
      cases hsender : decodeSigner E content.sender.signer with
      | none => simp [observationEvent, hsender]
      | some sender => simp [observationEvent, hsender, hreceived]

theorem filterMap_eventsFromInbound {α : Type} {read : Event → Option α}
    (hreceived : ∀ c b k m, read (.messageReceived c b k m) = none)
    (hchanged : ∀ c, read (.conversationMembersChanged c) = none)
    (hstarted : ∀ c k, read (.conversationStarted c k) = none) (outcome : PayloadOutcome) :
    (eventsFromInbound E outcome).filterMap read = [] := by
  cases outcome with
  | empty => rfl
  | inbox convoId conversationClass => simp [eventsFromInbound, inboxEvents, hstarted]
  | convo outcome => exact filterMap_convoEvents hreceived hchanged outcome

theorem ackOf_batch {onError : ChatError → List Event} (herror : ∀ e, (onError e).filterMap ackOf = [])
    (c : Core P) (outcome : Except ChatError PayloadOutcome) :
    (batch E onError c outcome).filterMap ackOf = c.services.causal.acks := by
  rw [filterMap_batch (filterMap_eventsFromInbound (fun _ _ _ _ ↦ rfl) (fun _ ↦ rfl) fun _ _ ↦ rfl)
    herror, filterMap_gaps fun _ _ _ ↦ rfl, List.append_nil, deliveryAckEvents, List.filterMap_map]
  exact List.filterMap_some

theorem gapOf_batch {onError : ChatError → List Event} (herror : ∀ e, (onError e).filterMap gapOf = [])
    (c : Core P) (outcome : Except ChatError PayloadOutcome) :
    (batch E onError c outcome).filterMap gapOf = c.services.causal.missing := by
  rw [filterMap_batch (filterMap_eventsFromInbound (fun _ _ _ _ ↦ rfl) (fun _ ↦ rfl) fun _ _ ↦ rfl)
    herror, filterMap_acks fun _ _ _ ↦ rfl, List.nil_append, missingEvents, List.filterMap_map]
  exact List.filterMap_some

/-- An event that reports an error: it is about nothing else. -/
def isError : Event → Bool
  | .inboundError _ => true
  | _ => false

/-- The only announcement in a batch is that of the conversation that was brought. -/
theorem announced_batch {onError : ChatError → List Event}
    (herror : ∀ e, (onError e).filterMap announced = []) (c : Core P) :
    (∀ outcome, (batch E onError c (.ok outcome)).filterMap announced =
        (Core.broughtBy (.ok outcome)).toList) ∧
      ∀ e, (batch E onError c (.error e)).filterMap announced = [] := by
  have hacks : (deliveryAckEvents c.services.causal.acks).filterMap announced = [] :=
    filterMap_acks (fun _ _ _ ↦ rfl) _
  have hgaps : (missingEvents c.services.causal.missing).filterMap announced = [] :=
    filterMap_gaps (fun _ _ _ ↦ rfl) _
  refine ⟨fun outcome ↦ ?_, fun e ↦ ?_⟩
  · rw [batch, List.filterMap_append, List.filterMap_append, hacks, hgaps, List.append_nil,
      List.append_nil]
    cases outcome with
    | empty => rfl
    | inbox convoId conversationClass => rfl
    | convo outcome => exact filterMap_convoEvents (fun _ _ _ _ ↦ rfl) (fun _ ↦ rfl) outcome
  · rw [batch, List.filterMap_append, List.filterMap_append, hacks, hgaps, herror]
    rfl

/-- The events of a batch are about the conversation of the outcome and those of the drained reports. -/
theorem about_batch {known : String → Prop} {onError : ChatError → List Event} {c : Core P}
    {outcome : Except ChatError PayloadOutcome}
    (herror : ∀ e, ∀ event ∈ onError e, about event = none)
    (houtcome : ∀ o, outcome = .ok (.convo o) → known o.convoId)
    (hacks : ∀ a ∈ c.services.causal.acks, known a.conversationId)
    (hgaps : ∀ m ∈ c.services.causal.missing, known m.conversationId) {event : Event}
    (hmem : event ∈ batch E onError c outcome) {convoId : String} (habout : about event = some convoId) :
    known convoId := by
  have hdrained (h : event ∈ deliveryAckEvents c.services.causal.acks ∨
      event ∈ missingEvents c.services.causal.missing) : known convoId := by
    obtain h | h := h
    · obtain ⟨a, ha, rfl⟩ := List.mem_map.mp h
      cases habout
      exact hacks a ha
    · obtain ⟨m, hm, rfl⟩ := List.mem_map.mp h
      cases habout
      exact hgaps m hm
  cases outcome with
  | error e =>
      rw [batch, List.mem_append, List.mem_append, or_assoc] at hmem
      obtain hmem | hmem := hmem
      · rw [herror e event hmem] at habout
        cases habout
      · exact hdrained hmem
  | ok outcome =>
      rw [batch, List.mem_append, List.mem_append, or_assoc] at hmem
      obtain hmem | hmem := hmem
      · cases outcome with
        | empty => cases hmem
        | inbox opened conversationClass =>
            rw [List.mem_singleton.mp hmem] at habout
            cases habout
        | convo o =>
            obtain ⟨observation, -, hevent⟩ := List.mem_filterMap.mp hmem
            have hsame : about event = some o.convoId := by
              cases observation with
              | signersChanged =>
                  cases hevent
                  rfl
              | content content =>
                  obtain ⟨sender, -, rfl⟩ := Option.map_eq_some_iff.mp hevent
                  rfl
            rw [hsame] at habout
            cases habout
            exact houtcome o rfl
      · exact hdrained hmem

end Turn

/-! ## What a step does -/

namespace Session

variable {P : Platform} {E : Ed25519} {describe : ChatError → String}

/-- A payload or a wakeup, as a turn drives the core by it. -/
def Drives (drive : Call (Core P) ChatError PayloadOutcome) : Prop :=
  ∀ c, c.Keyed → c.Does c.Known (Core.broughtBy (drive c).1) (drive c).2 ∧ Core.Reports c (drive c).1

theorem drives_wakeup (convoId : String) : Drives (P := P) (Core.wakeup convoId) := by
  intro c hc
  obtain ⟨hdoes, hreports, hnone⟩ := Core.does_wakeup convoId hc
  rw [hnone]
  exact ⟨hdoes, hreports⟩

/-- Between two turns nothing waits in the core's logs. -/
structure Ready (s : Session P) : Prop where
  keyed : s.core.Keyed
  acks : s.working = true → s.core.services.causal.acks = []
  missing : s.working = true → s.core.services.causal.missing = []

/-- Every step is one of these. -/
inductive Moves (s s' : Session P) : Prop where
  | called (opened : Option String) (does : s.core.Does (fun _ ↦ False) opened s'.core)
      (created : s'.created = s.created ++ opened.toList) (stream : s'.stream = s.stream)
      (working : s'.working = s.working)
  | turned (opened : Option String) (c : Core P) (events : List Event) (working : s.working = true)
      (does : s.core.Does s.core.Known opened c) (core : s'.core = drained c)
      (stream : s'.stream = s.stream ++ events) (created : s'.created = s.created)
      (announced : events.filterMap announced = opened.toList)
      (about : ∀ event ∈ events, ∀ convoId, about event = some convoId → s.core.Known convoId)
      (acks : events.filterMap ackOf = c.services.causal.acks)
      (gaps : events.filterMap gapOf = c.services.causal.missing)
  | died (does : s.core.Does s.core.Known none s'.core) (created : s'.created = s.created)
      (stream : s'.stream = s.stream) (working : s'.working = false)
  | idle (core : s'.core = s.core) (created : s'.created = s.created) (stream : s'.stream = s.stream)
      (working : s'.working = true → s.working = true)

/-- What a turn that recorded new reports has to pass on is about conversations known before it. -/
theorem known_of_hears {c c' : Core P} (hacks : c.services.causal.acks = [])
    (hgaps : c.services.causal.missing = [])
    (h : c.services.causal.Hears c.Known c'.services.causal) :
    (∀ a ∈ c'.services.causal.acks, c.Known a.conversationId) ∧
      ∀ m ∈ c'.services.causal.missing, c.Known m.conversationId :=
  ⟨fun a ha ↦ ((h.acks.of_empty hacks).2.1 a ha).1, fun m hm ↦ ((h.gaps.of_empty hgaps).2.1 m hm).1⟩

theorem work_moves {drive : Call (Core P) ChatError PayloadOutcome} (hdrive : Drives drive)
    {onError : ChatError → List Event} (honError : ∀ e, ∀ event ∈ onError e, isError event = true)
    {s : Session P} (hs : s.Ready) : s.Moves (s.work (turn E drive onError)) := by
  have hquiet {α : Type} {read : Event → Option α} (hread : ∀ text, read (.inboundError text) = none)
      (e : ChatError) : (onError e).filterMap read = [] := by
    refine List.filterMap_eq_nil_iff.mpr fun event hevent ↦ ?_
    cases event with
    | inboundError text => exact hread text
    | _ => cases honError e _ hevent
  have habout (e : ChatError) (event : Event) (hevent : event ∈ onError e) : about event = none := by
    cases event with
    | inboundError text => rfl
    | _ => cases honError e _ hevent
  unfold work
  split
  case isFalse => exact .idle rfl rfl rfl id
  case isTrue hready =>
    obtain ⟨hdoes, hreports⟩ := hdrive s.core hs.keyed
    have hempty : s.stream = s.events := by rw [stream, hready.2, List.append_nil]
    obtain ⟨c, hcall, hturn⟩ | ⟨outcome, c, hcall, hturn⟩ | ⟨e, c, hcall, hturn⟩ :=
      turn_cases (E := E) drive onError s.core
    · rw [hturn]
      rw [hcall] at hdoes
      exact .died hdoes rfl rfl rfl
    · rw [hturn]
      rw [hcall] at hdoes hreports
      have hknown := known_of_hears (hs.acks hready.1) (hs.missing hready.1) hdoes.causal
      refine .turned _ c (batch E onError c (.ok outcome)) hready.1 hdoes rfl ?_ rfl
        ((announced_batch (hquiet fun _ ↦ rfl) c).1 outcome) ?_
        (ackOf_batch (hquiet fun _ ↦ rfl) c _) (gapOf_batch (hquiet fun _ ↦ rfl) c _)
      · rw [hempty]
        rfl
      · intro event hevent convoId hconvo
        exact about_batch habout (fun o ho ↦ hreports o (by cases ho; rfl)) hknown.1 hknown.2 hevent hconvo
    · rw [hturn]
      rw [hcall] at hdoes
      have hknown := known_of_hears (hs.acks hready.1) (hs.missing hready.1) hdoes.causal
      refine .turned none c (batch E onError c (.error e)) hready.1 hdoes rfl ?_ rfl
        ((announced_batch (hquiet fun _ ↦ rfl) c).2 e) ?_
        (ackOf_batch (hquiet fun _ ↦ rfl) c _) (gapOf_batch (hquiet fun _ ↦ rfl) c _)
      · rw [hempty]
        rfl
      · intro event hevent convoId hconvo
        exact about_batch habout nofun hknown.1 hknown.2 hevent hconvo

theorem emit_moves (s : Session P) : s.Moves s.emit := by
  unfold emit
  split
  case h_1 => exact .idle rfl rfl rfl id
  case h_2 event rest hout =>
    split
    · exact .idle rfl rfl rfl id
    split
    · refine .idle rfl rfl ?_ id
      show s.events ++ [event] ++ rest = s.events ++ s.outgoing
      rw [hout, List.append_assoc]
      rfl
    · exact .idle rfl rfl rfl nofun

theorem call_moves {α : Type} {m : Call (Core P) ClientError α} {s : Session P}
    (h : s.core.Does (fun _ ↦ False) none (m s.core).2) : s.Moves (s.call m) :=
  .called none h (List.append_nil _).symm rfl rfl

/-- A call on the core behind a check of its arguments. -/
theorem does_guarded {α β : Type} {r : Result ClientError β} {m : β → Call (Core P) ChatError α}
    {c : Core P} (hc : c.Keyed) (h : ∀ b, c.Does (fun _ ↦ False) none (m b c).2) :
    c.Does (fun _ ↦ False) none ((Call.ofResult r >>= fun b ↦ (m b).mapErr ClientError.chat) c).2 := by
  have hsame : c.Does (fun _ ↦ False) none c := (refl c : Core.Stays (fun _ ↦ False) c c).does hc
  cases r with
  | ok b => exact h b
  | err e => exact hsame
  | panic => exact hsame

theorem create_moves {β : Type} {r : Result ClientError β} {m : β → Call (Core P) ChatError String}
    {s : Session P} (hs : s.Ready)
    (h : ∀ b, s.core.Does (fun _ ↦ False) (Core.openedBy (m b s.core).1) (m b s.core).2) :
    s.Moves (s.create (Call.ofResult r >>= fun b ↦ (m b).mapErr ClientError.chat)) := by
  have hsame : s.core.Does (fun _ ↦ False) none s.core :=
    (refl s.core : Core.Stays (fun _ ↦ False) s.core s.core).does hs.keyed
  have hnone {c : Core P} (hdoes : s.core.Does (fun _ ↦ False) none c) :
      s.Moves { s with core := c } := .called none hdoes (List.append_nil _).symm rfl rfl
  unfold create
  cases r with
  | err e => exact hnone hsame
  | panic => exact hnone hsame
  | ok b =>
      rw [Call.ofResult_ok_bind]
      have hdoes := h b
      cases heq : m b s.core with
      | mk answer c =>
          rw [heq] at hdoes
          have hcall : (m b).mapErr ClientError.chat s.core = (answer.mapErr ClientError.chat, c) := by
            rw [Call.mapErr, heq]
          rw [hcall]
          cases answer with
          | ok convoId => exact .called (some convoId) hdoes rfl rfl rfl
          | err e => exact hnone hdoes
          | panic => exact hnone hdoes

theorem step_moves {s : Session P} (hs : s.Ready) (e : Step P) : s.Moves (step E describe s e) := by
  cases e with
  | createDirectConversation account =>
      exact create_moves hs fun addr ↦ Core.does_createDirectConvoV1 (accountId addr) hs.keyed
  | createGroupConversation accounts name desc =>
      exact create_moves hs fun accounts ↦ Core.does_createGroupConvoV2 accounts name desc hs.keyed
  | addGroupParticipants convoId accounts =>
      refine call_moves (does_guarded hs.keyed fun accounts ↦ ?_)
      exact Core.does_of_meets (Core.stays_groupAddParticipants convoId accounts) hs.keyed
  | removeGroupParticipants convoId accounts =>
      refine call_moves (does_guarded hs.keyed fun accounts ↦ ?_)
      exact Core.does_of_meets (Core.stays_groupRemoveParticipants convoId accounts) hs.keyed
  | sendMessage convoId content =>
      exact call_moves (Core.does_of_meets (Core.stays_sendContent convoId content).mapErr hs.keyed)
  | listAllConversations =>
      exact call_moves (Core.does_of_meets Core.stays_listAllConversations.mapErr hs.keyed)
  | inbound bytes =>
      refine work_moves (fun c hc ↦ Core.does_handlePayload bytes hc) (fun e event hevent ↦ ?_) hs
      rw [List.mem_singleton.mp hevent]
      rfl
  | wakeup convoId =>
      refine work_moves (drives_wakeup convoId) (fun e event hevent ↦ ?_) hs
      cases hevent
  | emit => exact emit_moves s
  | stop => exact .idle rfl rfl rfl nofun
  | deafen => exact .idle rfl rfl rfl id
  | servicesChange retrieve auth mlsStorage =>
      refine .called none ?_ (List.append_nil _).symm rfl rfl
      exact Core.Stays.does ⟨.of_same rfl rfl, fun _ ↦ Iff.rfl⟩ hs.keyed

/-! ## Whole sessions -/

theorem ready_start (services : ServiceContext P) : (start services).Ready where
  keyed := nofun
  acks _ := rfl
  missing _ := rfl

-- without an allowed report the logs are as they were
theorem logs_of_silent {h h' : CausalHistoryStore} (hears : h.Hears (fun _ ↦ False) h') :
    h'.acks = h.acks ∧ h'.missing = h.missing := by
  obtain ⟨acks, hlogA, -, hnewA, -⟩ := hears.acks
  obtain ⟨gaps, hlogG, -, hnewG, -⟩ := hears.gaps
  have hnone : acks = [] := List.eq_nil_iff_forall_not_mem.mpr fun a ha ↦ (hnewA a ha).1
  have hnone' : gaps = [] := List.eq_nil_iff_forall_not_mem.mpr fun m hm ↦ (hnewG m hm).1
  rw [hnone, List.append_nil] at hlogA
  rw [hnone', List.append_nil] at hlogG
  exact ⟨hlogA, hlogG⟩

theorem Moves.ready {s s' : Session P} (h : s.Moves s') (hs : s.Ready) : s'.Ready := by
  cases h with
  | called opened does created stream working =>
      obtain ⟨hacks, hgaps⟩ := logs_of_silent does.causal
      refine ⟨does.keyed, fun hw ↦ hacks.trans (hs.acks ?_), fun hw ↦ hgaps.trans (hs.missing ?_)⟩
      · rw [← working]
        exact hw
      · rw [← working]
        exact hw
  | turned opened c events working does core =>
      constructor
      · rw [core]
        exact does.keyed
      · intro _
        rw [core]
        rfl
      · intro _
        rw [core]
        rfl
  | died does created stream working =>
      refine ⟨does.keyed, fun hw ↦ ?_, fun hw ↦ ?_⟩
      · rw [working] at hw
        cases hw
      · rw [working] at hw
        cases hw
  | idle core created stream working =>
      refine ⟨core ▸ hs.keyed, fun hw ↦ ?_, fun hw ↦ ?_⟩
      · rw [core]
        exact hs.acks (working hw)
      · rw [core]
        exact hs.missing (working hw)

end Session

end LogosChat.Client
