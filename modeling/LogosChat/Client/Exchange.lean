import LogosChat.Client.Bus
import LogosChat.Conversations.Posts
import Mathlib.Data.FinEnum
import Mathlib.Logic.Equiv.List
import Mathlib.Tactic.DeriveCountable

/-!
# A conversation over the bus

Any number of cores hold one conversation and share an in-process bus.  Each sends when it likes and
handles what has arrived for it when it likes.  Every member then reports what the others sent, in one
order for all of them, each message once, as it was sent and under the id that its sender was given.
-/

namespace LogosChat.Client

open Reasoning Conversations

variable {P : Platform} {ι : Type} [DecidableEq ι]

/-! ## The members -/

/-- A message on its way to a member. -/
structure Sealed (ι : Type) where
  sender : ι
  plaintext : Bytes
  frame : Bytes

/-- What the members rely on openmls, or de-mls, for while nobody commits: `InStep carriers pending` when
every member has yet to read what is pending for it, in that order. -/
structure Concord (P : Platform) (ι : Type) [DecidableEq ι] (convoId : String) where
  member : ι → GroupMember
  -- a frame tells who made it
  authorOf : Bytes → ι
  InStep : (ι → Carrier P) → (ι → List (Sealed ι)) → Prop
  present : ∀ {carriers pending}, InStep carriers pending → ∀ i, (carriers i).Present
  seats : ∀ {carriers pending}, InStep carriers pending → ∀ i j, (carriers j).Seats (member i)
  seals : ∀ {carriers pending}, InStep carriers pending → ∀ i plaintext,
    (carriers i).Declines plaintext ∨ ∃ frame after,
      (carriers i).Seals convoId plaintext frame after ∧ authorOf frame = i ∧
      InStep (Function.update carriers i after) fun j ↦ pending j ++ [⟨i, plaintext, frame⟩]
  opens : ∀ {carriers pending}, InStep carriers pending → ∀ {j message rest},
    pending j = message :: rest → message.sender ≠ j → authorOf message.frame = message.sender ∧
      ∃ after, (carriers j).Opens message.frame (member message.sender) message.plaintext after ∧
        InStep (Function.update carriers j after) (Function.update pending j rest)
  refuses : ∀ {carriers pending}, InStep carriers pending → ∀ {j message rest},
    pending j = message :: rest → message.sender = j →
      ∃ after, (carriers j).Refuses message.frame after ∧
        InStep (Function.update carriers j after) (Function.update pending j rest)

/-! ## The exchange -/

/-- A message as its sender knows it. -/
structure Post (ι : Type) where
  sender : ι
  content : Bytes
  messageId : String

/-- The cores of the members, the bus between them, the messages sent with success, in order, and the
contents that each core reported from the payloads of the conversation. -/
structure Exchange (P : Platform) (ι : Type) where
  cores : ι → Core P
  bus : MessageBus ι
  posts : List (Post ι) := []
  reports : ι → List Content := fun _ ↦ []

namespace Exchange

inductive Step (P : Platform) (ι : Type) where
  | send (member : ι) (content : Bytes)
  -- the worker of a member takes the next payload from its channel
  | receive (member : ι)
  -- for another conversation, or once more for this one
  | subscribe (member : ι) (address : String)
  -- what a member does in other conversations
  | elsewhere (member : ι) (core : Core P)
  -- what is published for them, by members or by others
  | publish (address : String) (data : Bytes)

variable (W : Wire P) (convoId : String)

/-- `InProcessDelivery::publish`, for what a call has published. -/
def publishAll (bus : MessageBus ι) (envelopes : List AddressedEnvelope) : MessageBus ι :=
  run (fun bus envelope ↦ bus.publish envelope.deliveryAddress (W.data envelope)) bus envelopes

/-- What a call on a core published. -/
def publishedSince (c c' : Core P) : List AddressedEnvelope :=
  c'.services.ds.published.drop c.services.ds.published.length

def postOf (member : ι) (content : Bytes) : Result ChatError String → List (Post ι)
  | .ok messageId => [⟨member, content, messageId⟩]
  | _ => []

def send (x : Exchange P ι) (member : ι) (content : Bytes) : Exchange P ι :=
  let after := Core.sendContent convoId content (x.cores member)
  { x with
    cores := Function.update x.cores member after.2
    bus := publishAll W x.bus (publishedSince (x.cores member) after.2)
    posts := x.posts ++ postOf member content after.1 }

def receive (x : Exchange P ι) (member : ι) (data : Bytes) : Exchange P ι :=
  let after := Core.handlePayload data (x.cores member)
  { x with
    cores := Function.update x.cores member after.2
    bus := publishAll W (x.bus.step (.receive member)) (publishedSince (x.cores member) after.2)
    reports :=
      if hintOf P data = some convoId then
        Function.update x.reports member (x.reports member ++ contentsOf after.1)
      else x.reports }

def step (x : Exchange P ι) : Step P ι → Exchange P ι
  | .send member content => x.send W convoId member content
  | .receive member =>
      match (x.bus.channels member).queued with
      | [] => x
      | data :: _ => x.receive W convoId member data
  | .subscribe member address => { x with bus := x.bus.register address member }
  | .elsewhere member core => { x with cores := Function.update x.cores member core }
  | .publish address data => { x with bus := x.bus.publish address data }

/-- What goes on in other conversations leaves this one as it is, and publishes nothing for it. -/
def Fits (x : Exchange P ι) : Step P ι → Prop
  | .receive member => ∀ data ∈ (x.bus.channels member).queued.head?, hintOf P data ≠ some convoId →
      ∀ envelope ∈ publishedSince (x.cores member) (Core.handlePayload data (x.cores member)).2,
        envelope.conversationHint ≠ convoId
  | .elsewhere member core => Core.Beside convoId (x.cores member) core
  | .publish _ data => hintOf P data ≠ some convoId
  | _ => True

/-- The report that a member owes on a message, by its own verdict on the sender. -/
def owed (members : ι → Signer) (auth : AuthService) (post : Post ι) : Option Content :=
  ((members post.sender).requireValid auth).map fun sender ↦
    { bytes := post.content, sender := sender, messageId := post.messageId }

variable {W} {label : GroupKind × String}

/-- The address that the members subscribe to. -/
def address (P : Platform) (label : GroupKind × String) : String := (postEnvelope P label []).deliveryAddress

/-- The payloads of the conversation that wait in a channel. -/
def queuedFor (P : Platform) (convoId : String) (c : Channel) : List Bytes :=
  c.queued.filter fun data ↦ hintOf P data = some convoId

/-- All members are subscribed, and these payloads of the conversation wait for each. -/
structure Links (P : Platform) (label : GroupKind × String) (bus : MessageBus ι)
    (awaited : ι → List Bytes) : Prop where
  nodup : ∀ address, (bus.routes address).Nodup
  routed : ∀ i, i ∈ bus.routes (address P label)
  connected : ∀ i, (bus.channels i).connected = true
  queued : ∀ i, queuedFor P label.2 (bus.channels i) = awaited i

namespace Links

variable {bus : MessageBus ι} {awaited : ι → List Bytes} {data : Bytes} {i : ι}

theorem publishes (h : Links P label bus awaited) (other : String) (data : Bytes) :
    (bus.publish other data).routes = bus.routes ∧ ∀ i, (bus.publish other data).channels i =
      if i ∈ bus.routes other then ((bus.channels i).send data).1 else bus.channels i := by
  obtain ⟨hkept, hchannels⟩ := MessageBus.retain_spec data (bus.routes other) bus.channels (h.nodup other)
  refine ⟨?_, hchannels⟩
  show Function.update bus.routes other _ = _
  rw [hkept, List.filter_eq_self.mpr fun i _ ↦ h.connected i, Function.update_eq_self]

-- whatever is published, nobody is disconnected by it
theorem of_publish (h : Links P label bus awaited) (other : String) {after : ι → List Bytes}
    (hqueued : ∀ i, queuedFor P label.2 ((bus.publish other data).channels i) = after i) :
    Links P label (bus.publish other data) after := by
  obtain ⟨hroutes, hchannels⟩ := h.publishes other data
  refine ⟨fun address ↦ ?_, fun i ↦ ?_, fun i ↦ ?_, hqueued⟩
  · rw [hroutes]
    exact h.nodup address
  · rw [hroutes]
    exact h.routed i
  · rw [hchannels]
    split
    · rw [Channel.connected_send]
      exact h.connected i
    · exact h.connected i

theorem publish (h : Links P label bus awaited) (hdata : hintOf P data = some label.2) :
    Links P label (bus.publish (address P label) data) fun i ↦ awaited i ++ [data] := by
  refine h.of_publish (address P label) fun i ↦ ?_
  rw [(h.publishes (address P label) data).2, if_pos (h.routed i), Channel.send, if_pos (h.connected i),
    ← h.queued i]
  simp [queuedFor, hdata]

theorem publish_of_ne (h : Links P label bus awaited) (other : String)
    (hdata : hintOf P data ≠ some label.2) : Links P label (bus.publish other data) awaited := by
  refine h.of_publish other fun i ↦ ?_
  rw [(h.publishes other data).2, Channel.send, if_pos (h.connected i), ← h.queued i]
  split
  · simp [queuedFor, hdata]
  · rfl

theorem publishAll (h : Links P label bus awaited) {envelopes : List AddressedEnvelope}
    (henvelopes : ∀ envelope ∈ envelopes, envelope.conversationHint ≠ label.2) :
    Links P label (publishAll W bus envelopes) awaited := by
  have hstep (bus : MessageBus ι) (envelope : AddressedEnvelope) (h : Links P label bus awaited)
      (hne : envelope.conversationHint ≠ label.2) :
      Links P label (bus.publish envelope.deliveryAddress (W.data envelope)) awaited := by
    refine h.publish_of_ne _ ?_
    rw [W.hintOf_data]
    exact fun heq ↦ hne (Option.some.inj heq)
  exact Along.invariant hstep h (Along.of_forall henvelopes bus)

theorem of_receive (h : Links P label bus awaited) {after : ι → List Bytes}
    (hreceived : queuedFor P label.2 (bus.channels i).receive = after i)
    (hothers : ∀ j, j ≠ i → after j = awaited j) :
    Links P label (bus.step (.receive i)) after := by
  have hchannel (j : ι) : (bus.step (.receive i)).channels j =
    Function.update bus.channels i (bus.channels i).receive j := rfl
  refine ⟨h.nodup, h.routed, fun j ↦ ?_, fun j ↦ ?_⟩
  · rw [hchannel]
    by_cases hj : j = i
    · subst hj
      rw [Function.update_self, Channel.connected_receive]
      exact h.connected j
    · rw [Function.update_of_ne hj]
      exact h.connected j
  · rw [hchannel]
    by_cases hj : j = i
    · subst hj
      rw [Function.update_self]
      exact hreceived
    · rw [Function.update_of_ne hj, hothers j hj]
      exact h.queued j

/-- The next payload is one of the conversation. -/
theorem receive (h : Links P label bus awaited) {queue rest : List Bytes}
    (hqueue : (bus.channels i).queued = data :: queue) (hdata : hintOf P data = some label.2)
    (hawaited : awaited i = data :: rest) :
    Links P label (bus.step (.receive i)) (Function.update awaited i rest) := by
  refine h.of_receive ?_ fun j hj ↦ Function.update_of_ne hj _ _
  have hqueued := h.queued i
  rw [queuedFor, hqueue, List.filter_cons_of_pos (by simpa using hdata), hawaited] at hqueued
  rw [Function.update_self, queuedFor, Channel.receive, hqueue]
  exact List.tail_eq_of_cons_eq hqueued

theorem receive_of_ne (h : Links P label bus awaited) {queue : List Bytes}
    (hqueue : (bus.channels i).queued = data :: queue) (hdata : hintOf P data ≠ some label.2) :
    Links P label (bus.step (.receive i)) awaited := by
  refine h.of_receive ?_ fun _ _ ↦ rfl
  have hqueued := h.queued i
  rw [queuedFor, hqueue, List.filter_cons_of_neg (by simpa using hdata)] at hqueued
  rw [queuedFor, Channel.receive, hqueue]
  exact hqueued

theorem register (h : Links P label bus awaited) (other : String) (i : ι) :
    Links P label (bus.register other i) awaited := by
  refine ⟨MessageBus.nodup_register h.nodup other i, fun j ↦ MessageBus.mem_register.mpr (.inl (h.routed j)),
    fun j ↦ ?_, fun j ↦ ?_⟩
  · rw [MessageBus.register_channels]
    exact h.connected j
  · rw [MessageBus.register_channels]
    exact h.queued j

end Links

/-- The message is the post. -/
def Carries (P : Platform) (kind : GroupKind) (post : Post ι) (message : Sealed ι) : Prop :=
  message.sender = post.sender ∧ reading P kind message.plaintext = some (post.content, post.messageId)

variable (W label) in
/-- The members hold the conversation, what waits for it on the bus is pending for them, and what they
have reported is what they owe on the messages before it.  Only frames of `made` are remembered. -/
structure InTouch (C : Concord P ι label.2) (made : Bytes → Prop) (auth : ι → AuthService)
    (carriers : ι → Carrier P) (pending : ι → List (Sealed ι)) (x : Exchange P ι) : Prop where
  inStep : C.InStep carriers pending
  holds : ∀ i, (x.cores i).Holds (fun frame ↦ C.authorOf frame = i ∧ made frame) label (carriers i)
  verdicts : ∀ i, (x.cores i).services.auth = auth i
  links : Links P label x.bus fun i ↦
    (pending i).map fun message ↦ W.data (postEnvelope P label message.frame)
  heard : ∀ i, ∃ heard waiting, x.posts = heard ++ waiting ∧
    List.Forall₂ (Carries P label.1) waiting (pending i) ∧
    x.reports i = (heard.filter (·.sender ≠ i)).filterMap (owed (fun j ↦ (C.member j).signer) (auth i))

variable (W label) in
/-- The frame went into a channel. -/
def Sent (x : Exchange P ι) (frame : Bytes) : Prop :=
  ∃ i, W.data (postEnvelope P label frame) ∈ (x.bus.channels i).through

section Steps

variable {C : Concord P ι label.2} {made : Bytes → Prop} {auth : ι → AuthService}
  {carriers : ι → Carrier P} {pending : ι → List (Sealed ι)} {x : Exchange P ι} {i : ι}

theorem prefix_through_publishAll (bus : MessageBus ι) (envelopes : List AddressedEnvelope) (i : ι) :
    (bus.channels i).through <+: ((publishAll W bus envelopes).channels i).through := by
  induction envelopes generalizing bus with
  | nil => exact List.prefix_rfl
  | cons envelope envelopes ih => exact (bus.prefix_through_publish _ (W.data envelope) i).trans (ih _)

/-- What went into a channel is never forgotten. -/
theorem prefix_through_step (x : Exchange P ι) (s : Step P ι) (i : ι) :
    (x.bus.channels i).through <+: ((x.step W label.2 s).bus.channels i).through := by
  cases s with
  | send member content => exact prefix_through_publishAll _ _ i
  | receive member =>
      have hreceived : ((x.bus.step (.receive member)).channels i).through = (x.bus.channels i).through := by
        show (Function.update x.bus.channels member (x.bus.channels member).receive i).through = _
        by_cases hi : i = member
        · subst hi
          rw [Function.update_self, Channel.through_receive]
        · rw [Function.update_of_ne hi]
      unfold step
      dsimp only
      split
      · exact List.prefix_rfl
      · rw [← hreceived]
        exact prefix_through_publishAll _ _ i
  | subscribe member address =>
      show _ <+: ((x.bus.register address member).channels i).through
      rw [MessageBus.register_channels]
  | elsewhere member core => exact List.prefix_rfl
  | publish address data => exact x.bus.prefix_through_publish address data i

theorem Sent.step {frame : Bytes} (h : Sent W label x frame) (s : Step P ι) :
    Sent W label (x.step W label.2 s) frame := by
  obtain ⟨i, hmem⟩ := h
  exact ⟨i, (prefix_through_step x s i).subset hmem⟩

/-- What waits for a member was sent. -/
theorem InTouch.sent (h : InTouch W label C made auth carriers pending x) {message : Sealed ι}
    (hmem : message ∈ pending i) : Sent W label x message.frame := by
  have hqueued : W.data (postEnvelope P label message.frame) ∈ queuedFor P label.2 (x.bus.channels i) := by
    rw [h.links.queued i]
    exact List.mem_map_of_mem hmem
  exact ⟨i, List.mem_append_right _ (List.mem_of_mem_filter hqueued)⟩

/-- One core has moved its carrier on. -/
theorem InTouch.holds_update (h : InTouch W label C made auth carriers pending x) {c : Core P}
    {after : Carrier P} (hholds : c.Holds (fun frame ↦ C.authorOf frame = i ∧ made frame) label after)
    (hauth : c.services.auth = (x.cores i).services.auth) (j : ι) :
    (Function.update x.cores i c j).Holds (fun frame ↦ C.authorOf frame = j ∧ made frame) label
        (Function.update carriers i after j) ∧
      (Function.update x.cores i c j).services.auth = auth j := by
  by_cases hj : j = i
  · subst hj
    rw [Function.update_self, Function.update_self]
    exact ⟨hholds, hauth.trans (h.verdicts j)⟩
  · rw [Function.update_of_ne hj, Function.update_of_ne hj]
    exact ⟨h.holds j, h.verdicts j⟩

theorem publishedSince_of_carries {own : Bytes → Prop} {c c' : Core P} {after : Carrier P}
    {published : List AddressedEnvelope} (h : Core.Carries own label c c' after published) :
    publishedSince c c' = published := by
  rw [publishedSince, h.published, List.drop_left]

/-- Nothing came of a send. -/
theorem InTouch.unsent (h : InTouch W label C made auth carriers pending x) {content : Bytes}
    (hfails : (∀ id, (Core.sendContent label.2 content (x.cores i)).1 ≠ .ok id) ∧
      Core.Carries (fun frame ↦ C.authorOf frame = i ∧ made frame) label (x.cores i)
        (Core.sendContent label.2 content (x.cores i)).2 (carriers i) []) :
    InTouch W label C made auth carriers pending (x.step W label.2 (.send i content)) := by
  obtain ⟨hnot, hcarries⟩ := hfails
  have hposts : x.posts ++ postOf i content (Core.sendContent label.2 content (x.cores i)).1 =
      x.posts := by
    unfold postOf
    split
    case h_1 id hok => exact absurd hok (hnot id)
    case h_2 => exact List.append_nil _
  have hkept (j : ι) := h.holds_update hcarries.holds hcarries.auth j
  rw [Function.update_eq_self] at hkept
  refine ⟨h.inStep, fun j ↦ (hkept j).1, fun j ↦ (hkept j).2, ?_, fun j ↦ ?_⟩
  · show Links P _ (publishAll W x.bus (publishedSince _ _)) _
    rw [publishedSince_of_carries hcarries]
    exact h.links
  · show ∃ heard waiting, x.posts ++ _ = heard ++ waiting ∧ _
    rw [hposts]
    exact h.heard j

theorem InTouch.send (h : InTouch W label C made auth carriers pending x) (i : ι) (content : Bytes)
    (hmade : ∀ frame, Sent W label (x.step W label.2 (.send i content)) frame → made frame) :
    ∃ carriers pending,
      InTouch W label C made auth carriers pending (x.step W label.2 (.send i content)) := by
  obtain hfails | ⟨plaintext, messageId, hreads, hdeclined, hsealed⟩ := (h.holds i).sendContent W content
  · exact ⟨carriers, pending, h.unsent hfails⟩
  obtain hdeclines | ⟨frame, after, hseals, hauthor, hinStep⟩ := C.seals h.inStep i plaintext
  · exact ⟨carriers, pending, h.unsent (hdeclined hdeclines)⟩
  obtain ⟨hok, hcarries⟩ := hsealed frame after hseals
  have hlinks : Links P label (x.step W label.2 (.send i content)).bus fun j ↦
      ((pending j ++ [⟨i, plaintext, frame⟩] : List (Sealed ι)).map fun message ↦
        W.data (postEnvelope P label message.frame)) := by
    show Links P _ (publishAll W x.bus (publishedSince _ _)) _
    rw [publishedSince_of_carries hcarries]
    have hhint : hintOf P (W.data (postEnvelope P label frame)) = some label.2 := by
      rw [W.hintOf_data, postEnvelope_hint]
    have hpublished := h.links.publish hhint
    simp only [List.map_append, List.map_singleton]
    rw [address, postEnvelope_address label [] frame] at hpublished
    exact hpublished
  -- so the frame was sent, and may be remembered
  have hsent : Sent W label (x.step W label.2 (.send i content)) frame := by
    have hqueued := hlinks.queued i
    rw [List.map_append, List.map_singleton] at hqueued
    have hmem := hqueued ▸ List.mem_append_right _ List.mem_cons_self
    exact ⟨i, List.mem_append_right _ (List.mem_of_mem_filter hmem)⟩
  have hholds : (Core.sendContent label.2 content (x.cores i)).2.Holds
      (fun frame ↦ C.authorOf frame = i ∧ made frame) label after := by
    refine hcarries.holds.mono ?_
    rintro frame' (hown | rfl)
    · exact hown
    · exact ⟨hauthor, hmade _ hsent⟩
  have hkept (j : ι) := h.holds_update hholds hcarries.auth j
  refine ⟨_, _, hinStep, fun j ↦ (hkept j).1, fun j ↦ (hkept j).2, hlinks, fun j ↦ ?_⟩
  obtain ⟨heard, waiting, hposts, hpending, hreports⟩ := h.heard j
  refine ⟨heard, waiting ++ [⟨i, content, messageId⟩], ?_, ?_, hreports⟩
  · show x.posts ++ postOf i content (Core.sendContent label.2 content (x.cores i)).1 = _
    rw [hok, hposts, List.append_assoc]
    rfl
  · exact List.rel_append hpending (.cons ⟨rfl, hreads⟩ .nil)

/-- The next message is taken off, and what is owed on it is reported. -/
theorem InTouch.received (h : InTouch W label C made auth carriers pending x) {message : Sealed ι}
    {rest : List (Sealed ι)} (hpending : pending i = message :: rest) {data : Bytes} {queue : List Bytes}
    (hqueue : (x.bus.channels i).queued = data :: queue)
    (hdata : data = W.data (postEnvelope P label message.frame)) {after : Carrier P}
    (hinStep : C.InStep (Function.update carriers i after) (Function.update pending i rest))
    (hcarries : Core.Carries (fun frame ↦ C.authorOf frame = i ∧ made frame) label (x.cores i)
      (Core.handlePayload data (x.cores i)).2 after [])
    (hcontents : ∀ post, Carries P label.1 post message →
      contentsOf (Core.handlePayload data (x.cores i)).1 =
        ([post].filter (·.sender ≠ i)).filterMap (owed (fun j ↦ (C.member j).signer) (auth i))) :
    InTouch W label C made auth (Function.update carriers i after) (Function.update pending i rest)
      (x.receive W label.2 i data) := by
  have hkept (j : ι) := h.holds_update hcarries.holds hcarries.auth j
  have hhint : hintOf P data = some label.2 := by
    rw [hdata, W.hintOf_data, postEnvelope_hint]
  refine ⟨hinStep, fun j ↦ (hkept j).1, fun j ↦ (hkept j).2, ?_, fun j ↦ ?_⟩
  · have hawaited : ((pending i).map fun message ↦ W.data (postEnvelope P label message.frame)) =
        data :: rest.map fun message ↦ W.data (postEnvelope P label message.frame) := by
      rw [hpending, List.map_cons, hdata]
    have hreceived := h.links.receive hqueue hhint hawaited
    show Links P _ (publishAll W (x.bus.step (.receive i)) (publishedSince _ _)) _
    rw [publishedSince_of_carries hcarries]
    show Links P _ (x.bus.step (.receive i)) _
    convert hreceived using 1
    funext j
    by_cases hj : j = i
    · subst hj
      rw [Function.update_self, Function.update_self]
    · rw [Function.update_of_ne hj, Function.update_of_ne hj]
  · dsimp only [Exchange.receive]
    rw [if_pos hhint]
    by_cases hj : j = i
    · subst hj
      obtain ⟨heard, waiting, hposts, hcarried, hreports⟩ := h.heard j
      rw [hpending] at hcarried
      obtain ⟨post, waiting, hpost, hrest, rfl⟩ := List.forall₂_cons_right_iff.mp hcarried
      refine ⟨heard ++ [post], waiting, ?_, ?_, ?_⟩
      · rw [hposts, List.append_assoc, List.singleton_append]
      · rw [Function.update_self]
        exact hrest
      · rw [Function.update_self, hreports, hcontents post hpost, List.filter_append,
          List.filterMap_append]
    · rw [Function.update_of_ne hj, Function.update_of_ne hj]
      exact h.heard j

/-- A message of the conversation is next. -/
theorem InTouch.receive_own (hhash : P.HashesApart fun components ↦ ∃ frame, made frame ∧ components = [frame])
    (h : InTouch W label C made auth carriers pending x)
    (hmade : ∀ frame, Sent W label x frame → made frame) {data : Bytes} {queue : List Bytes}
    (hqueue : (x.bus.channels i).queued = data :: queue) (hhint : hintOf P data = some label.2) :
    ∃ carriers pending, InTouch W label C made auth carriers pending (x.receive W label.2 i data) := by
  have hqueued := h.links.queued i
  rw [queuedFor, hqueue, List.filter_cons_of_pos (by simpa using hhint)] at hqueued
  obtain ⟨message, rest, hpending, hdata, -⟩ := List.map_eq_cons_iff.mp hqueued.symm
  subst hdata
  have hholds := h.holds i
  by_cases hown : message.sender = i
  · obtain ⟨after, hrefuses, hinStep⟩ := C.refuses h.inStep hpending hown
    obtain ⟨hcontents, hcarries⟩ := hholds.ignores W (C.present h.inStep i) hrefuses
    refine ⟨_, _, h.received hpending hqueue rfl hinStep hcarries fun post hpost ↦ ?_⟩
    rw [hcontents, List.filter_cons_of_neg (by simp [← hpost.1, hown])]
    rfl
  · obtain ⟨hauthor, after, hopens, hinStep⟩ := C.opens h.inStep hpending hown
    have hsent : made message.frame := hmade _ (h.sent (hpending ▸ List.mem_cons_self))
    have hforeign : ∀ frame, C.authorOf frame = i ∧ made frame →
        GroupV1.frameHash P message.frame ≠ GroupV1.frameHash P frame := by
      rintro frame ⟨hmine, hframe⟩ hsame
      have heq : message.frame = frame := hhash.of_last [] ⟨_, hsent, rfl⟩ ⟨_, hframe, rfl⟩ hsame
      exact hown (hauthor.symm.trans (heq ▸ hmine))
    obtain ⟨heard, waiting, -, hcarried, -⟩ := h.heard i
    rw [hpending] at hcarried
    obtain ⟨first, _, ⟨-, hfirst⟩, -⟩ := List.forall₂_cons_right_iff.mp hcarried
    obtain ⟨hcontents, hcarries⟩ := hholds.reads W (C.present h.inStep i) (C.seats h.inStep _ i)
      hopens hforeign hfirst
    refine ⟨_, _, h.received hpending hqueue rfl hinStep hcarries fun post hpost ↦ ?_⟩
    obtain ⟨hsender, hreads⟩ := hpost
    obtain ⟨hcontent, hid⟩ := Prod.mk.inj (Option.some.inj (hfirst.symm.trans hreads))
    rw [hcontents, List.filter_cons_of_pos (by simp [← hsender, hown]), h.verdicts i, hsender, hcontent,
      hid]
    show _ = (owed _ _ post).toList
    rfl

/-- The core of a member changed in other conversations only. -/
theorem InTouch.beside (h : InTouch W label C made auth carriers pending x) {c : Core P}
    (hbeside : Core.Beside label.2 (x.cores i) c) {bus : MessageBus ι}
    (hlinks : Links P label bus fun i ↦
      (pending i).map fun message ↦ W.data (postEnvelope P label message.frame)) :
    InTouch W label C made auth carriers pending
      { x with cores := Function.update x.cores i c, bus := bus } := by
  obtain ⟨hholds, hauth⟩ := (h.holds i).beside hbeside
  have hkept (j : ι) := h.holds_update hholds hauth j
  rw [Function.update_eq_self] at hkept
  exact ⟨h.inStep, fun j ↦ (hkept j).1, fun j ↦ (hkept j).2, hlinks, h.heard⟩

theorem InTouch.receive (hhash : P.HashesApart fun components ↦ ∃ frame, made frame ∧ components = [frame])
    (h : InTouch W label C made auth carriers pending x)
    (hmade : ∀ frame, Sent W label x frame → made frame) (hfits : x.Fits label.2 (.receive i)) :
    ∃ carriers pending, InTouch W label C made auth carriers pending (x.step W label.2 (.receive i)) := by
  unfold step
  dsimp only
  cases hqueue : (x.bus.channels i).queued with
  | nil => exact ⟨carriers, pending, h⟩
  | cons data queue =>
      by_cases hhint : hintOf P data = some label.2
      · exact h.receive_own hhash hmade hqueue hhint
      · have hlinks := (h.links.receive_of_ne hqueue hhint).publishAll (W := W)
          (hfits data (by rw [hqueue]; rfl) hhint)
        refine ⟨carriers, pending, ?_⟩
        dsimp only [Exchange.receive]
        rw [if_neg hhint]
        exact h.beside (Core.beside_handlePayload hhint (x.cores i)) hlinks

theorem InTouch.step (hhash : P.HashesApart fun components ↦ ∃ frame, made frame ∧ components = [frame])
    (h : InTouch W label C made auth carriers pending x) (s : Step P ι)
    (hmade : ∀ frame, Sent W label (x.step W label.2 s) frame → made frame) (hfits : x.Fits label.2 s) :
    ∃ carriers pending, InTouch W label C made auth carriers pending (x.step W label.2 s) := by
  cases s with
  | send i content => exact h.send i content hmade
  | receive i => exact h.receive hhash (fun frame hsent ↦ hmade frame (hsent.step _)) hfits
  | subscribe i address =>
      exact ⟨carriers, pending, h.inStep, h.holds, h.verdicts, h.links.register address i, h.heard⟩
  | elsewhere i core => exact ⟨carriers, pending, h.beside hfits h.links⟩
  | publish address data =>
      exact ⟨carriers, pending, h.inStep, h.holds, h.verdicts, h.links.publish_of_ne address hfits, h.heard⟩

theorem InTouch.run (hhash : P.HashesApart fun components ↦ ∃ frame, made frame ∧ components = [frame])
    {steps : List (Step P ι)}
    (hmade : ∀ frame, Sent W label (run (Exchange.step W label.2) x steps) frame → made frame)
    (hfits : Along (Exchange.step W label.2) (Fits label.2) x steps)
    (h : InTouch W label C made auth carriers pending x) :
    ∃ carriers pending,
      InTouch W label C made auth carriers pending (run (Exchange.step W label.2) x steps) := by
  induction steps generalizing x carriers pending with
  | nil => exact ⟨carriers, pending, h⟩
  | cons s steps ih =>
      -- what the step sent is still there at the end of the run
      have hsent (frame : Bytes) (hsent : Sent W label (x.step W label.2 s) frame) : made frame := by
        have hstep (y : Exchange P ι) (s : Step P ι) (h : Sent W label y frame) :
            Sent W label (y.step W label.2 s) frame := h.step s
        exact hmade frame (run_invariant hstep hsent steps)
      obtain ⟨carriers, pending, hstep⟩ := h.step hhash s hsent hfits.1
      exact ih hmade hfits.2 hstep

end Steps

variable (label) in
/-- All members have joined and subscribed, and nothing has been sent since: they remember no frames but
these. -/
structure Established (C : Concord P ι label.2) (before : Bytes → Prop) (x : Exchange P ι) : Prop where
  joined : ∃ carriers, C.InStep carriers (fun _ ↦ []) ∧
    ∀ i, (x.cores i).Holds (fun frame ↦ C.authorOf frame = i ∧ before frame) label (carriers i)
  self : ∀ i, (x.cores i).services.self = (C.member i).signer
  links : Links P label x.bus fun _ ↦ []
  posts : x.posts = []
  reports : ∀ i, x.reports i = []

theorem Established.inTouch {C : Concord P ι label.2} {before made : Bytes → Prop} {x : Exchange P ι}
    (h : Established label C before x) (hmade : ∀ frame, before frame → made frame) :
    ∃ carriers pending, InTouch W label C made (fun i ↦ (x.cores i).services.auth) carriers pending x := by
  obtain ⟨carriers, hinStep, hholds⟩ := h.joined
  refine ⟨carriers, _, hinStep, fun i ↦ ?_, fun _ ↦ rfl, h.links, fun i ↦ ?_⟩
  · exact (hholds i).mono fun frame hown ↦ ⟨hown.1, hmade frame hown.2⟩
  · exact ⟨[], [], h.posts, .nil, h.reports i⟩

/-- Whatever the members send and receive, and in whatever order, a member has reported what the others
sent, up to what still waits for it: in the order of sending, each message once, with its bytes and under
the id that the sender was given, unless the member finds the sender invalid.  No two frames of the run may
have the same hash. -/
theorem posts_read_in_order {C : Concord P ι label.2} {before : Bytes → Prop} {x : Exchange P ι}
    (hx : Established label C before x) {steps : List (Step P ι)}
    (hfits : Along (step W label.2) (Fits label.2) x steps)
    (hhash : P.HashesApart fun components ↦ ∃ frame,
      (before frame ∨ Sent W label (run (step W label.2) x steps) frame) ∧ components = [frame]) (j : ι) :
    ∃ heard waiting, (run (step W label.2) x steps).posts = heard ++ waiting ∧
      (queuedFor P label.2 ((run (step W label.2) x steps).bus.channels j)).length = waiting.length ∧
      (run (step W label.2) x steps).reports j = (heard.filter (·.sender ≠ j)).filterMap
        (owed (fun i ↦ (x.cores i).services.self) (x.cores j).services.auth) := by
  have hmade (frame : Bytes) (hframe : before frame) :
      before frame ∨ Sent W label (run (step W label.2) x steps) frame := .inl hframe
  obtain ⟨carriers, pending, hstart⟩ := hx.inTouch (W := W) hmade
  obtain ⟨carriers, pending, h⟩ := hstart.run hhash (fun _ ↦ .inr) hfits
  obtain ⟨heard, waiting, hposts, hcarried, hreports⟩ := h.heard j
  refine ⟨heard, waiting, hposts, ?_, ?_⟩
  · rw [h.links.queued j, List.length_map, hcarried.length_eq]
  · rw [hreports, funext hx.self]

/-! ## Two members of a GroupV3 conversation -/

namespace Sample

instance : Countable Char := Function.Injective.countable (f := Char.toNat) fun _ _ ↦ Char.toNat_inj.mp

instance : Countable String :=
  Function.Injective.countable (f := String.toList) fun _ _ ↦ String.toList_inj.mp

deriving instance Countable for HistoryEntry, ReliablePayload, EnvelopeV1, GroupV3Payload

/-- A number in unary, one for every value. -/
noncomputable def written {α : Type} [Countable α] (a : α) : Bytes :=
  .replicate ((exists_injective_nat α).choose a) 0

noncomputable def read {α : Type} [Countable α] (bytes : Bytes) : Except String α :=
  match Function.partialInv (exists_injective_nat α).choose bytes.length with
  | some a => .ok a
  | none => .error "no value"

theorem read_written {α : Type} [Countable α] (a : α) : read (written a) = .ok a := by
  unfold read written
  rw [List.length_replicate, Function.partialInv_left (exists_injective_nat α).choose_spec]

-- a member's leaf, and its key
def leaf (i : Bool) : UInt8 := if i then 1 else 0

def member (i : Bool) : GroupMember := Conversations.Sample.seat (leaf i).toUInt32 [leaf i]

/-- The group as a member has it. -/
def group (i : Bool) : MlsGroup Unit :=
  { groupId := [0], epoch := 0, members := [member false, member true]
    ownLeafIndex := (leaf i).toUInt32, secrets := () }

-- the leaf of its author stands before what a frame carries
abbrev mls : OpenMls :=
  { Conversations.Sample.mls with
    Secrets := Unit
    createMessage := fun group plaintext ↦ .ok (group.ownLeafIndex.toUInt8 :: plaintext, ())
    protocolMessage := fun frame ↦ .ok ⟨0, frame⟩
    processMessage := fun group message ↦
      match message.body with
      | [] => .error (.other "no frame")
      | author :: plaintext =>
          if author.toUInt32 = group.ownLeafIndex then .error .cannotDecryptOwnMessage
          else .ok ⟨some author.toUInt32, .applicationMessage plaintext, ()⟩ }

noncomputable abbrev platform : Platform :=
  { Conversations.Sample.hashing with
    mls := mls
    proto := { Conversations.Sample.hashing.proto with
      decodeEnvelope := read
      decodeReliable := read
      encodeReliable := written
      decodeGroupV3Payload := read } }

noncomputable def wire : Wire platform where
  encodeEnvelope := written
  encodePlaintext := id
  encodeGroupV3Payload := written
  encodeInvite _ := []
  decode_envelope := read_written
  decode_plaintext _ := rfl
  decode_groupV3Payload := read_written
  decode_groupV3Frame := Conversations.Sample.hashing_proto
  decode_reliable := read_written

/-- A message as its author seals it. -/
def sealedBy (i : Bool) (plaintext : Bytes) : Sealed Bool := ⟨i, plaintext, leaf i :: plaintext⟩

theorem behind {pending : Bool → List (Sealed Bool)}
    (h : ∀ i, ∀ message ∈ pending i, message = sealedBy message.sender message.plaintext) {j : Bool}
    {message : Sealed Bool} {rest : List (Sealed Bool)} (hj : pending j = message :: rest) (i : Bool) :
    ∀ message ∈ Function.update pending j rest i, message = sealedBy message.sender message.plaintext := by
  intro next hnext
  refine h i next ?_
  by_cases hij : i = j
  · subst hij
    rw [Function.update_self] at hnext
    rw [hj]
    exact List.mem_cons_of_mem _ hnext
  · rwa [Function.update_of_ne hij] at hnext

def concord : Concord platform Bool "" where
  member := member
  authorOf frame := frame.head? == some 1
  InStep carriers pending := carriers = (fun i ↦ .mls (group i)) ∧
    ∀ i, ∀ message ∈ pending i, message = sealedBy message.sender message.plaintext
  present := by
    rintro _ _ ⟨rfl, -⟩ i
    rfl
  seats := by
    rintro _ _ ⟨rfl, -⟩ i j
    cases i <;> rfl
  seals := by
    rintro _ pending ⟨rfl, hpending⟩ i plaintext
    refine .inr ⟨leaf i :: plaintext, .mls (group i), ⟨_, _, rfl, ?_, rfl⟩, ?_, ?_, ?_⟩
    · cases i <;> rfl
    · cases i <;> rfl
    · exact Function.update_eq_self i _
    · intro j message hmem
      rw [List.mem_append, List.mem_singleton] at hmem
      obtain hmem | rfl := hmem
      · exact hpending j message hmem
      · rfl
  opens := by
    rintro _ pending ⟨rfl, hpending⟩ j message rest hj hother
    have hmessage := hpending j message (hj ▸ List.mem_cons_self)
    refine ⟨?_, .mls (group j), ?_, Function.update_eq_self j _, ?_⟩
    · rw [hmessage]
      cases message.sender <;> rfl
    · refine ⟨⟨0, message.frame⟩, (), rfl, rfl, ?_, rfl⟩
      rw [hmessage]
      revert hother
      cases message.sender <;> cases j <;> intro hother <;> first | exact absurd rfl hother | rfl
    · exact behind hpending hj
  refuses := by
    rintro _ pending ⟨rfl, hpending⟩ j message rest hj hown
    have hmessage := hpending j message (hj ▸ List.mem_cons_self)
    refine ⟨.mls (group j), ⟨⟨0, message.frame⟩, rfl, rfl, ?_, rfl⟩, Function.update_eq_self j _, ?_⟩
    · rw [hmessage, hown]
      cases j <;> rfl
    · exact behind hpending hj

/-- Two members that have joined a GroupV3 conversation, and nothing else. -/
noncomputable def core (i : Bool) : Core platform :=
  { services := { Conversations.Sample.services _ with self := (member i).signer }
    inboxId := "inbox"
    cachedConvos := AList.singleton "" (.group (.v3 { mlsGroup := group i, convoId := "" })) }

noncomputable def pair : Exchange platform Bool :=
  { cores := core
    bus := { routes := fun _ ↦ [false, true] } }

theorem pair_established : Established (.v3, "") concord (fun _ ↦ False) pair where
  joined := ⟨fun i ↦ .mls (group i), ⟨rfl, nofun⟩, fun i ↦
    ⟨(by decide : "" ≠ "inbox"), fun _ ↦ rfl, _, List.dlookup_cons_eq _ _ _, rfl, rfl, trivial⟩⟩
  self _ := rfl
  links := ⟨fun _ ↦ (by decide : [false, true].Nodup), by decide, fun _ ↦ rfl, fun _ ↦ rfl⟩
  posts := rfl
  reports _ := rfl

/-- A payload of a conversation that no core knows. -/
noncomputable def other : Bytes := wire.data (postEnvelope platform (.v3, "b") [])

theorem hintOf_other : hintOf platform other = some "b" :=
  (wire.hintOf_data _).trans (congrArg some (postEnvelope_hint _ _))

/-- A core that has looked it up. -/
noncomputable def asked (i : Bool) : Core platform :=
  { core i with services := { (core i).services with store := { (core i).services.store with requests := 1 } } }

theorem handlePayload_other (i : Bool) : Core.handlePayload other (core i) = (.ok .empty, asked i) := by
  unfold Core.handlePayload other Wire.data
  rw [wire.decode_envelope, orErr, Call.ofResult_ok_bind, Call.read_bind]
  rfl

theorem asked_holds (i : Bool) : (asked i).Holds (fun _ ↦ False) (.v3, "") (.mls (group i)) :=
  ⟨(by decide : "" ≠ "inbox"), fun _ ↦ rfl, _, List.dlookup_cons_eq _ _ _, rfl, rfl, trivial⟩

/-- The pair when the second member has handled it. -/
noncomputable def visited : Exchange platform Bool :=
  { cores := Function.update core true (asked true)
    bus := (pair.bus.publish "b" other).step (.receive true) }

theorem receive_other :
    run (step wire "") pair [.publish "b" other, .receive true] = visited := by
  show receive wire "" { pair with bus := pair.bus.publish "b" other } true other = visited
  have hforeign : hintOf platform other ≠ some "" := by
    rw [hintOf_other]
    decide
  unfold receive
  dsimp only
  rw [if_neg hforeign, show pair.cores true = core true from rfl, handlePayload_other]
  rfl

/-- The pair when the first member has sent a message as well. -/
noncomputable def posted : Exchange platform Bool := step wire "" visited (.send false [7])

noncomputable def post : Bytes :=
  wire.data (postEnvelope platform (.v3, "") (leaf false :: platform.proto.encodeGroupV3Frame ⟨some [7]⟩))

theorem queued_posted : (posted.bus.channels true).queued = [post] := rfl

theorem receive_post : (step wire "" posted (.receive true)).bus = posted.bus.step (.receive true) := by
  have hseats : (Carrier.mls (group true)).Seats (P := platform) (member false) := rfl
  obtain ⟨-, hcarries⟩ := (asked_holds true).reads wire rfl hseats
    ⟨⟨0, leaf false :: platform.proto.encodeGroupV3Frame ⟨some [7]⟩⟩, (), rfl, rfl, rfl, rfl⟩ nofun
    (reading_groupV3Frame wire [7])
  show publishAll wire (posted.bus.step (.receive true))
    (publishedSince (asked true) (Core.handlePayload post (asked true)).2) = _
  rw [post, publishedSince_of_carries hcarries]
  rfl

theorem pair_fits : Along (step wire "") (Fits "") pair
    [.publish "b" other, .receive true, .send false [7], .receive true] := by
  have hforeign : hintOf platform other ≠ some "" := by
    rw [hintOf_other]
    decide
  refine ⟨hforeign, ?_, trivial, ?_, trivial⟩
  · rintro _ ⟨rfl⟩ - envelope hmem
    have hnone : publishedSince (core true) (Core.handlePayload other (core true)).2 = [] := by
      rw [handlePayload_other]
      rfl
    exact absurd (hnone ▸ hmem) List.not_mem_nil
  · have hposted : step wire "" (step wire "" (step wire "" pair (.publish "b" other)) (.receive true))
        (.send false [7]) = posted := congrArg (step wire "" · (.send false [7])) receive_other
    rw [hposted]
    intro data hdata hne
    rw [queued_posted] at hdata
    cases hdata
    exact absurd ((wire.hintOf_data _).trans (congrArg some (postEnvelope_hint _ _))) hne

end Sample

/-- What the first member sends, the second reports, under the same id.  A payload of another conversation
came to it before. -/
theorem posts_read_in_order_pair : ∃ messageId,
    (run (step Sample.wire "") Sample.pair
      [.publish "b" Sample.other, .receive true, .send false [7], .receive true]).posts =
        [⟨false, [7], messageId⟩] ∧
    (run (step Sample.wire "") Sample.pair
      [.publish "b" Sample.other, .receive true, .send false [7], .receive true]).reports true =
        [⟨[7], ⟨(Sample.member false).signer⟩, messageId⟩] := by
  obtain ⟨heard, waiting, hposts, hwaiting, hreports⟩ :=
    posts_read_in_order Sample.pair_established Sample.pair_fits
      (Conversations.Sample.hashing_hashesApart _) true
  have hrun : run (step Sample.wire "") Sample.pair
      [.publish "b" Sample.other, .receive true, .send false [7], .receive true] =
      step Sample.wire "" Sample.posted (.receive true) :=
    congrArg (run (step Sample.wire "") · [.send false [7], .receive true]) Sample.receive_other
  rw [hrun] at hposts hwaiting hreports ⊢
  have hsent : (step Sample.wire "" Sample.posted (.receive true)).posts = [⟨false, [7], _⟩] := rfl
  have hnone : waiting = [] := by
    rw [Sample.receive_post] at hwaiting
    exact List.eq_nil_of_length_eq_zero (hwaiting.symm.trans rfl)
  rw [hnone, List.append_nil, hsent] at hposts
  exact ⟨_, hsent, by rw [hreports, ← hposts]; rfl⟩

end Exchange

end LogosChat.Client
