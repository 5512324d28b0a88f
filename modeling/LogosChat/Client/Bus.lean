import Mathlib.Data.Finset.Insert
import Mathlib.Logic.Function.Basic
import LogosChat.Reasoning.Bytes
import LogosChat.Reasoning.Result
import LogosChat.Reasoning.Run

/-!
# The in-process bus

Clients of one process share a routing table: `publish` sends a payload into the channel of every
endpoint that is subscribed to its address.  The table is behind a mutex, so `register` and `publish`
are steps of their own; receivers are read, and dropped, between them.
-/

namespace LogosChat.Client

open Reasoning

/-- An unbounded channel: what waits in it, whether its receiver still exists, and what the receiver
has returned. -/
structure Channel where
  queued : List Bytes := []
  connected : Bool := true
  received : List Bytes := []

namespace Channel

/-- `Sender::send`, and whether it succeeded. -/
def send (c : Channel) (data : Bytes) : Channel × Bool :=
  if c.connected then ({ c with queued := c.queued ++ [data] }, true) else (c, false)

def receive (c : Channel) : Channel :=
  match c.queued with
  | [] => c
  | data :: rest => { c with queued := rest, received := c.received ++ [data] }

/-- The receiver is dropped, with what waits for it. -/
def disconnect (c : Channel) : Channel := { c with queued := [], connected := false }

/-- Everything that was sent into the channel, while its receiver exists. -/
def through (c : Channel) : List Bytes := c.received ++ c.queued

theorem through_receive (c : Channel) : c.receive.through = c.through := by
  unfold receive through
  split
  case h_1 => rfl
  case h_2 data rest h => simp [h]

theorem connected_receive (c : Channel) : c.receive.connected = c.connected := by
  unfold receive
  split <;> rfl

theorem through_disconnect (c : Channel) : c.disconnect.through <+: c.through := by
  simp [disconnect, through]

theorem through_send {c : Channel} (h : c.connected = true) (data : Bytes) :
    (c.send data).1.through = c.through ++ [data] := by
  simp [send, h, through]

theorem prefix_through_send (c : Channel) (data : Bytes) : c.through <+: (c.send data).1.through := by
  unfold send
  split
  · exact (List.prefix_append_right_inj c.received).mpr (List.prefix_append _ _)
  · exact List.prefix_rfl

theorem connected_send (c : Channel) (data : Bytes) : (c.send data).1.connected = c.connected := by
  unfold send
  split <;> rfl

theorem send_of_disconnected {c : Channel} (h : c.connected = false) (data : Bytes) :
    (c.send data).1 = c := by
  simp [send, h]

end Channel

/-- The table, and the endpoints with their channels.  An address without senders may be absent. -/
structure MessageBus (ι : Type) where
  routes : String → List ι := fun _ ↦ []
  channels : ι → Channel := fun _ ↦ {}
  -- the endpoints that still hold their receiver, in `inbound_rx`
  inboundRx : ι → Bool := fun _ ↦ true

namespace MessageBus

variable {ι : Type} [DecidableEq ι]

/-- Idempotent per endpoint: the core subscribes an address whenever it rebuilds a conversation. -/
def register (bus : MessageBus ι) (address : String) (sender : ι) : MessageBus ι :=
  let senders := bus.routes address
  if sender ∈ senders then bus
  else { bus with routes := Function.update bus.routes address (senders ++ [sender]) }

/-- `senders.retain(|tx| tx.send(data.clone()).is_ok())`: the senders kept, and the channels. -/
def retain (data : Bytes) : List ι → (ι → Channel) → List ι × (ι → Channel)
  | [], channels => ([], channels)
  | tx :: rest, channels =>
      let sent := (channels tx).send data
      let after := retain data rest (Function.update channels tx sent.1)
      (if sent.2 then tx :: after.1 else after.1, after.2)

def publish (bus : MessageBus ι) (address : String) (data : Bytes) : MessageBus ι :=
  let after := retain data (bus.routes address) bus.channels
  { bus with routes := Function.update bus.routes address after.1, channels := after.2 }

/-- `Transport::inbound`: the receiver can be taken once. -/
def inbound (bus : MessageBus ι) (endpoint : ι) : Result Infallible (MessageBus ι) :=
  if bus.inboundRx endpoint then
    .ok { bus with inboundRx := Function.update bus.inboundRx endpoint false }
  else .panic

inductive Step (ι : Type) where
  | subscribe (endpoint : ι) (address : String)
  | publish (endpoint : ι) (address : String) (data : Bytes)
  | inbound (endpoint : ι)
  | receive (endpoint : ι)
  | drop (endpoint : ι)

def step (bus : MessageBus ι) : Step ι → MessageBus ι
  | .subscribe endpoint address => bus.register address endpoint
  | .publish _ address data => bus.publish address data
  | .inbound endpoint =>
      match bus.inbound endpoint with
      | .ok bus => bus
      | _ => bus
  | .receive endpoint =>
      { bus with
        channels := Function.update bus.channels endpoint (bus.channels endpoint).receive }
  | .drop endpoint =>
      { bus with
        channels := Function.update bus.channels endpoint (bus.channels endpoint).disconnect }

/-! ## What each step does -/

theorem mem_register {bus : MessageBus ι} {address other : String} {sender endpoint : ι} :
    endpoint ∈ (bus.register address sender).routes other ↔
      endpoint ∈ bus.routes other ∨ endpoint = sender ∧ other = address := by
  unfold register
  dsimp only
  by_cases hmem : sender ∈ bus.routes address
  · rw [if_pos hmem]
    refine ⟨.inl, fun h ↦ h.elim id ?_⟩
    rintro ⟨rfl, rfl⟩
    exact hmem
  · rw [if_neg hmem]
    dsimp only
    by_cases haddress : other = address
    · subst haddress
      simp
    · simp [haddress]

theorem nodup_register {bus : MessageBus ι} (h : ∀ address, (bus.routes address).Nodup)
    (address : String) (sender : ι) (other : String) :
    ((bus.register address sender).routes other).Nodup := by
  unfold register
  dsimp only
  by_cases hmem : sender ∈ bus.routes address
  · rw [if_pos hmem]
    exact h other
  · rw [if_neg hmem]
    dsimp only
    by_cases haddress : other = address
    · subst haddress
      rw [Function.update_self, ← List.concat_eq_append]
      exact (h other).concat hmem
    · rw [Function.update_of_ne haddress]
      exact h other

theorem register_channels (bus : MessageBus ι) (address : String) (sender : ι) :
    (bus.register address sender).channels = bus.channels := by
  unfold register
  dsimp only
  split <;> rfl

/-- The senders that are kept are those still connected, and each channel of the list gets the payload
once. -/
theorem retain_spec (data : Bytes) (senders : List ι) (channels : ι → Channel) (h : senders.Nodup) :
    (retain data senders channels).1 = senders.filter (fun tx ↦ (channels tx).connected) ∧
      ∀ i, (retain data senders channels).2 i =
        if i ∈ senders then ((channels i).send data).1 else channels i := by
  induction senders generalizing channels with
  | nil => exact ⟨rfl, fun i ↦ by simp [retain]⟩
  | cons tx rest ih =>
      obtain ⟨hnotin, hrest⟩ := List.nodup_cons.mp h
      obtain ⟨hkept, hchannels⟩ := ih (Function.update channels tx ((channels tx).send data).1) hrest
      -- no later sender of the list is this one
      have hother : ∀ i ∈ rest, Function.update channels tx ((channels tx).send data).1 i = channels i :=
        fun i hi ↦ Function.update_of_ne (ne_of_mem_of_not_mem hi hnotin) _ _
      have hsent : ((channels tx).send data).2 = (channels tx).connected := by
        unfold Channel.send
        split <;> simp_all
      refine ⟨?_, fun i ↦ ?_⟩
      · have hfilter : rest.filter (fun i ↦
            (Function.update channels tx ((channels tx).send data).1 i).connected) =
            rest.filter fun i ↦ (channels i).connected :=
          List.filter_congr fun i hi ↦ by rw [hother i hi]
        rw [retain, List.filter_cons]
        dsimp only
        rw [hsent, hkept, hfilter]
      · rw [retain]
        dsimp only
        rw [hchannels i]
        by_cases hi : i ∈ rest
        · rw [if_pos hi, if_pos (List.mem_cons_of_mem tx hi), hother i hi]
        · rw [if_neg hi]
          by_cases htx : i = tx
          · subst htx
            rw [Function.update_self, if_pos List.mem_cons_self]
          · rw [Function.update_of_ne htx, if_neg (by simp [htx, hi])]

theorem prefix_through_publish (bus : MessageBus ι) (address : String) (data : Bytes) (i : ι) :
    (bus.channels i).through <+: ((bus.publish address data).channels i).through := by
  suffices h : ∀ (senders : List ι) (channels : ι → Channel),
      (channels i).through <+: ((retain data senders channels).2 i).through from h _ _
  intro senders
  induction senders with
  | nil => exact fun channels ↦ List.prefix_rfl
  | cons tx rest ih =>
      intro channels
      refine List.IsPrefix.trans ?_ (ih (Function.update channels tx ((channels tx).send data).1))
      by_cases htx : i = tx
      · subst htx
        rw [Function.update_self]
        exact Channel.prefix_through_send _ data
      · rw [Function.update_of_ne htx]

/-! ## What an endpoint is owed -/

/-- What the bus is for: an endpoint has its addresses, and is owed what is published to them from
then on. -/
structure Mailbox where
  addresses : Finset String := ∅
  owed : List Bytes := []

namespace Mailbox

def subscribe (m : Mailbox) (address : String) : Mailbox :=
  { m with addresses := insert address m.addresses }

def publish (m : Mailbox) (address : String) (data : Bytes) : Mailbox :=
  if address ∈ m.addresses then { m with owed := m.owed ++ [data] } else m

def step (endpoint : ι) (m : Mailbox) : Step ι → Mailbox
  | .subscribe other address => if other = endpoint then m.subscribe address else m
  | .publish _ address data => m.publish address data
  | _ => m

theorem addresses_publish (m : Mailbox) (address : String) (data : Bytes) :
    (m.publish address data).addresses = m.addresses := by
  unfold publish
  split <;> rfl

theorem prefix_owed_publish (m : Mailbox) (address : String) (data : Bytes) :
    m.owed <+: (m.publish address data).owed := by
  unfold publish
  split
  · exact List.prefix_append _ _
  · exact List.prefix_rfl

end Mailbox

/-- The bus stands for the mailbox of an endpoint. -/
structure Serves (endpoint : ι) (bus : MessageBus ι) (m : Mailbox) : Prop where
  nodup : ∀ address, (bus.routes address).Nodup
  routed : (bus.channels endpoint).connected = true →
    ∀ address, endpoint ∈ bus.routes address ↔ address ∈ m.addresses
  delivered : (bus.channels endpoint).connected = true → (bus.channels endpoint).through = m.owed
  front : (bus.channels endpoint).through <+: m.owed

variable {bus : MessageBus ι} {endpoint : ι} {m : Mailbox}

omit [DecidableEq ι] in
theorem serves_start (endpoint : ι) : Serves endpoint {} {} where
  nodup _ := List.nodup_nil
  routed _ address := by simp
  delivered _ := rfl
  front := List.prefix_rfl

theorem Serves.register (h : Serves endpoint bus m) (other : ι) (address : String) :
    Serves endpoint (bus.register address other)
      (if other = endpoint then m.subscribe address else m) := by
  refine ⟨nodup_register h.nodup address other, ?_, ?_, ?_⟩
  · rw [register_channels]
    intro hconnected a
    rw [mem_register, h.routed hconnected]
    by_cases heq : other = endpoint
    · simp [heq, Mailbox.subscribe, or_comm]
    · simp [heq, Ne.symm heq]
  · rw [register_channels]
    split
    · exact h.delivered
    · exact h.delivered
  · rw [register_channels]
    split
    · exact h.front
    · exact h.front

theorem Serves.publish (h : Serves endpoint bus m) (address : String) (data : Bytes) :
    Serves endpoint (bus.publish address data) (m.publish address data) := by
  obtain ⟨hkept, hchannels⟩ := retain_spec data (bus.routes address) bus.channels (h.nodup address)
  have hroutes (a : String) : (bus.publish address data).routes a =
      if a = address then (bus.routes a).filter (fun tx ↦ (bus.channels tx).connected)
      else bus.routes a := by
    show Function.update bus.routes address _ a = _
    by_cases ha : a = address
    · subst ha
      rw [Function.update_self, if_pos rfl, hkept]
    · rw [Function.update_of_ne ha, if_neg ha]
  have hchannel : (bus.publish address data).channels endpoint =
      if endpoint ∈ bus.routes address then ((bus.channels endpoint).send data).1
      else bus.channels endpoint := hchannels endpoint
  have hconnected : ((bus.publish address data).channels endpoint).connected =
      (bus.channels endpoint).connected := by
    rw [hchannel]
    split
    · exact Channel.connected_send _ data
    · rfl
  have hdelivered (hup : ((bus.publish address data).channels endpoint).connected = true) :
      ((bus.publish address data).channels endpoint).through = (m.publish address data).owed := by
    rw [hconnected] at hup
    rw [hchannel, Mailbox.publish]
    have hrouted := h.routed hup address
    by_cases hmem : endpoint ∈ bus.routes address
    · rw [if_pos hmem, if_pos (hrouted.mp hmem), Channel.through_send hup, h.delivered hup]
    · rw [if_neg hmem, if_neg (mt hrouted.mpr hmem), h.delivered hup]
  refine ⟨fun a ↦ ?_, fun hup a ↦ ?_, hdelivered, ?_⟩
  · rw [hroutes]
    split
    · exact (h.nodup a).filter _
    · exact h.nodup a
  · rw [hconnected] at hup
    rw [Mailbox.addresses_publish, ← h.routed hup, hroutes]
    split
    · simp [hup]
    · exact Iff.rfl
  · have hgrows := h.front.trans (m.prefix_owed_publish address data)
    cases hup : (bus.channels endpoint).connected with
    | true =>
        rw [hdelivered (hconnected.trans hup)]
    | false =>
        rw [hchannel, Channel.send_of_disconnected hup, ite_self]
        exact hgrows

-- a step on the channel of one endpoint
theorem Serves.onChannel (h : Serves endpoint bus m) (other : ι) {c : Channel}
    (hdown : c.connected = true → (bus.channels other).connected = true)
    (hthrough : c.connected = true → c.through = (bus.channels other).through)
    (hfront : c.through <+: (bus.channels other).through) :
    Serves endpoint { bus with channels := Function.update bus.channels other c } m := by
  by_cases heq : other = endpoint
  · subst heq
    have hself : ({ bus with channels := Function.update bus.channels other c } :
        MessageBus ι).channels other = c := Function.update_self ..
    refine ⟨h.nodup, ?_, ?_, ?_⟩
    · rw [hself]
      exact fun hup ↦ h.routed (hdown hup)
    · rw [hself]
      exact fun hup ↦ (hthrough hup).trans (h.delivered (hdown hup))
    · rw [hself]
      exact hfront.trans h.front
  · have hsame : ({ bus with channels := Function.update bus.channels other c } :
        MessageBus ι).channels endpoint = bus.channels endpoint :=
      Function.update_of_ne (Ne.symm heq) _ _
    refine ⟨h.nodup, ?_, ?_, ?_⟩
    · rw [hsame]
      exact h.routed
    · rw [hsame]
      exact h.delivered
    · rw [hsame]
      exact h.front

theorem Serves.step (h : Serves endpoint bus m) (e : Step ι) :
    Serves endpoint (bus.step e) (m.step endpoint e) := by
  cases e with
  | subscribe other address => exact h.register other address
  | publish sender address data => exact h.publish address data
  | inbound other =>
      unfold MessageBus.step inbound
      dsimp only
      by_cases hheld : bus.inboundRx other = true
      · rw [if_pos hheld]
        exact ⟨h.nodup, h.routed, h.delivered, h.front⟩
      · rw [if_neg hheld]
        exact h
  | receive other =>
      apply h.onChannel other
      · rw [Channel.connected_receive]
        exact id
      · exact fun _ ↦ Channel.through_receive _
      · rw [Channel.through_receive]
  | drop other =>
      apply h.onChannel other
      · exact nofun
      · exact nofun
      · exact Channel.through_disconnect _

/-- In any run of any number of endpoints, an endpoint that is alive has been sent, in order and each
once, exactly the payloads published to its addresses since it first subscribed to them, however often
it subscribed and whoever else came and went; a dropped one received a front of them.  And a publish
leaves no sender of a dropped endpoint behind. -/
theorem delivers_once_in_order (steps : List (Step ι)) (endpoint : ι) :
    let bus := run step ({} : MessageBus ι) steps
    let owed := (run (Mailbox.step endpoint) {} steps).owed
    (bus.channels endpoint).received <+: owed ∧
      ((bus.channels endpoint).connected = true →
        (bus.channels endpoint).received ++ (bus.channels endpoint).queued = owed) ∧
      ∀ address data, ((bus.publish address data).routes address).Nodup ∧
        ∀ tx ∈ (bus.publish address data).routes address, (bus.channels tx).connected = true := by
  intro bus owed
  have hserves : Serves endpoint bus (run (Mailbox.step endpoint) {} steps) :=
    run_simulates (fun _ _ e h ↦ h.step e) (serves_start endpoint) steps
  refine ⟨(List.prefix_append _ _).trans hserves.front, hserves.delivered, fun address data ↦ ?_⟩
  have hkept : (bus.publish address data).routes address =
      (bus.routes address).filter fun tx ↦ (bus.channels tx).connected := by
    show Function.update bus.routes address _ address = _
    rw [Function.update_self, (retain_spec data _ _ (hserves.nodup address)).1]
  rw [hkept]
  exact ⟨(hserves.nodup address).filter _, fun tx htx ↦ (List.mem_filter.mp htx).2⟩

-- a second subscription to an address does not double what is sent to it
example : ((run step ({} : MessageBus Nat) [.subscribe 1 "a", .subscribe 1 "a", .publish 2 "a" [7],
    .subscribe 2 "a", .receive 1, .publish 2 "a" [8]]).channels 1).through = [[7], [8]] := by
  decide

end MessageBus

end LogosChat.Client
