import LogosChat.Conversations.Frame
import LogosChat.Conversations.GroupV2Membership
import LogosChat.Conversations.SendFailure

/-!
# The ids of messages

A send returns the id of its message.  GroupV1 and GroupV2 hash the content together with the Lamport
timestamp, which no two messages of a conversation share; GroupV3 hashes the content alone.
-/

namespace LogosChat.Conversations

open Reasoning

variable {P : Platform} {C β : Type}

/-! ## What is hashed -/

/-- No two of these byte strings have the same hash.  The components are hashed as one string. -/
def Platform.HashesApart (P : Platform) (hashed : List Bytes → Prop) : Prop :=
  ∀ a b, hashed a → hashed b →
    P.blake2b Platform.messageIdSize a = P.blake2b Platform.messageIdSize b → a.flatten = b.flatten

/-- What `derive_message_id` hashes. -/
def messageIdComponents (channelId sender : String) (lamport : Int32) (content : Bytes) : List Bytes :=
  [utf8 "deterministic_frame_id|", utf8 channelId, utf8 "|", utf8 sender, utf8 "|", toBeBytes lamport,
    utf8 "|", content]

/-- What a send of this content hashes for the id of the message: in GroupV1 and GroupV2 at some
timestamp, in GroupV3 the frame alone. -/
def GroupConvo.Hashes (convo : GroupConvo P) (me : Signer) (content : Bytes) (components : List Bytes) :
    Prop :=
  (convo.kind ≠ .v3 ∧
    ∃ lamport, components = messageIdComponents convo.id me.signer.toHex lamport content) ∨
  convo.kind = .v3 ∧
    components = [utf8 "logos-chat|message_id|", P.proto.encodeGroupV3Frame ⟨some content⟩]

theorem toBeBytes_injective {x y : Int32} (h : toBeBytes x = toBeBytes y) : x = y := by
  have hbits : x.toUInt32 = y.toUInt32 := GroupV2.leafBytes_injective h
  cases x
  cases y
  cases hbits
  rfl

theorem toBeBytes_length (x : Int32) : (toBeBytes x).length = 4 := by
  rw [toBeBytes, List.length_reverse, leBytes_length]

/-- Within one conversation and for one sender, the id determines the timestamp: whatever the contents
are, it stands at the same place. -/
theorem lamport_of_deriveMessageId {hashed : List Bytes → Prop} (hhash : P.HashesApart hashed)
    {channel sender : String} {lamport lamport' : Int32} {content content' : Bytes}
    (hcontent : hashed (messageIdComponents channel sender lamport content))
    (hcontent' : hashed (messageIdComponents channel sender lamport' content'))
    (h : deriveMessageId P.build channel sender lamport content =
      deriveMessageId P.build channel sender lamport' content') : lamport = lamport' := by
  have hbytes := hhash _ _ hcontent hcontent' (hexEncode_injective h)
  -- what stands before the timestamp is the same, and the timestamp has four bytes
  simp only [messageIdComponents, List.flatten_cons, List.append_cancel_left_eq] at hbytes
  have hstamp := List.append_inj_left hbytes (by rw [toBeBytes_length, toBeBytes_length])
  exact toBeBytes_injective hstamp

-- behind the same components
theorem Platform.HashesApart.of_last {hashed : List Bytes → Prop} (hhash : P.HashesApart hashed)
    (front : List Bytes) {a b : Bytes} (ha : hashed (front ++ [a])) (hb : hashed (front ++ [b]))
    (h : P.blake2bHex Platform.messageIdSize (front ++ [a]) =
      P.blake2bHex Platform.messageIdSize (front ++ [b])) : a = b := by
  have hbytes := hhash _ _ ha hb (hexEncode_injective h)
  simpa using hbytes

/-! ## What every call keeps -/

/-- The conversation is the same one, of the same client, and no clock went back. -/
structure Advances (label : C → β) (s t : InSession P C) : Prop where
  label : label t.convo = label s.convo
  self : t.cx.self = s.cx.self
  clock : ∀ c, (s.cx.causal.clock c).toInt ≤ (t.cx.causal.clock c).toInt

section Advances

variable {label : C → β} {ε α : Type} {s t : InSession P C}

theorem Advances.of_same (hlabel : label t.convo = label s.convo) (hself : t.cx.self = s.cx.self)
    (hcausal : t.cx.causal = s.cx.causal) : Advances label s t :=
  ⟨hlabel, hself, fun _ ↦ by rw [hcausal]⟩

instance (label : C → β) : IsPreorder (InSession P C) (Advances label) where
  refl _ := .of_same rfl rfl rfl
  trans _ _ _ hst htu :=
    { label := htu.label.trans hst.label
      self := htu.self.trans hst.self
      clock := fun c ↦ (hst.clock c).trans (htu.clock c) }

theorem advances_onReceive (convoId : String) (payload : ReliablePayload) :
    (InSession.onCx (ServiceContext.onReceive convoId payload) : Call (InSession P C) ε _).Keeps
      (Advances label) := by
  refine fun s ↦ ⟨rfl, rfl, fun c ↦ ?_⟩
  show (s.cx.causal.clock c).toInt ≤ ((s.cx.causal.onReceive convoId payload).2.clock c).toInt
  cases hsender : SignerKey.tryFrom payload.senderId with
  | error e => rw [CausalHistoryStore.onReceive_unparseable hsender]
  | ok sender =>
      rw [CausalHistoryStore.onReceive_clock hsender]
      by_cases hc : c = convoId
      · rw [hc, Function.update_self, toInt_max]
        exact le_max_left _ _
      · rw [Function.update_of_ne hc]

end Advances

/-! ### GroupV1 -/

namespace GroupV1

abbrev SameConvo (s t : InSession P (GroupV1Convo P)) : Prop := Advances GroupV1Convo.convoId s t

theorem advances_onGroup {ε α : Type} (m : Call (MlsGroup P.mls.Secrets) ε α) :
    (onGroup m).Keeps (SameConvo (P := P)) :=
  fun _ ↦ .of_same rfl rfl rfl

theorem advances_sendEnveloped (reliable : ReliablePayload) :
    (sendEnveloped reliable).Keeps (SameConvo (P := P)) := by
  refine (advances_onGroup _).mapErr.bind fun _ ↦ (Call.keeps_ofResult _).bind fun _ ↦ ?_
  exact Call.Keeps.bind (fun _ ↦ .of_same rfl rfl rfl) fun _ ↦ Call.keeps_pure _

theorem advances_handlePayload (payload : Bytes) :
    (handlePayload payload).Keeps (SameConvo (P := P)) :=
  keeps_handlePayload (fun _ ↦ advances_onGroup _) (fun _ ↦ advances_onGroup _) advances_onReceive payload

end GroupV1

/-! ### GroupV2 -/

namespace GroupV2

abbrev SameConvo (s t : InSession P (GroupV2Convo P)) : Prop := Advances GroupV2Convo.convoId s t

theorem advances_onConversation {ε α : Type} (m : Call (Conversation P.demls) ε α) :
    (onConversation m).Keeps (SameConvo (P := P)) :=
  fun _ ↦ .of_same rfl rfl rfl

theorem advances_afterOp : afterOp.Keeps (SameConvo (P := P)) := by
  intro s
  have hunarmed := afterOp_unarmed s
  exact .of_same (congrArg (fun a ↦ a.2.1) hunarmed) (congrArg (fun a ↦ a.2.2.self) hunarmed)
    (congrArg (fun a ↦ a.2.2.causal) hunarmed)

theorem advances_sendEnveloped (reliable : ReliablePayload) :
    (sendEnveloped reliable).Keeps (SameConvo (P := P)) := by
  refine (advances_onConversation _).mapErr.bind fun _ ↦ ?_
  exact advances_afterOp.bind fun _ ↦ Call.keeps_pure _

theorem advances_handlePayload (payload : Bytes) :
    (handlePayload payload).Keeps (SameConvo (P := P)) :=
  keeps_handlePayload advances_onConversation advances_afterOp advances_onReceive payload

theorem advances_wakeup : wakeup.Keeps (SameConvo (P := P)) :=
  keeps_wakeup advances_onConversation advances_afterOp advances_onReceive

end GroupV2

/-! ### GroupV3 -/

namespace GroupV3

abbrev SameConvo (s t : InSession P (GroupV3Convo P)) : Prop := Advances GroupV3Convo.convoId s t

theorem advances_onGroup {ε α : Type} (m : Call (MlsGroup P.mls.Secrets) ε α) :
    (onGroup m).Keeps (SameConvo (P := P)) :=
  fun _ ↦ .of_same rfl rfl rfl

theorem advances_handlePayload (payload : Bytes) :
    (handlePayload payload).Keeps (SameConvo (P := P)) :=
  keeps_handlePayload (fun _ ↦ advances_onGroup _) (fun _ ↦ keeps_handleMlsCommit (advances_onGroup _))
    payload

end GroupV3

/-! ## What a send returns -/

theorem onSend_messageId {B : Build} {store store' : CausalHistoryStore} {c : String}
    {sender : SignerKey} {content : Bytes} {payload : ReliablePayload}
    (h : store.onSend B c sender content = .ok (payload, store')) :
    payload.messageId = deriveMessageId B c sender.toHex payload.lamportTimestamp content := by
  obtain ⟨lamport, -, h⟩ := Result.bind_eq_ok.mp h
  cases h
  rfl

/-- The id comes with a timestamp that was still ahead of the clock before the send and is not after
it. -/
structure Stamps (label : C → β) (c : String) (content : Bytes) (s : InSession P C)
    (after : Result ChatError String × InSession P C) : Prop where
  advances : Advances label s after.2
  stamped : ∀ id, after.1 = .ok id → ∃ lamport,
    id = deriveMessageId P.build c s.cx.self.signer.toHex lamport content ∧
    (s.cx.causal.clock c).toInt < lamport.toInt ∧
    lamport.toInt ≤ (after.2.cx.causal.clock c).toInt

/-- A send that starts with its envelope and returns the id in it. -/
theorem stamps_onSend {label : C → β} {c : String} {content : Bytes}
    {rest : ReliablePayload → Call (InSession P C) ChatError String}
    (hkeeps : ∀ reliable, (rest reliable).Keeps (Advances label))
    (hreturns : ∀ reliable u id t, rest reliable u = (.ok id, t) → id = reliable.messageId)
    {s : InSession P C} (hroom : (s.cx.causal.clock c).toInt < Int32.maxValue.toInt) :
    Stamps label c content s ((InSession.onCx (ServiceContext.onSend c content) >>= rest) s) := by
  have htick := tick_of_lt P.build hroom
  obtain ⟨reliable, causal, hsend⟩ :=
    CausalHistoryStore.onSend_of_tick s.cx.self.signer content htick
  obtain ⟨hstamp, hclock⟩ := CausalHistoryStore.onSend_clock hsend
  have hstep : reliable.lamportTimestamp.toInt = (s.cx.causal.clock c).toInt + 1 := by
    rw [← Result.ok.inj (htick.symm.trans hstamp), toInt_add_one hroom]
  -- where the send is when the envelope is built
  let enveloped : InSession P C := { s with cx := { s.cx with causal := causal } }
  have hclock_c : enveloped.cx.causal.clock c = reliable.lamportTimestamp := by
    show causal.clock c = _
    rw [hclock, Function.update_self]
  have hadvances : Advances label s enveloped := by
    refine ⟨rfl, rfl, fun c' ↦ ?_⟩
    by_cases hc : c' = c
    · rw [hc, hclock_c]
      omega
    · show _ ≤ (causal.clock c').toInt
      rw [hclock, Function.update_of_ne hc]
  have hcall := Call.bind_of_ok (f := rest) (InSession.onCx_of_eq (onSend_of_enveloped hsend))
  rw [hcall]
  refine ⟨IsTrans.trans _ _ _ hadvances (hkeeps reliable enveloped), fun id hid ↦ ?_⟩
  refine ⟨reliable.lamportTimestamp, ?_, by omega, ?_⟩
  · rw [hreturns reliable enveloped id _ (Prod.ext hid rfl), onSend_messageId hsend]
  · rw [← hclock_c]
    exact (hkeeps reliable enveloped).clock c

theorem GroupV1.sendEnveloped_returns {reliable : ReliablePayload} {s t : InSession P (GroupV1Convo P)}
    {id : String} (h : GroupV1.sendEnveloped reliable s = (.ok id, t)) : id = reliable.messageId := by
  obtain ⟨_, _, -, h⟩ := Call.bind_eq_ok h
  obtain ⟨_, _, -, h⟩ := Call.bind_eq_ok h
  obtain ⟨_, _, -, h⟩ := Call.bind_eq_ok h
  cases h
  rfl

theorem GroupV2.sendEnveloped_returns {reliable : ReliablePayload} {s t : InSession P (GroupV2Convo P)}
    {id : String} (h : GroupV2.sendEnveloped reliable s = (.ok id, t)) : id = reliable.messageId := by
  obtain ⟨_, _, -, h⟩ := Call.bind_eq_ok h
  obtain ⟨_, _, -, h⟩ := Call.bind_eq_ok h
  cases h
  rfl

theorem GroupV3.sendContent_returns {content : Bytes} {s t : InSession P (GroupV3Convo P)} {id : String}
    (h : GroupV3.sendContent content s = (.ok id, t)) :
    id = GroupV3.frameId P (P.proto.encodeGroupV3Frame ⟨some content⟩) := by
  obtain ⟨_, _, -, h⟩ := Call.bind_eq_ok (Call.eq_ok_of_mapErr h)
  obtain ⟨_, _, -, h⟩ := Call.bind_eq_ok h
  cases h
  rfl

namespace GroupConvo

/-- Which conversation it is. -/
def label (convo : GroupConvo P) : GroupKind × String := (convo.kind, convo.id)

theorem label_v1 (convo : GroupV1Convo P) : label (.v1 convo) = (.v1, convo.convoId) := rfl

theorem label_v2 (convo : GroupV2Convo P) : label (.v2 convo) = (.v2, convo.convoId) := rfl

theorem label_v3 (convo : GroupV3Convo P) : label (.v3 convo) = (.v3, convo.convoId) := rfl

theorem advances_wrap {idOf : C → String} {wrap : C → GroupConvo P} {kind : GroupKind}
    (hwrap : ∀ convo, (wrap convo).label = (kind, idOf convo)) {s t : InSession P C}
    (h : Advances idOf s t) : Advances label ⟨wrap s.convo, s.cx⟩ ⟨wrap t.convo, t.cx⟩ := by
  refine ⟨?_, h.self, h.clock⟩
  show (wrap t.convo).label = (wrap s.convo).label
  rw [hwrap, hwrap, h.label]

theorem advances_dispatch {ε α : Type} {v1 : Call (InSession P (GroupV1Convo P)) ε α}
    {v2 : Call (InSession P (GroupV2Convo P)) ε α} {v3 : Call (InSession P (GroupV3Convo P)) ε α}
    (h1 : v1.Keeps GroupV1.SameConvo) (h2 : v2.Keeps GroupV2.SameConvo)
    (h3 : v3.Keeps GroupV3.SameConvo) : (dispatch v1 v2 v3).Keeps (Advances label) := by
  intro ⟨convo, cx⟩
  cases convo with
  | v1 convo => exact advances_wrap label_v1 (h1 ⟨convo, cx⟩)
  | v2 convo => exact advances_wrap label_v2 (h2 ⟨convo, cx⟩)
  | v3 convo => exact advances_wrap label_v3 (h3 ⟨convo, cx⟩)

theorem advances_handlePayload (payload : Bytes) :
    (handlePayload payload).Keeps (Advances (P := P) label) :=
  advances_dispatch (GroupV1.advances_handlePayload payload) (GroupV2.advances_handlePayload payload)
    (GroupV3.advances_handlePayload payload)

theorem advances_wakeup : wakeup.Keeps (Advances (P := P) label) :=
  advances_dispatch (Call.keeps_read _) GroupV2.advances_wakeup (Call.keeps_read _)

/-- Both kinds with a causal history stamp what they send. -/
theorem stamps_sendContent {s : InSession P (GroupConvo P)} (hkind : s.convo.kind ≠ .v3)
    (hroom : (s.cx.causal.clock s.convo.id).toInt < Int32.maxValue.toInt) (content : Bytes) :
    Stamps label s.convo.id content s (sendContent content s) := by
  obtain ⟨convo, cx⟩ := s
  cases convo with
  | v1 convo =>
      have h : Stamps GroupV1Convo.convoId convo.convoId content ⟨convo, cx⟩
          (GroupV1.sendContent content ⟨convo, cx⟩) :=
        stamps_onSend GroupV1.advances_sendEnveloped (fun _ _ _ _ ↦ GroupV1.sendEnveloped_returns) hroom
      exact ⟨advances_wrap label_v1 h.advances, h.stamped⟩
  | v2 convo =>
      have h : Stamps GroupV2Convo.convoId convo.convoId content ⟨convo, cx⟩
          (GroupV2.sendContent content ⟨convo, cx⟩) :=
        stamps_onSend GroupV2.advances_sendEnveloped (fun _ _ _ _ ↦ GroupV2.sendEnveloped_returns) hroom
      exact ⟨advances_wrap label_v2 h.advances, h.stamped⟩
  | v3 convo => exact absurd rfl hkind

@[simp] theorem dispatch_kind {ε α : Type} (v1 : Call (InSession P (GroupV1Convo P)) ε α)
    (v2 : Call (InSession P (GroupV2Convo P)) ε α) (v3 : Call (InSession P (GroupV3Convo P)) ε α)
    (s : InSession P (GroupConvo P)) : (dispatch v1 v2 v3 s).2.convo.kind = s.convo.kind := by
  obtain ⟨convo, cx⟩ := s
  cases convo <;> rfl

theorem sendContent_returns {content : Bytes} {s t : InSession P (GroupConvo P)} {id : String}
    (hkind : s.convo.kind = .v3) (h : sendContent content s = (.ok id, t)) :
    id = GroupV3.frameId P (P.proto.encodeGroupV3Frame ⟨some content⟩) := by
  obtain ⟨convo, cx⟩ := s
  cases convo with
  | v1 convo => cases hkind
  | v2 convo => cases hkind
  | v3 convo =>
      have hsent : (GroupV3.sendContent content ⟨convo, cx⟩).1 = .ok id := congrArg Prod.fst h
      exact GroupV3.sendContent_returns (Prod.ext hsent rfl)

end GroupConvo

/-! ## Over a run -/

/-- A conversation as one client uses it, with the contents it has sent and the ids it got for them,
latest first. -/
structure Outbox (P : Platform) where
  session : InSession P (GroupConvo P)
  sent : List (Bytes × String) := []

inductive Activity where
  | send (content : Bytes)
  | receive (payload : Bytes)
  | wakeup

namespace Outbox

def step (o : Outbox P) : Activity → Outbox P
  | .send content =>
      match GroupConvo.sendContent content o.session with
      | (.ok id, session) => { session := session, sent := (content, id) :: o.sent }
      | (_, session) => { o with session := session }
  | .receive payload => { o with session := (GroupConvo.handlePayload payload o.session).2 }
  | .wakeup => { o with session := (GroupConvo.wakeup o.session).2 }

/-- The clock has not reached `i32::MAX` where a send steps it. -/
def HasRoom (o : Outbox P) : Activity → Prop
  | .send _ => (o.session.cx.causal.clock o.session.convo.id).toInt < Int32.maxValue.toInt
  | .receive _ => True
  | .wakeup => True

def ids (o : Outbox P) : List String := o.sent.map Prod.snd

def contents (o : Outbox P) : List Bytes := o.sent.map Prod.fst

/-- The activity sends one of these contents, or none. -/
def Sends (contents : Bytes → Prop) (activity : Activity) : Prop :=
  ∀ content, activity = .send content → contents content

/-- Every id is of one of these contents and comes with a timestamp the clock has reached, and no two are
the same. -/
structure Stamped (which : GroupKind × String) (me : Signer) (contents : Bytes → Prop) (o : Outbox P) :
    Prop where
  label : o.session.convo.label = which
  self : o.session.cx.self = me
  stamps : ∀ m ∈ o.sent, contents m.1 ∧ ∃ lamport,
    m.2 = deriveMessageId P.build which.2 me.signer.toHex lamport m.1 ∧
    lamport.toInt ≤ (o.session.cx.causal.clock which.2).toInt
  distinct : o.ids.Nodup

section Stamped

variable {which : GroupKind × String} {me : Signer} {contents : Bytes → Prop} {o : Outbox P}
  {hashed : List Bytes → Prop}

theorem Stamped.advance {t : InSession P (GroupConvo P)} (h : Stamped which me contents o)
    (hadvances : Advances GroupConvo.label o.session t) :
    Stamped which me contents { o with session := t } := by
  refine ⟨hadvances.label.trans h.label, hadvances.self.trans h.self, fun m hmem ↦ ?_, h.distinct⟩
  obtain ⟨hcontent, lamport, hid, hle⟩ := h.stamps m hmem
  exact ⟨hcontent, lamport, hid, hle.trans (hadvances.clock which.2)⟩

/-- A new message is ahead of the clock, so its id is none of those before. -/
theorem Stamped.send (hhash : P.HashesApart hashed)
    (hhashed : ∀ content lamport, contents content →
      hashed (messageIdComponents which.2 me.signer.toHex lamport content))
    (h : Stamped which me contents o) (hkind : which.1 ≠ .v3) {content : Bytes} (hsent : contents content)
    (hroom : o.HasRoom (.send content)) : Stamped which me contents (o.step (.send content)) := by
  have hlabel := h.label
  have hsends : Stamps GroupConvo.label o.session.convo.id content o.session
      (GroupConvo.sendContent content o.session) := by
    refine GroupConvo.stamps_sendContent (fun hv3 ↦ hkind ?_) hroom content
    rw [← hlabel]
    exact hv3
  have hid : o.session.convo.id = which.2 := congrArg Prod.snd hlabel
  rw [hid] at hsends
  rw [Outbox.step]
  cases hcall : GroupConvo.sendContent content o.session with
  | mk r t =>
      rw [hcall] at hsends
      have hkept := h.advance hsends.advances
      cases r with
      | ok id =>
          -- the old timestamps are at most the old clock, the new one is above it
          obtain ⟨lamport, hderived, hahead, hreached⟩ := hsends.stamped id rfl
          rw [h.self] at hderived
          refine ⟨hkept.label, hkept.self, fun m hmem ↦ ?_, ?_⟩
          · obtain rfl | hold := List.mem_cons.mp hmem
            · exact ⟨hsent, lamport, hderived, hreached⟩
            · exact hkept.stamps m hold
          · refine List.nodup_cons.mpr ⟨fun hmem ↦ ?_, h.distinct⟩
            obtain ⟨m, hold, hsame⟩ := List.mem_map.mp hmem
            obtain ⟨hold, earlier, hderived', hle⟩ := h.stamps m hold
            have heq : earlier = lamport := lamport_of_deriveMessageId hhash (hhashed _ _ hold)
              (hhashed _ _ hsent) (hderived'.symm.trans (hsame.trans hderived))
            rw [heq] at hle
            omega
      | err e => exact hkept
      | panic => exact hkept

theorem Stamped.step (hhash : P.HashesApart hashed)
    (hhashed : ∀ content lamport, contents content →
      hashed (messageIdComponents which.2 me.signer.toHex lamport content))
    (hkind : which.1 ≠ .v3) {activity : Activity} (h : Stamped which me contents o)
    (hsends : Sends contents activity) (hroom : o.HasRoom activity) :
    Stamped which me contents (o.step activity) := by
  cases activity with
  | send content => exact h.send hhash hhashed hkind (hsends content rfl) hroom
  | receive payload => exact h.advance (GroupConvo.advances_handlePayload payload o.session)
  | wakeup => exact h.advance (GroupConvo.advances_wakeup o.session)

end Stamped

/-- In GroupV3 every id is the hash of its content, which is one of these. -/
structure Hashed (contents : Bytes → Prop) (o : Outbox P) : Prop where
  kind : o.session.convo.kind = .v3
  hashes : ∀ m ∈ o.sent,
    contents m.1 ∧ m.2 = GroupV3.frameId P (P.proto.encodeGroupV3Frame ⟨some m.1⟩)

theorem Hashed.step {contents : Bytes → Prop} {o : Outbox P} (h : Hashed contents o) {activity : Activity}
    (hsends : Sends contents activity) : Hashed contents (o.step activity) := by
  cases activity with
  | send content =>
      have hkind : (GroupConvo.sendContent content o.session).2.convo.kind = .v3 :=
        (GroupConvo.dispatch_kind _ _ _ o.session).trans h.kind
      rw [Outbox.step]
      cases hcall : GroupConvo.sendContent content o.session with
      | mk r t =>
          rw [hcall] at hkind
          cases r with
          | ok id =>
              refine ⟨hkind, fun m hmem ↦ ?_⟩
              obtain rfl | hold := List.mem_cons.mp hmem
              · exact ⟨hsends content rfl, GroupConvo.sendContent_returns h.kind hcall⟩
              · exact h.hashes m hold
          | err e => exact ⟨hkind, h.hashes⟩
          | panic => exact ⟨hkind, h.hashes⟩
  | receive payload => exact ⟨(GroupConvo.dispatch_kind _ _ _ o.session).trans h.kind, h.hashes⟩
  | wakeup => exact ⟨(GroupConvo.dispatch_kind _ _ _ o.session).trans h.kind, h.hashes⟩

theorem Hashed.nodup_ids_iff {contents : Bytes → Prop} {hashed : List Bytes → Prop}
    (hhash : P.HashesApart hashed)
    (hhashed : ∀ content, contents content →
      hashed [utf8 "logos-chat|message_id|", P.proto.encodeGroupV3Frame ⟨some content⟩])
    (hproto : ∀ frame, P.proto.decodeGroupV3Frame (P.proto.encodeGroupV3Frame frame) = .ok frame)
    {o : Outbox P} (h : Hashed contents o) : o.ids.Nodup ↔ o.contents.Nodup := by
  have hcontents : ∀ content ∈ o.contents, contents content := by
    intro content hmem
    obtain ⟨m, hm, rfl⟩ := List.mem_map.mp hmem
    exact (h.hashes m hm).1
  have hinjective : ∀ a ∈ o.contents, ∀ b ∈ o.contents,
      GroupV3.frameId P (P.proto.encodeGroupV3Frame ⟨some a⟩) =
        GroupV3.frameId P (P.proto.encodeGroupV3Frame ⟨some b⟩) → a = b := by
    intro a ha b hb hab
    have hframes := hhash.of_last [utf8 "logos-chat|message_id|"] (hhashed a (hcontents a ha))
      (hhashed b (hcontents b hb)) hab
    have hdecoded := congrArg P.proto.decodeGroupV3Frame hframes
    rw [hproto, hproto] at hdecoded
    cases hdecoded
    rfl
  have hids : o.ids = o.contents.map fun content ↦
      GroupV3.frameId P (P.proto.encodeGroupV3Frame ⟨some content⟩) := by
    rw [ids, Outbox.contents, List.map_map]
    exact List.map_congr_left fun m hm ↦ (h.hashes m hm).2
  rw [hids]
  exact ⟨List.Nodup.of_map _, List.Nodup.map_on hinjective⟩

end Outbox

/-- The ids that the sends of a run return are pairwise distinct exactly when the conversation is not
a GroupV3 one or no content is sent twice. -/
theorem message_ids_distinct_iff
    (hproto : ∀ frame, P.proto.decodeGroupV3Frame (P.proto.encodeGroupV3Frame frame) = .ok frame)
    (s : InSession P (GroupConvo P)) (activities : List Activity)
    (hhash : P.HashesApart fun components ↦
      ∃ content, .send content ∈ activities ∧ s.convo.Hashes s.cx.self content components)
    (hroom : Along Outbox.step Outbox.HasRoom ⟨s, []⟩ activities) :
    (run Outbox.step ⟨s, []⟩ activities).ids.Nodup ↔
      (s.convo.kind = .v3 → (run Outbox.step ⟨s, []⟩ activities).contents.Nodup) := by
  have hsends : Along Outbox.step (fun _ ↦ Outbox.Sends fun content ↦ .send content ∈ activities)
      ⟨s, []⟩ activities := by
    refine Along.of_forall (fun activity hmem content heq ↦ ?_) _
    subst heq
    exact hmem
  by_cases hkind : s.convo.kind = .v3
  · have hstart : Outbox.Hashed (fun content ↦ .send content ∈ activities) ⟨s, []⟩ := ⟨hkind, nofun⟩
    have hhashed := hsends.invariant (fun _ _ h hsends ↦ h.step hsends) hstart
    rw [hhashed.nodup_ids_iff hhash (fun content hmem ↦ ⟨content, hmem, .inr ⟨hkind, rfl⟩⟩) hproto]
    exact ⟨fun h _ ↦ h, fun h ↦ h hkind⟩
  · have hstart : Outbox.Stamped s.convo.label s.cx.self (fun content ↦ .send content ∈ activities)
        ⟨s, []⟩ := ⟨rfl, rfl, nofun, List.nodup_nil⟩
    have hcomponents : ∀ content lamport, .send content ∈ activities →
        ∃ content', .send content' ∈ activities ∧ s.convo.Hashes s.cx.self content'
          (messageIdComponents s.convo.label.2 s.cx.self.signer.toHex lamport content) :=
      fun content lamport hmem ↦ ⟨content, hmem, .inl ⟨hkind, lamport, rfl⟩⟩
    have hstamped := (hsends.and hroom).invariant
      (fun _ _ h hboth ↦ h.step hhash hcomponents hkind hboth.1 hboth.2) hstart
    exact iff_of_true hstamped.distinct fun hv3 ↦ absurd hv3 hkind

namespace Sample

/-- The hash of a byte string is the string itself, and a frame is written with its tag. -/
abbrev hashing : Platform :=
  { Sample.platform with
    blake2b := fun _ components ↦ components.flatten
    proto := { Sample.proto with
      encodeGroupV3Frame := fun frame ↦
        match frame.content with
        | none => []
        | some content => 6 :: content
      decodeGroupV3Frame := fun bytes ↦
        match bytes with
        | [] => .ok ⟨none⟩
        | _ :: content => .ok ⟨some content⟩ } }

theorem hashing_hashesApart (hashed : List Bytes → Prop) : hashing.HashesApart hashed :=
  fun _ _ _ _ h ↦ h

theorem hashing_proto (frame : GroupV3Frame) :
    hashing.proto.decodeGroupV3Frame (hashing.proto.encodeGroupV3Frame frame) = .ok frame := by
  obtain ⟨content⟩ := frame
  cases content <;> rfl

def group : MlsGroup hashing.mls.Secrets :=
  { groupId := [0], epoch := 0, members := [seat 0 [1], seat 1 [2]], ownLeafIndex := 0, secrets := () }

def inV1 : InSession hashing (GroupConvo hashing) :=
  { convo := .v1 { mlsGroup := group, convoId := "" }, cx := services _ }

def inV3 : InSession hashing (GroupConvo hashing) :=
  { convo := .v3 { mlsGroup := group, convoId := "" }, cx := services _ }

end Sample

set_option maxRecDepth 8000 in
/-- In GroupV1 a content that is sent twice gets two ids. -/
theorem repeated_content_distinct_ids :
    (run Outbox.step ⟨Sample.inV1, []⟩ [.send [7], .send [7]]).contents = [[7], [7]] ∧
      (run Outbox.step ⟨Sample.inV1, []⟩ [.send [7], .send [7]]).ids.Nodup := by
  refine ⟨rfl, (message_ids_distinct_iff Sample.hashing_proto _ _ (Sample.hashing_hashesApart _) ?_).mpr
    nofun⟩
  refine ⟨?_, ?_, trivial⟩
  · show (_ : Int) < _
    decide
  · show (_ : Int) < _
    decide

set_option maxRecDepth 8000 in
/-- In GroupV3 it gets the same id twice. -/
theorem repeated_content_repeats_id :
    Sample.hashing.HashesApart (fun _ ↦ True) ∧
    Along Outbox.step Outbox.HasRoom ⟨Sample.inV3, []⟩ [.send [7], .send [7]] ∧
    (run Outbox.step ⟨Sample.inV3, []⟩ [.send [7], .send [7]]).ids.length = 2 ∧
    ¬ (run Outbox.step ⟨Sample.inV3, []⟩ [.send [7], .send [7]]).ids.Nodup := by
  refine ⟨Sample.hashing_hashesApart _, ⟨?_, ?_, trivial⟩, rfl, ?_⟩
  · show (_ : Int) < _
    decide
  · show (_ : Int) < _
    decide
  · decide

end LogosChat.Conversations
