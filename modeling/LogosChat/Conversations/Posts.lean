import LogosChat.Conversations.GroupV1Echo
import LogosChat.Conversations.GroupV2Delivery
import LogosChat.Conversations.GroupV3Commits

/-!
# What is sent and what is read

A conversation wraps what it sends and hands it to openmls or to de-mls; a member that receives the
frame unwraps what comes out.  This is one such step on either side, for all three kinds of
conversation: whatever the carrier opens as it was sealed is read as it was sent, under the id that the
sender was given.
-/

namespace LogosChat.Conversations

open Reasoning

variable {P : Platform}

/-! ## What travels -/

/-- prost on the way out, and that it decodes what it encodes. -/
structure Wire (P : Platform) where
  encodeEnvelope : EnvelopeV1 → Bytes
  encodePlaintext : Bytes → Bytes
  encodeGroupV3Payload : GroupV3Payload → Bytes
  encodeInvite : InviteType → Bytes
  decode_envelope : ∀ envelope, P.proto.decodeEnvelope (encodeEnvelope envelope) = .ok envelope
  decode_plaintext : ∀ bytes,
    P.proto.decodeEncryptedPayload (encodePlaintext bytes) = .ok (.plaintext bytes)
  decode_groupV3Payload : ∀ payload,
    P.proto.decodeGroupV3Payload (encodeGroupV3Payload payload) = .ok payload
  decode_groupV3Frame : ∀ frame,
    P.proto.decodeGroupV3Frame (P.proto.encodeGroupV3Frame frame) = .ok frame
  decode_reliable : ∀ reliable, P.proto.decodeReliable (P.proto.encodeReliable reliable) = .ok reliable

namespace Wire

variable (W : Wire P)

def payload : EnvelopePayload → Bytes
  | .encrypted plaintext => W.encodePlaintext plaintext
  | .groupV3 payload => W.encodeGroupV3Payload payload
  | .invite invite => W.encodeInvite invite

/-- `AddressedEnvelope::data`. -/
def data (envelope : AddressedEnvelope) : Bytes :=
  W.encodeEnvelope ⟨envelope.conversationHint, W.payload envelope.payload⟩

end Wire

/-- The envelope that a frame of this conversation travels in. -/
def postEnvelope (P : Platform) (label : GroupKind × String) (frame : Bytes) : AddressedEnvelope :=
  match label.1 with
  | .v3 =>
      { deliveryAddress := deliveryAddressFromId P Platform.deliveryAddrSize label.2
        conversationHint := label.2
        payload := .groupV3 { encryptedHeader := [0, 0, 0, 0], encryptedFrame := frame } }
  | _ =>
      { deliveryAddress := deliveryAddressFromId P GroupV1.addressSize label.2
        conversationHint := label.2
        payload := .encrypted frame }

/-- What a plaintext of this kind of conversation says, and under which id. -/
def reading (P : Platform) (kind : GroupKind) (plaintext : Bytes) : Option (Bytes × String) :=
  match kind with
  | .v3 =>
      match P.proto.decodeGroupV3Frame plaintext with
      | .ok ⟨some content⟩ => some (content, GroupV3.frameId P plaintext)
      | _ => none
  | _ =>
      match P.proto.decodeReliable plaintext with
      | .ok reliable => some (reliable.content, reliable.messageId)
      | .error _ => none

theorem postEnvelope_hint (label : GroupKind × String) (frame : Bytes) :
    (postEnvelope P label frame).conversationHint = label.2 := by
  unfold postEnvelope
  split <;> rfl

theorem postEnvelope_address (label : GroupKind × String) (frame frame' : Bytes) :
    (postEnvelope P label frame).deliveryAddress = (postEnvelope P label frame').deliveryAddress := by
  unfold postEnvelope
  split <;> rfl

theorem reading_reliable (W : Wire P) (kind : GroupKind) (h : kind ≠ .v3) (reliable : ReliablePayload) :
    reading P kind (P.proto.encodeReliable reliable) = some (reliable.content, reliable.messageId) := by
  unfold reading
  split
  case h_1 => exact absurd rfl h
  case h_2 => rw [W.decode_reliable]

theorem reading_groupV3Frame (W : Wire P) (content : Bytes) :
    reading P .v3 (P.proto.encodeGroupV3Frame ⟨some content⟩) =
      some (content, GroupV3.frameId P (P.proto.encodeGroupV3Frame ⟨some content⟩)) := by
  unfold reading
  dsimp only
  rw [W.decode_groupV3Frame]

theorem decodeReliable_of_reading (kind : GroupKind) (hkind : kind ≠ .v3) {plaintext content : Bytes}
    {messageId : String} (h : reading P kind plaintext = some (content, messageId)) :
    ∃ reliable, P.proto.decodeReliable plaintext = .ok reliable ∧ reliable.content = content ∧
      reliable.messageId = messageId := by
  unfold reading at h
  split at h
  case h_1 => exact absurd rfl hkind
  case h_2 =>
    split at h
    case h_1 reliable hdecode =>
      cases h
      exact ⟨reliable, hdecode, rfl, rfl⟩
    case h_2 => cases h

theorem decodeGroupV3Frame_of_reading {plaintext content : Bytes} {messageId : String}
    (h : reading P .v3 plaintext = some (content, messageId)) :
    P.proto.decodeGroupV3Frame plaintext = .ok ⟨some content⟩ ∧
      messageId = GroupV3.frameId P plaintext := by
  unfold reading at h
  dsimp only at h
  split at h
  case h_1 content' hdecode =>
    cases h
    exact ⟨hdecode, rfl⟩
  case h_2 => cases h

/-! ## What carries it -/

/-- The openmls group of a conversation, or its de-mls state. -/
inductive Carrier (P : Platform) where
  | mls (group : MlsGroup P.mls.Secrets)
  | demls (core : P.demls.Core)

namespace Carrier

/-- A plaintext is sealed in a frame of the conversation. -/
def Seals (convoId : String) (plaintext frame : Bytes) : Carrier P → Carrier P → Prop
  | .mls group, after => ∃ out secrets, P.mls.createMessage group plaintext = .ok (out, secrets) ∧
      P.mls.toBytes out = .ok frame ∧ after = .mls { group with secrets := secrets }
  | .demls core, after => ∃ out next,
      P.demls.sendMessage core plaintext = (.ok (), { core := next, outbound := [out] }) ∧
      out.conversationId = convoId ∧ GroupV2.encodeFrame P out = frame ∧ after = .demls next

/-- It is not, and nothing has changed. -/
def Declines (plaintext : Bytes) : Carrier P → Prop
  | .mls group => ∃ e, P.mls.createMessage group plaintext = .error e
  | .demls core => ∃ e, P.demls.sendMessage core plaintext = (.error e, { core := core })

/-- A frame is opened as what its author sealed in it. -/
def Opens (frame : Bytes) (author : GroupMember) (plaintext : Bytes) : Carrier P → Carrier P → Prop
  | .mls group, after => ∃ message secrets, P.mls.protocolMessage frame = .ok message ∧
      message.epoch = group.epoch ∧
      P.mls.processMessage group message =
        .ok ⟨some author.index, .applicationMessage plaintext, secrets⟩ ∧
      after = .mls { group with secrets := secrets }
  | .demls core, after => ∃ senderAppId inner heard next,
      P.proto.decodeGroupV2Frame frame = .ok ⟨some (.deMlsWrapper inner), senderAppId⟩ ∧
      P.demls.processInbound core senderAppId inner =
        (.ok (), { core := heard
                   events := [.conversationMessage (some (.conversationMessage plaintext))
                     author.toLeafNode] }) ∧
      P.demls.poll heard = { core := next } ∧ after = .demls next

/-- A frame of our own comes back, and nothing is made of it. -/
def Refuses (frame : Bytes) : Carrier P → Carrier P → Prop
  | .mls group, after => ∃ message, P.mls.protocolMessage frame = .ok message ∧
      message.epoch = group.epoch ∧
      P.mls.processMessage group message = .error .cannotDecryptOwnMessage ∧ after = .mls group
  | .demls core, after => ∃ senderAppId inner heard next,
      P.proto.decodeGroupV2Frame frame = .ok ⟨some (.deMlsWrapper inner), senderAppId⟩ ∧
      P.demls.processInbound core senderAppId inner = (.ok (), { core := heard }) ∧
      P.demls.poll heard = { core := next } ∧ after = .demls next

/-- We have a seat. -/
def Present : Carrier P → Prop
  | .mls group => group.isActive = true
  | .demls core => ∃ m ∈ P.demls.membersView core, MemberId.from m = P.demls.memberIdBytes core

/-- So has this member. -/
def Seats (member : GroupMember) : Carrier P → Prop
  | .mls group => group.memberAt member.index = some member
  | .demls _ => True

end Carrier

namespace GroupConvo

def carrier : GroupConvo P → Carrier P
  | .v1 convo => .mls convo.mlsGroup
  | .v2 convo => .demls convo.conversation.core
  | .v3 convo => .mls convo.mlsGroup

/-- Nothing waits in the queues of de-mls, and only frames of our own are remembered. -/
def Settled (own : Bytes → Prop) : GroupConvo P → Prop
  | .v1 convo => ∀ hash ∈ convo.outboundMsgs, ∃ frame, own frame ∧ hash = GroupV1.frameHash P frame
  | .v2 convo => convo.conversation.events = [] ∧ convo.conversation.outbound = []
  | .v3 _ => True

theorem Settled.mono {own own' : Bytes → Prop} (howns : ∀ frame, own frame → own' frame)
    {convo : GroupConvo P} (h : convo.Settled own) : convo.Settled own' := by
  cases convo with
  | v1 convo =>
      intro hash hmem
      obtain ⟨frame, hown, heq⟩ := h hash hmem
      exact ⟨frame, howns frame hown, heq⟩
  | v2 convo => exact h
  | v3 convo => exact h

end GroupConvo

/-- From `s` to `t` the conversation came to have this carrier, and these envelopes were published. -/
structure Moves (own : Bytes → Prop) (s t : InSession P (GroupConvo P)) (carrier : Carrier P)
    (published : List AddressedEnvelope) : Prop where
  label : t.convo.label = s.convo.label
  carrier : t.convo.carrier = carrier
  settled : t.convo.Settled own
  ds : t.cx.ds = s.cx.ds.delivered published
  auth : t.cx.auth = s.cx.auth

/-- The call did not succeed, and nothing came of it. -/
def Unsent {α : Type} (own : Bytes → Prop) (s : InSession P (GroupConvo P))
    (answer : Result ChatError α × InSession P (GroupConvo P)) : Prop :=
  (∀ a, answer.1 ≠ .ok a) ∧ Moves own s answer.2 s.convo.carrier []

theorem content_of_onSend {B : Build} {store causal : CausalHistoryStore} {convoId : String}
    {sender : SignerKey} {content : Bytes} {reliable : ReliablePayload}
    (h : store.onSend B convoId sender content = .ok (reliable, causal)) : reliable.content = content := by
  obtain ⟨lamport, -, h⟩ := Result.bind_eq_ok.mp h
  cases h
  rfl

/-! ## A post goes out -/

section Sending

variable {own : Bytes → Prop} {content plaintext frame : Bytes} {after : Carrier P}
  {reliable : ReliablePayload} {causal : CausalHistoryStore}

/-- What a send makes of the answer of its carrier.  The frame becomes one of our own. -/
structure SendsSealed (own : Bytes → Prop) (s : InSession P (GroupConvo P)) (content plaintext : Bytes)
    (messageId : String) : Prop where
  declined : s.convo.carrier.Declines plaintext → Unsent own s (GroupConvo.sendContent content s)
  sealed : ∀ frame after, s.convo.carrier.Seals s.convo.id plaintext frame after →
    ∃ t, GroupConvo.sendContent content s = (.ok messageId, t) ∧
      Moves (fun frame' ↦ own frame' ∨ frame' = frame) s t after [postEnvelope P s.convo.label frame]

namespace GroupV1

variable {s : InSession P (GroupV1Convo P)}

theorem sendPayload_of_accepts (h : s.cx.ds.Accepts 1) (frame : Bytes) :
    sendPayload frame s = (.ok (), ⟨remember frame s.convo,
      { s.cx with ds := s.cx.ds.delivered [payloadEnvelope s.convo frame] }⟩) :=
  Call.mapErr_of_ok (InSession.onCx_of_eq (ServiceContext.publish_of_accepts _ h))

theorem sendContent_of_envelope (h : Enveloped s.convo.convoId content s.cx reliable causal) :
    sendContent content s = sendEnveloped reliable { s with cx := { s.cx with causal := causal } } :=
  Call.bind_of_ok (InSession.onCx_of_eq (onSend_of_enveloped h))

theorem settled_remember {convo : GroupV1Convo P} (h : (GroupConvo.v1 convo).Settled own) (frame : Bytes) :
    (GroupConvo.v1 (remember frame convo)).Settled fun frame' ↦ own frame' ∨ frame' = frame := by
  have hall : ∀ hash ∈ convo.outboundMsgs ++ [frameHash P frame],
      ∃ frame', (own frame' ∨ frame' = frame) ∧ hash = frameHash P frame' := by
    intro hash hmem
    obtain hmem | hmem := List.mem_append.mp hmem
    · obtain ⟨frame', hown, heq⟩ := h hash hmem
      exact ⟨frame', .inl hown, heq⟩
    · exact ⟨frame, .inr rfl, List.mem_singleton.mp hmem⟩
  intro hash hmem
  unfold remember at hmem
  dsimp only at hmem
  split at hmem
  · exact hall hash (List.mem_of_mem_drop hmem)
  · exact hall hash hmem

theorem sendsSealed (hsettled : (GroupConvo.v1 s.convo).Settled own) (haccepts : s.cx.ds.Accepts 1)
    (henvelope : Enveloped s.convo.convoId content s.cx reliable causal) :
    SendsSealed own ⟨.v1 s.convo, s.cx⟩ content (P.proto.encodeReliable reliable) reliable.messageId := by
  have hcall := sendContent_of_envelope henvelope
  constructor
  · rintro ⟨e, hcreate⟩
    have hfailed : sendContent content s = _ := hcall.trans (Call.bind_of_err
      (Call.mapErr_of_err (onGroup_of_eq (MlsGroup.createMessage_of_error hcreate))))
    show Unsent own _ ((sendContent content s).1, ⟨.v1 (sendContent content s).2.convo, _⟩)
    rw [hfailed]
    exact ⟨nofun, rfl, rfl, hsettled, (DeliveryService.delivered_nil _).symm, rfl⟩
  · rintro frame _ ⟨out, secrets, hcreate, hbytes, rfl⟩
    have hsealed : sendContent content s = _ := hcall.trans (Call.bind_of_ok
      (Call.mapErr_of_ok (onGroup_of_eq (MlsGroup.createMessage_of_ok hcreate))))
    rw [hbytes, orErr, Call.ofResult_ok_bind] at hsealed
    have hsent := hsealed.trans (Call.bind_of_ok (sendPayload_of_accepts (by exact haccepts) frame))
    refine ⟨⟨.v1 (sendContent content s).2.convo, (sendContent content s).2.cx⟩, ?_, ?_⟩
    · show ((sendContent content s).1, _) = _
      rw [hsent]
      rfl
    · rw [hsent]
      exact ⟨rfl, rfl, settled_remember hsettled frame, rfl, rfl⟩

end GroupV1

namespace GroupV2

variable {s : InSession P (GroupV2Convo P)}

/-- A drain whose envelopes are accepted leaves the queues empty and the rest of the conversation as it
was. -/
theorem afterOp_settles (h : s.cx.ds.Accepts (due s).length) :
    ∃ post t, afterOp s = (.ok (s.convo.conversation.events, post), t) ∧
      t.convo.convoId = s.convo.convoId ∧
      t.convo.conversation = { core := s.convo.conversation.core } ∧
      t.cx.ds = s.cx.ds.delivered (due s) ∧ t.cx.auth = s.cx.auth := by
  obtain ⟨post, t, hcall, hds, -⟩ := afterOp_of_accepts h
  have hunarmed := afterOp_unarmed s
  rw [hcall] at hunarmed
  refine ⟨post, t, hcall, congrArg (fun a ↦ a.2.1) hunarmed, congrArg Prod.fst hunarmed, hds, ?_⟩
  exact congrArg (fun a ↦ a.2.2.auth) hunarmed

theorem sendContent_of_envelope (h : Enveloped s.convo.convoId content s.cx reliable causal) :
    sendContent content s = sendEnveloped reliable { s with cx := { s.cx with causal := causal } } :=
  Call.bind_of_ok (InSession.onCx_of_eq (onSend_of_enveloped h))

theorem sendsSealed (hsettled : (GroupConvo.v2 s.convo).Settled own) (haccepts : s.cx.ds.Accepts 1)
    (henvelope : Enveloped s.convo.convoId content s.cx reliable causal) :
    SendsSealed own ⟨.v2 s.convo, s.cx⟩ content (P.proto.encodeReliable reliable) reliable.messageId := by
  obtain ⟨hevents, houtbound⟩ := hsettled
  have hcall := sendContent_of_envelope henvelope
  constructor
  · rintro ⟨e, hsend⟩
    have hfailed : sendContent content s = _ := hcall.trans (Call.bind_of_err
      (Call.mapErr_of_err (Call.on_of_eq (Conversation.turn_of_error hsend))))
    show Unsent own _ ((sendContent content s).1, ⟨.v2 (sendContent content s).2.convo, _⟩)
    rw [hfailed]
    refine ⟨nofun, rfl, rfl, ⟨?_, ?_⟩, (DeliveryService.delivered_nil _).symm, rfl⟩
    · exact (List.append_nil _).trans hevents
    · exact (List.append_nil _).trans houtbound
  · rintro frame _ ⟨out, next, hsend, hconvoId, rfl, rfl⟩
    let u : InSession P (GroupV2Convo P) :=
      { convo := { s.convo with
          conversation := s.convo.conversation.queued { core := next, outbound := [out] } }
        cx := { s.cx with causal := causal } }
    have hsealed : sendContent content s = (afterOp >>= fun _ ↦ pure reliable.messageId) u :=
      hcall.trans (Call.bind_of_ok (Call.mapErr_of_ok (Call.on_of_eq (Conversation.turn_of_ok hsend))))
    -- the one frame of the turn is all that the drain has to send
    have hdue : due u = [frameEnvelope P out] := by
      simp [u, due, invitesOf, welcomes, invitesDue, Conversation.queued, hevents, houtbound]
    obtain ⟨post, t, hdrain, hid, hconversation, hds, hauth⟩ :=
      afterOp_settles (s := u) (by rw [hdue]; exact haccepts)
    have hsent := hsealed.trans (Call.bind_of_ok hdrain)
    refine ⟨⟨.v2 t.convo, t.cx⟩, ?_, ?_⟩
    · show ((sendContent content s).1, InSession.mk (GroupConvo.v2 (sendContent content s).2.convo) _) = _
      rw [hsent]
      rfl
    · rw [hdue] at hds
      refine ⟨?_, ?_, ?_, ?_, hauth⟩
      · exact congrArg (Prod.mk GroupKind.v2) hid
      · show Carrier.demls t.convo.conversation.core = _
        rw [hconversation]
        rfl
      · show t.convo.conversation.events = [] ∧ t.convo.conversation.outbound = []
        rw [hconversation]
        exact ⟨rfl, rfl⟩
      · rw [hds]
        show s.cx.ds.delivered [frameEnvelope P out] = _
        rw [frameEnvelope, hconvoId]
        rfl

end GroupV2

namespace GroupV3

variable {s : InSession P (GroupV3Convo P)}

theorem sendsSealed (haccepts : s.cx.ds.Accepts 1) (content : Bytes) :
    SendsSealed own ⟨.v3 s.convo, s.cx⟩ content (P.proto.encodeGroupV3Frame ⟨some content⟩)
      (frameId P (P.proto.encodeGroupV3Frame ⟨some content⟩)) := by
  constructor
  · rintro ⟨e, hcreate⟩
    have hfailed : sendContent content s = _ := Call.mapErr_of_err (Call.bind_of_err
      (Call.mapErr_of_err (onGroup_of_eq (MlsGroup.createMessage_of_error hcreate))))
    show Unsent own _ ((sendContent content s).1, ⟨.v3 (sendContent content s).2.convo, _⟩)
    rw [hfailed]
    exact ⟨nofun, rfl, rfl, trivial, (DeliveryService.delivered_nil _).symm, rfl⟩
  · rintro frame _ ⟨out, secrets, hcreate, hbytes, rfl⟩
    let u : InSession P (GroupV3Convo P) :=
      { s with convo := { s.convo with mlsGroup := { s.convo.mlsGroup with secrets := secrets } } }
    have henvelope : toEnvelope P s.convo.convoId out =
        .ok (postEnvelope P (.v3, s.convo.convoId) frame) := by
      rw [toEnvelope, toPayload, hbytes]
      rfl
    have hpublish : publishMlsMsg out u = (.ok (),
        { u with cx := { s.cx with
          ds := s.cx.ds.delivered [postEnvelope P (.v3, s.convo.convoId) frame] } }) := by
      unfold publishMlsMsg
      rw [Call.read_bind]
      show (Call.ofResult (toEnvelope P s.convo.convoId out) >>= publishEnvelope) u = _
      rw [henvelope, Call.ofResult_ok_bind]
      exact Call.mapErr_of_ok (InSession.onCx_of_eq (ServiceContext.publish_of_accepts _ haccepts))
    have hsent : sendContent content s = (.ok (frameId P (P.proto.encodeGroupV3Frame ⟨some content⟩)),
        { u with cx := { s.cx with
          ds := s.cx.ds.delivered [postEnvelope P (.v3, s.convo.convoId) frame] } }) := by
      apply Call.mapErr_of_ok
      refine (Call.bind_of_ok (Call.mapErr_of_ok (onGroup_of_eq
        (MlsGroup.createMessage_of_ok hcreate)))).trans ?_
      exact Call.bind_of_ok hpublish
    refine ⟨⟨.v3 (sendContent content s).2.convo, (sendContent content s).2.cx⟩, ?_, ?_⟩
    · show ((sendContent content s).1, _) = _
      rw [hsent]
    · rw [hsent]
      exact ⟨rfl, rfl, trivial, rfl, rfl⟩

end GroupV3

namespace GroupConvo

/-- A send fails with nothing sent, or it is up to the carrier of the conversation. -/
theorem sendContent_cases (W : Wire P) {s : InSession P (GroupConvo P)} (hsettled : s.convo.Settled own)
    (haccepts : s.cx.ds.Accepts 1) (content : Bytes) :
    Unsent own s (sendContent content s) ∨
      ∃ plaintext messageId, reading P s.convo.kind plaintext = some (content, messageId) ∧
        SendsSealed own s content plaintext messageId := by
  obtain ⟨convo, cx⟩ := s
  have hunsent : Unsent (α := String) own ⟨convo, cx⟩ (.panic, ⟨convo, cx⟩) :=
    ⟨by simp, rfl, rfl, hsettled, (DeliveryService.delivered_nil _).symm, rfl⟩
  -- GroupV1 and GroupV2 build a reliability envelope first, which an overflow of the clock ends
  have henvelope (C : Type) (convo' : C) (rest : ReliablePayload → Call (InSession P C) ChatError String)
      (hpanic : cx.causal.onSend P.build convo.id cx.self.signer content = .panic) :
      (InSession.onCx (ServiceContext.onSend convo.id content) >>= rest) ⟨convo', cx⟩ =
        (.panic, ⟨convo', cx⟩) := by
    refine Call.bind_of_panic (InSession.onCx_of_eq ?_)
    rw [ServiceContext.onSend, hpanic]
  cases convo with
  | v1 convo =>
      cases hsend : cx.causal.onSend P.build convo.convoId cx.self.signer content with
      | err e => cases e
      | panic =>
          have hcall : GroupV1.sendContent content ⟨convo, cx⟩ = (.panic, ⟨convo, cx⟩) :=
            henvelope _ convo GroupV1.sendEnveloped hsend
          left
          show Unsent own _ ((GroupV1.sendContent content ⟨convo, cx⟩).1, ⟨.v1 _, _⟩)
          rw [hcall]
          exact hunsent
      | ok made =>
          have hmade : Enveloped convo.convoId content cx made.1 made.2 := hsend
          have hreads : reading P .v1 _ = _ := reading_reliable W .v1 (by decide) made.1
          rw [content_of_onSend hsend] at hreads
          exact .inr ⟨_, _, hreads, GroupV1.sendsSealed (s := ⟨convo, cx⟩) hsettled haccepts hmade⟩
  | v2 convo =>
      cases hsend : cx.causal.onSend P.build convo.convoId cx.self.signer content with
      | err e => cases e
      | panic =>
          have hcall : GroupV2.sendContent content ⟨convo, cx⟩ = (.panic, ⟨convo, cx⟩) :=
            henvelope _ convo GroupV2.sendEnveloped hsend
          left
          show Unsent own _ ((GroupV2.sendContent content ⟨convo, cx⟩).1, ⟨.v2 _, _⟩)
          rw [hcall]
          exact hunsent
      | ok made =>
          have hmade : Enveloped convo.convoId content cx made.1 made.2 := hsend
          have hreads : reading P .v2 _ = _ := reading_reliable W .v2 (by decide) made.1
          rw [content_of_onSend hsend] at hreads
          exact .inr ⟨_, _, hreads, GroupV2.sendsSealed (s := ⟨convo, cx⟩) hsettled haccepts hmade⟩
  | v3 convo =>
      exact .inr ⟨_, _, reading_groupV3Frame W content,
        GroupV3.sendsSealed (s := ⟨convo, cx⟩) haccepts content⟩

end GroupConvo

end Sending

/-! ## A post comes in -/

/-- The claim in a member's leaf. -/
def GroupMember.signer (member : GroupMember) : Signer :=
  .fromLeaf member.signatureKey member.credential.serializedContent

/-- What is reported of a content, if its author is found valid. -/
def reported (auth : AuthService) (author : GroupMember) (content : Bytes) (messageId : String) :
    Option Content :=
  (author.signer.requireValid auth).map fun sender ↦
    { bytes := content, sender := sender, messageId := messageId }

def Observation.content? : Observation → Option Content
  | .content c => some c
  | .signersChanged => none

def ConvoOutcome.contents (outcome : ConvoOutcome) : List Content :=
  outcome.observations.filterMap Observation.content?

/-- The contents that a conversation made out in a payload. -/
def contentsIn : Result ChatError ConvoOutcome → List Content
  | .ok outcome => outcome.contents
  | _ => []

/-- The contents that the core did. -/
def contentsOf : Result ChatError PayloadOutcome → List Content
  | .ok (.convo outcome) => outcome.contents
  | _ => []

section Receiving

variable {own : Bytes → Prop} {content plaintext frame payload : Bytes} {after : Carrier P}
  {author : GroupMember} {messageId : String} {reliable : ReliablePayload}

/-- These contents are made out in a payload, which moves the carrier on. -/
def Reads (own : Bytes → Prop) (s : InSession P (GroupConvo P)) (payload : Bytes) (after : Carrier P)
    (contents : List Content) : Prop :=
  contentsIn (GroupConvo.handlePayload payload s).1 = contents ∧
    Moves own s (GroupConvo.handlePayload payload s).2 after []

theorem contents_reported (convoId : String) (content : Option Content) :
    (ConvoOutcome.mk convoId (content.toList.map Observation.content)).contents = content.toList := by
  cases content <;> rfl

namespace GroupV1

variable {s : InSession P (GroupV1Convo P)}

theorem readContent_of_decodes (hdecode : P.proto.decodeReliable plaintext = .ok reliable)
    (convoId : String) (author : GroupMember) (s : InSession P (GroupV1Convo P)) :
    readContent convoId (some author) plaintext s =
      (.ok ⟨convoId, (reported s.cx.auth author reliable.content reliable.messageId).toList.map
          Observation.content⟩,
        { s with cx := { s.cx with causal := (s.cx.causal.onReceive convoId reliable).2 } }) := by
  unfold readContent
  rw [hdecode, orErr, Call.ofResult_ok_bind]
  show (Result.ok (ConvoOutcome.mk convoId (((author.signer.requireValid s.cx.auth).toList).map _)), _) = _
  rw [reported]
  cases author.signer.requireValid s.cx.auth <;> rfl

theorem reads (hsettled : (GroupConvo.v1 s.convo).Settled own)
    (hpayload : P.proto.decodeEncryptedPayload payload = .ok (.plaintext frame))
    (hpresent : (groupOf s).isActive = true) (hseats : (groupOf s).memberAt author.index = some author)
    (hopens : (Carrier.mls (groupOf s)).Opens frame author plaintext after)
    (hforeign : ∀ frame', own frame' → frameHash P frame ≠ frameHash P frame')
    (hreads : P.proto.decodeReliable plaintext = .ok reliable) :
    Reads own ⟨.v1 s.convo, s.cx⟩ payload after
      (reported s.cx.auth author reliable.content reliable.messageId).toList := by
  obtain ⟨message, secrets, hmessage, hepoch, hprocess, rfl⟩ := hopens
  have hforgotten : frameHash P frame ∉ s.convo.outboundMsgs := by
    intro hmem
    obtain ⟨frame', hown, hsame⟩ := hsettled _ hmem
    exact hforeign frame' hown hsame
  have hcall : handlePayload payload s = readContent s.convo.convoId (some author) plaintext
      { s with convo := { s.convo with mlsGroup := { groupOf s with secrets := secrets } } } := by
    have hprocessed : MlsGroup.processMessage P.mls message (groupOf s) =
        (.ok (some author.index, .applicationMessage plaintext), { groupOf s with secrets := secrets }) := by
      rw [MlsGroup.processMessage, hprocess]
    unfold handlePayload
    rw [hpayload, orErr, Call.ofResult_ok_bind]
    dsimp only
    rw [Call.read_bind, if_neg (not_not.mpr hpresent), if_neg hforgotten, hmessage, orErr,
      Call.ofResult_ok_bind, if_neg (Nat.not_lt.mpr hepoch.ge),
      Call.bind_of_ok (Call.mapErr_of_ok (onGroup_of_eq hprocessed))]
    dsimp only
    rw [Option.bind_some, hseats]
  rw [readContent_of_decodes hreads] at hcall
  show contentsIn (handlePayload payload s).1 = _ ∧ Moves own _ ⟨.v1 (handlePayload payload s).2.convo, _⟩ _ _
  rw [hcall]
  exact ⟨contents_reported _ _, rfl, rfl, hsettled, (DeliveryService.delivered_nil _).symm, rfl⟩

theorem ignores (hsettled : (GroupConvo.v1 s.convo).Settled own)
    (hpayload : P.proto.decodeEncryptedPayload payload = .ok (.plaintext frame))
    (hpresent : (groupOf s).isActive = true)
    (hrefuses : (Carrier.mls (groupOf s)).Refuses frame after) :
    Reads own ⟨.v1 s.convo, s.cx⟩ payload after [] := by
  obtain ⟨message, hmessage, hepoch, hrefused, rfl⟩ := hrefuses
  have hmoves : Moves own ⟨.v1 s.convo, s.cx⟩ ⟨.v1 s.convo, s.cx⟩ (.mls (groupOf s)) [] :=
    ⟨rfl, rfl, hsettled, (DeliveryService.delivered_nil _).symm, rfl⟩
  show contentsIn (handlePayload payload s).1 = _ ∧ Moves own _ ⟨.v1 (handlePayload payload s).2.convo, _⟩ _ _
  -- dropped while it is remembered, and an error afterwards
  by_cases hremembered : frameHash P frame ∈ s.convo.outboundMsgs
  · have hdrops : handlePayload payload s = _ := drops_of_remembered hpayload hpresent hremembered
    rw [hdrops]
    exact ⟨rfl, hmoves⟩
  · obtain ⟨text, hfails⟩ := fails_of_refused hpayload hpresent hremembered hmessage hepoch hrefused
    rw [hfails]
    exact ⟨rfl, hmoves⟩

end GroupV1

namespace GroupV2

variable {s : InSession P (GroupV2Convo P)}

theorem onConversation_of_eq {ε α : Type} {m : Call (Conversation P.demls) ε α} {r : Result ε α}
    {conversation : Conversation P.demls} (h : m s.convo.conversation = (r, conversation)) :
    onConversation m s = (r, { s with convo := { s.convo with conversation := conversation } }) :=
  Call.on_of_eq h

theorem isMember_of_present (h : (Carrier.demls s.convo.conversation.core : Carrier P).Present) :
    isMember s.convo = true := by
  obtain ⟨m, hmem, hid⟩ := h
  unfold isMember ownSigner
  rw [Option.isSome_map, List.find?_isSome]
  exact ⟨m, hmem, beq_iff_eq.mpr hid⟩

/-- A frame goes through de-mls, and what the turn queued is drained. -/
theorem handlePayload_of_turn (hsettled : (GroupConvo.v2 s.convo).Settled own)
    (hpayload : P.proto.decodeEncryptedPayload payload = .ok (.plaintext frame))
    (hpresent : (Carrier.demls s.convo.conversation.core : Carrier P).Present)
    {inner senderAppId : Bytes} {heard next : P.demls.Core} {events : List ConversationEvent}
    (hframe : P.proto.decodeGroupV2Frame frame = .ok ⟨some (.deMlsWrapper inner), senderAppId⟩)
    (hinbound : P.demls.processInbound s.convo.conversation.core senderAppId inner =
      (.ok (), { core := heard, events := events }))
    (hpoll : P.demls.poll heard = { core := next }) (hnone : events.flatMap mentions = []) :
    ∃ t, handlePayload payload s = outcomeFromEvents events t ∧ t.convo.convoId = s.convo.convoId ∧
      t.convo.conversation = { core := next } ∧ t.cx.ds = s.cx.ds ∧ t.cx.auth = s.cx.auth := by
  obtain ⟨hevents, houtbound⟩ := hsettled
  let u : InSession P (GroupV2Convo P) :=
    { s with convo := { s.convo with conversation := { core := next, events := events } } }
  have hfeed : feed payload s = (.ok true, u) := by
    have hturn : Conversation.processInbound senderAppId inner s.convo.conversation =
        (.ok (), { core := heard, events := events }) := by
      rw [Conversation.processInbound, Conversation.turn_of_ok hinbound]
      simp [Conversation.queued, hevents, houtbound]
    have hpolled : (Conversation.poll : Call (Conversation P.demls) ChatError Unit)
        { core := heard, events := events } = (.ok (), { core := next, events := events }) := by
      show (Result.ok (), Conversation.queued _ (P.demls.poll heard)) = _
      rw [hpoll]
      simp [Conversation.queued]
    unfold feed
    rw [hpayload, orErr, Call.ofResult_ok_bind]
    dsimp only
    rw [Call.read_bind, if_neg (not_not.mpr (isMember_of_present hpresent)), hframe, orErr,
      Call.ofResult_ok_bind]
    dsimp only
    rw [Call.bind_of_ok (Call.mapErr_of_ok (onConversation_of_eq hturn)),
      Call.bind_of_ok (onConversation_of_eq hpolled)]
    rfl
  have hdue : due u = [] := by
    show welcomes P (invitesDue _ (events.flatMap mentions)) ++ [] = []
    rw [hnone]
    rfl
  obtain ⟨post, t, hdrain, hid, hconversation, hds, hauth⟩ :=
    afterOp_settles (s := u) (by rw [hdue]; exact fun k hk ↦ absurd hk (Nat.not_lt_zero k))
  refine ⟨t, ?_, hid, hconversation, ?_, hauth⟩
  · refine (Call.bind_of_ok hfeed).trans ?_
    show report u = _
    exact Call.bind_of_ok hdrain
  · rw [hds, hdue, DeliveryService.delivered_nil]

-- where the queues are empty
theorem moves_of_drained {t : InSession P (GroupV2Convo P)} {next : P.demls.Core}
    (hid : t.convo.convoId = s.convo.convoId) (hconversation : t.convo.conversation = { core := next })
    (hds : t.cx.ds = s.cx.ds) (hauth : t.cx.auth = s.cx.auth) :
    Moves own ⟨.v2 s.convo, s.cx⟩ ⟨.v2 t.convo, t.cx⟩ (.demls next) [] := by
  refine ⟨congrArg (Prod.mk GroupKind.v2) hid, ?_, ?_, ?_, hauth⟩
  · show Carrier.demls t.convo.conversation.core = _
    rw [hconversation]
  · show t.convo.conversation.events = [] ∧ t.convo.conversation.outbound = []
    rw [hconversation]
    exact ⟨rfl, rfl⟩
  · rw [DeliveryService.delivered_nil]
    exact hds

theorem reads (hsettled : (GroupConvo.v2 s.convo).Settled own)
    (hpayload : P.proto.decodeEncryptedPayload payload = .ok (.plaintext frame))
    (hpresent : (Carrier.demls s.convo.conversation.core : Carrier P).Present)
    (hopens : (Carrier.demls s.convo.conversation.core).Opens frame author plaintext after)
    (hreads : P.proto.decodeReliable plaintext = .ok reliable) :
    Reads own ⟨.v2 s.convo, s.cx⟩ payload after
      (reported s.cx.auth author reliable.content reliable.messageId).toList := by
  obtain ⟨senderAppId, inner, heard, next, hframe, hinbound, hpoll, rfl⟩ := hopens
  obtain ⟨t, hcall, hid, hconversation, hds, hauth⟩ :=
    handlePayload_of_turn hsettled hpayload hpresent hframe hinbound hpoll rfl
  have hread : readPost plaintext author.toLeafNode t = (.ok
      (reported t.cx.auth author reliable.content reliable.messageId),
      { t with cx := { t.cx with causal := (t.cx.causal.onReceive t.convo.convoId reliable).2 } }) := by
    unfold readPost
    rw [hreads, orErr, Call.ofResult_ok_bind]
    rfl
  have houtcome : handlePayload payload s = (.ok ⟨s.convo.convoId,
      (reported s.cx.auth author reliable.content reliable.messageId).toList.map Observation.content⟩,
      { t with cx := { t.cx with causal := (t.cx.causal.onReceive t.convo.convoId reliable).2 } }) := by
    rw [hcall]
    refine (Call.bind_of_ok hread).trans ?_
    show (Result.ok (ConvoOutcome.mk t.convo.convoId (_ ++ [])), _) = _
    rw [hid, hauth, List.append_nil]
  show contentsIn (handlePayload payload s).1 = _ ∧ Moves own _ ⟨.v2 (handlePayload payload s).2.convo, _⟩ _ _
  rw [houtcome]
  exact ⟨contents_reported _ _, moves_of_drained hid hconversation hds hauth⟩

theorem ignores (hsettled : (GroupConvo.v2 s.convo).Settled own)
    (hpayload : P.proto.decodeEncryptedPayload payload = .ok (.plaintext frame))
    (hpresent : (Carrier.demls s.convo.conversation.core : Carrier P).Present)
    (hrefuses : (Carrier.demls s.convo.conversation.core).Refuses frame after) :
    Reads own ⟨.v2 s.convo, s.cx⟩ payload after [] := by
  obtain ⟨senderAppId, inner, heard, next, hframe, hinbound, hpoll, rfl⟩ := hrefuses
  obtain ⟨t, hcall, hid, hconversation, hds, hauth⟩ :=
    handlePayload_of_turn hsettled hpayload hpresent hframe hinbound hpoll rfl
  show contentsIn (handlePayload payload s).1 = _ ∧ Moves own _ ⟨.v2 (handlePayload payload s).2.convo, _⟩ _ _
  rw [hcall]
  exact ⟨rfl, moves_of_drained hid hconversation hds hauth⟩

end GroupV2

namespace GroupV3

variable {s : InSession P (GroupV3Convo P)}

theorem handlePayload_of_message {header : Bytes} {message : ProtocolMessage}
    (hpayload : P.proto.decodeGroupV3Payload payload = .ok ⟨header, frame⟩)
    (hmessage : P.mls.protocolMessage frame = .ok message) :
    handlePayload payload s = handleMlsProtocolMsg message s := by
  unfold handlePayload
  rw [hpayload, orErr, Call.ofResult_ok_bind]
  dsimp only
  rw [hmessage, orErr, Call.ofResult_ok_bind]

theorem reads {header : Bytes} (hpayload : P.proto.decodeGroupV3Payload payload = .ok ⟨header, frame⟩)
    (hseats : s.convo.mlsGroup.memberAt author.index = some author)
    (hopens : (Carrier.mls s.convo.mlsGroup).Opens frame author plaintext after)
    (hreads : P.proto.decodeGroupV3Frame plaintext = .ok ⟨some content⟩) :
    Reads own ⟨.v3 s.convo, s.cx⟩ payload after
      (reported s.cx.auth author content (frameId P plaintext)).toList := by
  obtain ⟨message, secrets, hmessage, hepoch, hprocess, rfl⟩ := hopens
  let u : InSession P (GroupV3Convo P) :=
    { s with convo := { s.convo with mlsGroup := { s.convo.mlsGroup with secrets := secrets } } }
  have hprocessed : MlsGroup.processMessage P.mls message s.convo.mlsGroup =
      (.ok (some author.index, .applicationMessage plaintext), u.convo.mlsGroup) := by
    rw [MlsGroup.processMessage, hprocess]
  have hcall : handlePayload payload s = handleMlsApplicationMessage (some author) plaintext u := by
    rw [handlePayload_of_message hpayload hmessage]
    unfold handleMlsProtocolMsg
    rw [Call.read_bind, if_neg (Nat.not_lt.mpr hepoch.ge),
      Call.bind_of_ok (Call.attempt_of_ok (onGroup_of_eq hprocessed))]
    show handleMlsApplicationMessage (u.convo.mlsGroup.memberAt author.index) plaintext u = _
    have hseated : u.convo.mlsGroup.memberAt author.index = some author := hseats
    rw [hseated]
  have houtcome : handleMlsApplicationMessage (some author) plaintext u = (.ok ⟨s.convo.convoId,
      (reported s.cx.auth author content (frameId P plaintext)).toList.map Observation.content⟩, u) := by
    unfold handleMlsApplicationMessage
    rw [Call.read_bind, hreads, orErr, Call.ofResult_ok_bind]
    show (Result.ok (ConvoOutcome.mk s.convo.convoId
      (((author.signer.requireValid s.cx.auth).toList).map _)), _) = _
    rw [reported]
    cases author.signer.requireValid s.cx.auth <;> rfl
  show contentsIn (handlePayload payload s).1 = _ ∧ Moves own _ ⟨.v3 (handlePayload payload s).2.convo, _⟩ _ _
  rw [hcall, houtcome]
  exact ⟨contents_reported _ _, rfl, rfl, trivial, (DeliveryService.delivered_nil _).symm, rfl⟩

theorem ignores {header : Bytes} (hpayload : P.proto.decodeGroupV3Payload payload = .ok ⟨header, frame⟩)
    (hrefuses : (Carrier.mls s.convo.mlsGroup).Refuses frame after) :
    Reads own ⟨.v3 s.convo, s.cx⟩ payload after [] := by
  obtain ⟨message, hmessage, hepoch, hrefused, rfl⟩ := hrefuses
  have hprocess : MlsGroup.processMessage P.mls message s.convo.mlsGroup =
      (.err .cannotDecryptOwnMessage, s.convo.mlsGroup) := by
    rw [MlsGroup.processMessage, hrefused]
  have hcall : handlePayload payload s = (.ok (.empty s.convo.convoId), s) := by
    rw [handlePayload_of_message hpayload hmessage]
    unfold handleMlsProtocolMsg
    rw [Call.read_bind, if_neg (Nat.not_lt.mpr hepoch.ge),
      Call.bind_of_ok (Call.attempt_of_err (onGroup_of_eq hprocess))]
    rfl
  show contentsIn (handlePayload payload s).1 = _ ∧ Moves own _ ⟨.v3 (handlePayload payload s).2.convo, _⟩ _ _
  rw [hcall]
  exact ⟨rfl, rfl, rfl, trivial, (DeliveryService.delivered_nil _).symm, rfl⟩

end GroupV3

namespace GroupConvo

variable {s : InSession P (GroupConvo P)}

/-- What the carrier opens is reported as it was sent. -/
theorem reads (W : Wire P) (hsettled : s.convo.Settled own)
    (hpresent : s.convo.carrier.Present) (hseats : s.convo.carrier.Seats author)
    (hopens : s.convo.carrier.Opens frame author plaintext after)
    (hforeign : ∀ frame', own frame' → GroupV1.frameHash P frame ≠ GroupV1.frameHash P frame')
    (hreads : reading P s.convo.kind plaintext = some (content, messageId)) :
    Reads own s (W.payload (postEnvelope P s.convo.label frame).payload) after
      (reported s.cx.auth author content messageId).toList := by
  obtain ⟨convo, cx⟩ := s
  cases convo with
  | v1 convo =>
      obtain ⟨reliable, hdecode, rfl, rfl⟩ := decodeReliable_of_reading .v1 (by decide) hreads
      exact GroupV1.reads (s := ⟨convo, cx⟩) hsettled (W.decode_plaintext frame) hpresent hseats hopens
        hforeign hdecode
  | v2 convo =>
      obtain ⟨reliable, hdecode, rfl, rfl⟩ := decodeReliable_of_reading .v2 (by decide) hreads
      exact GroupV2.reads (s := ⟨convo, cx⟩) hsettled (W.decode_plaintext frame) hpresent hopens hdecode
  | v3 convo =>
      obtain ⟨hdecode, rfl⟩ := decodeGroupV3Frame_of_reading hreads
      exact GroupV3.reads (s := ⟨convo, cx⟩) (W.decode_groupV3Payload _) hseats hopens hdecode

/-- What comes back is not. -/
theorem ignores (W : Wire P) (hsettled : s.convo.Settled own) (hpresent : s.convo.carrier.Present)
    (hrefuses : s.convo.carrier.Refuses frame after) :
    Reads own s (W.payload (postEnvelope P s.convo.label frame).payload) after [] := by
  obtain ⟨convo, cx⟩ := s
  cases convo with
  | v1 convo =>
      exact GroupV1.ignores (s := ⟨convo, cx⟩) hsettled (W.decode_plaintext frame) hpresent hrefuses
  | v2 convo =>
      exact GroupV2.ignores (s := ⟨convo, cx⟩) hsettled (W.decode_plaintext frame) hpresent hrefuses
  | v3 convo => exact GroupV3.ignores (s := ⟨convo, cx⟩) (W.decode_groupV3Payload _) hrefuses

end GroupConvo

end Receiving

/-! ## In the core -/

theorem dlookup_kreplace {κ : Type} {β : κ → Type} [DecidableEq κ] {a : κ} (b : β a)
    {entries : List (Sigma β)} (h : a ∈ entries.keys) : (entries.kreplace a b).dlookup a = some b := by
  induction entries with
  | nil => cases h
  | cons entry entries ih =>
      rw [List.kreplace, List.lookmap_cons]
      by_cases hsame : a = entry.1
      · rw [if_pos hsame]
        exact List.dlookup_cons_eq _ _ _
      · rw [if_neg hsame]
        rw [List.keys_cons, List.mem_cons] at h
        exact (List.dlookup_cons_ne _ _ hsame).trans (ih (h.resolve_left hsame))

theorem dlookup_kreplace_ne {κ : Type} {β : κ → Type} [DecidableEq κ] {a a' : κ} (b : β a)
    (hne : a' ≠ a) (entries : List (Sigma β)) :
    (entries.kreplace a b).dlookup a' = entries.dlookup a' := by
  induction entries with
  | nil => rfl
  | cons entry entries ih =>
      rw [List.kreplace, List.lookmap_cons]
      by_cases hsame : a = entry.1
      · rw [if_pos hsame]
        obtain ⟨key, value⟩ := entry
        subst hsame
        exact (List.dlookup_cons_ne _ ⟨a, b⟩ hne).trans (List.dlookup_cons_ne _ ⟨a, value⟩ hne).symm
      · rw [if_neg hsame]
        obtain ⟨key, value⟩ := entry
        by_cases hkey : a' = key
        · subst hkey
          exact (List.dlookup_cons_eq _ _ _).trans (List.dlookup_cons_eq _ _ _).symm
        · have hrest : (List.kreplace a b entries).dlookup a' = entries.dlookup a' := ih
          exact (List.dlookup_cons_ne _ ⟨key, value⟩ hkey).trans
            (hrest.trans (List.dlookup_cons_ne _ ⟨key, value⟩ hkey).symm)

namespace Core

variable {P : Platform} {own : Bytes → Prop} {label : GroupKind × String} {carrier after : Carrier P}
  {c c' : Core P} {content frame plaintext : Bytes}

/-- The core has the conversation loaded, over a delivery service that accepts everything. -/
structure Holds (own : Bytes → Prop) (label : GroupKind × String) (carrier : Carrier P) (c : Core P) :
    Prop where
  inbox : label.2 ≠ c.inboxId
  answers : ∀ k, c.services.ds.answers k = none
  cached : ∃ owned, c.cachedConvos.lookup label.2 = some owned ∧ owned.convo.label = label ∧
    owned.convo.carrier = carrier ∧ owned.convo.Settled own

theorem Holds.mono {own' : Bytes → Prop} (h : c.Holds own label carrier)
    (howns : ∀ frame, own frame → own' frame) : c.Holds own' label carrier := by
  obtain ⟨owned, hlookup, hlabel, hcarrier, hsettled⟩ := h.cached
  exact ⟨h.inbox, h.answers, owned, hlookup, hlabel, hcarrier, hsettled.mono howns⟩

/-- From `c` to `c'` the conversation came to have this carrier, and these envelopes were published. -/
structure Carries (own : Bytes → Prop) (label : GroupKind × String) (c c' : Core P) (carrier : Carrier P)
    (published : List AddressedEnvelope) : Prop where
  holds : c'.Holds own label carrier
  published : c'.services.ds.published = c.services.ds.published ++ published
  auth : c'.services.auth = c.services.auth

theorem mem_cachedConvos {convoId : String} {owned : ConvoTypeOwned P}
    (h : c.cachedConvos.lookup convoId = some owned) : convoId ∈ c.cachedConvos := by
  rw [← AList.lookup_isSome, h]
  rfl

theorem onCached_of_lookup {ε α : Type} {convoId : String} {owned : ConvoTypeOwned P}
    {absent : Call (Core P) ε α} {m : ConvoTypeOwned P → Call (InSession P (GroupConvo P)) ε α}
    {r : Result ε α} {t : InSession P (GroupConvo P)} (h : c.cachedConvos.lookup convoId = some owned)
    (hm : m owned ⟨owned.convo, c.services⟩ = (r, t)) :
    onCached convoId absent m c = (r, { c with
      services := t.cx
      cachedConvos := c.cachedConvos.replace convoId (owned.put t.convo) }) := by
  rw [onCached, h]
  dsimp only
  rw [hm]

/-- The conversation goes back to where it was found. -/
theorem Holds.put (h : c.Holds own label carrier) {owned : ConvoTypeOwned P}
    (hlookup : c.cachedConvos.lookup label.2 = some owned) (hlabel : owned.convo.label = label)
    {t : InSession P (GroupConvo P)} {published : List AddressedEnvelope}
    (hmoves : Moves own ⟨owned.convo, c.services⟩ t after published) :
    Carries own label c { c with
      services := t.cx
      cachedConvos := c.cachedConvos.replace label.2 (owned.put t.convo) } after published := by
  have hput : (owned.put t.convo).convo = t.convo := by cases owned <;> rfl
  refine ⟨⟨h.inbox, fun k ↦ ?_, owned.put t.convo, ?_, ?_, ?_, ?_⟩, ?_, hmoves.auth⟩
  · show t.cx.ds.answers k = none
    rw [hmoves.ds]
    exact h.answers k
  · exact dlookup_kreplace _ (mem_cachedConvos hlookup)
  · rw [hput, hmoves.label, hlabel]
  · rw [hput, hmoves.carrier]
  · rw [hput]
    exact hmoves.settled
  · show t.cx.ds.published = _
    rw [hmoves.ds]
    rfl

/-- A send fails with nothing sent, or it is up to the carrier of the conversation. -/
theorem Holds.sendContent (W : Wire P) (h : c.Holds own label carrier) (content : Bytes) :
    ((∀ id, (Core.sendContent label.2 content c).1 ≠ .ok id) ∧
      Carries own label c (Core.sendContent label.2 content c).2 carrier []) ∨
    ∃ plaintext messageId, reading P label.1 plaintext = some (content, messageId) ∧
      (carrier.Declines plaintext → (∀ id, (Core.sendContent label.2 content c).1 ≠ .ok id) ∧
        Carries own label c (Core.sendContent label.2 content c).2 carrier []) ∧
      ∀ frame after, carrier.Seals label.2 plaintext frame after →
        (Core.sendContent label.2 content c).1 = .ok messageId ∧
        Carries (fun frame' ↦ own frame' ∨ frame' = frame) label c
          (Core.sendContent label.2 content c).2 after [postEnvelope P label frame] := by
  obtain ⟨owned, hlookup, hlabel, rfl, hsettled⟩ := h.cached
  have haccepts : c.services.ds.Accepts 1 := fun k _ ↦ h.answers _
  have hcall {r : Result ChatError String} {t : InSession P (GroupConvo P)}
      (hsend : GroupConvo.sendContent content ⟨owned.convo, c.services⟩ = (r, t)) :
      Core.sendContent label.2 content c = (r, { c with
        services := t.cx
        cachedConvos := c.cachedConvos.replace label.2 (owned.put t.convo) }) :=
    onCached_of_lookup hlookup hsend
  have hunsent (hfails : Unsent own ⟨owned.convo, c.services⟩
      (GroupConvo.sendContent content ⟨owned.convo, c.services⟩)) :
      (∀ id, (Core.sendContent label.2 content c).1 ≠ .ok id) ∧
        Carries own label c (Core.sendContent label.2 content c).2 owned.convo.carrier [] := by
    rw [hcall (Prod.mk.eta).symm]
    exact ⟨hfails.1, h.put hlookup hlabel hfails.2⟩
  obtain hfails | ⟨plaintext, messageId, hreads, hsends⟩ :=
    GroupConvo.sendContent_cases W (s := ⟨owned.convo, c.services⟩) hsettled haccepts content
  · exact .inl (hunsent hfails)
  · have hkind : owned.convo.kind = label.1 := congrArg Prod.fst hlabel
    have hid : owned.convo.id = label.2 := congrArg Prod.snd hlabel
    refine .inr ⟨plaintext, messageId, hkind ▸ hreads, fun hdeclines ↦ hunsent (hsends.declined hdeclines),
      fun frame after hseals ↦ ?_⟩
    obtain ⟨t, hsent, hmoves⟩ := hsends.sealed frame after (hid.symm ▸ hseals)
    rw [hlabel] at hmoves
    rw [hcall hsent]
    exact ⟨rfl, (h.mono fun _ ↦ .inl).put hlookup hlabel hmoves⟩

/-- A payload of the conversation is handled by it. -/
theorem Holds.handlePayload (W : Wire P) (h : c.Holds own label carrier) (frame : Bytes) :
    ∃ owned : ConvoTypeOwned P, owned.convo.label = label ∧ owned.convo.carrier = carrier ∧
      owned.convo.Settled own ∧ ∀ after contents,
        Reads own ⟨owned.convo, c.services⟩ (W.payload (postEnvelope P label frame).payload) after contents →
        contentsOf (Core.handlePayload (W.data (postEnvelope P label frame)) c).1 = contents ∧
        Carries own label c (Core.handlePayload (W.data (postEnvelope P label frame)) c).2 after [] := by
  obtain ⟨owned, hlookup, hlabel, hcarrier, hsettled⟩ := h.cached
  refine ⟨owned, hlabel, hcarrier, hsettled, fun after contents hreads ↦ ?_⟩
  have hcall : Core.handlePayload (W.data (postEnvelope P label frame)) c =
      dispatchToConvo label.2 (W.payload (postEnvelope P label frame).payload) c := by
    unfold Core.handlePayload Wire.data
    rw [W.decode_envelope, orErr, Call.ofResult_ok_bind, Call.read_bind, postEnvelope_hint,
      if_neg h.inbox, if_pos (mem_cachedConvos hlookup)]
  unfold Reads at hreads
  cases hhandled : GroupConvo.handlePayload (W.payload (postEnvelope P label frame).payload)
      ⟨owned.convo, c.services⟩ with
  | mk r t =>
      rw [hhandled] at hreads
      have hdispatched : onConvo label.2 (GroupConvo.handlePayload
          (W.payload (postEnvelope P label frame).payload)) c = _ := onCached_of_lookup hlookup hhandled
      have hcarries := h.put hlookup hlabel hreads.2
      rw [hcall]
      cases r with
      | ok outcome =>
          have hanswer : dispatchToConvo label.2 _ c = _ := Call.bind_of_ok hdispatched
          rw [hanswer]
          exact ⟨hreads.1, hcarries⟩
      | err e =>
          have hanswer : dispatchToConvo label.2 _ c = _ := Call.bind_of_err hdispatched
          rw [hanswer]
          exact ⟨hreads.1, hcarries⟩
      | panic =>
          have hanswer : dispatchToConvo label.2 _ c = _ := Call.bind_of_panic hdispatched
          rw [hanswer]
          exact ⟨hreads.1, hcarries⟩

/-- What the carrier opens is reported as it was sent. -/
theorem Holds.reads (W : Wire P) (h : c.Holds own label carrier)
    {author : GroupMember} {messageId : String} (hpresent : carrier.Present) (hseats : carrier.Seats author)
    (hopens : carrier.Opens frame author plaintext after)
    (hforeign : ∀ frame', own frame' → GroupV1.frameHash P frame ≠ GroupV1.frameHash P frame')
    (hreads : reading P label.1 plaintext = some (content, messageId)) :
    contentsOf (Core.handlePayload (W.data (postEnvelope P label frame)) c).1 =
        (reported c.services.auth author content messageId).toList ∧
      Carries own label c (Core.handlePayload (W.data (postEnvelope P label frame)) c).2 after [] := by
  obtain ⟨owned, rfl, rfl, hsettled, hhandled⟩ := h.handlePayload W frame
  exact hhandled _ _ (GroupConvo.reads W (s := ⟨owned.convo, c.services⟩) hsettled hpresent hseats
    hopens hforeign hreads)

/-- What comes back is not. -/
theorem Holds.ignores (W : Wire P) (h : c.Holds own label carrier) (hpresent : carrier.Present)
    (hrefuses : carrier.Refuses frame after) :
    contentsOf (Core.handlePayload (W.data (postEnvelope P label frame)) c).1 = [] ∧
      Carries own label c (Core.handlePayload (W.data (postEnvelope P label frame)) c).2 after [] := by
  obtain ⟨owned, rfl, rfl, hsettled, hhandled⟩ := h.handlePayload W frame
  exact hhandled _ _ (GroupConvo.ignores W (s := ⟨owned.convo, c.services⟩) hsettled hpresent hrefuses)

end Core

/-! ## In other conversations -/

/-- The conversation that a payload is for. -/
def hintOf (P : Platform) (data : Bytes) : Option String :=
  match P.proto.decodeEnvelope data with
  | .ok env => some env.conversationHint
  | .error _ => none

theorem Wire.hintOf_data (W : Wire P) (envelope : AddressedEnvelope) :
    hintOf P (W.data envelope) = some envelope.conversationHint := by
  rw [hintOf, Wire.data, W.decode_envelope]

/-- What no call changes of the services. -/
def ServiceContext.fixed (cx : ServiceContext P) : AuthService × (Nat → Option String) :=
  (cx.auth, cx.ds.answers)

-- the relation of a call on the services
abbrev SameFixed : ServiceContext P → ServiceContext P → Prop := Call.Same ServiceContext.fixed

theorem Publishes.sameFixed {allowed : SignerKey → Prop} {cx cx' : ServiceContext P}
    (h : Publishes allowed cx cx') : SameFixed cx cx' := by
  have hfixed := congrArg ServiceContext.fixed h.apart
  exact hfixed

theorem sameFixed_handlePayload (payload : Bytes) :
    (GroupConvo.handlePayload payload).Keeps fun s t : InSession P (GroupConvo P) ↦ SameFixed s.cx t.cx :=
  fun s ↦ (@GroupConvo.minds_handlePayload P (fun _ ↦ True) payload s fun _ _ ↦ trivial).2.sameFixed

theorem sameFixed_loadConvo (convoId : String) : (loadConvo convoId).Keeps (SameFixed (P := P)) := by
  have hstore : (ServiceContext.onStore (ConversationStore.loadConversation convoId)).Keeps
      (SameFixed (P := P)) := fun _ ↦ rfl
  refine hstore.mapErr.bind fun record ↦ ?_
  split
  · exact Call.keeps_fail _
  split
  · exact Call.keeps_fail _
  split
  · exact Call.keeps_fail _
  · refine Call.Keeps.bind ?_ fun _ ↦ Call.keeps_pure _
    exact (@GroupV1.keeps_load P (fun _ ↦ True) _ _).mono fun _ _ h ↦ h.sameFixed

namespace InboxV2

theorem sameFixed_handleFrame (payload : Bytes) : (handleFrame payload).Keeps (SameFixed (P := P)) := by
  have hparse (welcomeBytes : Bytes) : (parseHeavyWelcome welcomeBytes).Keeps (SameFixed (P := P)) := by
    refine (Call.keeps_ofResult _).bind fun extracted ↦ ?_
    split
    · exact Call.keeps_fail _
    · exact Call.keeps_pure _
  unfold handleFrame
  split
  · exact Call.keeps_pure _
  · exact Call.keeps_pure _
  · refine Call.Keeps.bind ?_ fun _ ↦ Call.keeps_pure _
    refine (hparse _).bind fun welcome ↦ ?_
    refine Call.Keeps.bind ?_ fun convo ↦ Call.Keeps.bind (fun _ ↦ rfl) fun _ ↦ Call.keeps_pure _
    exact (@GroupV1.keeps_newFromWelcome P (fun _ ↦ True) welcome).mono fun _ _ h ↦ h.sameFixed
  · refine (Call.keeps_ofResult _).bind fun welcome ↦ ?_
    refine Call.Keeps.bind ?_ fun _ ↦ Call.keeps_pure _
    exact (@GroupV2.keeps_newFromWelcome P (fun _ ↦ True) welcome).mono fun _ _ h ↦ h.sameFixed
  · refine (hparse _).bind fun welcome ↦ ?_
    refine Call.Keeps.bind ?_ fun _ ↦ Call.keeps_pure _
    exact (@GroupV3.keeps_newFromWelcome P (fun _ ↦ True) welcome).mono fun _ _ h ↦ h.sameFixed

end InboxV2

namespace Core

variable {convoId : String} {c c' : Core P}

/-- A core that had the conversation loaded still has it as it was, with what it relies on for it. -/
structure Beside (convoId : String) (c c' : Core P) : Prop where
  cached : convoId ∈ c.cachedConvos → c'.cachedConvos.lookup convoId = c.cachedConvos.lookup convoId
  inbox : c'.inboxId = c.inboxId
  fixed : SameFixed c.services c'.services

theorem Beside.mem (h : Beside convoId c c') (hc : convoId ∈ c.cachedConvos) : convoId ∈ c'.cachedConvos := by
  rw [← AList.lookup_isSome, h.cached hc, AList.lookup_isSome]
  exact hc

instance (convoId : String) : IsPreorder (Core P) (Beside convoId) where
  refl _ := ⟨fun _ ↦ rfl, rfl, rfl⟩
  trans _ _ _ hab hbc :=
    { cached := fun hc ↦ (hbc.cached (hab.mem hc)).trans (hab.cached hc)
      inbox := hbc.inbox.trans hab.inbox
      fixed := hbc.fixed.trans hab.fixed }

/-- So it still holds the conversation. -/
theorem Holds.beside {own : Bytes → Prop} {label : GroupKind × String} {carrier : Carrier P}
    (h : c.Holds own label carrier) (hbeside : Beside label.2 c c') :
    c'.Holds own label carrier ∧ c'.services.auth = c.services.auth := by
  obtain ⟨hauth, hanswers⟩ := Prod.mk.inj hbeside.fixed
  obtain ⟨owned, hlookup, hrest⟩ := h.cached
  refine ⟨⟨?_, fun k ↦ ?_, owned, ?_, hrest⟩, hauth⟩
  · rw [hbeside.inbox]
    exact h.inbox
  · rw [hanswers]
    exact h.answers k
  · rw [hbeside.cached (mem_cachedConvos hlookup)]
    exact hlookup

theorem beside_onServices {ε α : Type} {m : Call (ServiceContext P) ε α} (h : m.Keeps SameFixed) :
    (onServices m).Keeps (Beside convoId) :=
  fun c ↦ ⟨fun _ ↦ rfl, rfl, h c.services⟩

/-- A call on another conversation. -/
theorem beside_onConvo {α : Type} {m : Call (InSession P (GroupConvo P)) ChatError α}
    (hm : m.Keeps fun s t ↦ SameFixed s.cx t.cx) {other : String} (hne : convoId ≠ other) :
    (onConvo other m).Keeps (Beside convoId) := by
  intro c
  unfold onConvo onCached
  split
  · refine beside_onServices ?_ c
    exact (sameFixed_loadConvo other).bind fun convo cx ↦ hm ⟨convo, cx⟩
  · case h_2 owned _ =>
      exact ⟨fun _ ↦ dlookup_kreplace_ne _ hne _, rfl, hm ⟨owned.convo, c.services⟩⟩

-- a conversation that is loaded is not replaced
theorem beside_registerConvo (owned : ConvoTypeOwned P) : (registerConvo owned).Keeps (Beside convoId) := by
  refine (Call.keeps_read _).bind_of_ok fun c _ _ hread ↦ ?_
  cases hread
  by_cases hcached : owned.convo.id ∈ c.cachedConvos
  · rw [if_pos hcached]
    exact refl c
  · rw [if_neg hcached]
    refine ⟨fun hc ↦ ?_, rfl, rfl⟩
    have hne : convoId ≠ owned.convo.id := fun heq ↦ hcached (heq ▸ hc)
    exact AList.lookup_insert_ne hne

theorem beside_dispatchToConvo {other : String} (hne : convoId ≠ other) (payload : Bytes) :
    (dispatchToConvo other payload).Keeps (Beside (P := P) convoId) :=
  (beside_onConvo (sameFixed_handlePayload payload) hne).bind fun _ ↦ Call.keeps_pure _

theorem beside_dispatchToInbox (payload : Bytes) :
    (dispatchToInbox payload).Keeps (Beside (P := P) convoId) := by
  refine (beside_onServices (InboxV2.sameFixed_handleFrame payload)).bind fun received ↦ ?_
  split
  · exact Call.keeps_pure _
  · exact (beside_registerConvo _).bind fun _ ↦ Call.keeps_pure _

/-- A payload for another conversation, or for the inbox, leaves this one alone. -/
theorem beside_handlePayload {data : Bytes} (h : hintOf P data ≠ some convoId) :
    (Core.handlePayload data).Keeps (Beside (P := P) convoId) := by
  refine Call.keeps_ofResult_bind fun env henv ↦ ?_
  have hne : convoId ≠ env.conversationHint := by
    rintro rfl
    rw [orErr_eq_ok] at henv
    rw [hintOf, henv] at h
    exact h rfl
  have hstored : (ServiceContext.onStore (ConversationStore.hasConversation env.conversationHint)).Keeps
      (SameFixed (P := P)) := fun _ ↦ rfl
  refine (Call.keeps_read _).bind fun c ↦ ?_
  split
  · exact beside_dispatchToInbox env.payload
  split
  · exact beside_dispatchToConvo hne env.payload
  · refine (beside_onServices hstored.mapErr).bind fun stored ↦ ?_
    split
    · exact beside_dispatchToConvo hne env.payload
    · exact Call.keeps_pure _

end Core

end LogosChat.Conversations
