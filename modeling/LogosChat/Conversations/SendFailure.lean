import LogosChat.Conversations.GroupV1Commits
import LogosChat.Conversations.GroupV2Delivery
import LogosChat.Conversations.LamportClock

/-!
# A send that fails

`sendContent` builds the reliability envelope first, which enters the message into the causal history,
and only then encrypts and publishes it.  Nothing takes the entry back when one of these steps fails.
-/

namespace LogosChat.Conversations

open Reasoning

variable {P : Platform} {C : Type} {s t : InSession P C}

/-- Clock, seen set, frontier and own set of two states agree. -/
structure SameHistory (a b : ConvoState) : Prop where
  lamportClock : b.lamportClock = a.lamportClock
  seen : b.seen = a.seen
  frontiers : b.frontiers = a.frontiers
  own : b.own = a.own

/-- When the call fails and has published nothing, the history of the conversation is as before. -/
def FailureForgets (convoId : String) (call : Call (InSession P C) ChatError String)
    (s : InSession P C) : Prop :=
  ∀ e t, call s = (.err e, t) → t.cx.ds.published = s.cx.ds.published →
    SameHistory (s.cx.causal.convos convoId) (t.cx.causal.convos convoId)

theorem FailureForgets.congr {convoId : String} {call call' : Call (InSession P C) ChatError String}
    {s : InSession P C} (h : call s = call' s) :
    FailureForgets convoId call s ↔ FailureForgets convoId call' s := by
  unfold FailureForgets
  rw [h]

/-- The envelope that the message would travel in. -/
def Enveloped (convoId : String) (content : Bytes) (cx : ServiceContext P) (reliable : ReliablePayload)
    (causal : CausalHistoryStore) : Prop :=
  cx.causal.onSend P.build convoId cx.self.signer content = .ok (reliable, causal)

theorem tick_ne {B : Build} {clock clock' : Int32} (h : tick B clock = .ok clock') : clock' ≠ clock := by
  unfold tick at h
  split at h
  · cases h
  · cases h
    grind

/-- Building an envelope always changes the history. -/
theorem Enveloped.not_sameHistory {convoId : String} {content : Bytes} {cx : ServiceContext P}
    {reliable : ReliablePayload} {causal : CausalHistoryStore}
    (h : Enveloped convoId content cx reliable causal) :
    ¬ SameHistory (cx.causal.convos convoId) (causal.convos convoId) := by
  intro hsame
  obtain ⟨htick, hclock⟩ := CausalHistoryStore.onSend_clock h
  have hafter : causal.clock convoId = reliable.lamportTimestamp := by
    rw [hclock, Function.update_self]
  exact tick_ne htick (hafter.symm.trans hsame.lamportClock)

theorem onSend_of_enveloped {convoId : String} {content : Bytes} {cx : ServiceContext P}
    {reliable : ReliablePayload} {causal : CausalHistoryStore}
    (h : Enveloped convoId content cx reliable causal) :
    (ServiceContext.onSend convoId content : Call (ServiceContext P) ChatError _) cx =
      (.ok reliable, { cx with causal := causal }) := by
  rw [ServiceContext.onSend, h]

/-- Every send starts with its envelope: whatever fails behind it must have published something for
the history to be right. -/
theorem failureForgets_iff {convoId : String} {content : Bytes}
    {rest : ReliablePayload → Call (InSession P C) ChatError String}
    (hkeeps : ∀ reliable, (rest reliable).Keeps (Call.Same (·.cx.causal))) (s : InSession P C) :
    FailureForgets convoId (InSession.onCx (ServiceContext.onSend convoId content) >>= rest) s ↔
      ∀ reliable causal, Enveloped convoId content s.cx reliable causal →
        ∀ e t, rest reliable { s with cx := { s.cx with causal := causal } } = (.err e, t) →
          t.cx.ds.published ≠ s.cx.ds.published := by
  cases henvelope : s.cx.causal.onSend P.build convoId s.cx.self.signer content with
  | err e => exact nomatch e
  | panic =>
      have hpanic : (InSession.onCx (ServiceContext.onSend convoId content) :
          Call (InSession P C) ChatError _) s = (.panic, s) := by
        apply InSession.onCx_of_eq
        rw [ServiceContext.onSend, henvelope]
      constructor
      · intro _ reliable causal henv
        rw [Enveloped, henvelope] at henv
        cases henv
      · intro _ e t hcall
        rw [Call.bind_of_panic hpanic] at hcall
        cases hcall
  | ok made =>
      obtain ⟨reliable, causal⟩ := made
      have hcall := Call.bind_of_ok (f := rest) (InSession.onCx_of_eq (onSend_of_enveloped henvelope))
      constructor
      · intro hforgets reliable' causal' henv e t hrest hpublished
        rw [Enveloped, henvelope] at henv
        cases henv
        have hcausal : t.cx.causal = causal := (hkeeps reliable).of_eq hrest
        have hsame := hforgets e t (hcall.trans hrest) hpublished
        rw [hcausal] at hsame
        exact Enveloped.not_sameHistory henvelope hsame
      · intro hpublishes e t hfails hpublished
        rw [hcall] at hfails
        exact absurd hpublished (hpublishes reliable causal henvelope e t hfails)

/-! ## GroupV1 -/

namespace GroupV1

/-- A message in its envelope can be encrypted, serialised and published. -/
def Sendable (s : InSession P (GroupV1Convo P)) (reliable : ReliablePayload) : Prop :=
  (∃ message secrets msgBytes,
    P.mls.createMessage (groupOf s) (P.proto.encodeReliable reliable) = .ok (message, secrets) ∧
    P.mls.toBytes message = .ok msgBytes) ∧ s.cx.ds.Accepts 1

/-- `sendContent` once the envelope is built. -/
def sendEnveloped (reliable : ReliablePayload) : Call (InSession P (GroupV1Convo P)) ChatError String := do
  let message ← (onGroup (MlsGroup.createMessage P.mls (P.proto.encodeReliable reliable))).mapErr .generic
  let msgBytes ← Call.ofResult (orErr .mlsMessageError (P.mls.toBytes message))
  sendPayload msgBytes
  pure reliable.messageId

theorem sendContent_eq (content : Bytes) (s : InSession P (GroupV1Convo P)) : sendContent content s =
    (InSession.onCx (ServiceContext.onSend s.convo.convoId content) >>= sendEnveloped) s := rfl

theorem sendEnveloped_keeps (reliable : ReliablePayload) :
    (sendEnveloped reliable : Call (InSession P (GroupV1Convo P)) _ _).Keeps
      (Call.Same (·.cx.causal)) := by
  refine Call.Keeps.bind (fun _ ↦ rfl) fun _ ↦ ?_
  refine (Call.keeps_ofResult _).bind fun _ ↦ ?_
  exact Call.Keeps.bind (fun _ ↦ rfl) fun _ ↦ Call.keeps_pure _

theorem sendEnveloped_publishes_iff (reliable : ReliablePayload) (s : InSession P (GroupV1Convo P)) :
    (∀ e t, sendEnveloped reliable s = (.err e, t) → t.cx.ds.published ≠ s.cx.ds.published) ↔
      Sendable s reliable := by
  rcases hcreate : P.mls.createMessage (groupOf s) (P.proto.encodeReliable reliable) with
    e | ⟨message, secrets⟩
  · have hfailed : sendEnveloped reliable s = _ := Call.bind_of_err
      (Call.mapErr_of_err (onGroup_of_eq (MlsGroup.createMessage_of_error hcreate)))
    refine iff_of_false (fun h ↦ h _ _ hfailed rfl) fun h ↦ ?_
    obtain ⟨_, _, _, hok, -⟩ := h.1
    rw [hcreate] at hok
    cases hok
  have hcreated : sendEnveloped reliable s = _ := Call.bind_of_ok
    (Call.mapErr_of_ok (onGroup_of_eq (MlsGroup.createMessage_of_ok hcreate)))
  cases hbytes : P.mls.toBytes message with
  | error e =>
      rw [hbytes] at hcreated
      refine iff_of_false (fun h ↦ h _ _ hcreated rfl) fun h ↦ ?_
      obtain ⟨_, _, _, hok, hbytes'⟩ := h.1
      rw [hcreate] at hok
      cases hok
      rw [hbytes] at hbytes'
      cases hbytes'
  | ok msgBytes =>
      rw [hbytes] at hcreated
      have hsending : sendEnveloped reliable s =
          (sendPayload msgBytes >>= fun _ ↦ pure reliable.messageId)
            { s with convo := { s.convo with mlsGroup := { groupOf s with secrets := secrets } } } :=
        hcreated
      have hsends := sends_sendPayload msgBytes
        { s with convo := { s.convo with mlsGroup := { groupOf s with secrets := secrets } } }
      by_cases haccepts : s.cx.ds.Accepts 1
      · obtain ⟨_, t, hsent, -⟩ := hsends.accepted haccepts
        refine iff_of_true (fun e u hfails ↦ ?_) ⟨⟨message, secrets, msgBytes, hcreate, hbytes⟩, haccepts⟩
        rw [hsending, Call.bind_of_ok hsent] at hfails
        cases hfails
      · obtain ⟨e, t, k, hsent, hk, -, hds⟩ := hsends.refused haccepts
        refine iff_of_false (fun h ↦ ?_) fun h ↦ haccepts h.2
        refine h e t (by rw [hsending, Call.bind_of_err hsent]) ?_
        have hzero : k = 0 := by simpa using hk
        rw [hds, hzero]
        simp

end GroupV1

/-! ## GroupV2 -/

namespace GroupV2

/-- de-mls takes a message in its envelope, and the first send that is due then, if any, is accepted. -/
def Sendable (s : InSession P (GroupV2Convo P)) (reliable : ReliablePayload) : Prop :=
  ∃ turn, P.demls.sendMessage s.convo.conversation.core (P.proto.encodeReliable reliable) = (.ok (), turn) ∧
    (due { s with convo := { s.convo with conversation := s.convo.conversation.queued turn } } = [] ∨
      s.cx.ds.Accepts 1)

/-- `sendContent` once the envelope is built. -/
def sendEnveloped (reliable : ReliablePayload) : Call (InSession P (GroupV2Convo P)) ChatError String := do
  (onConversation (Conversation.sendMessage (P.proto.encodeReliable reliable))).mapErr .deMlsError
  let _ ← afterOp
  pure reliable.messageId

theorem sendContent_eq (content : Bytes) (s : InSession P (GroupV2Convo P)) : sendContent content s =
    (InSession.onCx (ServiceContext.onSend s.convo.convoId content) >>= sendEnveloped) s := rfl

theorem afterOp_causal : (afterOp : Call (InSession P (GroupV2Convo P)) _ _).Keeps
    (Call.Same (·.cx.causal)) := by
  intro s
  have hcausal : (afterOp s).2.cx.causal = s.cx.causal :=
    congrArg (fun a ↦ a.2.2.causal) (afterOp_unarmed s)
  exact hcausal

theorem sendEnveloped_keeps (reliable : ReliablePayload) :
    (sendEnveloped reliable : Call (InSession P (GroupV2Convo P)) _ _).Keeps
      (Call.Same (·.cx.causal)) := by
  refine Call.Keeps.bind (fun _ ↦ rfl) fun _ ↦ ?_
  exact afterOp_causal.bind fun _ ↦ Call.keeps_pure _

theorem sendEnveloped_publishes_iff (reliable : ReliablePayload) (s : InSession P (GroupV2Convo P)) :
    (∀ e t, sendEnveloped reliable s = (.err e, t) → t.cx.ds.published ≠ s.cx.ds.published) ↔
      Sendable s reliable := by
  rcases hsend : P.demls.sendMessage s.convo.conversation.core (P.proto.encodeReliable reliable) with
    ⟨e | _, turn⟩
  · have hfailed : sendEnveloped reliable s = _ := Call.bind_of_err
      (Call.mapErr_of_err (Call.on_of_eq (Conversation.turn_of_error hsend)))
    refine iff_of_false (fun h ↦ h _ _ hfailed rfl) fun ⟨_, hok, _⟩ ↦ ?_
    rw [hsend] at hok
    cases hok
  have hsent : sendEnveloped reliable s = (afterOp >>= fun _ ↦ pure reliable.messageId)
      { s with convo := { s.convo with conversation := s.convo.conversation.queued turn } } :=
    Call.bind_of_ok (Call.mapErr_of_ok (Call.on_of_eq (Conversation.turn_of_ok hsend)))
  have hsends := sends_afterOp
    { s with convo := { s.convo with conversation := s.convo.conversation.queued turn } }
  by_cases hnone : due { s with convo := { s.convo with
      conversation := s.convo.conversation.queued turn } } = []
  · obtain ⟨_, t, hdrain, -⟩ := hsends.accepted (by rw [hnone]; exact fun _ hk ↦ by simp at hk)
    refine iff_of_true (fun e u hfails ↦ ?_) ⟨turn, hsend, .inl hnone⟩
    rw [hsent, Call.bind_of_ok hdrain] at hfails
    cases hfails
  have hpos := List.length_pos_of_ne_nil hnone
  by_cases hfirst : s.cx.ds.Accepts 1
  · refine iff_of_true (fun e t hfails hpublished ↦ ?_) ⟨turn, hsend, .inr hfirst⟩
    obtain ⟨_, u, hdrain, -⟩ | ⟨e', u, k, hdrain, hk, hat, hds⟩ := hsends.outcome
    · rw [hsent, Call.bind_of_ok hdrain] at hfails
      cases hfails
    · -- the refused send was not the first
      rw [hsent, Call.bind_of_err hdrain] at hfails
      cases hfails
      rw [hds, DeliveryService.refused_published, DeliveryService.delivered_published,
        List.append_right_eq_self, List.take_eq_nil_iff] at hpublished
      obtain hzero | hdue := hpublished
      · rw [hzero] at hat
        exact hat.2 hfirst
      · exact hnone hdue
  · obtain ⟨e, t, k, hdrain, hk, hat, hds⟩ := hsends.refused fun haccepts ↦ hfirst (haccepts.mono hpos)
    refine iff_of_false (fun h ↦ ?_) fun ⟨turn', hok, hdue⟩ ↦ ?_
    · refine h e t (by rw [hsent, Call.bind_of_err hdrain]) ?_
      have hzero : k = 0 := by
        by_contra hne
        exact hfirst (hat.1.mono (by omega))
      rw [hds, hzero]
      simp
    · rw [hsend] at hok
      cases hok
      exact hdue.elim hnone hfirst

end GroupV2

/-- When `sendContent` fails with nothing published, the history is as before exactly when it cannot
fail so: once the envelope is built, the message can be encrypted, serialised and sent. -/
theorem failed_send_forgets_iff (content : Bytes) (s₁ : InSession P (GroupV1Convo P))
    (s₂ : InSession P (GroupV2Convo P)) :
    (FailureForgets s₁.convo.convoId (GroupV1.sendContent content) s₁ ↔
      ∀ reliable causal, Enveloped s₁.convo.convoId content s₁.cx reliable causal →
        GroupV1.Sendable s₁ reliable) ∧
    (FailureForgets s₂.convo.convoId (GroupV2.sendContent content) s₂ ↔
      ∀ reliable causal, Enveloped s₂.convo.convoId content s₂.cx reliable causal →
        GroupV2.Sendable s₂ reliable) := by
  constructor
  · rw [FailureForgets.congr (GroupV1.sendContent_eq content s₁),
      failureForgets_iff GroupV1.sendEnveloped_keeps]
    refine forall_congr' fun reliable ↦ forall_congr' fun causal ↦ forall_congr' fun _ ↦ ?_
    exact GroupV1.sendEnveloped_publishes_iff reliable { s₁ with cx := { s₁.cx with causal := causal } }
  · rw [FailureForgets.congr (GroupV2.sendContent_eq content s₂),
      failureForgets_iff GroupV2.sendEnveloped_keeps]
    refine forall_congr' fun reliable ↦ forall_congr' fun causal ↦ forall_congr' fun _ ↦ ?_
    exact GroupV2.sendEnveloped_publishes_iff reliable { s₂ with cx := { s₂.cx with causal := causal } }

namespace Sample

/-- de-mls takes no message. -/
abbrev muted : Platform :=
  { Sample.platform with demls := { Sample.demls with
      sendMessage := fun roster _ ↦ (.error (.other "not a member"), { core := roster }) } }

def mutedConvo : InSession muted (GroupV2Convo muted) where
  convo := { convoId := "", conversation := { core := [] } }
  cx := Sample.services _

end Sample

/-- The call fails with nothing published, and the next message refers to its message all the same. -/
def RefersToFailed (call : Call (InSession P C) ChatError String) (s : InSession P C) : Prop :=
  ∃ failed causal e t next causal', Enveloped "" [7] s.cx failed causal ∧ call s = (.err e, t) ∧
    t.cx.ds.published = [] ∧ ¬ SameHistory (s.cx.causal.convos "") (t.cx.causal.convos "") ∧
    Enveloped "" [8] t.cx next causal' ∧ next.causalHistory = [⟨failed.messageId, failed.senderId, []⟩]

/-- A send that the delivery service or de-mls refuses stays in the history. -/
theorem failed_send_is_referenced :
    RefersToFailed (GroupV1.sendContent [7]) GroupV1.pairOffline ∧
      RefersToFailed (GroupV2.sendContent [7]) Sample.mutedConvo := by
  constructor
  · refine ⟨_, _, _, _, _, _, rfl, rfl, rfl, fun h ↦ ?_, rfl, rfl⟩
    exact absurd h.lamportClock (by decide)
  · refine ⟨_, _, _, _, _, _, rfl, rfl, rfl, fun h ↦ ?_, rfl, rfl⟩
    exact absurd h.lamportClock (by decide)

end LogosChat.Conversations
