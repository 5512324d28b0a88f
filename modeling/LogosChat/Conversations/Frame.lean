import LogosChat.Conversations.Core
import LogosChat.Conversations.GroupV2Delivery

/-!
# What a conversation leaves alone

Sending, receiving, waking up and removing members touch neither the store nor the registry, and
hand no package to MLS.  They publish; but an invite only ever goes to a joiner whose invite was
outstanding.
-/

namespace LogosChat.Conversations

open Reasoning

variable {P : Platform} {C ε α : Type}

/-! ## On the services -/

/-- All but what is sent, remembered of messages, armed and drawn. -/
def ServiceContext.apart (cx : ServiceContext P) : ServiceContext P :=
  { cx with ds := { answers := cx.ds.answers }, causal := {}, wakeups := [], draws := 0 }

/-- Every invite among these is for a signer that is allowed one. -/
def InvitesOnly (P : Platform) (allowed : SignerKey → Prop) (envelopes : List AddressedEnvelope) : Prop :=
  ∀ envelope ∈ envelopes, ∀ invite, envelope.payload = .invite invite →
    ∃ signer, allowed signer ∧ envelope = inviteEnvelope P signer invite

/-- From `cx` to `cx'` only messages were sent, and invites only to those allowed. -/
structure Publishes (allowed : SignerKey → Prop) (cx cx' : ServiceContext P) : Prop where
  apart : cx'.apart = cx.apart
  published : ∃ sent, cx'.ds.published = cx.ds.published ++ sent ∧ InvitesOnly P allowed sent

variable {allowed : SignerKey → Prop} {cx cx' : ServiceContext P}

theorem InvitesOnly.append {xs ys : List AddressedEnvelope} (hxs : InvitesOnly P allowed xs)
    (hys : InvitesOnly P allowed ys) : InvitesOnly P allowed (xs ++ ys) := by
  intro envelope hmem
  obtain hmem | hmem := List.mem_append.mp hmem
  · exact hxs envelope hmem
  · exact hys envelope hmem

theorem InvitesOnly.trans {before between after : List AddressedEnvelope}
    (h : ∃ sent, between = before ++ sent ∧ InvitesOnly P allowed sent)
    (h' : ∃ sent, after = between ++ sent ∧ InvitesOnly P allowed sent) :
    ∃ sent, after = before ++ sent ∧ InvitesOnly P allowed sent := by
  obtain ⟨xs, hxs, hallowed⟩ := h
  obtain ⟨ys, hys, hallowed'⟩ := h'
  refine ⟨xs ++ ys, ?_, hallowed.append hallowed'⟩
  rw [hys, hxs, List.append_assoc]

theorem InvitesOnly.subset {xs ys : List AddressedEnvelope} (hys : InvitesOnly P allowed ys)
    (h : xs ⊆ ys) : InvitesOnly P allowed xs :=
  fun envelope hmem ↦ hys envelope (h hmem)

theorem InvitesOnly.mono {allowed' : SignerKey → Prop} {xs : List AddressedEnvelope}
    (hxs : InvitesOnly P allowed xs) (h : ∀ signer, allowed signer → allowed' signer) :
    InvitesOnly P allowed' xs := by
  intro envelope hmem invite hinvite
  obtain ⟨signer, hallowed, heq⟩ := hxs envelope hmem invite hinvite
  exact ⟨signer, h signer hallowed, heq⟩

theorem invitesOnly_nil : InvitesOnly P allowed [] := nofun

theorem invitesOnly_invite {signer : SignerKey} (h : allowed signer) (invite : InviteType) :
    InvitesOnly P allowed [inviteEnvelope P signer invite] := by
  intro envelope hmem invite' hinvite
  rw [List.mem_singleton.mp hmem] at hinvite
  cases hinvite
  exact ⟨signer, h, List.mem_singleton.mp hmem⟩

-- a message of a conversation
theorem invitesOnly_message {envelope : AddressedEnvelope}
    (h : ∀ invite, envelope.payload ≠ .invite invite) : InvitesOnly P allowed [envelope] := by
  intro envelope' hmem invite hinvite
  rw [List.mem_singleton.mp hmem] at hinvite
  exact absurd hinvite (h invite)

theorem apart_of_ds {ds : DeliveryService} (h : ds.answers = cx.ds.answers) :
    { cx with ds := ds }.apart = cx.apart := by
  unfold ServiceContext.apart
  rw [h]

theorem Publishes.of_same (hapart : cx'.apart = cx.apart)
    (hpublished : cx'.ds.published = cx.ds.published) : Publishes allowed cx cx' :=
  ⟨hapart, [], by rw [hpublished, List.append_nil], invitesOnly_nil⟩

instance (allowed : SignerKey → Prop) : IsPreorder (ServiceContext P) (Publishes allowed) where
  refl _ := .of_same rfl rfl
  trans _ _ _ hab hbc :=
    ⟨hbc.apart.trans hab.apart, InvitesOnly.trans hab.published hbc.published⟩

/-- From `cx` to `cx'` nothing was asked for or handed over, and invites went only to those
allowed. -/
structure Mails (allowed : SignerKey → Prop) (cx cx' : ServiceContext P) : Prop where
  asked : cx'.registry.asked = cx.registry.asked
  handed : cx'.handed = cx.handed
  published : ∃ sent, cx'.ds.published = cx.ds.published ++ sent ∧ InvitesOnly P allowed sent

instance (allowed : SignerKey → Prop) : IsPreorder (ServiceContext P) (Mails allowed) where
  refl _ := ⟨rfl, rfl, [], (List.append_nil _).symm, invitesOnly_nil⟩
  trans _ _ _ hab hbc :=
    { asked := hbc.asked.trans hab.asked
      handed := hbc.handed.trans hab.handed
      published := InvitesOnly.trans hab.published hbc.published }

theorem Publishes.mails (h : Publishes allowed cx cx') : Mails allowed cx cx' := by
  have hasked := congrArg (·.registry.asked) h.apart
  have hhanded := congrArg (·.handed) h.apart
  exact ⟨hasked, hhanded, h.published⟩

theorem keeps_publish {envelope : AddressedEnvelope} (h : InvitesOnly P allowed [envelope]) :
    (ServiceContext.publish envelope : Call (ServiceContext P) _ _).Keeps (Publishes allowed) := by
  intro cx
  obtain ⟨k, hpublished⟩ := (sends_publish envelope cx).published
  refine ⟨apart_of_ds ?_, [envelope].take k, hpublished, h.subset (List.take_subset k [envelope])⟩
  exact DeliveryService.publish_answers envelope cx.ds

theorem keeps_subscribe : (ServiceContext.subscribe : Call (ServiceContext P) _ _).Keeps
    (Publishes allowed) := by
  intro cx
  refine Publishes.of_same (apart_of_ds (DeliveryService.subscribe_answers cx.ds)) ?_
  show (DeliveryService.subscribe cx.ds).2.published = cx.ds.published
  unfold DeliveryService.subscribe
  split <;> rfl

theorem keeps_draw : (ServiceContext.draw : Call (ServiceContext P) ε _).Keeps (Publishes allowed) :=
  fun _ ↦ .of_same rfl rfl

theorem keeps_wakeupIn (duration : Nat) (convoId : String) :
    (ServiceContext.wakeupIn duration convoId : Call (ServiceContext P) ε _).Keeps
      (Publishes allowed) :=
  fun _ ↦ .of_same rfl rfl

theorem keeps_onSend (convoId : String) (content : Bytes) :
    (ServiceContext.onSend convoId content : Call (ServiceContext P) ε _).Keeps
      (Publishes allowed) := by
  intro cx
  unfold ServiceContext.onSend
  split
  · exact .of_same rfl rfl
  · exact .of_same rfl rfl

theorem keeps_onReceive (convoId : String) (payload : ReliablePayload) :
    (ServiceContext.onReceive convoId payload : Call (ServiceContext P) ε _).Keeps
      (Publishes allowed) :=
  fun _ ↦ .of_same rfl rfl

/-! ## In a conversation -/

/-- When every invite outstanding before is allowed, so is every one after, and every one sent. -/
def Minds (outstanding : C → SignerKey → Prop) (allowed : SignerKey → Prop) (s t : InSession P C) : Prop :=
  (∀ signer, outstanding s.convo signer → allowed signer) →
    (∀ signer, outstanding t.convo signer → allowed signer) ∧ Publishes allowed s.cx t.cx

variable {outstanding : C → SignerKey → Prop}

instance (outstanding : C → SignerKey → Prop) (allowed : SignerKey → Prop) :
    IsPreorder (InSession P C) (Minds outstanding allowed) where
  refl s h := ⟨h, refl s.cx⟩
  trans _ _ _ hab hbc h :=
    have hb := hab h
    have hc := hbc hb.1
    ⟨hc.1, IsTrans.trans _ _ _ hb.2 hc.2⟩

theorem minds_onCx {m : Call (ServiceContext P) ε α} (h : m.Keeps (Publishes allowed)) :
    (InSession.onCx m : Call (InSession P C) ε α).Keeps (Minds outstanding allowed) :=
  fun s hs ↦ ⟨hs, h s.cx⟩

/-- A step that leaves the services alone and no new invite outstanding. -/
theorem Minds.of_convo {s t : InSession P C} (hcx : t.cx = s.cx)
    (h : ∀ signer, outstanding t.convo signer → outstanding s.convo signer) :
    Minds outstanding allowed s t := by
  intro hs
  rw [hcx]
  exact ⟨fun signer hsigner ↦ hs signer (h signer hsigner), refl s.cx⟩

-- the kinds that invite within one call
abbrev nobody : C → SignerKey → Prop := fun _ _ ↦ False

/-! ### GroupV1 -/

namespace GroupV1

theorem minds_onGroup (m : Call (MlsGroup P.mls.Secrets) ε α) :
    (onGroup m).Keeps (Minds (P := P) nobody allowed) :=
  fun _ ↦ .of_convo rfl fun _ h ↦ h

theorem minds_sendPayload (msgBytes : Bytes) :
    (sendPayload msgBytes).Keeps (Minds (P := P) nobody allowed) := by
  intro s hs
  have hmessage : InvitesOnly P allowed [payloadEnvelope s.convo msgBytes] :=
    invitesOnly_message fun _ ↦ nofun
  exact ⟨hs, (keeps_publish hmessage).mapErr (g := ChatError.delivery) s.cx⟩

theorem minds_sendContent (content : Bytes) :
    (sendContent content).Keeps (Minds (P := P) nobody allowed) := by
  refine (Call.keeps_read _).bind fun convoId ↦ ?_
  refine (minds_onCx (keeps_onSend convoId content)).bind fun reliable ↦ ?_
  refine (minds_onGroup _).mapErr.bind fun message ↦ ?_
  refine (Call.keeps_ofResult _).bind fun msgBytes ↦ ?_
  exact (minds_sendPayload msgBytes).bind fun _ ↦ Call.keeps_pure _

section Inbound

variable {R : InSession P (GroupV1Convo P) → InSession P (GroupV1Convo P) → Prop} [IsPreorder _ R]
  (hprocess : ∀ message, (onGroup (MlsGroup.processMessage P.mls message)).Keeps R)
  (hmerge : ∀ commit, (onGroup (MlsGroup.mergeStagedCommit P.mls commit)).Keeps R)
  (hreceive : ∀ convoId reliable, Call.Keeps R (InSession.onCx
    (ServiceContext.onReceive convoId reliable) : Call (InSession P (GroupV1Convo P)) ChatError Unit))

include hreceive in
theorem keeps_readContent (convoId : String) (sender : Option GroupMember) (bytes : Bytes) :
    (readContent convoId sender bytes).Keeps R := by
  refine (Call.keeps_ofResult _).bind fun reliable ↦ ?_
  refine (hreceive convoId reliable).bind fun _ ↦ ?_
  exact (Call.keeps_read _).bind fun _ ↦ Call.keeps_pure _

include hprocess hmerge hreceive in
/-- What processing a message, merging a commit and a reception keep, an inbound payload keeps. -/
theorem keeps_handlePayload (payload : Bytes) : (handlePayload payload).Keeps R := by
  refine (Call.keeps_ofResult _).bind fun encrypted ↦ ?_
  cases encrypted with
  | other => exact Call.keeps_fail _
  | plaintext bytes =>
      refine (Call.keeps_read _).bind fun convo ↦ ?_
      split
      · exact Call.keeps_pure _
      split
      · exact Call.keeps_pure _
      refine (Call.keeps_ofResult _).bind fun message ↦ ?_
      split
      · exact Call.keeps_pure _
      refine (hprocess message).mapErr.bind fun ⟨sender, content⟩ ↦ ?_
      cases content with
      | applicationMessage bytes => exact keeps_readContent hreceive _ _ bytes
      | stagedCommitMessage commit => exact (hmerge commit).mapErr.bind fun _ ↦ Call.keeps_pure _
      | other => exact Call.keeps_pure _

end Inbound

theorem minds_handlePayload (payload : Bytes) :
    (handlePayload payload).Keeps (Minds (P := P) nobody allowed) :=
  keeps_handlePayload (fun _ ↦ minds_onGroup _) (fun _ ↦ minds_onGroup _)
    (fun _ _ ↦ minds_onCx (keeps_onReceive _ _)) payload

theorem minds_removeSigner (members : List SignerKey) :
    (removeSigner members).Keeps (Minds (P := P) nobody allowed) := by
  refine (Call.keeps_read _).bind fun group ↦ ?_
  dsimp only
  split
  · exact Call.keeps_fail _
  split
  · exact Call.keeps_fail _
  refine (minds_onGroup _).mapErr.bind fun commit ↦ ?_
  refine (minds_onGroup _).mapErr.bind fun _ ↦ ?_
  exact (Call.keeps_ofResult _).bind fun msgBytes ↦ minds_sendPayload msgBytes

theorem keeps_load (convoId : String) (groupId : Bytes) :
    (load convoId groupId).Keeps (Publishes (P := P) allowed) := by
  refine (Call.keeps_read _).bind fun stored ↦ ?_
  split
  · exact Call.keeps_fail _
  · exact Call.keeps_fail _
  · exact keeps_subscribe.mapErr.bind fun _ ↦ Call.keeps_pure _

theorem keeps_new : (new : Call (ServiceContext P) _ _).Keeps (Publishes allowed) := by
  refine keeps_draw.bind fun n ↦ ?_
  refine (Call.keeps_read _).bind fun self ↦ ?_
  refine (Call.keeps_ofResult _).bind fun _ ↦ ?_
  exact keeps_subscribe.mapErr.bind fun _ ↦ Call.keeps_pure _

theorem keeps_newFromWelcome (welcome : Bytes) :
    (newFromWelcome welcome).Keeps (Publishes (P := P) allowed) := by
  refine keeps_draw.bind fun n ↦ ?_
  refine (Call.keeps_ofResult _).bind fun _ ↦ ?_
  exact keeps_subscribe.mapErr.bind fun _ ↦ Call.keeps_pure _

/-- The welcomes go to the members announced. -/
theorem minds_announce {members : List SignerKey} (h : ∀ signer ∈ members, allowed signer)
    (commit welcome : P.mls.MlsMessageOut) :
    (announce members commit welcome).Keeps (Minds nobody allowed) := by
  refine Call.Keeps.bind (Call.Keeps.each fun signer hsigner ↦ ?_) fun _ ↦ ?_
  · apply minds_onCx
    refine (Call.keeps_ofResult _).bind fun welcomeBytes ↦ ?_
    exact (keeps_publish (invitesOnly_invite (h signer hsigner) _)).mapErr
  · exact (Call.keeps_ofResult _).bind fun msgBytes ↦ minds_sendPayload msgBytes

end GroupV1

/-! ### GroupV2 -/

namespace GroupV2

/-- The invite of this signer is pending. -/
def Outstanding (convo : GroupV2Convo P) (signer : SignerKey) : Prop :=
  (convo.pendingInvites signer.bytes).isSome

theorem Outstanding.of_withdrawn {convo : GroupV2Convo P} {joiner : Bytes} {signer : SignerKey}
    (h : Outstanding (setPending joiner none convo) signer) : Outstanding convo signer := by
  have hsome : (Function.update convo.pendingInvites joiner none signer.bytes).isSome := h
  by_cases hsame : signer.bytes = joiner
  · rw [hsame, Function.update_self] at hsome
    cases hsome
  · rwa [Function.update_of_ne hsame] at hsome

theorem minds_onConversation (m : Call (Conversation P.demls) ε α) :
    (onConversation m).Keeps (Minds (P := P) Outstanding allowed) :=
  fun _ ↦ .of_convo rfl fun _ h ↦ h

theorem minds_routeWelcome (welcome : MemberWelcome) (joiner : Bytes) :
    (routeWelcome welcome joiner).Keeps (Minds (P := P) Outstanding allowed) := by
  intro s hs
  by_cases hpending : (s.convo.pendingInvites joiner).isSome
  · rw [routeWelcome_of_pending hpending]
    have hinvite : InvitesOnly P allowed [inviteEnvelope P ⟨joiner⟩ (.groupV2 welcome)] :=
      invitesOnly_invite (hs ⟨joiner⟩ hpending) _
    refine ⟨fun signer hsigner ↦ hs signer (Outstanding.of_withdrawn hsigner), ?_⟩
    exact (keeps_publish hinvite).mapErr (g := ChatError.generic) s.cx
  · rw [routeWelcome_of_not_pending hpending]
    exact ⟨hs, refl s.cx⟩

theorem minds_routeEvent (event : ConversationEvent) :
    (routeEvent event).Keeps (Minds (P := P) Outstanding allowed) := by
  cases event with
  | welcomeReady welcome => exact Call.Keeps.each fun joiner _ ↦ minds_routeWelcome welcome joiner
  | membersChanged added removed => exact fun _ ↦ .of_convo rfl fun _ h ↦ h
  | conversationMessage message sender => exact Call.keeps_pure ()
  | commitApplied => exact Call.keeps_pure ()
  | leaving => exact Call.keeps_pure ()
  | other => exact Call.keeps_pure ()

theorem minds_publishFrame (out : Outbound) :
    (publishFrame out).Keeps (Minds (P := P) Outstanding allowed) := by
  have hframe : InvitesOnly P allowed [frameEnvelope P out] := invitesOnly_message fun _ ↦ nofun
  exact (minds_onCx (keeps_publish hframe)).mapErr

theorem minds_rearm (wakeup : Option Nat) :
    (rearm wakeup).Keeps (Minds (P := P) Outstanding allowed) := by
  cases wakeup with
  | none => exact Call.keeps_pure ()
  | some duration => exact (Call.keeps_read _).bind fun convoId ↦ minds_onCx (keeps_wakeupIn _ _)

theorem minds_afterOp : afterOp.Keeps (Minds (P := P) Outstanding allowed) := by
  refine (minds_onConversation _).bind fun events ↦ ?_
  refine (minds_onConversation _).bind fun outbound ↦ ?_
  refine (Call.keeps_read _).bind fun wakeup ↦ ?_
  refine (Call.Keeps.each fun event _ ↦ minds_routeEvent event).bind fun _ ↦ ?_
  refine (Call.Keeps.each fun out _ ↦ minds_publishFrame out).bind fun _ ↦ ?_
  exact (minds_rearm wakeup).bind fun _ ↦ Call.keeps_pure _

/-- Both constructors end this way. -/
theorem minds_settle : (InSession.onCx subscribe >>= fun _ ↦ afterOp.void).Keeps
    (Minds (P := P) Outstanding allowed) :=
  (minds_onCx keeps_subscribe.mapErr).bind fun _ ↦ minds_afterOp.void

theorem keeps_settle {convo : GroupV2Convo P} (h : ∀ signer, Outstanding convo signer → allowed signer) :
    (settle convo).Keeps (Publishes allowed) := by
  intro cx
  unfold settle
  rw [InSession.constructing_snd]
  exact (minds_settle ⟨convo, cx⟩ h).2

theorem settle_outstanding {convo settled : GroupV2Convo P}
    (h : ∀ signer, Outstanding convo signer → allowed signer)
    (hok : settle convo cx = (.ok settled, cx')) (signer : SignerKey) (hout : Outstanding settled signer) :
    allowed signer :=
  ((minds_settle.of_eq (InSession.constructing_eq_ok hok)) h).1 signer hout

theorem keeps_newFromWelcome (welcome : MemberWelcome) :
    (newFromWelcome welcome).Keeps (Publishes (P := P) allowed) := by
  refine keeps_draw.bind fun n ↦ ?_
  refine (Call.keeps_ofResult _).bind fun joined ↦ ?_
  split
  · exact Call.keeps_fail _
  · exact keeps_settle nofun

theorem minds_sendContent (content : Bytes) :
    (sendContent content).Keeps (Minds (P := P) Outstanding allowed) := by
  refine (Call.keeps_read _).bind fun convoId ↦ ?_
  refine (minds_onCx (keeps_onSend convoId content)).bind fun reliable ↦ ?_
  refine (minds_onConversation _).mapErr.bind fun _ ↦ ?_
  exact minds_afterOp.bind fun _ ↦ Call.keeps_pure _

section Inbound

variable {R : InSession P (GroupV2Convo P) → InSession P (GroupV2Convo P) → Prop} [IsPreorder _ R]
  (hconversation : ∀ {ε α : Type} (m : Call (Conversation P.demls) ε α), (onConversation m).Keeps R)
  (hafter : afterOp.Keeps R)
  (hreceive : ∀ convoId reliable, Call.Keeps R (InSession.onCx
    (ServiceContext.onReceive convoId reliable) : Call (InSession P (GroupV2Convo P)) ChatError Unit))

include hreceive in
theorem keeps_outcomeFromEvents (events : List ConversationEvent) :
    (outcomeFromEvents events).Keeps R := by
  have hpost (message : Bytes) (sender : LeafNode) : (readPost message sender).Keeps R := by
    refine (Call.keeps_ofResult _).bind fun reliable ↦ (Call.keeps_read _).bind fun convoId ↦ ?_
    refine (hreceive convoId reliable).bind fun _ ↦ ?_
    exact (Call.keeps_read _).bind fun _ ↦ Call.keeps_pure _
  unfold outcomeFromEvents
  dsimp only
  split
  · exact (Call.keeps_pure none).bind fun _ ↦ (Call.keeps_read _).bind fun _ ↦ Call.keeps_pure _
  · exact (hpost _ _).bind fun _ ↦ (Call.keeps_read _).bind fun _ ↦ Call.keeps_pure _

include hconversation in
theorem keeps_feed (payload : Bytes) : (feed payload).Keeps R := by
  refine (Call.keeps_ofResult _).bind fun encrypted ↦ ?_
  cases encrypted with
  | other => exact Call.keeps_fail _
  | plaintext bytes =>
      refine (Call.keeps_read _).bind fun seated ↦ ?_
      split
      · exact Call.keeps_pure _
      refine (Call.keeps_ofResult _).bind fun frame ↦ ?_
      split
      · refine (hconversation _).mapErr.bind fun _ ↦ ?_
        exact (hconversation _).bind fun _ ↦ Call.keeps_pure _
      · exact Call.keeps_pure _

include hconversation hafter hreceive

/-- What a step of de-mls, a drain and a reception keep, an inbound payload keeps. -/
theorem keeps_handlePayload (payload : Bytes) : (handlePayload payload).Keeps R := by
  refine (keeps_feed hconversation payload).bind fun fed ↦ ?_
  split
  · exact hafter.bind fun ⟨events, _⟩ ↦ keeps_outcomeFromEvents hreceive events
  · exact Call.keeps_read _

theorem keeps_wakeup : wakeup.Keeps R := by
  refine (hconversation _).bind fun _ ↦ ?_
  exact hafter.bind fun ⟨events, _⟩ ↦ keeps_outcomeFromEvents hreceive events

end Inbound

theorem minds_handlePayload (payload : Bytes) :
    (handlePayload payload).Keeps (Minds (P := P) Outstanding allowed) :=
  keeps_handlePayload minds_onConversation minds_afterOp
    (fun _ _ ↦ minds_onCx (keeps_onReceive _ _)) payload

theorem minds_wakeup : wakeup.Keeps (Minds (P := P) Outstanding allowed) :=
  keeps_wakeup minds_onConversation minds_afterOp fun _ _ ↦ minds_onCx (keeps_onReceive _ _)

theorem minds_removeAll (targets : List MemberId) :
    (removeAll targets).Keeps (Minds (P := P) Outstanding allowed) := by
  induction targets with
  | nil => exact Call.keeps_pure _
  | cons target targets ih =>
      refine (minds_onConversation _).attempt.bind fun answer ↦ ?_
      split
      · exact ih
      · exact ih
      · exact Call.keeps_pure _

theorem minds_andFlush (result : Except ChatError Unit) :
    (andFlush result).Keeps (Minds (P := P) Outstanding allowed) := by
  refine minds_afterOp.attempt.bind fun flushed ↦ ?_
  split
  · exact Call.keeps_fail _
  · exact Call.keeps_fail _
  · exact Call.keeps_pure ()

theorem minds_removeSigner (members : List SignerKey) :
    (removeSigner members).Keeps (Minds (P := P) Outstanding allowed) := by
  refine (Call.keeps_read _).bind fun convo ↦ ?_
  dsimp only
  split
  · exact Call.keeps_fail _
  split
  · exact Call.keeps_fail _
  exact (minds_removeAll _).bind fun result ↦ minds_andFlush result

end GroupV2

/-! ### GroupV3 -/

namespace GroupV3

theorem minds_onGroup (m : Call (MlsGroup P.mls.Secrets) ε α) :
    (onGroup m).Keeps (Minds (P := P) nobody allowed) :=
  fun _ ↦ .of_convo rfl fun _ h ↦ h

theorem minds_publishEnvelope {envelope : AddressedEnvelope} (h : InvitesOnly P allowed [envelope]) :
    (publishEnvelope envelope).Keeps (Minds (P := P) nobody allowed) :=
  (minds_onCx (keeps_publish h)).mapErr

theorem toEnvelope_invitesOnly {convoId : String} {message : P.mls.MlsMessageOut}
    {envelope : AddressedEnvelope} (h : toEnvelope P convoId message = .ok envelope) :
    InvitesOnly P allowed [envelope] := by
  obtain ⟨payload, -, h⟩ := Result.bind_eq_ok.mp h
  cases h
  exact invitesOnly_message fun _ ↦ nofun

theorem minds_publishMlsMsg (message : P.mls.MlsMessageOut) :
    (publishMlsMsg message).Keeps (Minds nobody allowed) := by
  refine (Call.keeps_read _).bind fun convoId ↦ ?_
  exact Call.keeps_ofResult_bind fun envelope h ↦ minds_publishEnvelope (toEnvelope_invitesOnly h)

theorem minds_sendContent (content : Bytes) :
    (sendContent content).Keeps (Minds (P := P) nobody allowed) := by
  apply Call.Keeps.mapErr
  refine (minds_onGroup _).mapErr.bind fun message ↦ ?_
  exact (minds_publishMlsMsg message).bind fun _ ↦ Call.keeps_pure _

section Inbound

variable {R : InSession P (GroupV3Convo P) → InSession P (GroupV3Convo P) → Prop} [IsPreorder _ R]

theorem keeps_handleMlsCommit {commit : StagedCommit}
    (h : (onGroup (MlsGroup.mergeStagedCommit P.mls commit)).Keeps R) :
    (handleMlsCommit commit).Keeps R := by
  refine (Call.keeps_ofResult _).bind fun _ ↦ h.mapErr.bind fun _ ↦ ?_
  exact (Call.keeps_read _).bind fun _ ↦ Call.keeps_pure _

/-- What processing a message and a commit keep, an inbound payload keeps. -/
theorem keeps_handlePayload
    (hprocess : ∀ message, (onGroup (MlsGroup.processMessage P.mls message)).Keeps R)
    (hcommit : ∀ commit, (handleMlsCommit commit).Keeps R) (payload : Bytes) :
    (handlePayload payload).Keeps R := by
  refine (Call.keeps_ofResult _).bind fun payload ↦ (Call.keeps_ofResult _).bind fun message ↦ ?_
  refine (Call.keeps_read _).bind fun convo ↦ ?_
  split
  · exact Call.keeps_pure _
  refine (hprocess message).attempt.bind fun processed ↦ ?_
  split
  case h_1 sender content =>
    cases content with
    | applicationMessage bytes =>
        refine (Call.keeps_read _).bind fun author ↦ (Call.keeps_read _).bind fun _ ↦ ?_
        refine (Call.keeps_ofResult _).bind fun frame ↦ ?_
        split
        · exact Call.keeps_pure _
        · exact (Call.keeps_read _).bind fun _ ↦ Call.keeps_pure _
    | stagedCommitMessage commit => exact hcommit commit
    | other => exact Call.keeps_read _
  case h_2 => exact Call.keeps_pure _
  case h_3 => exact Call.keeps_fail _

end Inbound

theorem minds_handlePayload (payload : Bytes) :
    (handlePayload payload).Keeps (Minds (P := P) nobody allowed) :=
  keeps_handlePayload (fun _ ↦ minds_onGroup _) (fun _ ↦ keeps_handleMlsCommit (minds_onGroup _)) payload

/-- What depends on the commit is sent after it. -/
theorem minds_sendPendingCommit {dependent : List AddressedEnvelope}
    (h : InvitesOnly P allowed dependent) (commit : P.mls.MlsMessageOut) :
    (sendPendingCommit commit dependent).Keeps (Minds nobody allowed) := by
  refine (minds_publishMlsMsg commit).attempt.bind fun sent ↦ ?_
  split
  · exact (minds_onGroup _).attempt.bind fun _ ↦ Call.keeps_fail _
  · refine (minds_onGroup _).mapErr.bind fun _ ↦ Call.Keeps.each fun envelope henvelope ↦ ?_
    exact (minds_publishEnvelope (h.subset (by simpa using henvelope))).mapErr

theorem keeps_newGroup : (newGroup : Call (ServiceContext P) _ _).Keeps (Publishes allowed) := by
  refine keeps_draw.bind fun n ↦ ?_
  refine (Call.keeps_read _).bind fun self ↦ ?_
  refine (Call.keeps_ofResult _).bind fun _ ↦ ?_
  exact keeps_subscribe.mapErr.bind fun _ ↦ Call.keeps_pure _

theorem keeps_newFromWelcome (welcome : Bytes) :
    (newFromWelcome welcome).Keeps (Publishes (P := P) allowed) := by
  refine keeps_draw.bind fun n ↦ ?_
  refine (Call.keeps_ofResult _).bind fun _ ↦ ?_
  exact keeps_subscribe.mapErr.bind fun _ ↦ Call.keeps_pure _

end GroupV3

/-! ### Every kind -/

namespace GroupConvo

def Outstanding : GroupConvo P → SignerKey → Prop
  | .v1 _, _ => False
  | .v2 convo, signer => GroupV2.Outstanding convo signer
  | .v3 _, _ => False

theorem minds_dispatch {v1 : Call (InSession P (GroupV1Convo P)) ε α}
    {v2 : Call (InSession P (GroupV2Convo P)) ε α} {v3 : Call (InSession P (GroupV3Convo P)) ε α}
    (h1 : v1.Keeps (Minds nobody allowed)) (h2 : v2.Keeps (Minds GroupV2.Outstanding allowed))
    (h3 : v3.Keeps (Minds nobody allowed)) :
    (dispatch v1 v2 v3).Keeps (Minds Outstanding allowed) := by
  intro ⟨convo, cx⟩
  cases convo with
  | v1 convo => exact h1 ⟨convo, cx⟩
  | v2 convo => exact h2 ⟨convo, cx⟩
  | v3 convo => exact h3 ⟨convo, cx⟩

theorem minds_sendContent (content : Bytes) :
    (sendContent content).Keeps (Minds (P := P) Outstanding allowed) :=
  minds_dispatch (GroupV1.minds_sendContent content) (GroupV2.minds_sendContent content)
    (GroupV3.minds_sendContent content)

theorem minds_handlePayload (payload : Bytes) :
    (handlePayload payload).Keeps (Minds (P := P) Outstanding allowed) :=
  minds_dispatch (GroupV1.minds_handlePayload payload) (GroupV2.minds_handlePayload payload)
    (GroupV3.minds_handlePayload payload)

theorem minds_wakeup : wakeup.Keeps (Minds (P := P) Outstanding allowed) :=
  minds_dispatch (Call.keeps_read _) GroupV2.minds_wakeup (Call.keeps_read _)

theorem minds_removeSigner (members : List SignerKey) :
    (removeSigner members).Keeps (Minds (P := P) Outstanding allowed) :=
  minds_dispatch (GroupV1.minds_removeSigner members) (GroupV2.minds_removeSigner members)
    (Call.keeps_ofResult _)

end GroupConvo

end LogosChat.Conversations
