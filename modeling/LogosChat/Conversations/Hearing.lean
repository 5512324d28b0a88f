import LogosChat.Conversations.Records
import LogosChat.Reasoning.Meets
import LogosChat.Reasoning.Reports

/-!
# What a conversation hears

Acknowledgements and gaps are recorded in one place only: where a message that arrived is read.  Every
other operation leaves both as they are; and a conversation that does read a message records them under
its own id, each of them once.
-/

namespace LogosChat.Conversations

open Reasoning

/-! ## The causal history as a reporter -/

namespace CausalHistoryStore

/-- The acknowledgements a store has recorded. -/
def ackReports : Reporter CausalHistoryStore DeliveryAck where
  log := (·.acks)
  told store a := a.ackedBy ∈ (store.convos a.conversationId).ackedBy a.messageId

/-- The gaps a store has recorded. -/
def gapReports : Reporter CausalHistoryStore MissingMessage where
  log := (·.missing)
  told store m := m.frontier ∈ (store.convos m.conversationId).reportedMissing

end CausalHistoryStore

namespace Reception

variable (c : String) (sender : SignerKey)

/-- The acknowledgements of the conversation that a payload is read in. -/
def ackReports : Reporter Reception DeliveryAck where
  log := (·.acks)
  told r a := a.conversationId = c ∧ a.ackedBy ∈ r.state.ackedBy a.messageId

/-- The gaps of the conversation that a payload is read in. -/
def gapReports : Reporter Reception MissingMessage where
  log := (·.missing)
  told r m := m.conversationId = c ∧ m.frontier ∈ r.state.reportedMissing

theorem acknowledge_reports (other : SignerKey) (id : String) (r : Reception) :
    (ackReports c).Grows (·.conversationId = c) r (r.acknowledge c sender other id) := by
  unfold acknowledge
  split
  case isTrue hnew =>
    refine .single (a := ⟨c, id, sender⟩) rfl (fun htold ↦ hnew.2.2 htold.2) rfl fun b ↦ ?_
    obtain ⟨bc, bid, bsender⟩ := b
    show (bc = c ∧ bsender ∈ Function.update r.state.ackedBy id _ bid) ↔ _
    by_cases hid : bid = id
    · subst hid
      rw [Function.update_self, Finset.mem_insert]
      simp only [ackReports, DeliveryAck.mk.injEq, true_and]
      tauto
    · rw [Function.update_of_ne hid]
      simp [ackReports, hid]
  case isFalse => exact refl r

theorem detect_reports (f : Frontier) (r : Reception) :
    (gapReports c).Grows (·.conversationId = c) r (r.detect c f) := by
  unfold detect
  split
  case isTrue hnew =>
    refine .single (a := ⟨c, f⟩) rfl (fun htold ↦ hnew.2 htold.2) rfl fun b ↦ ?_
    obtain ⟨bc, bf⟩ := b
    show (bc = c ∧ bf ∈ insert f r.state.reportedMissing) ↔ _
    rw [Finset.mem_insert]
    simp only [gapReports, MissingMessage.mk.injEq]
    tauto
  case isFalse => exact refl r

/-- One entry of a history, and with it the whole loop, records only what is new. -/
theorem entry_reports (r : Reception) (e : HistoryEntry) :
    (ackReports c).Grows (·.conversationId = c) r (entry c sender r e) ∧
      (gapReports c).Grows (·.conversationId = c) r (entry c sender r e) := by
  cases he : SignerKey.tryFrom e.senderId with
  | error error =>
      rw [entry_of_error c sender he]
      exact ⟨refl r, refl r⟩
  | ok author =>
      rw [entry_of_ok c sender he]
      constructor
      · refine (acknowledge_reports c sender author e.messageId r).trans (.of_same ?_ fun a ↦ ?_)
        · exact detect_acks c _ _
        · simp only [ackReports, detect_ackedBy]
      · refine Reporter.Grows.trans (.of_same ?_ fun a ↦ ?_) (detect_reports c _ _)
        · exact acknowledge_missing c sender _ _ _
        · simp only [gapReports, acknowledge_reportedMissing]

theorem run_reports (history : List HistoryEntry) (r : Reception) :
    (ackReports c).Grows (·.conversationId = c) r (run (entry c sender) r history) ∧
      (gapReports c).Grows (·.conversationId = c) r (run (entry c sender) r history) := by
  induction history generalizing r with
  | nil => exact ⟨refl r, refl r⟩
  | cons e history ih =>
      have hfirst := entry_reports c sender r e
      have hrest := ih (entry c sender r e)
      exact ⟨hfirst.1.trans hrest.1, hfirst.2.trans hrest.2⟩

end Reception

/-- From one store to the next only allowed reports were recorded, each of them new. -/
structure CausalHistoryStore.Hears (allowed : String → Prop) (store store' : CausalHistoryStore) :
    Prop where
  acks : ackReports.Grows (fun a ↦ allowed a.conversationId) store store'
  gaps : gapReports.Grows (fun m ↦ allowed m.conversationId) store store'

namespace CausalHistoryStore

variable {allowed : String → Prop} {store store' : CausalHistoryStore}

instance (allowed : String → Prop) : IsPreorder CausalHistoryStore (Hears allowed) where
  refl store := ⟨refl store, refl store⟩
  trans _ _ _ hab hbc := ⟨hab.acks.trans hbc.acks, hab.gaps.trans hbc.gaps⟩

/-- A message of our own says nothing about the others. -/
theorem hears_onSend {B : Build} {c : String} {sender : SignerKey} {content : Bytes}
    {payload : ReliablePayload} (h : store.onSend B c sender content = .ok (payload, store')) :
    store.Hears allowed store' := by
  obtain ⟨lamport, -, h⟩ := Result.bind_eq_ok.mp h
  cases h
  constructor
  · refine .of_same rfl fun a ↦ ?_
    by_cases hc : a.conversationId = c <;> simp [ackReports, hc]
  · refine .of_same rfl fun m ↦ ?_
    by_cases hc : m.conversationId = c <;> simp [gapReports, hc]

/-- What is read in a conversation is recorded under its id. -/
theorem hears_onReceive {c : String} (hc : allowed c) (payload : ReliablePayload) :
    store.Hears allowed (store.onReceive c payload).2 := by
  unfold onReceive
  cases hsender : SignerKey.tryFrom payload.senderId with
  | error error => exact refl store
  | ok sender =>
      dsimp only
      obtain ⟨hacks, hgaps⟩ := Reception.run_reports c sender payload.causalHistory
        ⟨{ store.convos c with
            lamportClock := max (store.convos c).lamportClock payload.lamportTimestamp },
          store.missing, store.acks, []⟩
      constructor
      · refine hacks.lift rfl rfl (fun a ha ↦ ?_) (fun a ha ↦ ?_) (fun a ha ↦ ?_) fun a ha ↦ ha ▸ hc
        · simp [ackReports, Reception.ackReports, ha]
        · simp [ackReports, Reception.ackReports, ha]
        · simp [ackReports, ha]
      · refine hgaps.lift rfl rfl (fun m hm ↦ ?_) (fun m hm ↦ ?_) (fun m hm ↦ ?_) fun m hm ↦ hm ▸ hc
        · simp [gapReports, Reception.gapReports, hm]
        · simp [gapReports, Reception.gapReports, hm]
        · simp [gapReports, hm]

end CausalHistoryStore

/-! ## On the services -/

variable {P : Platform} {C ε α : Type} {allowed : String → Prop}

/-- Only allowed reports were recorded, and no record was written. -/
structure Hears (allowed : String → Prop) (cx cx' : ServiceContext P) : Prop where
  causal : cx.causal.Hears allowed cx'.causal
  records : cx'.records = cx.records

instance (allowed : String → Prop) : IsPreorder (ServiceContext P) (Hears allowed) where
  refl cx := ⟨refl cx.causal, rfl⟩
  trans _ _ _ hab hbc :=
    ⟨IsTrans.trans _ _ _ hab.causal hbc.causal, hbc.records.trans hab.records⟩

theorem Hears.of_same {cx cx' : ServiceContext P} (hcausal : cx'.causal = cx.causal)
    (hrecords : cx'.records = cx.records) : Hears allowed cx cx' := by
  refine ⟨?_, hrecords⟩
  rw [hcausal]
  exact refl cx.causal

theorem hears_publish (envelope : AddressedEnvelope) :
    (ServiceContext.publish envelope : Call (ServiceContext P) _ _).Keeps (Hears allowed) :=
  fun _ ↦ .of_same rfl rfl

theorem hears_subscribe :
    (ServiceContext.subscribe : Call (ServiceContext P) _ _).Keeps (Hears allowed) :=
  fun _ ↦ .of_same rfl rfl

theorem hears_draw : (ServiceContext.draw : Call (ServiceContext P) ε _).Keeps (Hears allowed) :=
  fun _ ↦ .of_same rfl rfl

theorem hears_wakeupIn (duration : Nat) (convoId : String) :
    (ServiceContext.wakeupIn duration convoId : Call (ServiceContext P) ε _).Keeps (Hears allowed) :=
  fun _ ↦ .of_same rfl rfl

theorem hears_handOver (packages : List (Handed × Signer)) :
    (ServiceContext.handOver packages : Call (ServiceContext P) ε _).Keeps (Hears allowed) :=
  fun _ ↦ .of_same rfl rfl

theorem hears_onSend (convoId : String) (content : Bytes) :
    (ServiceContext.onSend convoId content : Call (ServiceContext P) ε _).Keeps (Hears allowed) := by
  intro cx
  unfold ServiceContext.onSend
  split
  case h_1 hsend => exact ⟨CausalHistoryStore.hears_onSend hsend, rfl⟩
  case h_2 => exact refl cx

theorem hears_onReceive {convoId : String} (h : allowed convoId) (payload : ReliablePayload) :
    (ServiceContext.onReceive convoId payload : Call (ServiceContext P) ε _).Keeps (Hears allowed) :=
  fun _ ↦ ⟨CausalHistoryStore.hears_onReceive h payload, rfl⟩

theorem hears_retrievePackage {β : Type} (missing : SignerKey → ChatError)
    (vet : AuthService → SignerKey → Bytes → Result ChatError β) (signer : SignerKey) :
    (retrievePackage P missing vet signer).Keeps (Hears allowed) := by
  intro cx
  rw [retrievePackage_eq]
  exact .of_same rfl rfl

/-! ## In a conversation -/

/-- The conversation goes by this id. -/
abbrev Named (idOf : C → String) (id : String) (s : InSession P C) : Prop := idOf s.convo = id

abbrev Heard (allowed : String → Prop) (s t : InSession P C) : Prop := Hears allowed s.cx t.cx

instance (allowed : String → Prop) : IsPreorder (InSession P C) (Heard allowed) where
  refl s := refl s.cx
  trans _ _ _ := IsTrans.trans _ _ _

/-- The calls of a conversation that keeps its id, and records only what is allowed. -/
abbrev Attends (idOf : C → String) (id : String) (allowed : String → Prop) (Q : α → Prop)
    (m : Call (InSession P C) ε α) : Prop :=
  m.Meets (Named idOf id) (Heard allowed) Q

section Attends

variable {idOf : C → String} {id : String}

theorem attends_onCx {m : Call (ServiceContext P) ε α} (h : m.Keeps (Hears allowed)) :
    Attends idOf id allowed (fun _ ↦ True) (InSession.onCx m) :=
  fun s hs ↦ ⟨hs, h s.cx, fun _ _ ↦ trivial⟩

/-- A conversation under construction. -/
theorem Attends.constructing {convo : C} {m : Call (InSession P C) ε Unit}
    (h : Attends idOf id allowed (fun _ ↦ True) m) (hconvo : idOf convo = id) :
    (InSession.constructing convo m).Meets (fun _ ↦ True) (Hears allowed) fun made ↦ idOf made = id := by
  intro cx _
  have hm := h ⟨convo, cx⟩ hconvo
  refine ⟨trivial, ?_, fun made hmade ↦ ?_⟩
  · rw [InSession.constructing_snd]
    exact hm.2.1
  · have hmade : InSession.constructing convo m cx =
        (.ok made, (InSession.constructing convo m cx).2) := Prod.ext hmade rfl
    have hnamed := hm.1
    rw [InSession.constructing_eq_ok hmade] at hnamed
    exact hnamed

end Attends

/-! ### GroupV1 -/

namespace GroupV1

abbrev idOf (convo : GroupV1Convo P) : String := convo.convoId

variable {id : String}

theorem attends_onGroup (m : Call (MlsGroup P.mls.Secrets) ε α) :
    Attends idOf id allowed (fun _ ↦ True) (onGroup m) :=
  fun s hs ↦ ⟨hs, refl s.cx, fun _ _ ↦ trivial⟩

theorem attends_sendPayload (msgBytes : Bytes) :
    Attends (P := P) idOf id allowed (fun _ ↦ True) (sendPayload msgBytes) :=
  fun _ hs ↦ ⟨hs, .of_same rfl rfl, fun _ _ ↦ trivial⟩

theorem attends_sendContent (content : Bytes) :
    Attends (P := P) idOf id allowed (fun _ ↦ True) (sendContent content) := by
  refine (Call.meets_read_any _).bind fun convoId _ ↦ ?_
  refine (attends_onCx (hears_onSend convoId content)).bind fun reliable _ ↦ ?_
  refine (attends_onGroup _).mapErr.bind fun message _ ↦ ?_
  refine (Call.meets_ofResult_any _).bind fun msgBytes _ ↦ ?_
  exact (attends_sendPayload msgBytes).bind fun _ _ ↦ Call.meets_pure trivial

theorem attends_readContent (hid : allowed id) (sender : Option GroupMember) (bytes : Bytes) :
    Attends (P := P) idOf id allowed (·.convoId = id) (readContent id sender bytes) := by
  refine (Call.meets_ofResult_any _).bind fun reliable _ ↦ ?_
  refine (attends_onCx (hears_onReceive hid reliable)).bind fun _ _ ↦ ?_
  exact (Call.meets_read_any _).bind fun _ _ ↦ Call.meets_pure rfl

theorem attends_handlePayload (hid : allowed id) (payload : Bytes) :
    Attends (P := P) idOf id allowed (·.convoId = id) (handlePayload payload) := by
  refine (Call.meets_ofResult_any _).bind fun encrypted _ ↦ ?_
  cases encrypted with
  | other => exact Call.meets_fail _
  | plaintext bytes =>
      have hread : (Call.read (·.convo) : Call (InSession P (GroupV1Convo P)) ChatError _).Meets
          (Named idOf id) (Heard allowed) (idOf · = id) := Call.meets_read fun _ hs ↦ hs
      refine hread.bind fun convo hconvo ↦ ?_
      dsimp only
      split
      · exact Call.meets_pure hconvo
      split
      · exact Call.meets_pure hconvo
      refine (Call.meets_ofResult_any _).bind fun message _ ↦ ?_
      split
      · exact Call.meets_pure hconvo
      refine (attends_onGroup _).mapErr.bind fun ⟨sender, content⟩ _ ↦ ?_
      cases content with
      | applicationMessage bytes =>
          subst hconvo
          exact attends_readContent hid _ bytes
      | stagedCommitMessage commit =>
          exact (attends_onGroup _).mapErr.bind fun _ _ ↦ Call.meets_pure hconvo
      | other => exact Call.meets_pure hconvo

theorem attends_wakeup : Attends (P := P) idOf id allowed (·.convoId = id) wakeup :=
  Call.meets_read fun _ hs ↦ hs

theorem attends_announce (members : List SignerKey) (commit welcome : P.mls.MlsMessageOut) :
    Attends idOf id allowed (fun _ ↦ True) (announce members commit welcome) := by
  refine (Call.Meets.each fun signer _ ↦ attends_onCx ?_).bind fun _ _ ↦ ?_
  · exact (Call.keeps_ofResult _).bind fun _ ↦ (hears_publish _).mapErr
  · exact (Call.meets_ofResult_any _).bind fun msgBytes _ ↦ attends_sendPayload msgBytes

theorem attends_addSigner (members : List SignerKey) :
    Attends (P := P) idOf id allowed (fun _ ↦ True) (addSigner members) := by
  unfold addSigner
  split
  · exact Call.meets_fail _
  refine (Call.meets_read_any _).bind fun seated _ ↦ ?_
  dsimp only
  split
  · exact Call.meets_pure trivial
  refine (attends_onCx (Call.Keeps.collect (hears_retrievePackage _ _) _)).bind fun keyPackages _ ↦ ?_
  refine Call.Meets.bind (Q := fun _ ↦ True) ?_ fun ⟨commit, welcome⟩ _ ↦ ?_
  · exact (attends_onCx (hears_handOver _)).bind fun _ _ ↦ (attends_onGroup _).mapErr
  · exact (attends_onGroup _).mapErr.bind fun _ _ ↦ attends_announce _ commit welcome

theorem attends_removeSigner (members : List SignerKey) :
    Attends (P := P) idOf id allowed (fun _ ↦ True) (removeSigner members) := by
  refine (Call.meets_read_any _).bind fun group _ ↦ ?_
  dsimp only
  split
  · exact Call.meets_fail _
  split
  · exact Call.meets_fail _
  refine (attends_onGroup _).mapErr.bind fun commit _ ↦ ?_
  refine (attends_onGroup _).mapErr.bind fun _ _ ↦ ?_
  exact (Call.meets_ofResult_any _).bind fun msgBytes _ ↦ attends_sendPayload msgBytes

theorem hears_new : (new : Call (ServiceContext P) _ _).Keeps (Hears allowed) := by
  refine hears_draw.bind fun n ↦ (Call.keeps_read _).bind fun self ↦ ?_
  refine (Call.keeps_ofResult _).bind fun _ ↦ ?_
  exact hears_subscribe.mapErr.bind fun _ ↦ Call.keeps_pure _

theorem hears_newFromWelcome (welcome : Bytes) :
    (newFromWelcome welcome).Keeps (Hears (P := P) allowed) := by
  refine hears_draw.bind fun n ↦ (Call.keeps_ofResult _).bind fun _ ↦ ?_
  exact hears_subscribe.mapErr.bind fun _ ↦ Call.keeps_pure _

end GroupV1

/-! ### GroupV2 -/

namespace GroupV2

abbrev idOf (convo : GroupV2Convo P) : String := convo.convoId

variable {id : String}

theorem attends_onConversation (m : Call (Conversation P.demls) ε α) :
    Attends idOf id allowed (fun _ ↦ True) (onConversation m) :=
  fun s hs ↦ ⟨hs, refl s.cx, fun _ _ ↦ trivial⟩

-- a step on the invites or the directory
theorem attends_modify (f : GroupV2Convo P → GroupV2Convo P) (h : ∀ convo, idOf (f convo) = idOf convo) :
    Attends (ε := ε) idOf id allowed (fun _ ↦ True)
      (Call.modify fun s : InSession P (GroupV2Convo P) ↦ { s with convo := f s.convo }) :=
  fun s hs ↦ ⟨(h s.convo).trans hs, refl s.cx, fun _ _ ↦ trivial⟩

theorem attends_routeWelcome (welcome : MemberWelcome) (joiner : Bytes) :
    Attends (P := P) idOf id allowed (fun _ ↦ True) (routeWelcome welcome joiner) := by
  refine (Call.meets_read_any _).bind fun invited _ ↦ ?_
  split
  · refine (attends_modify (setPending joiner none) fun _ ↦ rfl).bind fun _ _ ↦ ?_
    exact attends_onCx (hears_publish _).mapErr
  · exact Call.meets_pure trivial

theorem attends_routeEvent (event : ConversationEvent) :
    Attends (P := P) idOf id allowed (fun _ ↦ True) (routeEvent event) := by
  cases event with
  | welcomeReady welcome => exact Call.Meets.each fun joiner _ ↦ attends_routeWelcome welcome joiner
  | membersChanged added removed => exact attends_modify (changeMembers added removed) fun _ ↦ rfl
  | conversationMessage message sender => exact Call.meets_pure trivial
  | commitApplied => exact Call.meets_pure trivial
  | leaving => exact Call.meets_pure trivial
  | other => exact Call.meets_pure trivial

theorem attends_rearm (wakeup : Option Nat) :
    Attends (P := P) idOf id allowed (fun _ ↦ True) (rearm wakeup) := by
  cases wakeup with
  | none => exact Call.meets_pure trivial
  | some duration =>
      refine (Call.meets_read_any _).bind fun convoId _ ↦ ?_
      exact attends_onCx (hears_wakeupIn duration convoId)

theorem attends_afterOp : Attends (P := P) idOf id allowed (fun _ ↦ True) afterOp := by
  refine (attends_onConversation _).bind fun events _ ↦ ?_
  refine (attends_onConversation _).bind fun outbound _ ↦ ?_
  refine (Call.meets_read_any _).bind fun wakeup _ ↦ ?_
  refine (Call.Meets.each fun event _ ↦ attends_routeEvent event).bind fun _ _ ↦ ?_
  refine (Call.Meets.each fun out _ ↦ (attends_onCx (hears_publish _)).mapErr).bind fun _ _ ↦ ?_
  exact (attends_rearm wakeup).bind fun _ _ ↦ Call.meets_pure trivial

theorem attends_sendContent (content : Bytes) :
    Attends (P := P) idOf id allowed (fun _ ↦ True) (sendContent content) := by
  refine (Call.meets_read_any _).bind fun convoId _ ↦ ?_
  refine (attends_onCx (hears_onSend convoId content)).bind fun reliable _ ↦ ?_
  refine (attends_onConversation _).mapErr.bind fun _ _ ↦ ?_
  exact attends_afterOp.bind fun _ _ ↦ Call.meets_pure trivial

-- the id that the conversation reads off itself
theorem meets_convoId : (Call.read (·.convo.convoId) :
    Call (InSession P (GroupV2Convo P)) ChatError String).Meets (Named idOf id) (Heard allowed) (· = id) :=
  Call.meets_read fun _ hs ↦ hs

theorem attends_readPost (hid : allowed id) (message : Bytes) (sender : LeafNode) :
    Attends (P := P) idOf id allowed (fun _ ↦ True) (readPost message sender) := by
  refine (Call.meets_ofResult_any _).bind fun reliable _ ↦ ?_
  refine meets_convoId.bind fun convoId hconvo ↦ ?_
  refine (attends_onCx (hears_onReceive (hconvo ▸ hid) reliable)).bind fun _ _ ↦ ?_
  exact (Call.meets_read_any _).bind fun _ _ ↦ Call.meets_pure trivial

theorem attends_outcomeFromEvents (hid : allowed id) (events : List ConversationEvent) :
    Attends (P := P) idOf id allowed (·.convoId = id) (outcomeFromEvents events) := by
  unfold outcomeFromEvents
  dsimp only
  split
  · refine (Call.meets_pure (Q := fun _ ↦ True) trivial).bind fun _ _ ↦ ?_
    exact meets_convoId.bind fun _ hconvo ↦ Call.meets_pure hconvo
  · refine (attends_readPost hid _ _).bind fun _ _ ↦ ?_
    exact meets_convoId.bind fun _ hconvo ↦ Call.meets_pure hconvo

theorem attends_report (hid : allowed id) : Attends (P := P) idOf id allowed (·.convoId = id) report :=
  attends_afterOp.bind fun ⟨events, _⟩ _ ↦ attends_outcomeFromEvents hid events

theorem attends_feed (payload : Bytes) :
    Attends (P := P) idOf id allowed (fun _ ↦ True) (feed payload) := by
  refine (Call.meets_ofResult_any _).bind fun encrypted _ ↦ ?_
  cases encrypted with
  | other => exact Call.meets_fail _
  | plaintext bytes =>
      refine (Call.meets_read_any _).bind fun seated _ ↦ ?_
      split
      · exact Call.meets_pure trivial
      refine (Call.meets_ofResult_any _).bind fun frame _ ↦ ?_
      split
      · refine (attends_onConversation _).mapErr.bind fun _ _ ↦ ?_
        exact (attends_onConversation _).bind fun _ _ ↦ Call.meets_pure trivial
      · exact Call.meets_pure trivial

theorem attends_handlePayload (hid : allowed id) (payload : Bytes) :
    Attends (P := P) idOf id allowed (·.convoId = id) (handlePayload payload) := by
  refine (attends_feed payload).bind fun fed _ ↦ ?_
  split
  · exact attends_report hid
  · exact Call.meets_read fun _ hs ↦ hs

theorem attends_wakeup (hid : allowed id) : Attends (P := P) idOf id allowed (·.convoId = id) wakeup :=
  (attends_onConversation _).bind fun _ _ ↦ attends_report hid

theorem attends_andFlush (result : Except ChatError Unit) :
    Attends (P := P) idOf id allowed (fun _ ↦ True) (andFlush result) := by
  refine attends_afterOp.attempt.bind fun flushed _ ↦ ?_
  split
  · exact Call.meets_fail _
  · exact Call.meets_fail _
  · exact Call.meets_pure trivial

theorem attends_proposeAll (existing : List Bytes) (members : List FetchedMember) :
    Attends (P := P) idOf id allowed (fun _ ↦ True) (proposeAll existing members) := by
  induction members with
  | nil => exact Call.meets_pure trivial
  | cons m members ih =>
      unfold proposeAll
      split
      · exact ih
      refine (attends_modify (setPending m.signatureKey (some m.credential)) fun _ ↦ rfl).bind
        fun _ _ ↦ ?_
      refine (attends_onCx (hears_handOver _)).bind fun _ _ ↦ ?_
      refine (attends_onConversation _).attempt.bind fun answer _ ↦ ?_
      split
      · exact ih.bind fun _ _ ↦ Call.meets_pure trivial
      · exact (attends_modify (setPending m.signatureKey none) fun _ ↦ rfl).bind fun _ _ ↦ ih
      · exact (attends_modify (setPending m.signatureKey none) fun _ ↦ rfl).bind fun _ _ ↦
          Call.meets_pure trivial

theorem attends_addSigner (members : List SignerKey) :
    Attends (P := P) idOf id allowed (fun _ ↦ True) (addSigner members) := by
  refine Call.Meets.bind (Q := fun _ ↦ True) ?_ fun result _ ↦ attends_andFlush result
  refine (attends_onCx (Call.Keeps.collect (hears_retrievePackage _ _) _)).bind fun fetched _ ↦ ?_
  refine (Call.meets_read_any _).bind fun existing _ ↦ ?_
  refine (attends_proposeAll existing fetched).bind fun ⟨result, added⟩ _ ↦ ?_
  dsimp only
  split
  · exact (attends_onConversation _).bind fun _ _ ↦ Call.meets_pure trivial
  · exact Call.meets_pure trivial

theorem attends_removeAll (targets : List MemberId) :
    Attends (P := P) idOf id allowed (fun _ ↦ True) (removeAll targets) := by
  induction targets with
  | nil => exact Call.meets_pure trivial
  | cons target targets ih =>
      refine (attends_onConversation _).attempt.bind fun answer _ ↦ ?_
      split
      · exact ih
      · exact ih
      · exact Call.meets_pure trivial

theorem attends_removeSigner (members : List SignerKey) :
    Attends (P := P) idOf id allowed (fun _ ↦ True) (removeSigner members) := by
  refine (Call.meets_read_any _).bind fun convo _ ↦ ?_
  dsimp only
  split
  · exact Call.meets_fail _
  split
  · exact Call.meets_fail _
  exact (attends_removeAll _).bind fun result _ ↦ attends_andFlush result

theorem hears_settle (convo : GroupV2Convo P) : (settle convo).Keeps (Hears allowed) := by
  have hsettle : Attends (P := P) idOf convo.convoId allowed (fun _ ↦ True)
      (InSession.onCx subscribe >>= fun _ ↦ afterOp.void) := by
    refine (attends_onCx hears_subscribe.mapErr).bind fun _ _ ↦ ?_
    exact attends_afterOp.bind fun _ _ ↦ Call.meets_pure trivial
  exact fun cx ↦ (hsettle.constructing rfl cx trivial).2.1

theorem hears_new (name desc : String) (signers : List SignerKey) :
    (new name desc signers).Keeps (Hears (P := P) allowed) := by
  refine hears_draw.bind fun _ ↦ ?_
  refine (Call.Keeps.collect (hears_retrievePackage _ _) _).bind fun invites ↦ ?_
  refine (hears_handOver _).bind fun _ ↦ hears_draw.bind fun n ↦ ?_
  refine (Call.keeps_read _).bind fun self ↦ (Call.keeps_ofResult _).bind fun turn ↦ ?_
  exact hears_settle _

theorem hears_newFromWelcome (welcome : MemberWelcome) :
    (newFromWelcome welcome).Keeps (Hears (P := P) allowed) := by
  refine hears_draw.bind fun n ↦ (Call.keeps_ofResult _).bind fun joined ↦ ?_
  split
  · exact Call.keeps_fail _
  · exact hears_settle _

end GroupV2

/-! ### GroupV3 -/

namespace GroupV3

abbrev idOf (convo : GroupV3Convo P) : String := convo.convoId

variable {id : String}

theorem attends_onGroup (m : Call (MlsGroup P.mls.Secrets) ε α) :
    Attends idOf id allowed (fun _ ↦ True) (onGroup m) :=
  fun s hs ↦ ⟨hs, refl s.cx, fun _ _ ↦ trivial⟩

theorem attends_publishMlsMsg (message : P.mls.MlsMessageOut) :
    Attends idOf id allowed (fun _ ↦ True) (publishMlsMsg message) := by
  refine (Call.meets_read_any _).bind fun convoId _ ↦ ?_
  refine (Call.meets_ofResult_any _).bind fun envelope _ ↦ ?_
  exact (attends_onCx (hears_publish envelope)).mapErr

theorem attends_sendContent (content : Bytes) :
    Attends (P := P) idOf id allowed (fun _ ↦ True) (sendContent content) := by
  apply Call.Meets.mapErr
  refine (attends_onGroup _).mapErr.bind fun message _ ↦ ?_
  exact (attends_publishMlsMsg message).bind fun _ _ ↦ Call.meets_pure trivial

-- the id that the conversation reads off itself
theorem meets_convoId : (Call.read (·.convo.convoId) :
    Call (InSession P (GroupV3Convo P)) ChatError String).Meets (Named idOf id) (Heard allowed) (· = id) :=
  Call.meets_read fun _ hs ↦ hs

theorem attends_handleMlsApplicationMessage (sender : Option GroupMember) (bytes : Bytes) :
    Attends (P := P) idOf id allowed (·.convoId = id) (handleMlsApplicationMessage sender bytes) := by
  refine meets_convoId.bind fun convoId hconvo ↦ ?_
  refine (Call.meets_ofResult_any _).bind fun frame _ ↦ ?_
  split
  · exact Call.meets_pure hconvo
  · exact (Call.meets_read_any _).bind fun _ _ ↦ Call.meets_pure hconvo

theorem attends_handleMlsCommit (commit : StagedCommit) :
    Attends (P := P) idOf id allowed (·.convoId = id) (handleMlsCommit commit) := by
  refine (Call.meets_ofResult_any _).bind fun _ _ ↦ ?_
  refine (attends_onGroup _).mapErr.bind fun _ _ ↦ ?_
  exact meets_convoId.bind fun convoId hconvo ↦ Call.meets_pure hconvo

theorem attends_handlePayload (payload : Bytes) :
    Attends (P := P) idOf id allowed (·.convoId = id) (handlePayload payload) := by
  refine (Call.meets_ofResult_any _).bind fun payload _ ↦ ?_
  refine (Call.meets_ofResult_any _).bind fun message _ ↦ ?_
  have hread : (Call.read (·.convo) : Call (InSession P (GroupV3Convo P)) ChatError _).Meets
      (Named idOf id) (Heard allowed) (idOf · = id) := Call.meets_read fun _ hs ↦ hs
  refine hread.bind fun convo hconvo ↦ ?_
  split
  · exact Call.meets_pure hconvo
  refine (attends_onGroup _).attempt.bind fun processed _ ↦ ?_
  split
  case h_1 sender content _ =>
    cases content with
    | applicationMessage bytes =>
        refine (Call.meets_read_any _).bind fun author _ ↦ ?_
        exact attends_handleMlsApplicationMessage author bytes
    | stagedCommitMessage commit => exact attends_handleMlsCommit commit
    | other => exact Call.meets_read fun _ hs ↦ hs
  case h_2 => exact Call.meets_pure hconvo
  case h_3 => exact Call.meets_fail _

theorem attends_wakeup : Attends (P := P) idOf id allowed (·.convoId = id) wakeup :=
  Call.meets_read fun _ hs ↦ hs

theorem attends_sendPendingCommit (commit : P.mls.MlsMessageOut) (dependent : List AddressedEnvelope) :
    Attends idOf id allowed (fun _ ↦ True) (sendPendingCommit commit dependent) := by
  refine (attends_publishMlsMsg commit).attempt.bind fun sent _ ↦ ?_
  split
  · exact (attends_onGroup _).attempt.bind fun _ _ ↦ Call.meets_fail _
  · refine (attends_onGroup _).mapErr.bind fun _ _ ↦ Call.Meets.each fun envelope _ ↦ ?_
    exact (attends_onCx (hears_publish envelope)).mapErr.mapErr

theorem attends_addSigner (members : List SignerKey) :
    Attends (P := P) idOf id allowed (fun _ ↦ True) (addSigner members) := by
  refine (Call.meets_read_any _).bind fun seated _ ↦ ?_
  refine (Call.meets_ofResult_any _).bind fun existing _ ↦ ?_
  refine (attends_onCx (Call.Keeps.collect (hears_retrievePackage _ _) _)).bind fun keyPackages _ ↦ ?_
  split
  · exact Call.meets_pure trivial
  refine Call.Meets.bind (Q := fun _ ↦ True) ?_ fun ⟨commit, welcome⟩ _ ↦ ?_
  · exact (attends_onCx (hears_handOver _)).bind fun _ _ ↦ (attends_onGroup _).mapErr
  refine Call.Meets.bind (Q := fun _ ↦ True) ?_ fun invites _ ↦ attends_sendPendingCommit commit invites
  exact (Call.Meets.collect (fun _ ↦ Call.meets_ofResult_any _) keyPackages).mapErr

theorem hears_newFromWelcome (welcome : Bytes) :
    (newFromWelcome welcome).Keeps (Hears (P := P) allowed) := by
  refine hears_draw.bind fun n ↦ (Call.keeps_ofResult _).bind fun _ ↦ ?_
  exact hears_subscribe.mapErr.bind fun _ ↦ Call.keeps_pure _

end GroupV3

/-! ### Every kind -/

namespace GroupConvo

variable {id : String}

theorem attends_dispatch {Q : α → Prop} {v1 : Call (InSession P (GroupV1Convo P)) ε α}
    {v2 : Call (InSession P (GroupV2Convo P)) ε α} {v3 : Call (InSession P (GroupV3Convo P)) ε α}
    (h1 : Attends GroupV1.idOf id allowed Q v1) (h2 : Attends GroupV2.idOf id allowed Q v2)
    (h3 : Attends GroupV3.idOf id allowed Q v3) :
    Attends GroupConvo.id id allowed Q (dispatch v1 v2 v3) := by
  intro ⟨convo, cx⟩ hid
  cases convo with
  | v1 convo => exact h1 ⟨convo, cx⟩ hid
  | v2 convo => exact h2 ⟨convo, cx⟩ hid
  | v3 convo => exact h3 ⟨convo, cx⟩ hid

theorem attends_sendContent (content : Bytes) :
    Attends (P := P) GroupConvo.id id allowed (fun _ ↦ True) (sendContent content) :=
  attends_dispatch (GroupV1.attends_sendContent content) (GroupV2.attends_sendContent content)
    (GroupV3.attends_sendContent content)

theorem attends_handlePayload (hid : allowed id) (payload : Bytes) :
    Attends (P := P) GroupConvo.id id allowed (·.convoId = id) (handlePayload payload) :=
  attends_dispatch (GroupV1.attends_handlePayload hid payload)
    (GroupV2.attends_handlePayload hid payload) (GroupV3.attends_handlePayload payload)

theorem attends_wakeup (hid : allowed id) :
    Attends (P := P) GroupConvo.id id allowed (·.convoId = id) wakeup :=
  attends_dispatch GroupV1.attends_wakeup (GroupV2.attends_wakeup hid) GroupV3.attends_wakeup

theorem attends_addSigner (members : List SignerKey) :
    Attends (P := P) GroupConvo.id id allowed (fun _ ↦ True) (addSigner members) :=
  attends_dispatch (GroupV1.attends_addSigner members) (GroupV2.attends_addSigner members)
    (GroupV3.attends_addSigner members)

theorem attends_removeSigner (members : List SignerKey) :
    Attends (P := P) GroupConvo.id id allowed (fun _ ↦ True) (removeSigner members) :=
  attends_dispatch (GroupV1.attends_removeSigner members) (GroupV2.attends_removeSigner members)
    (Call.meets_ofResult_any _)

end GroupConvo

end LogosChat.Conversations
