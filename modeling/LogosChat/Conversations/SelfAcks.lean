import LogosChat.Conversations.CausalHistory

/-!
# Acknowledgements by the author itself

The sender of a payload and the authors in its history are whatever the payload says.  The loop over a
history compares the two with each other, not with the signer whose messages are acknowledged.
-/

namespace LogosChat.Conversations

open Reasoning

/-- A store, with the acknowledgements drained from it so far. -/
structure DrainedStore where
  store : CausalHistoryStore := {}
  taken : List DeliveryAck := []

inductive DrainedCall where
  | onSend (conversationId : String) (content : Bytes)
  | onReceive (conversationId : String) (payload : ReliablePayload)
  | takeAcks
  | takeMissing

namespace DrainedStore

/-- A call on the store of the signer `me`. -/
def call (B : Build) (me : SignerKey) (s : DrainedStore) : DrainedCall → DrainedStore
  | .onSend c content =>
      match s.store.onSend B c me content with
      | .ok (_, store) => { s with store := store }
      -- the addition panics before the conversation is written
      | .panic => s
  | .onReceive c payload => { s with store := (s.store.onReceive c payload).2 }
  | .takeAcks =>
      { store := s.store.takeAcks.2
        taken := s.taken ++ s.store.takeAcks.1 }
  | .takeMissing => { s with store := s.store.takeMissing.2 }

/-- Every acknowledgement there ever was. -/
def yielded (s : DrainedStore) : List DeliveryAck := s.taken ++ s.store.acks

/-- Who acknowledged this message, as the store has it on record. -/
def ackedBy (s : DrainedStore) (c id : String) : Finset SignerKey := (s.store.convos c).ackedBy id

/-- A payload that claims to come from `me` names no message of ours under another author. -/
def KeepsAuthors (me : SignerKey) (s : DrainedStore) : DrainedCall → Prop
  | .onReceive c payload =>
      SignerKey.tryFrom payload.senderId = .ok me →
        ∀ e ∈ payload.causalHistory, ¬ Reception.Credits me (s.store.convos c).own e
  | _ => True

/-! ## What a call puts on record -/

variable {B : Build} {me : SignerKey} {s : DrainedStore}

theorem ackedBy_onSend (c : String) (content : Bytes) :
    (s.call B me (.onSend c content)).ackedBy = s.ackedBy ∧
      (s.call B me (.onSend c content)).yielded = s.yielded := by
  rw [call]
  cases hsend : s.store.onSend B c me content with
  | ok answer =>
      obtain ⟨payload, store⟩ := answer
      obtain ⟨-, -, -, lamport, rfl⟩ := CausalHistoryStore.onSend_eq_ok hsend
      refine ⟨funext fun c' ↦ funext fun id ↦ ?_, rfl⟩
      show (Function.update s.store.convos c _ c').ackedBy id = (s.store.convos c').ackedBy id
      by_cases hc : c' = c
      · subst hc
        rw [Function.update_self, ConvoState.recordSeen_ackedBy]
      · rw [Function.update_of_ne hc]
  | err e => cases e
  | panic => exact ⟨rfl, rfl⟩

/-- The reading of a history that claims this sender. -/
def reading (s : DrainedStore) (c : String) (sender : SignerKey) (payload : ReliablePayload) : Reception :=
  run (Reception.entry c sender) (s.store.reception c payload.lamportTimestamp) payload.causalHistory

theorem onReceive_of_ok {c : String} {payload : ReliablePayload} {sender : SignerKey}
    (h : SignerKey.tryFrom payload.senderId = .ok sender) :
    (s.call B me (.onReceive c payload)).store =
      { convos := Function.update s.store.convos c
          ((s.reading c sender payload).state.recordSeen ⟨sender, payload.messageId⟩)
        missing := (s.reading c sender payload).missing
        acks := (s.reading c sender payload).acks } := by
  rw [call, CausalHistoryStore.onReceive, h]
  rfl

theorem onReceive_of_error {c : String} {payload : ReliablePayload} {e : SignerError}
    (h : SignerKey.tryFrom payload.senderId = .error e) : s.call B me (.onReceive c payload) = s := by
  rw [call, CausalHistoryStore.onReceive, h]

theorem ackedBy_onReceive {c : String} {payload : ReliablePayload} {sender : SignerKey}
    (h : SignerKey.tryFrom payload.senderId = .ok sender) (c' id : String) :
    (s.call B me (.onReceive c payload)).ackedBy c' id =
      if c' = c then (s.reading c sender payload).state.ackedBy id else s.ackedBy c' id := by
  unfold ackedBy
  rw [onReceive_of_ok h]
  by_cases hc : c' = c
  · subst hc
    rw [if_pos rfl]
    show (Function.update s.store.convos c' _ c').ackedBy id = _
    rw [Function.update_self, ConvoState.recordSeen_ackedBy]
  · rw [if_neg hc]
    show (Function.update s.store.convos c _ c').ackedBy id = _
    rw [Function.update_of_ne hc]

/-! ## What is yielded is what is on record -/

/-- The acknowledgements ever yielded are those on record, each once. -/
structure Recorded (s : DrainedStore) : Prop where
  mem_iff : ∀ c id key, key ∈ s.ackedBy c id ↔ ⟨c, id, key⟩ ∈ s.yielded
  nodup : s.yielded.Nodup

theorem recorded_init : Recorded {} := ⟨fun _ _ _ ↦ by simp [ackedBy, yielded], List.nodup_nil⟩

theorem Recorded.onReceive (h : s.Recorded) (c : String) (payload : ReliablePayload) :
    (s.call B me (.onReceive c payload)).Recorded := by
  cases hsender : SignerKey.tryFrom payload.senderId with
  | error e => rwa [onReceive_of_error hsender]
  | ok sender =>
      have hacked : Reception.Acked c s.taken (s.reading c sender payload) := by
        apply Reception.Acked.run
        exact ⟨h.mem_iff c, h.nodup⟩
      have hyielded : (s.call B me (.onReceive c payload)).yielded =
          s.taken ++ (s.reading c sender payload).acks := by
        unfold yielded
        rw [onReceive_of_ok hsender]
        rfl
      refine ⟨fun c' id key ↦ ?_, ?_⟩
      · rw [ackedBy_onReceive hsender, hyielded]
        by_cases hc : c' = c
        · subst hc
          rw [if_pos rfl]
          exact hacked.mem_iff id key
        · rw [if_neg hc, h.mem_iff, yielded, List.mem_append, List.mem_append]
          apply or_congr_right
          rw [reading, Reception.mem_run_acks_of_ne c sender hc]
          rfl
      · rw [hyielded]
        exact hacked.nodup

theorem Recorded.call (h : s.Recorded) (e : DrainedCall) : (s.call B me e).Recorded := by
  cases e with
  | onSend c content =>
      have hsend : (s.call B me (.onSend c content)).ackedBy = s.ackedBy ∧
          (s.call B me (.onSend c content)).yielded = s.yielded := ackedBy_onSend c content
      constructor
      · rw [hsend.1, hsend.2]
        exact h.mem_iff
      · rw [hsend.2]
        exact h.nodup
  | onReceive c payload => exact h.onReceive c payload
  | takeAcks =>
      have hyielded : (s.call B me .takeAcks).yielded = s.yielded := List.append_nil _
      constructor
      · rw [hyielded]
        exact h.mem_iff
      · rw [hyielded]
        exact h.nodup
  | takeMissing => exact ⟨h.mem_iff, h.nodup⟩

/-- No acknowledgement names `me` as the one who gives it. -/
def NeverBy (me : SignerKey) (s : DrainedStore) : Prop := ∀ a ∈ s.yielded, a.ackedBy ≠ me

theorem Recorded.neverBy_iff (h : s.Recorded) : s.NeverBy me ↔ ∀ c id, me ∉ s.ackedBy c id := by
  refine ⟨fun hnever c id hmem ↦ hnever _ ((h.mem_iff c id me).mp hmem) rfl, fun hnot a ha heq ↦ ?_⟩
  apply hnot a.conversationId a.messageId
  rw [h.mem_iff, ← heq]
  exact ha

/-! ## Runs -/

/-- A call keeps `me` out of the acknowledgements exactly when it keeps to the authors. -/
theorem Recorded.neverBy_call_iff (h : s.Recorded) (hnever : s.NeverBy me) (e : DrainedCall) :
    (s.call B me e).NeverBy me ↔ s.KeepsAuthors me e := by
  have hnot := h.neverBy_iff.mp hnever
  cases e with
  | onSend c content =>
      refine iff_of_true ?_ trivial
      unfold NeverBy
      rw [(ackedBy_onSend c content).2]
      exact hnever
  | takeAcks =>
      refine iff_of_true ?_ trivial
      have hyielded : (s.call B me .takeAcks).yielded = s.yielded := List.append_nil _
      unfold NeverBy
      rw [hyielded]
      exact hnever
  | takeMissing => exact iff_of_true hnever trivial
  | onReceive c payload =>
      rw [(h.call _).neverBy_iff]
      cases hsender : SignerKey.tryFrom payload.senderId with
      | error e =>
          rw [onReceive_of_error hsender]
          refine iff_of_true hnot fun hme ↦ ?_
          rw [hsender] at hme
          cases hme
      | ok sender =>
          show (∀ c' id, _) ↔ (SignerKey.tryFrom payload.senderId = .ok me → _)
          rw [hsender]
          constructor
          · rintro hafter ⟨⟩ e he hcredits
            apply hafter c e.messageId
            rw [ackedBy_onReceive hsender, if_pos rfl, reading, Reception.mem_run_ackedBy]
            exact .inr ⟨rfl, e, he, rfl, hcredits⟩
          · intro hkeeps c' id
            rw [ackedBy_onReceive hsender]
            by_cases hc : c' = c
            · rw [if_pos hc, reading, Reception.mem_run_ackedBy]
              rintro (hold | ⟨rfl, e, he, -, hcredits⟩)
              · exact hnot c id hold
              · exact hkeeps rfl e he hcredits
            · rw [if_neg hc]
              exact hnot c' id

theorem yielded_prefix_call (e : DrainedCall) : s.yielded <+: (s.call B me e).yielded := by
  cases e with
  | onSend c content => rw [(ackedBy_onSend c content).2]
  | onReceive c payload =>
      cases hsender : SignerKey.tryFrom payload.senderId with
      | error e => rw [onReceive_of_error hsender]
      | ok sender =>
          have hread : s.store.acks <+: (s.reading c sender payload).acks :=
            Reception.prefix_run_acks c sender _ (s.store.reception c payload.lamportTimestamp)
          unfold yielded
          rw [onReceive_of_ok hsender]
          exact (List.prefix_append_right_inj s.taken).mpr hread
  | takeAcks => exact ⟨[], rfl⟩
  | takeMissing => exact List.prefix_rfl

end DrainedStore

/-- Over the runs of a store, no message of ours is reported as acknowledged by ourselves exactly when
no payload that claims to come from us names a message of ours under another author. -/
theorem never_acknowledged_by_author_iff (B : Build) (me : SignerKey) (calls : List DrainedCall) :
    (run (DrainedStore.call B me) {} calls).NeverBy me ↔
      Along (DrainedStore.call B me) (DrainedStore.KeepsAuthors me) {} calls := by
  have hgood (s : DrainedStore) (h : s.Recorded ∧ s.NeverBy me) : s.NeverBy me := h.2
  have hinit : DrainedStore.Recorded {} ∧ DrainedStore.NeverBy me {} :=
    ⟨DrainedStore.recorded_init, nofun⟩
  refine along_iff_end hgood (fun s e h a ha ↦ ?_) (fun s e h hkeeps ↦ ?_) (fun s e h hnever ↦ ?_)
    hinit calls
  · -- an acknowledgement is never taken back
    exact h a ((DrainedStore.yielded_prefix_call e).subset ha)
  · exact ⟨h.1.call e, (h.1.neverBy_call_iff h.2 e).mpr hkeeps⟩
  · exact (h.1.neverBy_call_iff h.2 e).mp hnever

/-- A member writes our id as its own, and itself as the author of the message of ours it names. -/
def disguisedPayload : ReliablePayload :=
  { messageId := "m"
    senderId := "aa"
    channelId := "c"
    lamportTimestamp := 2
    causalHistory := [{ messageId := "11", senderId := "bb", retrievalHint := [] }]
    bloomFilter := []
    content := [] }

/-- The signer `aa` sends a message and receives that payload. -/
def disguisedRun : DrainedStore :=
  run (DrainedStore.call { blake2b := fun _ ↦ [0x11], overflowChecks := true } ⟨[0xaa]⟩) {}
    [.onSend "c" [7], .onReceive "c" disguisedPayload]

/-- The message of `aa` is reported as acknowledged by `aa`. -/
theorem disguised_payload_acknowledges :
    disguisedRun.yielded = [⟨"c", "11", ⟨[0xaa]⟩⟩] ∧ ¬ disguisedRun.NeverBy ⟨[0xaa]⟩ := by
  have hyielded : disguisedRun.yielded = [⟨"c", "11", ⟨[0xaa]⟩⟩] := by decide +kernel
  refine ⟨hyielded, fun hnever ↦ ?_⟩
  unfold DrainedStore.NeverBy at hnever
  rw [hyielded] at hnever
  exact hnever _ (List.mem_singleton_self _) rfl

end LogosChat.Conversations
