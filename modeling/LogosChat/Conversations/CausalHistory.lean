import LogosChat.Reasoning.Hex
import LogosChat.Reasoning.LittleEndian
import LogosChat.Reasoning.Result
import LogosChat.Reasoning.Run
import LogosChat.Reasoning.Window
import Mathlib.Data.Finset.Insert
import Mathlib.Logic.Function.Basic

/-!
# Causal history

Every outbound message carries a Lamport timestamp and the ids of the messages its sender had most
recently seen.  A receiver that finds an id it never delivered has found a gap; one that finds an id
of its own has found an acknowledgement.
-/

namespace LogosChat.Conversations

open Reasoning

/-- Who signed: the bytes of a signature key. -/
structure SignerKey where
  bytes : Bytes
deriving DecidableEq

inductive SignerError where
  | notAKey
  | notHex
deriving DecidableEq

/-- `Display`. -/
def SignerKey.toHex (key : SignerKey) : String := hexEncode key.bytes

/-- Parses the hex form `Display` writes. -/
def SignerKey.tryFrom (value : String) : Except SignerError SignerKey :=
  match hexDecode value with
  | some bytes => .ok ⟨bytes⟩
  | none => .error .notHex

@[simp] theorem SignerKey.tryFrom_toHex (key : SignerKey) : tryFrom key.toHex = .ok key := by
  rw [tryFrom, toHex, hexDecode_hexEncode]

/-- A message as other messages refer to it. -/
structure Frontier where
  sender : SignerKey
  messageId : String
deriving DecidableEq

-- CAUSAL_HISTORY_LEN
def causalHistoryLen : Nat := 10

structure MissingMessage where
  conversationId : String
  frontier : Frontier
deriving DecidableEq

structure DeliveryAck where
  conversationId : String
  messageId : String
  ackedBy : SignerKey
deriving DecidableEq

structure HistoryEntry where
  messageId : String
  senderId : String
  retrievalHint : Bytes
deriving DecidableEq

structure ReliablePayload where
  messageId : String
  senderId : String
  channelId : String
  lamportTimestamp : Int32
  causalHistory : List HistoryEntry
  bloomFilter : Bytes
  content : Bytes
deriving DecidableEq

/-- Per-conversation causal state.  A message with no acknowledgement has an empty set. -/
structure ConvoState where
  lamportClock : Int32 := 0
  seen : Finset Frontier := ∅
  -- oldest first
  frontiers : List Frontier := []
  reportedMissing : Finset Frontier := ∅
  own : Finset String := ∅
  ackedBy : String → Finset SignerKey := fun _ ↦ ∅

def ConvoState.recordSeen (state : ConvoState) (info : Frontier) : ConvoState :=
  if info ∈ state.seen then state
  else
    { state with
      seen := insert info state.seen
      frontiers := trimFront causalHistoryLen (state.frontiers ++ [info]) }

/-- The store of one member: a conversation it has never touched is in the default state. -/
structure CausalHistoryStore where
  convos : String → ConvoState := fun _ ↦ {}
  missing : List MissingMessage := []
  acks : List DeliveryAck := []

/-- What the code is built against: the Blake2b backend, on the components it is fed, and whether
the build checks integer overflow. -/
structure Build where
  blake2b : List Bytes → Bytes
  overflowChecks : Bool

def Build.blake2bHex (B : Build) (components : List Bytes) : String :=
  hexEncode (B.blake2b components)

def toBeBytes (x : Int32) : Bytes := (leBytes 4 x.toUInt32.toNat).reverse

def deriveMessageId (B : Build) (channelId sender : String) (lamport : Int32) (content : Bytes) :
    String :=
  B.blake2bHex [utf8 "deterministic_frame_id|", utf8 channelId, utf8 "|", utf8 sender, utf8 "|",
    toBeBytes lamport, utf8 "|", content]

-- `lamport_clock += 1`: an overflow panics in a checked build and wraps in the others
def tick (B : Build) (clock : Int32) : Result Infallible Int32 :=
  if B.overflowChecks && clock == Int32.maxValue then .panic else .ok (clock + 1)

def Frontier.entry (f : Frontier) : HistoryEntry :=
  { messageId := f.messageId, senderId := f.sender.toHex, retrievalHint := [] }

namespace CausalHistoryStore

/-- Build the reliability envelope for an outbound message. -/
def onSend (B : Build) (store : CausalHistoryStore) (conversationId : String) (sender : SignerKey)
    (content : Bytes) : Result Infallible (ReliablePayload × CausalHistoryStore) := do
  let state := store.convos conversationId
  let lamport ← tick B state.lamportClock
  let messageId := deriveMessageId B conversationId sender.toHex lamport content
  let causalHistory := state.frontiers.map Frontier.entry
  -- the message joins the seen set and the own set
  let state := { state with lamportClock := lamport, own := insert messageId state.own }
  let state := state.recordSeen ⟨sender, messageId⟩
  .ok ({ messageId := messageId
         senderId := sender.toHex
         channelId := conversationId
         lamportTimestamp := lamport
         causalHistory := causalHistory
         bloomFilter := []
         content := content },
       { store with convos := Function.update store.convos conversationId state })

end CausalHistoryStore

/-- What the loop over a payload's history works on. -/
structure Reception where
  state : ConvoState
  missing : List MissingMessage
  acks : List DeliveryAck
  detected : List MissingMessage

namespace Reception

-- the sender named a message of ours, so it has it
def acknowledge (conversationId : String) (payloadSender entrySender : SignerKey)
    (messageId : String) (r : Reception) : Reception :=
  if messageId ∈ r.state.own ∧ payloadSender ≠ entrySender ∧
      payloadSender ∉ r.state.ackedBy messageId then
    { r with
      state := { r.state with
        ackedBy := Function.update r.state.ackedBy messageId
          (insert payloadSender (r.state.ackedBy messageId)) }
      acks := r.acks ++ [⟨conversationId, messageId, payloadSender⟩] }
  else r

def detect (conversationId : String) (frontier : Frontier) (r : Reception) : Reception :=
  if frontier ∉ r.state.seen ∧ frontier ∉ r.state.reportedMissing then
    { r with
      state := { r.state with reportedMissing := insert frontier r.state.reportedMissing }
      missing := r.missing ++ [⟨conversationId, frontier⟩]
      detected := r.detected ++ [⟨conversationId, frontier⟩] }
  else r

/-- One turn of the loop.  A sender id that is not a hex signer skips the entry. -/
def entry (conversationId : String) (payloadSender : SignerKey) (r : Reception)
    (e : HistoryEntry) : Reception :=
  match SignerKey.tryFrom e.senderId with
  | .error _ => r
  | .ok entrySender =>
      (r.acknowledge conversationId payloadSender entrySender e.messageId).detect conversationId
        ⟨entrySender, e.messageId⟩

end Reception

namespace CausalHistoryStore

/-- Process an inbound reliability envelope: the gaps it reveals, and the store after it. -/
def onReceive (store : CausalHistoryStore) (conversationId : String) (payload : ReliablePayload) :
    List MissingMessage × CausalHistoryStore :=
  match SignerKey.tryFrom payload.senderId with
  | .error _ => ([], store)
  | .ok payloadSender =>
      let state := store.convos conversationId
      let state := { state with lamportClock := max state.lamportClock payload.lamportTimestamp }
      let r := run (Reception.entry conversationId payloadSender)
        ⟨state, store.missing, store.acks, []⟩ payload.causalHistory
      let state := r.state.recordSeen ⟨payloadSender, payload.messageId⟩
      (r.detected,
        { convos := Function.update store.convos conversationId state
          missing := r.missing
          acks := r.acks })

/-- Drain all gaps detected so far. -/
def takeMissing (store : CausalHistoryStore) : List MissingMessage × CausalHistoryStore :=
  (store.missing, { store with missing := [] })

/-- Drain all acknowledgements detected so far. -/
def takeAcks (store : CausalHistoryStore) : List DeliveryAck × CausalHistoryStore :=
  (store.acks, { store with acks := [] })

end CausalHistoryStore

/-! ## What receiving a history does -/

namespace Reception

variable (c : String) (sender : SignerKey)

section Frame

variable (other : SignerKey) (id : String) (f : Frontier) (r : Reception)

-- an acknowledgement touches the acknowledgements only
@[simp] theorem acknowledge_seen : (r.acknowledge c sender other id).state.seen = r.state.seen := by
  unfold acknowledge
  split <;> rfl

@[simp] theorem acknowledge_frontiers :
    (r.acknowledge c sender other id).state.frontiers = r.state.frontiers := by
  unfold acknowledge
  split <;> rfl

@[simp] theorem acknowledge_own : (r.acknowledge c sender other id).state.own = r.state.own := by
  unfold acknowledge
  split <;> rfl

@[simp] theorem acknowledge_reportedMissing :
    (r.acknowledge c sender other id).state.reportedMissing = r.state.reportedMissing := by
  unfold acknowledge
  split <;> rfl

@[simp] theorem acknowledge_missing : (r.acknowledge c sender other id).missing = r.missing := by
  unfold acknowledge
  split <;> rfl

@[simp] theorem acknowledge_detected : (r.acknowledge c sender other id).detected = r.detected := by
  unfold acknowledge
  split <;> rfl

-- and a gap the gaps only
@[simp] theorem detect_seen : (r.detect c f).state.seen = r.state.seen := by
  unfold detect
  split <;> rfl

@[simp] theorem detect_frontiers : (r.detect c f).state.frontiers = r.state.frontiers := by
  unfold detect
  split <;> rfl

@[simp] theorem detect_own : (r.detect c f).state.own = r.state.own := by
  unfold detect
  split <;> rfl

@[simp] theorem detect_ackedBy : (r.detect c f).state.ackedBy = r.state.ackedBy := by
  unfold detect
  split <;> rfl

@[simp] theorem detect_acks : (r.detect c f).acks = r.acks := by
  unfold detect
  split <;> rfl

end Frame

-- what a member writes into a history, another member reads back
@[simp] theorem entry_frontier (r : Reception) (f : Frontier) :
    entry c sender r f.entry = (r.acknowledge c sender f.sender f.messageId).detect c f := by
  rw [entry, Frontier.entry, SignerKey.tryFrom_toHex]

/-- The loop over a history written by a member. -/
def readAll (r : Reception) (history : List Frontier) : Reception :=
  run (entry c sender) r (history.map Frontier.entry)

@[simp] theorem readAll_nil (r : Reception) : readAll c sender r [] = r := rfl

theorem readAll_cons (r : Reception) (f : Frontier) (history : List Frontier) :
    readAll c sender r (f :: history) =
      readAll c sender ((r.acknowledge c sender f.sender f.messageId).detect c f) history := by
  rw [readAll, List.map_cons, run_cons, entry_frontier, readAll]

theorem readAll_tracking (r : Reception) (history : List Frontier) :
    (readAll c sender r history).state.seen = r.state.seen ∧
      (readAll c sender r history).state.frontiers = r.state.frontiers ∧
      (readAll c sender r history).state.own = r.state.own := by
  induction history generalizing r with
  | nil => exact ⟨rfl, rfl, rfl⟩
  | cons f history ih =>
      rw [readAll_cons]
      simpa using ih ((r.acknowledge c sender f.sender f.messageId).detect c f)

/-! ### Gaps -/

/-- The entries of a history that are gaps to this state. -/
def fresh (state : ConvoState) (history : List Frontier) : List Frontier :=
  history.filter fun f ↦ f ∉ state.seen ∧ f ∉ state.reportedMissing

/-- One turn reports its entry exactly when that is a gap. -/
theorem detect_spec (f : Frontier) (r : Reception) :
    (r.detect c f).detected = r.detected ++ (fresh r.state [f]).map (MissingMessage.mk c) ∧
      (r.detect c f).missing = r.missing ++ (fresh r.state [f]).map (MissingMessage.mk c) ∧
      ∀ g, g ∈ (r.detect c f).state.reportedMissing ↔
        g ∈ r.state.reportedMissing ∨ g ∈ fresh r.state [f] := by
  unfold detect
  by_cases hf : f ∉ r.state.seen ∧ f ∉ r.state.reportedMissing
  · have hfresh : fresh r.state [f] = [f] := by simp [fresh, hf]
    rw [if_pos hf, hfresh]
    refine ⟨rfl, rfl, fun g ↦ ?_⟩
    show g ∈ insert f r.state.reportedMissing ↔ _
    rw [Finset.mem_insert, List.mem_singleton, or_comm]
  · have hfresh : fresh r.state [f] = [] := by simp [fresh, hf]
    rw [if_neg hf, hfresh]
    simp

theorem fresh_acknowledge (other : SignerKey) (id : String) (r : Reception)
    (history : List Frontier) :
    fresh (r.acknowledge c sender other id).state history = fresh r.state history := by
  simp [fresh]

-- a report changes nothing for the entries after it, which are other messages
theorem fresh_detect {f : Frontier} {history : List Frontier} (hnot : f ∉ history) (r : Reception) :
    fresh (r.detect c f).state history = fresh r.state history := by
  apply List.filter_congr
  intro g hg
  have hother : g ∉ fresh r.state [f] := by
    intro hin
    have heq : g = f := List.mem_singleton.mp (List.mem_of_mem_filter hin)
    exact hnot (heq ▸ hg)
  simp [(detect_spec c f r).2.2 g, hother]

/-- A loop over a history without repetitions reports exactly its gaps, in order. -/
theorem readAll_detected (history : List Frontier) (hnodup : history.Nodup) (r : Reception) :
    (readAll c sender r history).detected =
        r.detected ++ (fresh r.state history).map (MissingMessage.mk c) ∧
      (readAll c sender r history).missing =
        r.missing ++ (fresh r.state history).map (MissingMessage.mk c) ∧
      ∀ f, f ∈ (readAll c sender r history).state.reportedMissing ↔
        f ∈ r.state.reportedMissing ∨ f ∈ fresh r.state history := by
  induction history generalizing r with
  | nil => simp [fresh]
  | cons f history ih =>
      rcases List.nodup_cons.mp hnodup with ⟨hnot, htail⟩
      have hsplit : fresh r.state (f :: history) = fresh r.state [f] ++ fresh r.state history :=
        List.filter_append [f] history
      have hstep := detect_spec c f (r.acknowledge c sender f.sender f.messageId)
      have hrest := ih htail ((r.acknowledge c sender f.sender f.messageId).detect c f)
      rw [fresh_acknowledge, acknowledge_detected, acknowledge_missing,
        acknowledge_reportedMissing] at hstep
      rw [fresh_detect c hnot, fresh_acknowledge, hstep.1, hstep.2.1] at hrest
      rw [readAll_cons, hrest.1, hrest.2.1, hsplit, List.map_append, List.append_assoc,
        List.append_assoc]
      refine ⟨rfl, rfl, fun g ↦ ?_⟩
      rw [hrest.2.2 g, hstep.2.2 g, List.mem_append, or_assoc]

/-! ### Acknowledgements -/

theorem prefix_acknowledge_acks (other : SignerKey) (id : String) (r : Reception) :
    r.acks <+: (r.acknowledge c sender other id).acks := by
  unfold acknowledge
  split
  · exact List.prefix_append _ _
  · exact List.prefix_rfl

theorem entry_of_error {e : HistoryEntry} {error : SignerError}
    (h : SignerKey.tryFrom e.senderId = .error error) (r : Reception) : entry c sender r e = r := by
  rw [entry, h]

theorem entry_of_ok {e : HistoryEntry} {author : SignerKey}
    (h : SignerKey.tryFrom e.senderId = .ok author) (r : Reception) :
    entry c sender r e =
      (r.acknowledge c sender author e.messageId).detect c ⟨author, e.messageId⟩ := by
  rw [entry, h]

theorem entry_own (r : Reception) (e : HistoryEntry) : (entry c sender r e).state.own = r.state.own := by
  unfold entry
  split <;> simp

theorem prefix_run_acks (history : List HistoryEntry) (r : Reception) :
    r.acks <+: (run (entry c sender) r history).acks := by
  induction history generalizing r with
  | nil => exact List.prefix_rfl
  | cons e history ih =>
      rw [run_cons]
      refine List.IsPrefix.trans ?_ (ih (entry c sender r e))
      cases he : SignerKey.tryFrom e.senderId with
      | error error => rw [entry_of_error c sender he]
      | ok author =>
          rw [entry_of_ok c sender he, detect_acks]
          exact prefix_acknowledge_acks c sender author e.messageId r

/-- The acknowledgements on record are the ones in the list, drained ones first, each once. -/
structure Acked (taken : List DeliveryAck) (r : Reception) : Prop where
  mem_iff : ∀ id key, key ∈ r.state.ackedBy id ↔ ⟨c, id, key⟩ ∈ taken ++ r.acks
  nodup : (taken ++ r.acks).Nodup

theorem Acked.acknowledge {taken : List DeliveryAck} {r : Reception} (h : Acked c taken r)
    (other : SignerKey) (id : String) : Acked c taken (r.acknowledge c sender other id) := by
  unfold Reception.acknowledge
  split
  · rename_i hnew
    have hfresh : ⟨c, id, sender⟩ ∉ taken ++ r.acks := by
      rw [← h.mem_iff]
      exact hnew.2.2
    refine ⟨fun id' key ↦ ?_, ?_⟩
    · show key ∈ Function.update r.state.ackedBy id _ id' ↔ _
      rw [← List.append_assoc, List.mem_append, List.mem_singleton, ← h.mem_iff]
      by_cases hid : id' = id
      · subst hid
        rw [Function.update_self, Finset.mem_insert]
        simp [or_comm]
      · rw [Function.update_of_ne hid]
        simp [hid]
    · show (taken ++ (r.acks ++ [_])).Nodup
      rw [← List.append_assoc]
      exact h.nodup.append (List.nodup_singleton _) (List.disjoint_singleton.mpr hfresh)
  · exact h

theorem Acked.run {taken : List DeliveryAck} {r : Reception} (h : Acked c taken r)
    (history : List HistoryEntry) : Acked c taken (Reasoning.run (entry c sender) r history) := by
  refine run_invariant (fun r e h ↦ ?_) h history
  cases he : SignerKey.tryFrom e.senderId with
  | error error => rwa [entry_of_error c sender he]
  | ok author =>
      rw [entry_of_ok c sender he]
      have hack := Acked.acknowledge c sender h author e.messageId
      exact ⟨by simpa using hack.mem_iff, by simpa using hack.nodup⟩

theorem mem_acknowledge_acks {other : SignerKey} {id : String} {r : Reception} {a : DeliveryAck}
    (h : a ∈ (r.acknowledge c sender other id).acks) :
    a ∈ r.acks ∨ a = ⟨c, id, sender⟩ ∧ id ∈ r.state.own ∧ sender ≠ other := by
  unfold Reception.acknowledge at h
  split at h
  · rename_i hnew
    rcases List.mem_append.mp h with hold | hlast
    · exact .inl hold
    · exact .inr ⟨List.mem_singleton.mp hlast, hnew.1, hnew.2.1⟩
  · exact .inl h

/-- The entry names one of these messages, and another author than `sender`. -/
def Credits (own : Finset String) (e : HistoryEntry) : Prop :=
  e.messageId ∈ own ∧ ∃ author, SignerKey.tryFrom e.senderId = .ok author ∧ sender ≠ author

/-- A new acknowledgement is for an entry that names a message of this member and another author. -/
theorem run_acks_sound (history : List HistoryEntry) (r : Reception) :
    ∀ a ∈ (run (entry c sender) r history).acks, a ∈ r.acks ∨
      ∃ e ∈ history, a = ⟨c, e.messageId, sender⟩ ∧ Credits sender r.state.own e := by
  induction history generalizing r with
  | nil => exact fun a ha ↦ .inl ha
  | cons e history ih =>
      intro a ha
      rw [run_cons] at ha
      rcases ih _ a ha with hturn | ⟨later, hlater, heq, hcredits⟩
      · cases he : SignerKey.tryFrom e.senderId with
        | error error =>
            rw [entry_of_error c sender he] at hturn
            exact .inl hturn
        | ok author =>
            rw [entry_of_ok c sender he, detect_acks] at hturn
            rcases mem_acknowledge_acks c sender hturn with hold | ⟨heq, hown, hne⟩
            · exact .inl hold
            · exact .inr ⟨e, by simp, heq, hown, author, he, hne⟩
      · rw [entry_own] at hcredits
        exact .inr ⟨later, by simp [hlater], heq, hcredits⟩

-- a reception of one conversation leaves the acknowledgements of the others alone
theorem mem_run_acks_of_ne {history : List HistoryEntry} {r : Reception} {a : DeliveryAck}
    (hother : a.conversationId ≠ c) :
    a ∈ (run (entry c sender) r history).acks ↔ a ∈ r.acks := by
  refine ⟨fun ha ↦ ?_, fun ha ↦ (prefix_run_acks c sender history r).subset ha⟩
  rcases run_acks_sound c sender history r a ha with hold | ⟨e, _, heq, _⟩
  · exact hold
  · rw [heq] at hother
    exact absurd rfl hother

theorem readAll_acks_sound (history : List Frontier) (r : Reception) :
    ∀ a ∈ (readAll c sender r history).acks, a ∈ r.acks ∨
      ∃ f ∈ history, a = ⟨c, f.messageId, sender⟩ ∧ f.messageId ∈ r.state.own ∧
        sender ≠ f.sender := by
  intro a ha
  rcases run_acks_sound c sender _ r a ha with hold | ⟨e, he, heq, hown, author, hauthor, hne⟩
  · exact .inl hold
  · rcases List.mem_map.mp he with ⟨f, hf, rfl⟩
    rw [Frontier.entry, SignerKey.tryFrom_toHex] at hauthor
    cases hauthor
    exact .inr ⟨f, hf, heq, hown, hne⟩

/-- A turn adds its sender for the message of ours it names, or finds it on record. -/
theorem mem_acknowledge_ackedBy {other key : SignerKey} {id id' : String} {r : Reception} :
    key ∈ (r.acknowledge c sender other id).state.ackedBy id' ↔
      key ∈ r.state.ackedBy id' ∨ key = sender ∧ id = id' ∧ id ∈ r.state.own ∧ sender ≠ other := by
  by_cases hturn : id ∈ r.state.own ∧ sender ≠ other
  · by_cases hold : sender ∈ r.state.ackedBy id
    · rw [acknowledge, if_neg fun h ↦ h.2.2 hold]
      refine ⟨.inl, fun h ↦ h.elim (fun h ↦ h) ?_⟩
      rintro ⟨rfl, rfl, -⟩
      exact hold
    · rw [acknowledge, if_pos ⟨hturn.1, hturn.2, hold⟩]
      show key ∈ Function.update r.state.ackedBy id (insert sender (r.state.ackedBy id)) id' ↔ _
      by_cases hid : id = id'
      · subst hid
        rw [Function.update_self, Finset.mem_insert]
        simp [hturn, or_comm]
      · rw [Function.update_of_ne (Ne.symm hid)]
        simp [hid]
  · rw [acknowledge, if_neg fun h ↦ hturn ⟨h.1, h.2.1⟩]
    exact ⟨.inl, fun h ↦ h.elim (fun h ↦ h) fun h ↦ absurd h.2.2 hturn⟩

/-- The senders on record after a history are those before it, and its sender for every message of
ours that it names under another author. -/
theorem mem_run_ackedBy {history : List HistoryEntry} {r : Reception} {key : SignerKey} {id : String} :
    key ∈ (run (entry c sender) r history).state.ackedBy id ↔
      key ∈ r.state.ackedBy id ∨
        key = sender ∧ ∃ e ∈ history, e.messageId = id ∧ Credits sender r.state.own e := by
  induction history generalizing r with
  | nil => simp [run]
  | cons e history ih =>
      rw [run_cons, ih, entry_own]
      cases he : SignerKey.tryFrom e.senderId with
      | error error =>
          have hnot : ¬ Credits sender r.state.own e := by
            rintro ⟨-, author, hauthor, -⟩
            rw [he] at hauthor
            cases hauthor
          rw [entry_of_error c sender he]
          simp [hnot]
      | ok author =>
          have hcredits : Credits sender r.state.own e ↔ e.messageId ∈ r.state.own ∧ sender ≠ author := by
            simp [Credits, he]
          rw [entry_of_ok c sender he, detect_ackedBy, mem_acknowledge_ackedBy]
          simp only [List.mem_cons, exists_eq_or_imp, hcredits, or_assoc, and_or_left]

/-- Every entry that names a message of this member and another sender is acknowledged. -/
theorem readAll_acks_complete (history : List Frontier) (r : Reception) {f : Frontier}
    (hf : f ∈ history) (hown : f.messageId ∈ r.state.own) (hne : sender ≠ f.sender) :
    sender ∈ (readAll c sender r history).state.ackedBy f.messageId := by
  refine (mem_run_ackedBy c sender).mpr (.inr ⟨rfl, f.entry, List.mem_map_of_mem hf, rfl, hown, ?_⟩)
  exact ⟨f.sender, SignerKey.tryFrom_toHex f.sender, hne⟩

end Reception

/-! ## What a call does to the store -/

namespace ConvoState

variable (state : ConvoState) (info : Frontier)

@[simp] theorem recordSeen_own : (state.recordSeen info).own = state.own := by
  unfold recordSeen
  split <;> rfl

@[simp] theorem recordSeen_reportedMissing :
    (state.recordSeen info).reportedMissing = state.reportedMissing := by
  unfold recordSeen
  split <;> rfl

@[simp] theorem recordSeen_ackedBy : (state.recordSeen info).ackedBy = state.ackedBy := by
  unfold recordSeen
  split <;> rfl

end ConvoState

namespace CausalHistoryStore

/-- The state a reception starts from. -/
def reception (store : CausalHistoryStore) (c : String) (lamport : Int32) : Reception :=
  { state := { store.convos c with lamportClock := max (store.convos c).lamportClock lamport }
    missing := store.missing
    acks := store.acks
    detected := [] }

/-- A payload whose ids are hex signers is read in full. -/
theorem onReceive_eq (store : CausalHistoryStore) (c : String) {payload : ReliablePayload}
    {sender : SignerKey} {history : List Frontier} (hsender : payload.senderId = sender.toHex)
    (hhistory : payload.causalHistory = history.map Frontier.entry) :
    store.onReceive c payload =
      let r := Reception.readAll c sender (store.reception c payload.lamportTimestamp) history
      (r.detected,
        { convos := Function.update store.convos c
            (r.state.recordSeen ⟨sender, payload.messageId⟩)
          missing := r.missing
          acks := r.acks }) := by
  rw [onReceive, hsender, SignerKey.tryFrom_toHex, hhistory]
  rfl

/-- A send hands out the frontier the store holds, and records the message as its own. -/
theorem onSend_eq_ok {B : Build} {store store' : CausalHistoryStore} {c : String}
    {sender : SignerKey} {content : Bytes} {payload : ReliablePayload}
    (h : store.onSend B c sender content = .ok (payload, store')) :
    payload.senderId = sender.toHex ∧ payload.channelId = c ∧
      payload.causalHistory = (store.convos c).frontiers.map Frontier.entry ∧
      ∃ lamport, store' = { store with
        convos := Function.update store.convos c
          (ConvoState.recordSeen
            { store.convos c with
              lamportClock := lamport, own := insert payload.messageId (store.convos c).own }
            ⟨sender, payload.messageId⟩) } := by
  rcases Result.bind_eq_ok.mp h with ⟨lamport, _, h⟩
  cases h
  exact ⟨rfl, rfl, rfl, lamport, rfl⟩

end CausalHistoryStore

end LogosChat.Conversations
