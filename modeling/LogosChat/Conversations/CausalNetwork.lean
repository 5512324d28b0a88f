import LogosChat.Conversations.CausalHistory

/-!
# Members of a conversation

Every member has a store of its own.  Payloads come out of `on_send` and may reach any member any
number of times, in any order, or never.  Beside the stores the model keeps the traffic itself: what
each member sent and received, and what each call returned to it.
-/

namespace LogosChat.Conversations

open Reasoning

variable {μ : Type}

/-- A payload and the member that handed it out. -/
structure Message (μ : Type) where
  author : μ
  payload : ReliablePayload

inductive Delivery (μ : Type) where
  | sent (message : Message μ)
  | received (message : Message μ)

def Delivery.message : Delivery μ → Message μ
  | .sent message => message
  | .received message => message

/-- A message, with what its author had sent and received in that conversation before it. -/
structure Sent (μ : Type) extends Message μ where
  knew : List (Delivery μ)

structure Member (μ : Type) where
  store : CausalHistoryStore := {}
  deliveries : String → List (Delivery μ) := fun _ ↦ []
  -- every gap a call has returned to this member
  gaps : List MissingMessage := []
  takenMissing : List MissingMessage := []
  takenAcks : List DeliveryAck := []

/-- Every acknowledgement the store has yielded: the drained ones, then those still queued. -/
def Member.acks (m : Member μ) : List DeliveryAck := m.takenAcks ++ m.store.acks

def Member.deliver (m : Member μ) (c : String) (d : Delivery μ) : String → List (Delivery μ) :=
  Function.update m.deliveries c (m.deliveries c ++ [d])

def Member.send (B : Build) (key : SignerKey) (author : μ) (m : Member μ) (c : String)
    (content : Bytes) : Result Infallible (Sent μ × Member μ) := do
  let (payload, store) ← m.store.onSend B c key content
  let message : Message μ := ⟨author, payload⟩
  .ok (⟨message, m.deliveries c⟩,
    { m with store := store, deliveries := m.deliver c (.sent message) })

def Member.receive (m : Member μ) (message : Message μ) : List MissingMessage × Member μ :=
  let c := message.payload.channelId
  let (detected, store) := m.store.onReceive c message.payload
  (detected, { m with
    store := store
    deliveries := m.deliver c (.received message)
    gaps := m.gaps ++ detected })

structure Net (μ : Type) where
  members : μ → Member μ := fun _ ↦ {}
  sent : List (Sent μ) := []

/-- `receive q k` gives `q` the `k`-th payload that was handed out. -/
inductive Event (μ : Type) where
  | send (p : μ) (conversationId : String) (content : Bytes)
  | receive (q : μ) (k : Nat)
  | takeMissing (q : μ)
  | takeAcks (q : μ)

section Step

variable [DecidableEq μ]

def Net.step (B : Build) (signer : μ → SignerKey) (net : Net μ) : Event μ → Net μ
  | .send p c content =>
      match (net.members p).send B (signer p) p c content with
      | .ok (sent, member) =>
          { members := Function.update net.members p member, sent := net.sent ++ [sent] }
      -- a send that panics hands nothing out
      | _ => net
  | .receive q k =>
      match net.sent[k]? with
      | some s =>
          { net with
            members := Function.update net.members q ((net.members q).receive s.toMessage).2 }
      | none => net
  | .takeMissing q =>
      let m := net.members q
      let (taken, store) := m.store.takeMissing
      { net with
        members := Function.update net.members q
          { m with store := store, takenMissing := m.takenMissing ++ taken } }
  | .takeAcks q =>
      let m := net.members q
      let (taken, store) := m.store.takeAcks
      { net with
        members := Function.update net.members q
          { m with store := store, takenAcks := m.takenAcks ++ taken } }

/-- The network after a sequence of events. -/
def Net.after (B : Build) (signer : μ → SignerKey) (events : List (Event μ)) : Net μ :=
  run (Net.step B signer) {} events

end Step

/-! ## What a member knows -/

section Knowledge

variable (signer : μ → SignerKey)

def Message.frontier (m : Message μ) : Frontier := ⟨signer m.author, m.payload.messageId⟩

/-- The messages most recently first seen among these deliveries, own sends included. -/
def history (deliveries : List (Delivery μ)) : List Frontier :=
  recent causalHistoryLen (firstSeen (deliveries.map (·.message.frontier signer)))

/-- The state of a conversation knows exactly what was sent and received in it. -/
structure Tracks (state : ConvoState) (deliveries : List (Delivery μ)) : Prop where
  seen : ∀ f, f ∈ state.seen ↔ f ∈ deliveries.map (·.message.frontier signer)
  frontiers : state.frontiers = history signer deliveries

variable {signer}

theorem Tracks.recordSeen {state : ConvoState} {deliveries : List (Delivery μ)}
    (h : Tracks signer state deliveries) (d : Delivery μ) :
    Tracks signer (state.recordSeen (d.message.frontier signer)) (deliveries ++ [d]) := by
  have hmem := h.seen (d.message.frontier signer)
  rw [← mem_firstSeen] at hmem
  have hnote : firstSeen ((deliveries ++ [d]).map (·.message.frontier signer)) =
      note (firstSeen (deliveries.map (·.message.frontier signer))) (d.message.frontier signer) := by
    rw [List.map_append, List.map_singleton, firstSeen_append_singleton]
  unfold ConvoState.recordSeen
  by_cases hseen : d.message.frontier signer ∈ state.seen
  · rw [if_pos hseen]
    refine ⟨fun f ↦ ?_, ?_⟩
    · rw [← mem_firstSeen, hnote, mem_note, mem_firstSeen, ← h.seen]
      refine ⟨.inl, fun hf ↦ hf.elim id fun heq ↦ heq ▸ hseen⟩
    · rw [h.frontiers, history, history, hnote, note, if_pos (hmem.mp hseen)]
  · rw [if_neg hseen]
    refine ⟨fun f ↦ ?_, ?_⟩
    · show f ∈ insert _ state.seen ↔ _
      rw [Finset.mem_insert, ← mem_firstSeen, hnote, mem_note, mem_firstSeen, ← h.seen, or_comm]
    · show trimFront causalHistoryLen (state.frontiers ++ [_]) = _
      rw [h.frontiers, history, history, hnote, note, if_neg (fun hin ↦ hseen (hmem.mpr hin)),
        trimFront_eq_recent, recent_recent_append]

theorem nodup_history (deliveries : List (Delivery μ)) : (history signer deliveries).Nodup :=
  (nodup_firstSeen _).sublist (recent_sublist _ _)

theorem mem_history {deliveries : List (Delivery μ)} {f : Frontier}
    (h : f ∈ history signer deliveries) : ∃ d ∈ deliveries, d.message.frontier signer = f := by
  have hmem := (recent_sublist _ _).subset h
  rw [mem_firstSeen] at hmem
  exact List.mem_map.mp hmem

end Knowledge

/-! ## Invariants -/

section Invariants

variable (signer : μ → SignerKey)

/-- A conversation of member `q`: its state, the deliveries in it, and what has been reported. -/
structure ConvoInv (q : μ) (sent : List (Sent μ)) (c : String) (state : ConvoState)
    (deliveries : List (Delivery μ)) (gaps : List MissingMessage) (acks : List DeliveryAck) :
    Prop where
  tracks : Tracks signer state deliveries
  own : ∀ id, id ∈ state.own ↔ ∃ m, .sent m ∈ deliveries ∧ m.payload.messageId = id
  reported : ∀ f, f ∈ state.reportedMissing ↔ ⟨c, f⟩ ∈ gaps
  acked : ∀ id key, key ∈ state.ackedBy id ↔ ⟨c, id, key⟩ ∈ acks
  real : ∀ d ∈ deliveries, d.message.payload.channelId = c ∧ ∃ s ∈ sent, s.toMessage = d.message
  author : ∀ m, .sent m ∈ deliveries → m.author = q

/-- The reference that justifies an acknowledgement: a payload this member received, whose author
knew a message with the id of one this member sent. -/
def Carried (sent : List (Sent μ)) (deliveries : String → List (Delivery μ)) (a : DeliveryAck) :
    Prop :=
  ∃ s ∈ sent, .received s.toMessage ∈ deliveries a.conversationId ∧ signer s.author = a.ackedBy ∧
    (∃ m, .sent m ∈ deliveries a.conversationId ∧ m.payload.messageId = a.messageId) ∧
    ∃ f ∈ history signer s.knew, f.messageId = a.messageId ∧ f.sender ≠ signer s.author

structure Member.Inv (q : μ) (sent : List (Sent μ)) (m : Member μ) : Prop where
  convos : ∀ c, ConvoInv signer q sent c (m.store.convos c) (m.deliveries c) m.gaps m.acks
  gaps_nodup : m.gaps.Nodup
  gaps_queue : m.takenMissing ++ m.store.missing = m.gaps
  gaps_sent : ∀ g ∈ m.gaps, ∃ s ∈ sent, s.payload.channelId = g.conversationId ∧
    s.toMessage.frontier signer = g.frontier
  acks_nodup : m.acks.Nodup
  acks_carried : ∀ a ∈ m.acks, Carried signer sent m.deliveries a

/-- A payload in flight carries the history of what its author knew when it was sent. -/
structure SentInv (deliveries : μ → String → List (Delivery μ)) (s : Sent μ) : Prop where
  senderId : s.payload.senderId = (signer s.author).toHex
  history : s.payload.causalHistory = (history signer s.knew).map Frontier.entry
  knew : s.knew ++ [.sent s.toMessage] <+: deliveries s.author s.payload.channelId

structure Net.Inv (net : Net μ) : Prop where
  members : ∀ q, (net.members q).Inv signer q net.sent
  sent : ∀ s ∈ net.sent, SentInv signer (fun p ↦ (net.members p).deliveries) s

variable {signer}

theorem ConvoInv.mono {q : μ} {sent sent' : List (Sent μ)} {c : String} {state : ConvoState}
    {deliveries : List (Delivery μ)} {gaps gaps' : List MissingMessage} {acks acks' : List DeliveryAck}
    (h : ConvoInv signer q sent c state deliveries gaps acks) (hsent : sent ⊆ sent')
    (hgaps : ∀ f, (⟨c, f⟩ : MissingMessage) ∈ gaps' ↔ ⟨c, f⟩ ∈ gaps)
    (hacks : ∀ id key, (⟨c, id, key⟩ : DeliveryAck) ∈ acks' ↔ ⟨c, id, key⟩ ∈ acks) :
    ConvoInv signer q sent' c state deliveries gaps' acks' where
  tracks := h.tracks
  own := h.own
  reported := fun f ↦ (h.reported f).trans (hgaps f).symm
  acked := fun id key ↦ (h.acked id key).trans (hacks id key).symm
  real := by
    intro d hd
    rcases h.real d hd with ⟨hc, s, hs, heq⟩
    exact ⟨hc, s, hsent hs, heq⟩
  author := h.author

theorem Carried.mono {sent sent' : List (Sent μ)} {deliveries deliveries' : String → List (Delivery μ)}
    {a : DeliveryAck} (h : Carried signer sent deliveries a) (hsent : sent ⊆ sent')
    (hgrow : ∀ c, deliveries c <+: deliveries' c) : Carried signer sent' deliveries' a := by
  rcases h with ⟨s, hs, hreceived, hkey, ⟨m, hm, hid⟩, hhistory⟩
  exact ⟨s, hsent hs, (hgrow _).subset hreceived, hkey, ⟨m, (hgrow _).subset hm, hid⟩, hhistory⟩

theorem Member.Inv.mono {q : μ} {sent sent' : List (Sent μ)} {m : Member μ}
    (h : m.Inv signer q sent) (hsent : sent ⊆ sent') : m.Inv signer q sent' where
  convos := fun c ↦ (h.convos c).mono hsent (fun _ ↦ Iff.rfl) (fun _ _ ↦ Iff.rfl)
  gaps_nodup := h.gaps_nodup
  gaps_queue := h.gaps_queue
  gaps_sent := by
    intro g hg
    rcases h.gaps_sent g hg with ⟨s, hs, hrest⟩
    exact ⟨s, hsent hs, hrest⟩
  acks_nodup := h.acks_nodup
  acks_carried := fun a ha ↦ (h.acks_carried a ha).mono hsent fun _ ↦ List.prefix_rfl

@[simp] theorem Member.deliver_self (m : Member μ) (c : String) (d : Delivery μ) :
    m.deliver c d c = m.deliveries c ++ [d] :=
  Function.update_self _ _ _

theorem Member.deliver_of_ne (m : Member μ) {c c' : String} (d : Delivery μ) (h : c' ≠ c) :
    m.deliver c d c' = m.deliveries c' :=
  Function.update_of_ne h _ _

theorem Member.prefix_deliver (m : Member μ) (c : String) (d : Delivery μ) (c' : String) :
    m.deliveries c' <+: m.deliver c d c' := by
  by_cases hc : c' = c
  · subst hc
    rw [Member.deliver_self]
    exact List.prefix_append _ _
  · rw [Member.deliver_of_ne m d hc]

theorem ConvoInv.real_append {q : μ} {sent sent' : List (Sent μ)} {c : String} {state : ConvoState}
    {deliveries : List (Delivery μ)} {gaps : List MissingMessage} {acks : List DeliveryAck}
    (h : ConvoInv signer q sent c state deliveries gaps acks) (hsent : sent ⊆ sent') {s : Sent μ}
    (hs : s ∈ sent') (hchannel : s.payload.channelId = c) {d : Delivery μ}
    (hd : d.message = s.toMessage) :
    ∀ x ∈ deliveries ++ [d],
      x.message.payload.channelId = c ∧ ∃ s ∈ sent', s.toMessage = x.message := by
  intro x hx
  rcases List.mem_append.mp hx with hold | hnew
  · rcases h.real x hold with ⟨hc, s, hs, heq⟩
    exact ⟨hc, s, hsent hs, heq⟩
  · rw [List.mem_singleton.mp hnew, hd]
    exact ⟨hchannel, s, hs, rfl⟩

/-! ### Sending -/

theorem ConvoInv.send {q : μ} {sent sent' : List (Sent μ)} {c : String} {state : ConvoState}
    {deliveries : List (Delivery μ)} {gaps : List MissingMessage} {acks : List DeliveryAck}
    (h : ConvoInv signer q sent c state deliveries gaps acks) (hsent : sent ⊆ sent') {s : Sent μ}
    (hs : s ∈ sent') (hauthor : s.author = q) (hchannel : s.payload.channelId = c)
    (lamport : Int32) :
    ConvoInv signer q sent' c
      (ConvoState.recordSeen
        { state with lamportClock := lamport, own := insert s.payload.messageId state.own }
        (s.toMessage.frontier signer))
      (deliveries ++ [.sent s.toMessage]) gaps acks where
  tracks := by
    have htracks : Tracks signer
        { state with lamportClock := lamport, own := insert s.payload.messageId state.own }
        deliveries := ⟨h.tracks.seen, h.tracks.frontiers⟩
    exact htracks.recordSeen (.sent s.toMessage)
  own := by
    intro id
    simp only [ConvoState.recordSeen_own, Finset.mem_insert, h.own id, List.mem_append,
      List.mem_singleton, Delivery.sent.injEq]
    refine ⟨fun hid ↦ ?_, fun hid ↦ ?_⟩
    · rcases hid with heq | ⟨m, hm, hid⟩
      · exact ⟨s.toMessage, .inr rfl, heq.symm⟩
      · exact ⟨m, .inl hm, hid⟩
    · rcases hid with ⟨m, hm | heq, hid⟩
      · exact .inr ⟨m, hm, hid⟩
      · subst heq
        exact .inl hid.symm
  reported := by simpa using h.reported
  acked := by simpa using h.acked
  real := h.real_append hsent hs hchannel rfl
  author := by
    intro m hm
    rcases List.mem_append.mp hm with hold | hnew
    · exact h.author m hold
    · cases List.mem_singleton.mp hnew
      exact hauthor

/-- What a successful send hands out, and the member after it. -/
structure SendSpec (signer : μ → SignerKey) (q : μ) (c : String) (m : Member μ) (s : Sent μ)
    (m' : Member μ) : Prop where
  author : s.author = q
  channel : s.payload.channelId = c
  senderId : s.payload.senderId = (signer q).toHex
  knew : s.knew = m.deliveries c
  history : s.payload.causalHistory = (m.store.convos c).frontiers.map Frontier.entry
  deliveries : m'.deliveries = m.deliver c (.sent s.toMessage)

theorem Member.send_spec {B : Build} {q : μ} {m m' : Member μ} {c : String} {content : Bytes}
    {s : Sent μ} (h : m.send B (signer q) q c content = .ok (s, m')) :
    SendSpec signer q c m s m' := by
  rcases Result.bind_eq_ok.mp h with ⟨⟨payload, store⟩, hstore, h⟩
  cases h
  rcases CausalHistoryStore.onSend_eq_ok hstore with ⟨hsender, hchannel, hhistory, _⟩
  exact ⟨rfl, hchannel, hsender, rfl, hhistory, rfl⟩

theorem Member.Inv.send {B : Build} {q : μ} {sent : List (Sent μ)} {m m' : Member μ} {c : String}
    {content : Bytes} {s : Sent μ} (h : m.Inv signer q sent)
    (hsend : m.send B (signer q) q c content = .ok (s, m')) : m'.Inv signer q (sent ++ [s]) := by
  have hsub : sent ⊆ sent ++ [s] := List.subset_append_left _ _
  have hs : s ∈ sent ++ [s] := List.mem_append_right _ (List.mem_singleton_self s)
  rcases Result.bind_eq_ok.mp hsend with ⟨⟨payload, store⟩, hstore, hsend⟩
  cases hsend
  rcases CausalHistoryStore.onSend_eq_ok hstore with ⟨_, hchannel, _, lamport, hstore'⟩
  subst hstore'
  refine ⟨fun c' ↦ ?_, h.gaps_nodup, h.gaps_queue, ?_, h.acks_nodup, ?_⟩
  · by_cases hc : c' = c
    · subst hc
      show ConvoInv signer q _ c' (Function.update m.store.convos c' _ c') (m.deliver c' _ c') _ m.acks
      rw [Function.update_self, Member.deliver_self]
      exact (h.convos c').send hsub hs rfl hchannel lamport
    · show ConvoInv signer q _ c' (Function.update m.store.convos c _ c') (m.deliver c _ c') _ m.acks
      rw [Function.update_of_ne hc, Member.deliver_of_ne m _ hc]
      exact (h.convos c').mono hsub (fun _ ↦ Iff.rfl) (fun _ _ ↦ Iff.rfl)
  · intro g hg
    rcases h.gaps_sent g hg with ⟨s, hs, hrest⟩
    exact ⟨s, hsub hs, hrest⟩
  · intro a ha
    exact (h.acks_carried a ha).mono hsub (m.prefix_deliver c _)

/-! ### Receiving -/

/-- A payload that may be received: it carries what its author knew, all of it really sent. -/
structure Readable (signer : μ → SignerKey) (sent : List (Sent μ)) (s : Sent μ) : Prop where
  mem : s ∈ sent
  senderId : s.payload.senderId = (signer s.author).toHex
  history : s.payload.causalHistory = (history signer s.knew).map Frontier.entry
  real : ∀ d ∈ s.knew, d.message.payload.channelId = s.payload.channelId ∧
    ∃ s' ∈ sent, s'.toMessage = d.message

/-- The gaps a payload reveals to a member: what its author knew, and this member neither sent nor
received and was never told of. -/
def gapsOf (signer : μ → SignerKey) (m : Member μ) (s : Sent μ) : List MissingMessage :=
  ((history signer s.knew).filter fun f ↦
    f ∉ (m.deliveries s.payload.channelId).map (·.message.frontier signer) ∧
      ⟨s.payload.channelId, f⟩ ∉ m.gaps).map (MissingMessage.mk s.payload.channelId)

theorem ConvoInv.receive {q : μ} {sent : List (Sent μ)} {c : String} {state state' : ConvoState}
    {deliveries : List (Delivery μ)} {gaps gaps' : List MissingMessage} {acks acks' : List DeliveryAck}
    (h : ConvoInv signer q sent c state deliveries gaps acks) {s : Sent μ} (hs : s ∈ sent)
    (hchannel : s.payload.channelId = c)
    (htracking : state'.seen = state.seen ∧ state'.frontiers = state.frontiers ∧
      state'.own = state.own)
    (hreported : ∀ f, f ∈ state'.reportedMissing ↔ ⟨c, f⟩ ∈ gaps')
    (hacked : ∀ id key, key ∈ state'.ackedBy id ↔ ⟨c, id, key⟩ ∈ acks') :
    ConvoInv signer q sent c (state'.recordSeen (s.toMessage.frontier signer))
      (deliveries ++ [.received s.toMessage]) gaps' acks' where
  tracks := by
    have htracks : Tracks signer state' deliveries := by
      refine ⟨?_, ?_⟩
      · rw [htracking.1]
        exact h.tracks.seen
      · rw [htracking.2.1]
        exact h.tracks.frontiers
    exact htracks.recordSeen (.received s.toMessage)
  own := by
    intro id
    rw [ConvoState.recordSeen_own, htracking.2.2, h.own id]
    simp
  reported := by simpa using hreported
  acked := by simpa using hacked
  real := h.real_append (List.Subset.refl _) hs hchannel rfl
  author := by
    intro m hm
    simp only [List.mem_append, List.mem_singleton, reduceCtorEq, or_false] at hm
    exact h.author m hm

-- the loop of a reception, run on the history its payload carries
def Member.reading (signer : μ → SignerKey) (m : Member μ) (s : Sent μ) : Reception :=
  Reception.readAll s.payload.channelId (signer s.author)
    (m.store.reception s.payload.channelId s.payload.lamportTimestamp) (history signer s.knew)

theorem Member.receive_eq {sent : List (Sent μ)} {m : Member μ} {s : Sent μ}
    (hs : Readable signer sent s) :
    m.receive s.toMessage = ((m.reading signer s).detected, { m with
      store := {
        convos := Function.update m.store.convos s.payload.channelId
          ((m.reading signer s).state.recordSeen (s.toMessage.frontier signer))
        missing := (m.reading signer s).missing
        acks := (m.reading signer s).acks }
      deliveries := m.deliver s.payload.channelId (.received s.toMessage)
      gaps := m.gaps ++ (m.reading signer s).detected }) := by
  unfold Member.receive
  dsimp only
  rw [CausalHistoryStore.onReceive_eq m.store s.payload.channelId hs.senderId hs.history]
  rfl

theorem Member.Inv.reading_gaps {q : μ} {sent : List (Sent μ)} {m : Member μ}
    (h : m.Inv signer q sent) (s : Sent μ) :
    (m.reading signer s).detected = gapsOf signer m s ∧
      (m.reading signer s).missing = m.store.missing ++ gapsOf signer m s ∧
      ∀ f, f ∈ (m.reading signer s).state.reportedMissing ↔
        ⟨s.payload.channelId, f⟩ ∈ m.gaps ++ gapsOf signer m s := by
  have hc := h.convos s.payload.channelId
  have hfresh : Reception.fresh
      (m.store.reception s.payload.channelId s.payload.lamportTimestamp).state
      (history signer s.knew) = (history signer s.knew).filter fun f ↦
        f ∉ (m.deliveries s.payload.channelId).map (·.message.frontier signer) ∧
          ⟨s.payload.channelId, f⟩ ∉ m.gaps := by
    apply List.filter_congr
    intro f _
    simp only [CausalHistoryStore.reception, hc.tracks.seen f, hc.reported f]
  rcases Reception.readAll_detected s.payload.channelId (signer s.author) _
    (nodup_history s.knew) (m.store.reception s.payload.channelId s.payload.lamportTimestamp) with
    ⟨hdetected, hmissing, hreported⟩
  rw [hfresh] at hdetected hmissing hreported
  refine ⟨hdetected, hmissing, fun f ↦ ?_⟩
  rw [Member.reading, hreported f, List.mem_append, ← hc.reported f, gapsOf]
  simp [CausalHistoryStore.reception]

theorem nodup_gapsOf (m : Member μ) (s : Sent μ) : (gapsOf signer m s).Nodup := by
  apply List.Nodup.map
  · intro f g heq
    exact (MissingMessage.mk.inj heq).2
  · exact (nodup_history s.knew).filter _

theorem mem_gapsOf {m : Member μ} {s : Sent μ} {g : MissingMessage} (h : g ∈ gapsOf signer m s) :
    g.conversationId = s.payload.channelId ∧ g.frontier ∈ history signer s.knew ∧
      g.frontier ∉ (m.deliveries s.payload.channelId).map (·.message.frontier signer) ∧
      g ∉ m.gaps := by
  rcases List.mem_map.mp h with ⟨f, hf, heq⟩
  subst heq
  rcases List.mem_filter.mp hf with ⟨hmem, hcond⟩
  exact ⟨rfl, hmem, of_decide_eq_true hcond⟩

theorem Member.Inv.reading_acks {q : μ} {sent : List (Sent μ)} {m : Member μ}
    (h : m.Inv signer q sent) (s : Sent μ) :
    Reception.Acked s.payload.channelId m.takenAcks (m.reading signer s) := by
  apply Reception.Acked.run
  exact ⟨(h.convos s.payload.channelId).acked, h.acks_nodup⟩

theorem Member.reading_acks_other {m : Member μ} {s : Sent μ} {a : DeliveryAck}
    (hother : a.conversationId ≠ s.payload.channelId) :
    a ∈ m.takenAcks ++ (m.reading signer s).acks ↔ a ∈ m.acks := by
  rw [Member.acks, List.mem_append, List.mem_append]
  exact or_congr_right (Reception.mem_run_acks_of_ne _ _ hother)

theorem Member.Inv.carried_reading {q : μ} {sent : List (Sent μ)} {m : Member μ}
    (h : m.Inv signer q sent) {s : Sent μ} (hs : s ∈ sent) {a : DeliveryAck}
    (ha : a ∈ m.takenAcks ++ (m.reading signer s).acks) :
    Carried signer sent (m.deliver s.payload.channelId (.received s.toMessage)) a := by
  have hold (hin : a ∈ m.acks) :
      Carried signer sent (m.deliver s.payload.channelId (.received s.toMessage)) a :=
    (h.acks_carried a hin).mono (List.Subset.refl _) (m.prefix_deliver _ _)
  rcases List.mem_append.mp ha with htaken | hread
  · exact hold (List.mem_append_left _ htaken)
  · rcases Reception.readAll_acks_sound _ _ _ _ a hread with hqueued | ⟨f, hf, heq, hown, hne⟩
    · exact hold (List.mem_append_right _ hqueued)
    · subst heq
      rcases ((h.convos s.payload.channelId).own f.messageId).mp hown with ⟨x, hx, hid⟩
      have hkept := (m.prefix_deliver s.payload.channelId (.received s.toMessage) _).subset hx
      refine ⟨s, hs, ?_, rfl, ⟨x, hkept, hid⟩, f, hf, rfl, hne.symm⟩
      rw [Member.deliver_self]
      simp

-- the author knew the message, and what a member knows was really sent
theorem Readable.gap_sent {sent : List (Sent μ)} {s : Sent μ} (hs : Readable signer sent s)
    {m : Member μ} {g : MissingMessage} (hg : g ∈ gapsOf signer m s) :
    ∃ s' ∈ sent, s'.payload.channelId = g.conversationId ∧
      s'.toMessage.frontier signer = g.frontier := by
  rcases mem_gapsOf hg with ⟨hchannel, hmem, _⟩
  rcases mem_history hmem with ⟨d, hd, hfrontier⟩
  rcases hs.real d hd with ⟨hc, s', hs', heq⟩
  refine ⟨s', hs', ?_, by rw [heq, hfrontier]⟩
  show s'.toMessage.payload.channelId = _
  rw [heq, hc, hchannel]

theorem Member.Inv.receive_convos {q : μ} {sent : List (Sent μ)} {m : Member μ}
    (h : m.Inv signer q sent) {s : Sent μ} (hs : s ∈ sent) (c : String) :
    ConvoInv signer q sent c
      (Function.update m.store.convos s.payload.channelId
        ((m.reading signer s).state.recordSeen (s.toMessage.frontier signer)) c)
      (m.deliver s.payload.channelId (.received s.toMessage) c) (m.gaps ++ gapsOf signer m s)
      (m.takenAcks ++ (m.reading signer s).acks) := by
  by_cases hc : c = s.payload.channelId
  · subst hc
    rw [Function.update_self, Member.deliver_self]
    exact (h.convos _).receive hs rfl (Reception.readAll_tracking _ _ _ _)
      (h.reading_gaps s).2.2 (h.reading_acks s).mem_iff
  · -- nothing is reported to another conversation
    rw [Function.update_of_ne hc, Member.deliver_of_ne m _ hc]
    apply (h.convos c).mono (List.Subset.refl _)
    · intro f
      rw [List.mem_append]
      refine ⟨fun hf ↦ hf.elim id fun hnew ↦ ?_, .inl⟩
      exact absurd (mem_gapsOf hnew).1 hc
    · intro id key
      exact Member.reading_acks_other hc

theorem Member.Inv.receive {q : μ} {sent : List (Sent μ)} {m : Member μ}
    (h : m.Inv signer q sent) {s : Sent μ} (hs : Readable signer sent s) :
    (m.receive s.toMessage).2.Inv signer q sent := by
  rcases h.reading_gaps s with ⟨hdetected, hmissing, _⟩
  rw [Member.receive_eq hs, hdetected]
  refine ⟨h.receive_convos hs.mem, ?_, ?_, ?_, (h.reading_acks s).nodup,
    fun a ha ↦ h.carried_reading hs.mem ha⟩
  · exact h.gaps_nodup.append (nodup_gapsOf m s) fun g hg hnew ↦ (mem_gapsOf hnew).2.2.2 hg
  · show m.takenMissing ++ (m.reading signer s).missing = m.gaps ++ gapsOf signer m s
    rw [hmissing, ← List.append_assoc, h.gaps_queue]
  · intro g hg
    rcases List.mem_append.mp hg with hold | hnew
    · exact h.gaps_sent g hold
    · exact hs.gap_sent hnew

/-! ### Draining -/

theorem Member.Inv.takeMissing {q : μ} {sent : List (Sent μ)} {m : Member μ}
    (h : m.Inv signer q sent) :
    Member.Inv signer q sent { m with
      store := m.store.takeMissing.2
      takenMissing := m.takenMissing ++ m.store.takeMissing.1 } where
  convos := h.convos
  gaps_nodup := h.gaps_nodup
  gaps_queue := by
    show (m.takenMissing ++ m.store.missing) ++ [] = m.gaps
    rw [List.append_nil, h.gaps_queue]
  gaps_sent := h.gaps_sent
  acks_nodup := h.acks_nodup
  acks_carried := h.acks_carried

theorem Member.Inv.takeAcks {q : μ} {sent : List (Sent μ)} {m : Member μ}
    (h : m.Inv signer q sent) :
    Member.Inv signer q sent { m with
      store := m.store.takeAcks.2
      takenAcks := m.takenAcks ++ m.store.takeAcks.1 } := by
  -- a drained acknowledgement moves from the queue to the end of those taken
  have hacks : (m.takenAcks ++ m.store.acks) ++ [] = m.acks := List.append_nil _
  refine ⟨fun c ↦ ?_, h.gaps_nodup, h.gaps_queue, h.gaps_sent, ?_, ?_⟩
  · show ConvoInv signer q sent c _ _ _ ((m.takenAcks ++ m.store.acks) ++ [])
    rw [hacks]
    exact h.convos c
  · show ((m.takenAcks ++ m.store.acks) ++ []).Nodup
    rw [hacks]
    exact h.acks_nodup
  · show ∀ a ∈ (m.takenAcks ++ m.store.acks) ++ [], Carried signer sent m.deliveries a
    rw [hacks]
    exact h.acks_carried

/-! ### The network -/

theorem SentInv.mono {deliveries deliveries' : μ → String → List (Delivery μ)} {s : Sent μ}
    (h : SentInv signer deliveries s) (hmono : ∀ p c, deliveries p c <+: deliveries' p c) :
    SentInv signer deliveries' s :=
  ⟨h.senderId, h.history, h.knew.trans (hmono _ _)⟩

theorem Net.Inv.readable {net : Net μ} (h : net.Inv signer) {s : Sent μ} (hs : s ∈ net.sent) :
    Readable signer net.sent s := by
  have hinv := h.sent s hs
  refine ⟨hs, hinv.senderId, hinv.history, fun d hd ↦ ?_⟩
  apply ((h.members s.author).convos s.payload.channelId).real
  exact hinv.knew.subset (List.mem_append_left _ hd)

section Runs

variable [DecidableEq μ]

/-- A step of one member: its own deliveries grow, and nothing else does. -/
theorem Net.Inv.update {net : Net μ} (h : net.Inv signer) {q : μ} {m : Member μ}
    {sent : List (Sent μ)} (hsent : net.sent ⊆ sent) (hm : m.Inv signer q sent)
    (hgrow : ∀ c, (net.members q).deliveries c <+: m.deliveries c)
    (hnew : ∀ s ∈ sent, s ∈ net.sent ∨
      SentInv signer (fun p ↦ (Function.update net.members q m p).deliveries) s) :
    Net.Inv signer ⟨Function.update net.members q m, sent⟩ where
  members := by
    intro p
    show (Function.update net.members q m p).Inv signer p sent
    by_cases hp : p = q
    · subst hp
      rw [Function.update_self]
      exact hm
    · rw [Function.update_of_ne hp]
      exact (h.members p).mono hsent
  sent := by
    intro s hs
    rcases hnew s hs with hold | hinv
    · apply (h.sent s hold).mono
      intro p c
      show (net.members p).deliveries c <+: (Function.update net.members q m p).deliveries c
      by_cases hp : p = q
      · subst hp
        rw [Function.update_self]
        exact hgrow c
      · rw [Function.update_of_ne hp]
    · exact hinv

theorem Net.Inv.update_member {net : Net μ} (h : net.Inv signer) {q : μ} {m : Member μ}
    (hm : m.Inv signer q net.sent) (hgrow : ∀ c, (net.members q).deliveries c <+: m.deliveries c) :
    Net.Inv signer { net with members := Function.update net.members q m } :=
  h.update (List.Subset.refl _) hm hgrow fun _ hs ↦ .inl hs

-- the payload handed out carries the frontier of what its author had sent and received by then
theorem Net.Inv.send {B : Build} {net : Net μ} (h : net.Inv signer) {p : μ} {c : String}
    {content : Bytes} {s : Sent μ} {m : Member μ}
    (hsend : (net.members p).send B (signer p) p c content = .ok (s, m)) :
    Net.Inv signer ⟨Function.update net.members p m, net.sent ++ [s]⟩ := by
  have hspec := Member.send_spec hsend
  apply h.update (List.subset_append_left _ _) ((h.members p).send hsend)
  · intro c'
    rw [hspec.deliveries]
    exact Member.prefix_deliver _ _ _ c'
  · intro s' hs'
    rcases List.mem_append.mp hs' with hold | hnew
    · exact .inl hold
    · rw [List.mem_singleton.mp hnew]
      have htracks := ((h.members p).convos c).tracks
      refine .inr ⟨?_, ?_, ?_⟩
      · rw [hspec.senderId, hspec.author]
      · rw [hspec.history, htracks.frontiers, hspec.knew]
      · show _ <+: (Function.update net.members p m s.author).deliveries s.payload.channelId
        rw [hspec.author, Function.update_self, hspec.deliveries, hspec.channel,
          Member.deliver_self, hspec.knew]

theorem Net.Inv.receive {net : Net μ} (h : net.Inv signer) {s : Sent μ} (hs : s ∈ net.sent) (q : μ) :
    Net.Inv signer { net with
      members := Function.update net.members q ((net.members q).receive s.toMessage).2 } := by
  have hread := h.readable hs
  apply h.update_member ((h.members q).receive hread)
  intro c
  rw [Member.receive_eq hread]
  exact Member.prefix_deliver _ _ _ c

theorem Net.Inv.step {B : Build} {net : Net μ} (h : net.Inv signer) (e : Event μ) :
    (net.step B signer e).Inv signer := by
  unfold Net.step
  cases e with
  | send p c content =>
      dsimp only
      split
      · rename_i s m hsend
        exact h.send hsend
      · exact h
  | receive q k =>
      dsimp only
      split
      · rename_i s hs
        exact h.receive (List.mem_of_getElem? hs) q
      · exact h
  | takeMissing q => exact h.update_member (h.members q).takeMissing fun _ ↦ List.prefix_rfl
  | takeAcks q => exact h.update_member (h.members q).takeAcks fun _ ↦ List.prefix_rfl

theorem Net.after_inv (B : Build) (signer : μ → SignerKey) (events : List (Event μ)) :
    (Net.after B signer events).Inv signer := by
  apply run_invariant
  · intro net e h
    exact h.step e
  · refine ⟨fun q ↦ ⟨fun c ↦ ?_, List.nodup_nil, rfl, nofun, List.nodup_nil, nofun⟩, nofun⟩
    exact ⟨⟨by simp, rfl⟩, by simp, by simp, by simp [Member.acks], nofun, nofun⟩

end Runs

end Invariants

end LogosChat.Conversations
