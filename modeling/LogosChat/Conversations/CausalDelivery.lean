import LogosChat.Conversations.CausalNetwork

/-!
# What members are told

The gaps and the acknowledgements reported to a member, over every run of the network: any number of
members and conversations, with losses, repetitions and reorderings.
-/

namespace LogosChat.Conversations

open Reasoning

variable {μ : Type}

/-- No two sends were given the same message id. -/
def CollisionFree (net : Net μ) : Prop :=
  (net.sent.map (·.payload.messageId)).Nodup

theorem CollisionFree.eq {net : Net μ} (h : CollisionFree net) {s s' : Sent μ} (hs : s ∈ net.sent)
    (hs' : s' ∈ net.sent) (hid : s.payload.messageId = s'.payload.messageId) : s = s' :=
  List.inj_on_of_nodup_map h hs hs' hid

-- with ids that do not collide, a frontier is a message
theorem CollisionFree.delivered_iff {net : Net μ} {signer : μ → SignerKey} (h : CollisionFree net)
    (hinv : net.Inv signer) {s : Sent μ} (hs : s ∈ net.sent) (q : μ) (d : Delivery μ)
    (hd : d ∈ s.knew) :
    d.message.frontier signer ∈ ((net.members q).deliveries s.payload.channelId).map
        (·.message.frontier signer) ↔
      ∃ d' ∈ (net.members q).deliveries s.payload.channelId, d'.message = d.message := by
  rw [List.mem_map]
  refine ⟨fun hmem ↦ ?_, fun hmem ↦ ?_⟩
  · rcases hmem with ⟨d', hd', heq⟩
    rcases ((hinv.readable hs).real d hd).2 with ⟨x, hx, hxd⟩
    rcases (((hinv.members q).convos _).real d' hd').2 with ⟨y, hy, hyd⟩
    have hid : y.payload.messageId = x.payload.messageId := by
      show y.toMessage.payload.messageId = x.toMessage.payload.messageId
      rw [hyd, hxd]
      exact congrArg Frontier.messageId heq
    refine ⟨d', hd', ?_⟩
    rw [← hyd, ← hxd, h.eq hy hx hid]
  · rcases hmem with ⟨d', hd', heq⟩
    exact ⟨d', hd', by rw [heq]⟩

/-! ## Gaps -/

/-- Receiving a payload reports exactly the messages its author had most recently first seen when it
was sent, without those this member sent, received or was told of before.  So a gap names a message
its sender really sent in that conversation, and is reported once. -/
theorem gaps_are_exact [DecidableEq μ] (B : Build) (signer : μ → SignerKey)
    (events : List (Event μ)) (q : μ) :
    let net := Net.after B signer events
    let m := net.members q
    (∀ s ∈ net.sent,
      s.knew ++ [.sent s.toMessage] <+: (net.members s.author).deliveries s.payload.channelId ∧
      (m.store.onReceive s.payload.channelId s.payload).1 =
        ((recent causalHistoryLen (firstSeen (s.knew.map (·.message.frontier signer)))).filter
          fun f ↦ f ∉ (m.deliveries s.payload.channelId).map (·.message.frontier signer) ∧
            ⟨s.payload.channelId, f⟩ ∉ m.gaps).map (MissingMessage.mk s.payload.channelId)) ∧
    (∀ g ∈ m.gaps, ∃ s ∈ net.sent, signer s.author = g.frontier.sender ∧
      s.payload.messageId = g.frontier.messageId ∧ s.payload.channelId = g.conversationId) ∧
    m.gaps.Nodup ∧ m.takenMissing ++ m.store.missing = m.gaps ∧
    (∀ s ∈ net.sent, ∀ g ∈ (m.store.onReceive s.payload.channelId s.payload).1,
      ∀ d ∈ m.deliveries s.payload.channelId, d.message.frontier signer ≠ g.frontier) ∧
    (CollisionFree net → ∀ s ∈ net.sent, ∀ d ∈ s.knew,
      (d.message.frontier signer ∈ (m.deliveries s.payload.channelId).map
          (·.message.frontier signer) ↔
        ∃ d' ∈ m.deliveries s.payload.channelId, d'.message = d.message)) := by
  intro net m
  have hinv : net.Inv signer := Net.after_inv B signer events
  have hm : m.Inv signer q net.sent := hinv.members q
  have hreturned (s : Sent μ) (hs : s ∈ net.sent) :
      (m.store.onReceive s.payload.channelId s.payload).1 = gapsOf signer m s := by
    have hread := Member.receive_eq (m := m) (hinv.readable hs)
    exact (congrArg Prod.fst hread).trans (hm.reading_gaps s).1
  refine ⟨fun s hs ↦ ⟨(hinv.sent s hs).knew, hreturned s hs⟩, ?_, hm.gaps_nodup, hm.gaps_queue, ?_,
    fun hfree s hs d hd ↦ hfree.delivered_iff hinv hs q d hd⟩
  · intro g hg
    rcases hm.gaps_sent g hg with ⟨s, hs, hchannel, hfrontier⟩
    exact ⟨s, hs, congrArg Frontier.sender hfrontier, congrArg Frontier.messageId hfrontier, hchannel⟩
  · intro s hs g hg d hd heq
    rw [hreturned s hs] at hg
    apply (mem_gapsOf hg).2.2.1
    rw [← heq]
    exact List.mem_map.mpr ⟨d, hd, rfl⟩

/-! ## Acknowledgements -/

-- the message an author knew under the id of one of `q`'s own is that message
theorem CollisionFree.known_own {net : Net μ} {signer : μ → SignerKey} (h : CollisionFree net)
    (hinv : net.Inv signer) {carrier own : Sent μ} (hcarrier : carrier ∈ net.sent)
    (hown : own ∈ net.sent) {f : Frontier} (hf : f ∈ history signer carrier.knew)
    (hid : f.messageId = own.payload.messageId) :
    f.sender = signer own.author ∧ carrier.payload.channelId = own.payload.channelId ∧
      ∃ d ∈ carrier.knew, d.message = own.toMessage := by
  rcases mem_history hf with ⟨d, hd, heq⟩
  rcases (hinv.readable hcarrier).real d hd with ⟨hchannel, x, hx, hxd⟩
  have hsame : x = own := by
    apply h.eq hx hown
    show x.toMessage.payload.messageId = _
    rw [hxd, ← hid, ← heq]
    rfl
  subst hsame
  refine ⟨?_, ?_, d, hd, hxd.symm⟩
  · rw [← heq, ← hxd]
    rfl
  · rw [← hchannel, ← hxd]

/-- Where an acknowledgement comes from: a message of `q`, and a payload of another member that had
received it. -/
structure AckSource (net : Net μ) (signer : μ → SignerKey) (q : μ) (a : DeliveryAck)
    (own carrier : Sent μ) : Prop where
  own_mem : own ∈ net.sent
  own_author : own.author = q
  own_channel : own.payload.channelId = a.conversationId
  own_id : own.payload.messageId = a.messageId
  carrier_mem : carrier ∈ net.sent
  other_member : carrier.author ≠ q
  carrier_key : signer carrier.author = a.ackedBy
  carrier_channel : carrier.payload.channelId = a.conversationId
  references : ∃ e ∈ carrier.payload.causalHistory, e.messageId = a.messageId
  had_received : .received own.toMessage ∈ carrier.knew
  carrier_received : .received carrier.toMessage ∈ (net.members q).deliveries a.conversationId

theorem ack_source {net : Net μ} {signer : μ → SignerKey} (hinv : net.Inv signer)
    (hfree : CollisionFree net) {q : μ} {a : DeliveryAck} (ha : a ∈ (net.members q).acks) :
    ∃ own carrier, AckSource net signer q a own carrier := by
  have hm := hinv.members q
  rcases hm.acks_carried a ha with
    ⟨carrier, hcarrier, hreceived, hkey, ⟨x, hx, hid⟩, f, hf, hfid, hne⟩
  rcases (hm.convos _).real _ hx with ⟨hchannel, own, hown, hox⟩
  have hauthor : own.author = q := by
    rw [← (hm.convos _).author x hx, ← (show own.toMessage = x from hox)]
  have hoid : own.payload.messageId = a.messageId := by
    rw [← hid, ← (show own.toMessage = x from hox)]
  rcases hfree.known_own hinv hcarrier hown hf (hfid.trans hoid.symm) with
    ⟨hsender, hsame, d, hd, hdm⟩
  have hother : carrier.author ≠ q := by
    intro heq
    rw [hsender, hauthor, heq] at hne
    exact hne rfl
  have hcchannel : carrier.payload.channelId = a.conversationId :=
    ((hm.convos _).real _ hreceived).1
  refine ⟨own, carrier, hown, hauthor, ?_, hoid, hcarrier, hother, hkey, hcchannel, ?_, ?_, hreceived⟩
  · rw [← hsame, hcchannel]
  · rw [(hinv.sent carrier hcarrier).history]
    exact ⟨f.entry, List.mem_map.mpr ⟨f, hf, rfl⟩, hfid⟩
  · -- its author did not send it, so it received it
    cases d with
    | received message =>
        have heq : message = own.toMessage := hdm
        rw [← heq]
        exact hd
    | sent message =>
        have heq : message = own.toMessage := hdm
        have hin : .sent message ∈ (net.members carrier.author).deliveries carrier.payload.channelId :=
          (hinv.sent carrier hcarrier).knew.subset (List.mem_append_left _ hd)
        have hsent := ((hinv.members carrier.author).convos _).author message hin
        rw [heq] at hsent
        exact absurd (hsent.symm.trans hauthor) hother

-- the id decides the conversation, so a pair of message and peer is one acknowledgement
theorem nodup_ack_pairs {net : Net μ} {signer : μ → SignerKey} (hinv : net.Inv signer)
    (hfree : CollisionFree net) (q : μ) :
    ((net.members q).acks.map fun a ↦ (a.messageId, a.ackedBy)).Nodup := by
  apply List.Nodup.map_on _ (hinv.members q).acks_nodup
  intro a ha b hb heq
  rcases ack_source hinv hfree ha with ⟨own, _, hsource⟩
  rcases ack_source hinv hfree hb with ⟨own', _, hsource'⟩
  have hid : a.messageId = b.messageId := congrArg Prod.fst heq
  have hkey : a.ackedBy = b.ackedBy := congrArg Prod.snd heq
  have hown : own = own' := by
    apply hfree.eq hsource.own_mem hsource'.own_mem
    rw [hsource.own_id, hsource'.own_id, hid]
  have hchannel : a.conversationId = b.conversationId := by
    rw [← hsource.own_channel, ← hsource'.own_channel, hown]
  cases a
  cases b
  cases hid
  cases hkey
  cases hchannel
  rfl

/-- A reference to an own message is acknowledged by the end of the call that receives it, whether
it is the first one or not. -/
theorem ack_of_reference {net : Net μ} {signer : μ → SignerKey} (hinv : net.Inv signer)
    (hsigner : Function.Injective signer) (hfree : CollisionFree net) {carrier own : Sent μ}
    (hcarrier : carrier ∈ net.sent) (hown : own ∈ net.sent) (hother : carrier.author ≠ own.author)
    {e : HistoryEntry} (he : e ∈ carrier.payload.causalHistory)
    (hid : e.messageId = own.payload.messageId) :
    ⟨own.payload.channelId, own.payload.messageId, signer carrier.author⟩ ∈
      ((net.members own.author).receive carrier.toMessage).2.acks := by
  have hm := hinv.members own.author
  rw [(hinv.sent carrier hcarrier).history] at he
  rcases List.mem_map.mp he with ⟨f, hf, hfe⟩
  have hfid : f.messageId = own.payload.messageId := by
    rw [← hid, ← hfe]
    rfl
  rcases hfree.known_own hinv hcarrier hown hf hfid with ⟨hsender, hchannel, _⟩
  have hne : signer carrier.author ≠ f.sender := by
    rw [hsender]
    exact fun heq ↦ hother (hsigner heq)
  -- the message is on the own list of the conversation the reference came in
  have hsent : .sent own.toMessage ∈
      (net.members own.author).deliveries carrier.payload.channelId := by
    have hknew := (hinv.sent own hown).knew
    rw [← hchannel] at hknew
    exact hknew.subset (List.mem_append_right _ (List.mem_singleton_self _))
  have hmine := ((hm.convos _).own f.messageId).mpr ⟨own.toMessage, hsent, hfid.symm⟩
  have hacked := Reception.readAll_acks_complete carrier.payload.channelId (signer carrier.author)
    (history signer carrier.knew) ((net.members own.author).store.reception
      carrier.payload.channelId carrier.payload.lamportTimestamp) hf hmine hne
  rw [Member.receive_eq (hinv.readable hcarrier), ← hchannel, ← hfid]
  exact ((hm.reading_acks carrier).mem_iff _ _).mp hacked

/-- Every acknowledgement a member's store yields is for a message of this member that another member
had received before it sent the payload that refers to it; each pair of message and peer is yielded
once; and every reference to an own message in a received payload is acknowledged. -/
theorem acks_are_exact [DecidableEq μ] (B : Build) (signer : μ → SignerKey)
    (hsigner : Function.Injective signer) (events : List (Event μ))
    (hfree : CollisionFree (Net.after B signer events)) (q : μ) :
    let net := Net.after B signer events
    let m := net.members q
    (∀ a ∈ m.acks, ∃ own carrier, AckSource net signer q a own carrier) ∧
    (m.acks.map fun a ↦ (a.messageId, a.ackedBy)).Nodup ∧
    ∀ carrier ∈ net.sent, carrier.author ≠ q → ∀ own ∈ net.sent, own.author = q →
      (∃ e ∈ carrier.payload.causalHistory, e.messageId = own.payload.messageId) →
      ⟨own.payload.channelId, own.payload.messageId, signer carrier.author⟩ ∈
        (m.receive carrier.toMessage).2.acks := by
  intro net m
  have hinv : net.Inv signer := Net.after_inv B signer events
  refine ⟨fun a ha ↦ ack_source hinv hfree ha, nodup_ack_pairs hinv hfree q, ?_⟩
  intro carrier hcarrier hother own hown hauthor ⟨e, he, hid⟩
  subst hauthor
  exact ack_of_reference hinv hsigner hfree hcarrier hown hother he hid

/-- A build whose ids are the contents, and two members that greet each other. -/
def sampleBuild : Build := ⟨fun components ↦ components.getLastD [], true⟩

def sampleSigner : Bool → SignerKey
  | false => ⟨[1]⟩
  | true => ⟨[2]⟩

def exchange : List (Event Bool) :=
  [.send false "c" [0x68], .receive true 0, .send true "c" [0x69], .receive false 1]

theorem acks_are_exact_exchange :
    ((Net.after sampleBuild sampleSigner exchange).members false).acks =
        [⟨"c", "68", sampleSigner true⟩] ∧
      ∀ a ∈ ((Net.after sampleBuild sampleSigner exchange).members false).acks, ∃ own carrier,
        AckSource (Net.after sampleBuild sampleSigner exchange) sampleSigner false a own carrier := by
  have hsigner : Function.Injective sampleSigner := by
    intro a b
    revert a b
    decide
  have hfree : CollisionFree (Net.after sampleBuild sampleSigner exchange) := by
    unfold CollisionFree
    decide
  exact ⟨by decide, (acks_are_exact sampleBuild sampleSigner hsigner exchange hfree false).1⟩

end LogosChat.Conversations
