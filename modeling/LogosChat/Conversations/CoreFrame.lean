import LogosChat.Conversations.Frame

/-!
# What the core leaves alone

A call that neither creates a conversation nor joins one writes no record and unloads nothing.  A
call that invites nobody asks for no package, hands none over, and sends a welcome only to a joiner
whose invite was outstanding.
-/

namespace LogosChat.Conversations

open Reasoning

variable {P : Platform} {C ε α : Type} {allowed : SignerKey → Prop}

/-! ## On the services -/

abbrev ServiceContext.records (cx : ServiceContext P) : List ConversationMeta := cx.store.records

theorem Publishes.records {cx cx' : ServiceContext P} (h : Publishes allowed cx cx') :
    cx'.records = cx.records := by
  have hapart := congrArg ServiceContext.records h.apart
  exact hapart

-- the relation of a call in a conversation
abbrev SameRecords : InSession P C → InSession P C → Prop := Call.Same (·.cx.records)

/-- What is published on the way is no invite but to those allowed, and no record is written. -/
structure Serves (allowed : SignerKey → Prop) (cx cx' : ServiceContext P) : Prop
    extends Mails allowed cx cx' where
  records : cx'.records = cx.records

instance (allowed : SignerKey → Prop) : IsPreorder (ServiceContext P) (Serves allowed) where
  refl cx := ⟨refl cx, rfl⟩
  trans _ _ _ hab hbc :=
    ⟨IsTrans.trans _ _ _ hab.toMails hbc.toMails, hbc.records.trans hab.records⟩

theorem Publishes.serves {cx cx' : ServiceContext P} (h : Publishes allowed cx cx') :
    Serves allowed cx cx' :=
  ⟨h.mails, h.records⟩

-- a request that only reads the store
theorem serves_request {f : List ConversationMeta → α × List ConversationMeta}
    (h : ∀ records, (f records).2 = records) :
    (ServiceContext.onStore (ConversationStore.request f)).Keeps (Serves (P := P) allowed) := by
  intro cx
  refine ⟨⟨rfl, rfl, [], (List.append_nil _).symm, invitesOnly_nil⟩, ?_⟩
  show (ConversationStore.request f cx.store).2.records = cx.store.records
  unfold ConversationStore.request
  split
  · exact h cx.store.records
  · rfl

theorem serves_loadConvo (convoId : String) : (loadConvo convoId).Keeps (Serves (P := P) allowed) := by
  have hload : (ServiceContext.onStore (ConversationStore.loadConversation convoId)).Keeps
      (Serves (P := P) allowed) := serves_request fun _ ↦ rfl
  refine hload.mapErr.bind fun record ↦ ?_
  split
  · exact Call.keeps_fail _
  split
  · exact Call.keeps_fail _
  split
  · exact Call.keeps_fail _
  · refine Call.Keeps.bind ?_ fun _ ↦ Call.keeps_pure _
    exact (GroupV1.keeps_load _ _).mono fun _ _ h ↦ h.serves

/-- What is rebuilt from the store has no invite outstanding. -/
theorem loadConvo_outstanding {convoId : String} {cx cx' : ServiceContext P} {convo : GroupConvo P}
    (h : loadConvo convoId cx = (.ok convo, cx')) (signer : SignerKey) : ¬ convo.Outstanding signer := by
  obtain ⟨record, cx₁, -, h⟩ := Call.bind_eq_ok h
  cases record with
  | none => cases h
  | some record =>
      obtain ⟨localConvoId, kind⟩ := record
      cases kind with
      | unknown value => cases h
      | groupV1 =>
          dsimp only at h
          cases hid : hexDecode localConvoId with
          | none =>
              rw [hid] at h
              cases h
          | some groupId =>
              rw [hid] at h
              obtain ⟨loaded, _, -, h⟩ := Call.bind_eq_ok h
              cases h
              exact id

namespace Core

/-! ## The conversations loaded -/

/-- No record is new, and whatever was loaded still is. -/
structure Retains (c c' : Core P) : Prop where
  records : c'.services.records = c.services.records
  cached : ∀ convoId ∈ c.cachedConvos, convoId ∈ c'.cachedConvos

instance : IsPreorder (Core P) Retains where
  refl _ := ⟨rfl, fun _ h ↦ h⟩
  trans _ _ _ hab hbc :=
    ⟨hbc.records.trans hab.records, fun convoId h ↦ hbc.cached convoId (hab.cached convoId h)⟩

/-- The invite of this signer is outstanding in a loaded conversation. -/
def Outstanding (c : Core P) (signer : SignerKey) : Prop :=
  ∃ entry ∈ c.cachedConvos.entries, entry.2.convo.Outstanding signer

/-- When every invite outstanding before is allowed, so is every one after, and every one sent. -/
def Heeds (allowed : SignerKey → Prop) (c c' : Core P) : Prop :=
  (∀ signer, c.Outstanding signer → allowed signer) →
    (∀ signer, c'.Outstanding signer → allowed signer) ∧ Mails allowed c.services c'.services

instance (allowed : SignerKey → Prop) : IsPreorder (Core P) (Heeds allowed) where
  refl c h := ⟨h, refl c.services⟩
  trans _ _ _ hab hbc h :=
    have hb := hab h
    have hc := hbc hb.1
    ⟨hc.1, IsTrans.trans _ _ _ hb.2 hc.2⟩

/-- Both. -/
structure Tends (allowed : SignerKey → Prop) (c c' : Core P) : Prop where
  retains : Retains c c'
  heeds : Heeds allowed c c'

instance (allowed : SignerKey → Prop) : IsPreorder (Core P) (Tends allowed) where
  refl c := ⟨refl c, refl c⟩
  trans _ _ _ hab hbc :=
    ⟨IsTrans.trans _ _ _ hab.retains hbc.retains, IsTrans.trans _ _ _ hab.heeds hbc.heeds⟩

theorem onServices_of_eq {c : Core P} {m : Call (ServiceContext P) ε α} {r : Result ε α}
    {cx : ServiceContext P} (h : m c.services = (r, cx)) :
    onServices m c = (r, { c with services := cx }) :=
  Call.on_of_eq h

theorem tends_onServices {m : Call (ServiceContext P) ε α} (h : m.Keeps (Serves allowed)) :
    (onServices m).Keeps (Tends allowed) := by
  intro c
  have hserves := h c.services
  exact ⟨⟨hserves.records, fun _ hmem ↦ hmem⟩, fun hc ↦ ⟨hc, hserves.toMails⟩⟩

/-! ### A call on a loaded conversation -/

theorem mem_kreplace {κ : Type} {β : κ → Type} [DecidableEq κ] {a : κ} {b : β a} {entry : Sigma β}
    {entries : List (Sigma β)} (h : entry ∈ entries.kreplace a b) : entry = ⟨a, b⟩ ∨ entry ∈ entries := by
  induction entries with
  | nil => cases h
  | cons other entries ih =>
      rw [List.kreplace, List.lookmap_cons] at h
      by_cases hsame : a = other.1
      · rw [if_pos hsame] at h
        obtain hnew | hmem := List.mem_cons.mp h
        · exact .inl hnew
        · exact .inr (List.mem_cons_of_mem _ hmem)
      · rw [if_neg hsame] at h
        obtain rfl | hmem := List.mem_cons.mp h
        · exact .inr List.mem_cons_self
        · exact (ih hmem).imp_right (List.mem_cons_of_mem _)

theorem outstanding_of_lookup {c : Core P} {convoId : String} {owned : ConvoTypeOwned P}
    (h : c.cachedConvos.lookup convoId = some owned) {signer : SignerKey}
    (hout : owned.convo.Outstanding signer) : c.Outstanding signer :=
  ⟨⟨convoId, owned⟩, AList.mem_lookup_iff.mp h, hout⟩

theorem outstanding_replace {c : Core P} {cx : ServiceContext P} {convoId : String}
    {owned : ConvoTypeOwned P} {convo : GroupConvo P} {signer : SignerKey}
    (h : Outstanding { c with
      services := cx
      cachedConvos := c.cachedConvos.replace convoId (owned.put convo) } signer) :
    convo.Outstanding signer ∨ c.Outstanding signer := by
  obtain ⟨entry, hmem, hout⟩ := h
  obtain rfl | hmem := mem_kreplace hmem
  · apply Or.inl
    cases owned <;> exact hout
  · exact .inr ⟨entry, hmem, hout⟩

theorem retains_onCached {convoId : String} {absent : Call (Core P) ε α}
    {m : ConvoTypeOwned P → Call (InSession P (GroupConvo P)) ε α} (habsent : absent.Keeps Retains)
    (hm : ∀ owned, (m owned).Keeps SameRecords) : (onCached convoId absent m).Keeps Retains := by
  intro c
  unfold onCached
  split
  · exact habsent c
  · case h_2 owned _ =>
      refine ⟨hm owned ⟨owned.convo, c.services⟩, fun other hmem ↦ ?_⟩
      exact AList.mem_replace.mpr hmem

theorem tends_onCached {convoId : String} {absent : Call (Core P) ε α}
    {m : ConvoTypeOwned P → Call (InSession P (GroupConvo P)) ε α} (habsent : absent.Keeps (Tends allowed))
    (hm : ∀ allowed owned, (m owned).Keeps (Minds GroupConvo.Outstanding allowed)) :
    (onCached convoId absent m).Keeps (Tends allowed) := by
  intro c
  constructor
  · -- the records are kept whatever is outstanding
    refine retains_onCached (habsent.mono fun _ _ h ↦ h.retains) (fun owned ↦ ?_) c
    exact (hm (fun _ ↦ True) owned).mono fun _ _ h ↦ (h fun _ _ ↦ trivial).2.records
  · intro hc
    unfold onCached
    split
    · exact (habsent c).heeds hc
    · case h_2 owned hlookup =>
        have hminds := hm allowed owned ⟨owned.convo, c.services⟩ fun signer hout ↦
          hc signer (outstanding_of_lookup hlookup hout)
        refine ⟨fun signer hout ↦ ?_, hminds.2.mails⟩
        obtain hconvo | hbefore := outstanding_replace hout
        · exact hminds.1 signer hconvo
        · exact hc signer hbefore

/-! ### The calls that invite nobody -/

theorem tends_onConvo {m : Call (InSession P (GroupConvo P)) ChatError α}
    (h : ∀ allowed, m.Keeps (Minds GroupConvo.Outstanding allowed)) (convoId : String) :
    (onConvo convoId m).Keeps (Tends allowed) := by
  refine tends_onCached (tends_onServices ?_) fun allowed _ ↦ h allowed
  refine Call.Keeps.bind_of_ok (serves_loadConvo convoId) fun cx convo cx' hload ↦ ?_
  have hnone : ∀ signer, convo.Outstanding signer → allowed signer :=
    fun signer hout ↦ absurd hout (loadConvo_outstanding hload signer)
  exact (h allowed ⟨convo, cx'⟩ hnone).2.serves

theorem tends_sendContent (convoId : String) (content : Bytes) :
    (sendContent convoId content).Keeps (Tends (P := P) allowed) :=
  tends_onConvo (fun _ ↦ GroupConvo.minds_sendContent content) convoId

theorem tends_dispatchToConvo (convoId : String) (payload : Bytes) :
    (dispatchToConvo convoId payload).Keeps (Tends (P := P) allowed) := by
  refine Call.Keeps.bind ?_ fun _ ↦ Call.keeps_pure _
  exact tends_onConvo (fun _ ↦ GroupConvo.minds_handlePayload payload) convoId

theorem tends_hasConversation (convoId : String) :
    (onServices ((ServiceContext.onStore
      (ConversationStore.hasConversation convoId)).mapErr ChatError.storage)).Keeps
      (Tends (P := P) allowed) := by
  apply tends_onServices
  exact Call.Keeps.mapErr (serves_request fun _ ↦ rfl)

theorem tends_groupRemoveSigners (convoId : String) (members : List SignerKey) :
    (groupRemoveSigners convoId members).Keeps (Tends (P := P) allowed) := by
  refine tends_onCached (Call.keeps_fail _) fun allowed owned ↦ ?_
  cases owned with
  | direct convo => exact Call.keeps_fail _
  | group convo => exact GroupConvo.minds_removeSigner members

theorem tends_groupRemoveParticipants (convoId : String) (participants : List ParticipantId) :
    (groupRemoveParticipants convoId participants).Keeps (Tends (P := P) allowed) := by
  refine (Call.keeps_read _).bind fun found ↦ ?_
  cases found with
  | none => exact Call.keeps_fail _
  | some owned =>
      exact (Call.keeps_ofResult _).bind fun _ ↦ tends_groupRemoveSigners convoId _

theorem tends_wakeup (convoId : String) : (wakeup convoId).Keeps (Tends (P := P) allowed) := by
  refine (Call.keeps_read _).bind fun c ↦ ?_
  split
  · exact Call.keeps_fail _
  split
  · refine Call.Keeps.bind ?_ fun _ ↦ Call.keeps_pure _
    exact tends_onCached (Call.keeps_fail _) fun _ _ ↦ GroupConvo.minds_wakeup
  · exact Call.keeps_pure _

theorem tends_listAllConversations : listAllConversations.Keeps (Tends (P := P) allowed) := by
  refine Call.Keeps.bind ?_ fun _ ↦ (Call.keeps_read _).bind fun _ ↦ Call.keeps_pure _
  exact tends_onServices (Call.Keeps.mapErr (serves_request fun _ ↦ rfl))

/-! ### Loading a conversation -/

theorem retains_registerConvo (owned : ConvoTypeOwned P) : (registerConvo owned).Keeps Retains := by
  refine (Call.keeps_read _).bind fun _ ↦ ?_
  split
  · exact Call.keeps_fail _
  · exact fun c ↦ ⟨rfl, fun _ hmem ↦ (AList.mem_insert _).mpr (.inr hmem)⟩

theorem outstanding_registerConvo {c : Core P} {owned : ConvoTypeOwned P} {signer : SignerKey}
    (h : (registerConvo owned c).2.Outstanding signer) :
    owned.convo.Outstanding signer ∨ c.Outstanding signer := by
  unfold registerConvo at h
  rw [Call.read_bind] at h
  by_cases hcached : owned.convo.id ∈ c.cachedConvos
  · rw [if_pos hcached] at h
    exact .inr h
  · rw [if_neg hcached] at h
    obtain ⟨entry, hmem, hout⟩ := h
    have hentries : entry ∈ (c.cachedConvos.insert owned.convo.id owned).entries := hmem
    rw [AList.entries_insert_of_notMem hcached] at hentries
    obtain rfl | hmem := List.mem_cons.mp hentries
    · exact .inl hout
    · exact .inr ⟨entry, hmem, hout⟩

theorem registerConvo_services (owned : ConvoTypeOwned P) (c : Core P) :
    (registerConvo owned c).2.services = c.services := by
  unfold registerConvo
  rw [Call.read_bind]
  split <;> rfl

theorem heeds_registerConvo {owned : ConvoTypeOwned P}
    (h : ∀ signer, owned.convo.Outstanding signer → allowed signer) :
    (registerConvo owned).Keeps (Heeds allowed) := by
  intro c hc
  rw [registerConvo_services]
  refine ⟨fun signer hout ↦ ?_, refl c.services⟩
  obtain howned | hbefore := outstanding_registerConvo hout
  · exact h signer howned
  · exact hc signer hbefore

/-! ### Resolving participants -/

section Resolving

variable {c : Core P} {participants : List ParticipantId} {signers : List SignerKey} {error : String}
  {make : List SignerKey → Call (ServiceContext P) ChatError (ConvoTypeOwned P)}

theorem getSignersForParticipants_of_ok (h : signersFor c.services.auth participants = .ok signers) :
    getSignersForParticipants participants c = (.ok signers, c) := by
  unfold getSignersForParticipants
  rw [Call.read_bind, h]
  rfl

theorem getSignersForParticipants_of_error (h : signersFor c.services.auth participants = .error error) :
    getSignersForParticipants participants c = (.err (.participantResolution error), c) := by
  unfold getSignersForParticipants
  rw [Call.read_bind, h]
  rfl

theorem createConvo_of_resolved (h : signersFor c.services.auth participants = .ok signers) :
    createConvo make participants c = (onServices (make signers) >>= fun owned ↦
      registerConvo owned >>= fun _ ↦ pure owned.convo.id) c :=
  Call.bind_of_ok (getSignersForParticipants_of_ok h)

theorem createConvo_of_unresolved (h : signersFor c.services.auth participants = .error error) :
    createConvo make participants c = (.err (.participantResolution error), c) :=
  Call.bind_of_err (getSignersForParticipants_of_error h)

theorem groupAddParticipants_of_resolved (h : signersFor c.services.auth participants = .ok signers)
    (convoId : String) : groupAddParticipants convoId participants c = groupAddSigners convoId signers c :=
  Call.bind_of_ok (getSignersForParticipants_of_ok h)

theorem groupAddParticipants_of_unresolved
    (h : signersFor c.services.auth participants = .error error) (convoId : String) :
    groupAddParticipants convoId participants c = (.err (.participantResolution error), c) :=
  Call.bind_of_err (getSignersForParticipants_of_error h)

end Resolving

end Core

end LogosChat.Conversations
