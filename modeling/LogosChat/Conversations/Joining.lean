import LogosChat.Conversations.Records
import LogosChat.Conversations.Welcomes

/-!
# Joining by an invite

The core that invites: each invite it sends leads to a conversation that it has loaded, unless it was
sent by a call that was to create one and failed.  The core that is invited: its inbox takes an invite up
exactly when the welcome in it lets it join, under an id that is not loaded yet, and the services go
along with it; then the conversation it has is the one that the invite leads to.
-/

namespace LogosChat.Conversations

open Reasoning

variable {P : Platform} {ε α β : Type} {N : P.demls.Naming}

/-! ## Conversations of every kind -/

namespace GroupConvo

variable {label : GroupKind × String} {Q : α → Prop}

/-- The conversation goes by this id, and so does what it admits to. -/
def Home (N : P.demls.Naming) (id : String) : GroupConvo P → Prop
  | .v1 convo => Housed GroupV1.key id convo
  | .v2 convo => GroupV2.Home N id convo
  | .v3 convo => Housed GroupV3.key id convo

/-- At home, and of this kind. -/
abbrev At (N : P.demls.Naming) (label : GroupKind × String) (convo : GroupConvo P) : Prop :=
  convo.Home N label.2 ∧ convo.kind = label.1

theorem Home.id_eq {id : String} {convo : GroupConvo P} (h : convo.Home N id) : convo.id = id := by
  cases convo with
  | v1 convo => exact h.1
  | v2 convo => exact h.convoId
  | v3 convo => exact h.1

theorem At.label_eq {convo : GroupConvo P} (h : convo.At N label) : convo.label = label :=
  Prod.ext h.2 h.1.id_eq

theorem hosts_dispatch {v1 : Call (InSession P (GroupV1Convo P)) ε α}
    {v2 : Call (InSession P (GroupV2Convo P)) ε α} {v3 : Call (InSession P (GroupV3Convo P)) ε α}
    (h1 : Hosts (Housed GroupV1.key label.2) (.v1, label.2) Q v1)
    (h2 : Hosts (GroupV2.Home N label.2) (.v2, label.2) Q v2)
    (h3 : Hosts (Housed GroupV3.key label.2) (.v3, label.2) Q v3) :
    Hosts (At N label) label Q (dispatch v1 v2 v3) := by
  obtain ⟨kind, id⟩ := label
  rintro ⟨convo, cx⟩ ⟨hhome, hkind⟩
  cases convo with
  | v1 convo =>
      cases hkind
      obtain ⟨hhome', hbids, hQ⟩ := h1 ⟨convo, cx⟩ hhome
      exact ⟨⟨hhome', rfl⟩, hbids, hQ⟩
  | v2 convo =>
      cases hkind
      obtain ⟨hhome', hbids, hQ⟩ := h2 ⟨convo, cx⟩ hhome
      exact ⟨⟨hhome', rfl⟩, hbids, hQ⟩
  | v3 convo =>
      cases hkind
      obtain ⟨hhome', hbids, hQ⟩ := h3 ⟨convo, cx⟩ hhome
      exact ⟨⟨hhome', rfl⟩, hbids, hQ⟩

theorem hosts_sendContent (content : Bytes) : Hosts (At N label) label (fun _ ↦ True) (sendContent content) :=
  hosts_dispatch (GroupV1.hosts_sendContent content) (GroupV2.hosts_sendContent content)
    (GroupV3.hosts_sendContent content)

theorem hosts_handlePayload (payload : Bytes) :
    Hosts (At N label) label (fun _ ↦ True) (handlePayload payload) :=
  hosts_dispatch (GroupV1.hosts_handlePayload payload) (GroupV2.hosts_handlePayload payload)
    (GroupV3.hosts_handlePayload payload)

theorem hosts_wakeup : Hosts (At N label) label (fun _ ↦ True) wakeup :=
  hosts_dispatch (Call.meets_read_any _) GroupV2.hosts_wakeup (Call.meets_read_any _)

theorem hosts_addSigner (hM : P.mls.Admits) (members : List SignerKey) :
    Hosts (At N label) label (fun _ ↦ True) (addSigner members) :=
  hosts_dispatch (GroupV1.hosts_addSigner hM members) (GroupV2.hosts_addSigner members)
    (GroupV3.hosts_addSigner hM members)

theorem hosts_removeSigner (members : List SignerKey) :
    Hosts (At N label) label (fun _ ↦ True) (removeSigner members) :=
  hosts_dispatch (GroupV1.hosts_removeSigner members) (GroupV2.hosts_removeSigner members)
    (Call.meets_ofResult_any _)

end GroupConvo

/-! ## Making a conversation -/

abbrev nowhere : GroupKind × String → Prop := fun _ ↦ False

theorem bids_draw : (ServiceContext.draw : Call (ServiceContext P) ε _).Keeps (Bids nowhere) :=
  fun _ ↦ .of_same rfl

/-- A call on the services that tells of nothing but what it publishes. -/
theorem meets_services {those : GroupKind × String → Prop} {m : Call (ServiceContext P) ε α}
    (h : m.Keeps (Bids those)) : m.Meets (fun _ ↦ True) (Bids those) fun _ ↦ True :=
  fun cx _ ↦ ⟨trivial, h cx, fun _ _ ↦ trivial⟩

/-- What the call makes is at home, and on the way to it nobody was invited anywhere else. -/
def Founds (N : P.demls.Naming) (convoOf : α → GroupConvo P) (m : Call (ServiceContext P) ε α) : Prop :=
  ∀ cx, Bids (fun _ ↦ True) cx (m cx).2 ∧ ∀ made, (m cx).1 = .ok made →
    (convoOf made).Home N (convoOf made).id ∧ Bids (· = (convoOf made).label) cx (m cx).2

section Founds

variable {convoOf : α → GroupConvo P}

theorem founds_of_meets (label : GroupKind × String) {m : Call (ServiceContext P) ε α}
    (h : m.Meets (fun _ ↦ True) (Bids (· = label)) fun made ↦ (convoOf made).At N label) :
    Founds N convoOf m := by
  intro cx
  obtain ⟨-, hbids, hmade⟩ := h cx trivial
  refine ⟨hbids.mono fun _ _ ↦ trivial, fun made hok ↦ ?_⟩
  have hat := hmade made hok
  rw [hat.1.id_eq, hat.label_eq]
  exact ⟨hat.1, hbids⟩

/-- Nobody is invited before there is a conversation. -/
theorem Founds.after {Q : β → Prop} {m : Call (ServiceContext P) ε β} {f : β → Call (ServiceContext P) ε α}
    (hm : m.Meets (fun _ ↦ True) (Bids nowhere) Q) (hf : ∀ b, Q b → Founds N convoOf (f b)) :
    Founds N convoOf (m >>= f) := by
  intro cx
  obtain ⟨-, hbids, hQ⟩ := hm cx trivial
  cases heq : m cx with
  | mk r cx₁ =>
      rw [heq] at hbids hQ
      cases r with
      | ok b =>
          rw [Call.bind_of_ok heq]
          obtain ⟨hany, hmade⟩ := hf b (hQ b rfl) cx₁
          refine ⟨IsTrans.trans _ _ _ (hbids.mono fun _ h ↦ h.elim) hany, fun made hok ↦ ?_⟩
          obtain ⟨hhome, hto⟩ := hmade made hok
          exact ⟨hhome, IsTrans.trans _ _ _ (hbids.mono fun _ h ↦ h.elim) hto⟩
      | err e =>
          rw [Call.bind_of_err heq]
          exact ⟨hbids.mono fun _ h ↦ h.elim, nofun⟩
      | panic =>
          rw [Call.bind_of_panic heq]
          exact ⟨hbids.mono fun _ h ↦ h.elim, nofun⟩

theorem Founds.wrap (convoOf : α → GroupConvo P) {m : Call (ServiceContext P) ε α} (h : Founds N convoOf m) {g : α → β}
    {convoOf' : β → GroupConvo P} (hg : ∀ made, convoOf' (g made) = convoOf made) :
    Founds N convoOf' (m >>= fun made ↦ pure (g made)) := by
  intro cx
  rw [Call.bind_pure_snd]
  refine ⟨(h cx).1, fun wrapped hok ↦ ?_⟩
  obtain ⟨made, _, hmade, hwrapped⟩ := Call.bind_eq_ok (Prod.ext hok rfl)
  cases hwrapped
  rw [hg]
  exact (h cx).2 made (congrArg Prod.fst hmade)

end Founds

namespace GroupV1

theorem meets_new : (new : Call (ServiceContext P) _ _).Meets (fun _ ↦ True) (Bids nowhere)
    fun convo ↦ Housed key convo.convoId convo := by
  refine (meets_services bids_draw).bind fun n _ ↦ (Call.meets_read_any _).bind fun self _ ↦ ?_
  refine (Call.meets_ofResult_any _).bind fun ⟨groupId, secrets⟩ _ ↦ ?_
  exact (meets_services bids_subscribe.mapErr).bind fun _ _ ↦ Call.meets_pure ⟨rfl, rfl⟩

theorem meets_newFromWelcome (welcome : Bytes) :
    (newFromWelcome welcome : Call (ServiceContext P) _ _).Meets (fun _ ↦ True) (Bids nowhere)
      fun convo ↦ Housed key convo.convoId convo := by
  refine (meets_services bids_draw).bind fun n _ ↦ (Call.meets_ofResult_any _).bind fun group _ ↦ ?_
  exact (meets_services bids_subscribe.mapErr).bind fun _ _ ↦ Call.meets_pure ⟨rfl, rfl⟩

theorem meets_grown (hM : P.mls.Admits) {convo : GroupV1Convo P} (h : Housed key convo.convoId convo)
    (signers : List SignerKey) :
    (InSession.constructing convo (addSigner signers)).Meets (fun _ ↦ True)
      (Bids (· = (.v1, convo.convoId))) (Housed key convo.convoId) :=
  (hosts_addSigner hM signers).constructing h

end GroupV1

theorem bids_persistConvo {those : GroupKind × String → Prop} (convo : GroupV1Convo P) :
    (persistConvo convo).Keeps (Bids those) :=
  fun _ ↦ .of_same rfl

theorem founds_directV1 (hM : P.mls.Admits) (signers : List SignerKey) :
    Founds N ConvoTypeOwned.convo (DirectV1.new signers) := by
  refine .after GroupV1.meets_new fun convo hconvo ↦ founds_of_meets (.v1, convo.convoId) ?_
  exact (GroupV1.meets_grown hM hconvo signers).bind fun _ hmade ↦ Call.meets_pure ⟨hmade, rfl⟩

theorem founds_makeGroupV1 (hM : P.mls.Admits) (signers : List SignerKey) :
    Founds N ConvoTypeOwned.convo (makeGroupV1 signers) := by
  refine .after GroupV1.meets_new fun convo hconvo ↦ ?_
  refine .after (meets_services (bids_persistConvo convo)) fun _ _ ↦
    founds_of_meets (.v1, convo.convoId) ?_
  exact (GroupV1.meets_grown hM hconvo signers).bind fun _ hmade ↦ Call.meets_pure ⟨hmade, rfl⟩

theorem founds_makeGroupV2 (name desc : String) (signers : List SignerKey) :
    Founds N ConvoTypeOwned.convo (makeGroupV2 name desc signers) := by
  refine Founds.wrap GroupConvo.v2 ?_ fun _ ↦ rfl
  refine .after (meets_services bids_draw) fun _ _ ↦ .after (meets_services (Call.keeps_pure _))
    fun convoId _ ↦ ?_
  refine .after (meets_services (Call.Keeps.collect (bids_retrievePackage _ _) _)) fun invites _ ↦ ?_
  refine .after (meets_services fun _ ↦ .of_same rfl) fun _ _ ↦ ?_
  refine .after (meets_services bids_draw) fun n _ ↦ .after (Call.meets_read_any _) fun self _ ↦ ?_
  refine .after (Call.meets_ofResult fun turn hturn ↦ N.created (orErr_eq_ok.mp hturn)) fun turn hturn ↦ ?_
  have hhome : GroupV2.Home N convoId (GroupV2.fromTurn convoId turn (GroupV2.pendingOf invites)) :=
    ⟨rfl, hturn⟩
  refine founds_of_meets (.v2, convoId) fun cx _ ↦ ?_
  obtain ⟨-, hbids, hmade⟩ := GroupV2.meets_settle hhome cx trivial
  exact ⟨trivial, hbids, fun made hok ↦ ⟨hmade made hok, rfl⟩⟩

theorem founds_makeGroupV3 (hM : P.mls.Admits) (signers : List SignerKey) :
    Founds N ConvoTypeOwned.convo (makeGroupV3 signers) := by
  have hgroup : (GroupV3.newGroup : Call (ServiceContext P) _ _).Meets (fun _ ↦ True) (Bids nowhere)
      fun convo ↦ Housed GroupV3.key convo.convoId convo := by
    refine (meets_services bids_draw).bind fun n _ ↦ (Call.meets_read_any _).bind fun self _ ↦ ?_
    refine (Call.meets_ofResult_any _).bind fun ⟨groupId, secrets⟩ _ ↦ ?_
    exact (meets_services bids_subscribe.mapErr).bind fun _ _ ↦ Call.meets_pure ⟨rfl, rfl⟩
  refine Founds.wrap GroupConvo.v3 ?_ fun _ ↦ rfl
  refine .after hgroup fun convo hconvo ↦ founds_of_meets (.v3, convo.convoId) fun cx _ ↦ ?_
  obtain ⟨-, hbids, hmade⟩ := (GroupV3.hosts_addSigner hM signers).constructing hconvo cx trivial
  exact ⟨trivial, hbids, fun made hok ↦ ⟨hmade made hok, rfl⟩⟩

/-! ## The core that invites -/

namespace Core

variable {excused : Prop} {Q : α → Prop}

/-- Every conversation is at home under the id that it is loaded by. -/
def Homed (N : P.demls.Naming) (c : Core P) : Prop :=
  ∀ entry ∈ c.cachedConvos.entries, entry.2.convo.Home N entry.1

def Loaded (c : Core P) (label : GroupKind × String) : Prop :=
  ∃ owned, c.cachedConvos.lookup label.2 = some owned ∧ owned.convo.label = label

/-- What was loaded is loaded still, and each invite sent leads to a conversation that is loaded then,
unless the call is excused. -/
structure Announces (excused : Prop) (c c' : Core P) : Prop where
  loaded : ∀ label, c.Loaded label → c'.Loaded label
  bids : Bids (fun label ↦ c'.Loaded label ∨ excused) c.services c'.services

instance (excused : Prop) : IsPreorder (Core P) (Announces excused) where
  refl c := ⟨fun _ h ↦ h, refl c.services⟩
  trans _ _ _ hab hbc :=
    { loaded := fun label h ↦ hbc.loaded label (hab.loaded label h)
      bids := IsTrans.trans _ _ _ (hab.bids.mono fun label h ↦ h.imp_left (hbc.loaded label)) hbc.bids }

theorem Homed.of_lookup {c : Core P} (h : c.Homed N) {convoId : String} {owned : ConvoTypeOwned P}
    (hlookup : c.cachedConvos.lookup convoId = some owned) : owned.convo.Home N convoId :=
  h ⟨convoId, owned⟩ (AList.mem_lookup_iff.mp hlookup)

theorem meets_onServices {m : Call (ServiceContext P) ε α}
    (h : m.Meets (fun _ ↦ True) (Bids nowhere) Q) :
    (onServices m).Meets (Homed N) (Announces excused) Q := by
  intro c hc
  obtain ⟨-, hbids, hQ⟩ := h c.services trivial
  exact ⟨hc, ⟨fun _ h ↦ h, hbids.mono fun _ h ↦ h.elim⟩, hQ⟩

/-- A conversation is put back where it was found. -/
theorem homed_replace {c : Core P} (hc : c.Homed N) {convoId : String} {owned : ConvoTypeOwned P}
    {convo : GroupConvo P} (hconvo : convo.Home N convoId) (cx : ServiceContext P) :
    Homed N { c with services := cx, cachedConvos := c.cachedConvos.replace convoId (owned.put convo) } := by
  intro entry hmem
  obtain rfl | hmem := mem_kreplace hmem
  · cases owned <;> exact hconvo
  · exact hc entry hmem

theorem loaded_replace {c : Core P} {convoId : String} {owned : ConvoTypeOwned P} {convo : GroupConvo P}
    (hlookup : c.cachedConvos.lookup convoId = some owned) (hlabel : convo.label = owned.convo.label)
    (cx : ServiceContext P) {label : GroupKind × String} (h : c.Loaded label) :
    Loaded { c with services := cx, cachedConvos := c.cachedConvos.replace convoId (owned.put convo) }
      label := by
  obtain ⟨other, hother, rfl⟩ := h
  by_cases hid : other.convo.label.2 = convoId
  · subst hid
    cases hlookup.symm.trans hother
    refine ⟨owned.put convo, dlookup_kreplace _ (mem_cachedConvos hlookup), ?_⟩
    rw [← hlabel]
    cases owned <;> rfl
  · exact ⟨other, (dlookup_kreplace_ne _ hid _).trans hother, rfl⟩

theorem meets_onCached {convoId : String} {absent : Call (Core P) ε α}
    {m : ConvoTypeOwned P → Call (InSession P (GroupConvo P)) ε α}
    (habsent : absent.Meets (Homed N) (Announces excused) Q)
    (hm : ∀ owned label, Hosts (GroupConvo.At N label) label Q (m owned)) :
    (onCached convoId absent m).Meets (Homed N) (Announces excused) Q := by
  intro c hc
  unfold onCached
  split
  case h_1 => exact habsent c hc
  case h_2 owned hlookup =>
    have hhome := hc.of_lookup hlookup
    have hat : owned.convo.At N (owned.convo.kind, convoId) := ⟨hhome, rfl⟩
    obtain ⟨hat', hbids, hQ⟩ := hm owned (owned.convo.kind, convoId) ⟨owned.convo, c.services⟩ hat
    have hlabel := hat'.label_eq.trans hat.label_eq.symm
    refine ⟨homed_replace hc hat'.1 _, ⟨fun label ↦ loaded_replace hlookup hlabel _, ?_⟩, hQ⟩
    refine hbids.mono ?_
    rintro _ rfl
    exact .inl (loaded_replace hlookup hlabel _ ⟨owned, hlookup, hat.label_eq⟩)

/-- A conversation that is rebuilt from the store invites nobody. -/
theorem meets_onConvo {m : Call (InSession P (GroupConvo P)) ChatError α}
    (hm : ∀ label, Hosts (GroupConvo.At N label) label (fun _ ↦ True) m)
    (hminds : m.Keeps (Minds GroupConvo.Outstanding fun _ ↦ False)) (convoId : String) :
    (onConvo convoId m).Meets (Homed N) (Announces excused) fun _ ↦ True := by
  refine meets_onCached (meets_onServices (meets_services ?_)) fun _ label ↦ hm label
  have hserves : (loadConvo convoId >>= fun convo ↦ InSession.temporarily convo m).Keeps
      (Serves (P := P) fun _ ↦ False) := by
    refine Call.Keeps.bind_of_ok (serves_loadConvo convoId) fun cx convo cx' hload ↦ ?_
    have hnone := loadConvo_outstanding hload
    exact (hminds ⟨convo, cx'⟩ hnone).2.serves
  exact hserves.mono fun _ _ h ↦ h.toMails.bids

theorem meets_sendContent (convoId : String) (content : Bytes) :
    (sendContent convoId content).Meets (Homed N) (Announces excused) fun _ ↦ True :=
  meets_onConvo (fun _ ↦ GroupConvo.hosts_sendContent content) (GroupConvo.minds_sendContent content) convoId

theorem meets_dispatchToConvo (convoId : String) (payload : Bytes) :
    (dispatchToConvo convoId payload).Meets (Homed N) (Announces excused) fun _ ↦ True := by
  refine Call.Meets.bind (Q := fun _ ↦ True) ?_ fun _ _ ↦ Call.meets_pure trivial
  exact meets_onConvo (fun _ ↦ GroupConvo.hosts_handlePayload payload)
    (GroupConvo.minds_handlePayload payload) convoId

theorem meets_groupAddSigners (hM : P.mls.Admits) (convoId : String) (members : List SignerKey) :
    (groupAddSigners convoId members).Meets (Homed N) (Announces excused) fun _ ↦ True := by
  refine meets_onCached (Call.meets_fail _) fun owned label ↦ ?_
  cases owned with
  | direct convo => exact Call.meets_fail _
  | group convo => exact GroupConvo.hosts_addSigner hM members

theorem meets_groupAddParticipants (hM : P.mls.Admits) (convoId : String)
    (participants : List ParticipantId) :
    (groupAddParticipants convoId participants).Meets (Homed N) (Announces excused) fun _ ↦ True := by
  refine Call.Meets.bind (Q := fun _ ↦ True) ?_ fun signers _ ↦ meets_groupAddSigners hM convoId signers
  exact (Call.meets_read_any _).bind fun _ _ ↦ Call.meets_ofResult_any _

theorem meets_groupRemoveSigners (convoId : String) (members : List SignerKey) :
    (groupRemoveSigners convoId members).Meets (Homed N) (Announces excused) fun _ ↦ True := by
  refine meets_onCached (Call.meets_fail _) fun owned label ↦ ?_
  cases owned with
  | direct convo => exact Call.meets_fail _
  | group convo => exact GroupConvo.hosts_removeSigner members

theorem meets_groupRemoveParticipants (convoId : String) (participants : List ParticipantId) :
    (groupRemoveParticipants convoId participants).Meets (Homed N) (Announces excused) fun _ ↦ True := by
  refine (Call.meets_read_any _).bind fun found _ ↦ ?_
  cases found with
  | none => exact Call.meets_fail _
  | some owned =>
      exact (Call.meets_ofResult_any _).bind fun _ _ ↦ meets_groupRemoveSigners convoId _

theorem meets_wakeup (convoId : String) :
    (wakeup convoId).Meets (Homed N) (Announces excused) fun _ ↦ True := by
  refine (Call.meets_read_any _).bind fun c _ ↦ ?_
  split
  · exact Call.meets_fail _
  split
  · refine Call.Meets.bind (Q := fun _ ↦ True) ?_ fun _ _ ↦ Call.meets_pure trivial
    exact meets_onCached (Call.meets_fail _) fun _ _ ↦ GroupConvo.hosts_wakeup
  · exact Call.meets_pure trivial

theorem meets_request (m : Call ConversationStore String α) :
    (onServices ((ServiceContext.onStore m).mapErr ChatError.storage)).Meets (Homed N)
      (Announces excused) fun _ ↦ True :=
  meets_onServices (meets_services fun _ ↦ .of_same rfl)

theorem meets_listAllConversations :
    listAllConversations.Meets (Homed N) (Announces excused) fun _ ↦ True :=
  (meets_request _).bind fun _ _ ↦ (Call.meets_read_any _).bind fun _ _ ↦ Call.meets_pure trivial

/-! ### A new conversation -/

theorem meets_registerConvo {owned : ConvoTypeOwned P} (h : owned.convo.Home N owned.convo.id) :
    (registerConvo owned).Meets (Homed N) (Announces excused) fun _ ↦ True := by
  intro c hc
  unfold registerConvo
  rw [Call.read_bind]
  split
  · exact ⟨hc, refl c, nofun⟩
  case isFalse hnew =>
    refine ⟨fun entry hmem ↦ ?_, ⟨fun label hloaded ↦ ?_, refl c.services⟩, fun _ _ ↦ trivial⟩
    · have hentries : entry ∈ (c.cachedConvos.insert owned.convo.id owned).entries := hmem
      rw [AList.entries_insert_of_notMem hnew] at hentries
      obtain rfl | hmem := List.mem_cons.mp hentries
      · exact h
      · exact hc entry hmem
    · obtain ⟨other, hlookup, hlabel⟩ := hloaded
      have hne : label.2 ≠ owned.convo.id := fun hid ↦ hnew (hid ▸ mem_cachedConvos hlookup)
      exact ⟨other, (AList.lookup_insert_ne hne).trans hlookup, hlabel⟩

theorem registerConvo_eq_ok {c c' : Core P} {owned : ConvoTypeOwned P}
    (h : registerConvo owned c = (.ok (), c')) :
    c' = { c with cachedConvos := c.cachedConvos.insert owned.convo.id owned } := by
  unfold registerConvo at h
  rw [Call.read_bind] at h
  split at h
  · cases h
  · cases h
    rfl

/-- A creation that succeeds has loaded what it invites to. -/
theorem announces_createConvo
    {make : List SignerKey → Call (ServiceContext P) ChatError (ConvoTypeOwned P)}
    (hmake : ∀ signers, Founds N ConvoTypeOwned.convo (make signers)) (participants : List ParticipantId)
    {c : Core P} (hc : c.Homed N) :
    (createConvo make participants c).2.Homed N ∧
      Announces (∀ convoId, (createConvo make participants c).1 ≠ .ok convoId) c
        (createConvo make participants c).2 := by
  cases hsigners : signersFor c.services.auth participants with
  | error e =>
      rw [createConvo_of_unresolved hsigners]
      exact ⟨hc, refl c⟩
  | ok signers =>
      rw [createConvo_of_resolved hsigners]
      obtain ⟨hany, hmade⟩ := hmake signers c.services
      cases heq : make signers c.services with
      | mk r cx =>
          rw [heq] at hany hmade
          have hservices := onServices_of_eq heq
          cases r with
          | err e =>
              rw [Call.bind_of_err hservices]
              exact ⟨hc, fun _ h ↦ h, hany.mono fun _ _ ↦ .inr nofun⟩
          | panic =>
              rw [Call.bind_of_panic hservices]
              exact ⟨hc, fun _ h ↦ h, hany.mono fun _ _ ↦ .inr nofun⟩
          | ok owned =>
              rw [Call.bind_of_ok hservices]
              obtain ⟨hhome, hto⟩ := hmade owned rfl
              have hregisters : (registerConvo owned).Meets (Homed N) (Announces False) fun _ ↦ True :=
                meets_registerConvo hhome
              have hregister := hregisters { c with services := cx } hc
              cases hr : registerConvo owned { c with services := cx } with
              | mk r c' =>
                  rw [hr] at hregister
                  have hkept : c'.services = cx := by
                    have hsame := congrArg (fun after ↦ after.2.services) hr
                    unfold registerConvo at hsame
                    rw [Call.read_bind] at hsame
                    split at hsame <;> exact hsame.symm
                  have hbids (excused : Prop) (h : c'.Loaded owned.convo.label ∨ excused) :
                      Bids (fun label ↦ c'.Loaded label ∨ excused) c.services c'.services := by
                    rw [hkept]
                    refine hto.mono ?_
                    rintro _ rfl
                    exact h
                  cases r with
                  | err e =>
                      rw [Call.bind_of_err hr]
                      exact ⟨hregister.1, hregister.2.1.loaded, hbids _ (.inr nofun)⟩
                  | panic =>
                      rw [Call.bind_of_panic hr]
                      exact ⟨hregister.1, hregister.2.1.loaded, hbids _ (.inr nofun)⟩
                  | ok _ =>
                      rw [Call.bind_of_ok hr]
                      refine ⟨hregister.1, hregister.2.1.loaded, hbids _ (.inl ⟨owned, ?_, rfl⟩)⟩
                      rw [registerConvo_eq_ok hr]
                      exact AList.lookup_insert _

/-! ### What arrives -/

end Core

namespace InboxV2

/-- What an invite brings is at home. -/
theorem meets_handleFrame (payload : Bytes) :
    (handleFrame payload : Call (ServiceContext P) _ _).Meets (fun _ ↦ True) (Bids nowhere)
      fun received ↦ ∀ brought, received = some brought → brought.1.Home N brought.1.id := by
  intro cx _
  refine ⟨trivial, (mails_handleFrame payload cx).bids, fun received hok ↦ ?_⟩
  have hframe : handleFrame payload cx = (.ok received, (handleFrame payload cx).2) := Prod.ext hok rfl
  rintro ⟨convo, conversationClass⟩ rfl
  unfold handleFrame at hframe
  cases hdecode : P.proto.decodeInboxFrame payload with
  | error e =>
      rw [hdecode] at hframe
      cases hframe
  | ok frame =>
      rw [hdecode] at hframe
      rcases frame with _ | welcomeBytes | welcomeBytes | welcomeBytes
      · cases hframe
      · obtain ⟨joined, _, hjoin, hframe⟩ := Call.bind_eq_ok hframe
        cases hframe
        obtain ⟨welcome, _, -, hjoin⟩ := Call.bind_eq_ok hjoin
        obtain ⟨joined', cx₁, hnew, hjoin⟩ := Call.bind_eq_ok hjoin
        obtain ⟨_, _, -, hjoin⟩ := Call.bind_eq_ok hjoin
        cases hjoin
        exact (GroupV1.meets_newFromWelcome welcome _ trivial).2.2 joined (congrArg Prod.fst hnew)
      · obtain ⟨welcome, _, -, hframe⟩ := Call.bind_eq_ok hframe
        obtain ⟨joined, _, hjoin, hframe⟩ := Call.bind_eq_ok hframe
        cases hframe
        obtain ⟨n, _, -, hjoin⟩ := Call.bind_eq_ok hjoin
        obtain ⟨answer, cx₁, hanswer, hjoin⟩ := Call.bind_eq_ok hjoin
        cases answer with
        | none => cases hjoin
        | some answer =>
            have hwithin := N.joined (orErr_eq_ok.mp (Call.ofResult_eq_ok hanswer).1)
            have hsettled : GroupV2.Home N answer.1 joined :=
              (GroupV2.meets_settle ⟨rfl, hwithin⟩ cx₁ trivial).2.2 joined (congrArg Prod.fst hjoin)
            have hid : joined.convoId = answer.1 := hsettled.convoId
            show GroupV2.Home N joined.convoId joined
            rw [hid]
            exact hsettled
      · obtain ⟨welcome, _, -, hframe⟩ := Call.bind_eq_ok hframe
        obtain ⟨joined, _, hjoin, hframe⟩ := Call.bind_eq_ok hframe
        cases hframe
        obtain ⟨n, _, -, hjoin⟩ := Call.bind_eq_ok hjoin
        obtain ⟨group, _, -, hjoin⟩ := Call.bind_eq_ok hjoin
        obtain ⟨_, _, -, hjoin⟩ := Call.bind_eq_ok hjoin
        cases hjoin
        exact ⟨rfl, rfl⟩

end InboxV2

namespace Core

variable {excused : Prop}

theorem meets_dispatchToInbox (payload : Bytes) :
    (dispatchToInbox payload).Meets (Homed N) (Announces excused) fun _ ↦ True := by
  refine (meets_onServices (InboxV2.meets_handleFrame (N := N) payload)).bind fun received hreceived ↦ ?_
  cases received with
  | none => exact Call.meets_pure trivial
  | some brought =>
      obtain ⟨convo, conversationClass⟩ := brought
      have hhome := hreceived _ rfl
      refine Call.Meets.bind (Q := fun _ ↦ True) ?_ fun _ _ ↦ Call.meets_pure trivial
      cases conversationClass with
      | dm => exact meets_registerConvo hhome
      | group => exact meets_registerConvo hhome

theorem meets_handlePayload (payload : Bytes) :
    (handlePayload payload).Meets (Homed N) (Announces excused) fun _ ↦ True := by
  refine (Call.meets_ofResult_any _).bind fun env _ ↦ (Call.meets_read_any _).bind fun c _ ↦ ?_
  split
  · exact meets_dispatchToInbox env.payload
  split
  · exact meets_dispatchToConvo _ _
  · refine (meets_request _).bind fun stored _ ↦ ?_
    split
    · exact meets_dispatchToConvo _ _
    · exact Call.meets_pure trivial

/-! ### Steps and runs -/

def Event.Creates : Event P → Prop
  | .createDirectConvoV1 _ => True
  | .createGroupConvoV1 _ => True
  | .createGroupConvoV2 _ _ _ => True
  | .createGroupConvoV3 _ => True
  | _ => False

/-- The call was to create a conversation, and has not returned one. -/
def Event.FailsToCreate (e : Event P) (c : Core P) : Prop := e.Creates ∧ ∀ u, (e.call c).1 ≠ .ok u

theorem Announces.weaken {excused' : Prop} {c c' : Core P} (h : Announces excused c c')
    (hle : excused → excused') : Announces excused' c c' :=
  ⟨h.loaded, h.bids.mono fun _ ↦ Or.imp_right hle⟩

section Step

variable {c : Core P} {e : Event P}

theorem announces_of_meets {m : Call (Core P) ChatError Unit} (hcall : e.call = m) (hc : c.Homed N)
    (h : m.Meets (Homed N) (Announces False) fun _ ↦ True) :
    (step c e).Homed N ∧ Announces (e.FailsToCreate c) c (step c e) := by
  subst hcall
  obtain ⟨hhomed, hannounces, -⟩ := h c hc
  exact ⟨hhomed, hannounces.weaken False.elim⟩

theorem announces_of_creation {m : Call (Core P) ChatError α} (hcall : e.call = m.void) (he : e.Creates)
    (h : (m c).2.Homed N ∧ Announces (∀ made, (m c).1 ≠ .ok made) c (m c).2) :
    (step c e).Homed N ∧ Announces (e.FailsToCreate c) c (step c e) := by
  have hstep : step c e = (m c).2 := by
    rw [step, hcall]
    exact Call.bind_pure_snd _ c
  rw [hstep]
  refine ⟨h.1, h.2.weaken fun hfails ↦ ⟨he, fun u hu ↦ ?_⟩⟩
  rw [hcall] at hu
  obtain ⟨made, _, hmade, -⟩ := Call.bind_eq_ok (Prod.ext hu rfl)
  exact hfails made (congrArg Prod.fst hmade)

theorem announces_createDirectConvoV1 (hM : P.mls.Admits) (participant : ParticipantId) (hc : c.Homed N) :
    (createDirectConvoV1 participant c).2.Homed N ∧
      Announces (∀ convoId, (createDirectConvoV1 participant c).1 ≠ .ok convoId) c
        (createDirectConvoV1 participant c).2 := by
  unfold createDirectConvoV1
  rw [Call.read_bind]
  split
  · exact ⟨hc, refl c⟩
  · exact announces_createConvo (founds_directV1 hM) _ hc

theorem announces_step (hM : P.mls.Admits) (hc : c.Homed N) (e : Event P) :
    (step c e).Homed N ∧ Announces (e.FailsToCreate c) c (step c e) := by
  cases e with
  | createDirectConvoV1 participant =>
      exact announces_of_creation rfl trivial (announces_createDirectConvoV1 hM participant hc)
  | createGroupConvoV1 participants =>
      exact announces_of_creation rfl trivial (announces_createConvo (founds_makeGroupV1 hM) participants hc)
  | createGroupConvoV2 participants name desc =>
      exact announces_of_creation rfl trivial
        (announces_createConvo (founds_makeGroupV2 name desc) participants hc)
  | createGroupConvoV3 participants =>
      exact announces_of_creation rfl trivial (announces_createConvo (founds_makeGroupV3 hM) participants hc)
  | groupAddParticipants convoId participants =>
      exact announces_of_meets rfl hc (meets_groupAddParticipants hM convoId participants)
  | groupAddSigners convoId members =>
      exact announces_of_meets rfl hc (meets_groupAddSigners hM convoId members)
  | groupRemoveParticipants convoId participants =>
      exact announces_of_meets rfl hc (meets_groupRemoveParticipants convoId participants)
  | groupRemoveSigners convoId members =>
      exact announces_of_meets rfl hc (meets_groupRemoveSigners convoId members)
  | sendContent convoId content => exact announces_of_meets rfl hc (meets_sendContent convoId content).void
  | handlePayload payload => exact announces_of_meets rfl hc (meets_handlePayload payload).void
  | wakeup convoId => exact announces_of_meets rfl hc (meets_wakeup convoId).void
  | listAllConversations => exact announces_of_meets rfl hc meets_listAllConversations.void
  | servicesChange retrieve auth mlsStorage => exact ⟨hc, fun _ h ↦ h, .of_same rfl⟩

end Step

theorem homed_run (hM : P.mls.Admits) {c : Core P} (hc : c.Homed N) (events : List (Event P)) :
    (run step c events).Homed N := by
  have hstep (c : Core P) (e : Event P) (hc : c.Homed N) : (step c e).Homed N := (announces_step hM hc e).1
  exact run_invariant hstep hc events

theorem loaded_run (hM : P.mls.Admits) {c : Core P} (hc : c.Homed N) (events : List (Event P))
    {label : GroupKind × String} (h : c.Loaded label) : (run step c events).Loaded label := by
  induction events generalizing c with
  | nil => exact h
  | cons e events ih =>
      obtain ⟨hhomed, hannounces⟩ := announces_step hM hc e
      exact ih hhomed (hannounces.loaded label h)

end Core

/-! ## The core that is invited -/

/-- prost on invites as well: what is encoded for an inbox is what the inbox decodes. -/
structure InboxWire (P : Platform) extends Wire P where
  decode_groupV1 : ∀ welcomeBytes, P.proto.decodeInboxFrame (encodeInvite (.groupV1 welcomeBytes)) =
    .ok (some (.groupV1 welcomeBytes))
  decode_groupV2 : ∀ welcome, ∃ welcomeBytes,
    P.proto.decodeInboxFrame (encodeInvite (.groupV2 welcome)) = .ok (some (.groupV2 welcomeBytes)) ∧
    P.proto.decodeMemberWelcome welcomeBytes = .ok welcome
  decode_groupV3 : ∀ welcomeBytes, P.proto.decodeInboxFrame (encodeInvite (.groupV3 welcomeBytes)) =
    .ok (some (.groupV3 welcomeBytes))

/-- What a conversation that an invite brings is reported as. -/
def GroupKind.classOf : GroupKind → ConversationClass
  | .v1 => .dm
  | .v2 => .group
  | .v3 => .group

/-- The welcome lets us join, and the services take what joining asks of them: a subscription, the
frames that de-mls has ready, and a record for GroupV1. -/
def Joinable (cx : ServiceContext P) : InviteType → Prop
  | .groupV1 welcomeBytes => ∃ welcome group, P.mls.extractWelcome welcomeBytes = .ok (some welcome) ∧
      P.mls.join cx.draws welcome = .ok group ∧ cx.ds.Accepts 1 ∧
      cx.store.answers cx.store.requests = none
  | .groupV2 welcome => ∃ convoId turn, P.demls.join cx.draws welcome = .ok (some (convoId, turn)) ∧
      cx.ds.Accepts (1 + turn.outbound.length)
  | .groupV3 welcomeBytes => ∃ welcome group, P.mls.extractWelcome welcomeBytes = .ok (some welcome) ∧
      P.mls.join cx.draws welcome = .ok group ∧ cx.ds.Accepts 1

theorem DeliveryService.accepts_one_add_iff {ds : DeliveryService} {n : Nat} :
    ds.Accepts (1 + n) ↔ ds.Accepts 1 ∧ ds.refused.Accepts n := by
  refine ⟨fun h ↦ ⟨h.mono (by omega), fun k hk ↦ ?_⟩, fun h k hk ↦ ?_⟩
  · have hlater := h (1 + k) (by omega)
    rwa [← Nat.add_assoc] at hlater
  · by_cases hfirst : k = 0
    · exact h.1 k (by omega)
    · have hlater : ds.answers (ds.requests + 1 + (k - 1)) = none := h.2 (k - 1) (by omega)
      have hsum : ds.requests + 1 + (k - 1) = ds.requests + k := by omega
      rwa [hsum] at hlater

/-! ### An openmls group -/

/-- `newFromWelcome`, for GroupV1 and GroupV3. -/
def joinBy (make : MlsGroup P.mls.Secrets → α) (welcome : Bytes) :
    Call (ServiceContext P) ChatError α := do
  let n ← ServiceContext.draw
  let group ← Call.ofResult (orErr .generic (P.mls.join n welcome))
  ServiceContext.subscribe.mapErr .generic
  pure (make group)

section JoinBy

variable {make : MlsGroup P.mls.Secrets → α} {cx : ServiceContext P} {welcomeBytes welcome : Bytes}
  {group : MlsGroup P.mls.Secrets}

theorem joinBy_of_accepts (hjoin : P.mls.join cx.draws welcome = .ok group) (hds : cx.ds.Accepts 1) :
    joinBy make welcome cx = (.ok (make group), { cx.drawn with ds := cx.ds.refused }) := by
  have hsubscribe : ServiceContext.subscribe cx.drawn = (.ok (), { cx.drawn with ds := cx.ds.refused }) :=
    ServiceContext.subscribe_of_accepts hds
  show (Call.ofResult (orErr ChatError.generic (P.mls.join cx.draws welcome)) >>= _) cx.drawn = _
  rw [hjoin]
  exact Call.bind_of_ok (Call.mapErr_of_ok hsubscribe)

theorem joinBy_of_refuses (h : ¬ ∃ group, P.mls.join cx.draws welcome = .ok group ∧ cx.ds.Accepts 1) :
    ∃ e cx', joinBy make welcome cx = (.err e, cx') := by
  cases hjoin : P.mls.join cx.draws welcome with
  | error e =>
      refine ⟨.generic e, cx.drawn, ?_⟩
      show (Call.ofResult (orErr ChatError.generic (P.mls.join cx.draws welcome)) >>= _) cx.drawn = _
      rw [hjoin]
      rfl
  | ok group =>
      have hds : ¬ cx.drawn.ds.Accepts 1 := fun hds ↦ h ⟨group, hjoin, hds⟩
      obtain ⟨e, hsubscribe⟩ := ServiceContext.subscribe_of_refuses hds
      have hfails := Call.mapErr_of_err (g := ChatError.generic) hsubscribe
      refine ⟨.generic e, { cx.drawn with ds := cx.ds.refused }, ?_⟩
      show (Call.ofResult (orErr ChatError.generic (P.mls.join cx.draws welcome)) >>= _) cx.drawn = _
      rw [hjoin]
      exact (Call.bind_of_ok (a := group) rfl).trans (Call.bind_of_err hfails)

theorem parseHeavyWelcome_of_welcome (h : P.mls.extractWelcome welcomeBytes = .ok (some welcome)) :
    InboxV2.parseHeavyWelcome welcomeBytes cx = (.ok welcome, cx) := by
  unfold InboxV2.parseHeavyWelcome
  rw [h]
  rfl

/-- A welcome that cannot be read, and one that cannot be joined by, are refused. -/
theorem parse_joinBy_of_refuses (make : MlsGroup P.mls.Secrets → α) (h : ¬ ∃ welcome group,
      P.mls.extractWelcome welcomeBytes = .ok (some welcome) ∧
      P.mls.join cx.draws welcome = .ok group ∧ cx.ds.Accepts 1) :
    ∃ e cx', (InboxV2.parseHeavyWelcome welcomeBytes >>= joinBy make) cx = (.err e, cx') := by
  cases hextract : P.mls.extractWelcome welcomeBytes with
  | error e =>
      refine ⟨.tlsCodec e, cx, Call.bind_of_err ?_⟩
      unfold InboxV2.parseHeavyWelcome
      rw [hextract]
      rfl
  | ok extracted =>
      cases extracted with
      | none =>
          refine ⟨.protocolExpectation "something else" "Welcome", cx, Call.bind_of_err ?_⟩
          unfold InboxV2.parseHeavyWelcome
          rw [hextract]
          rfl
      | some welcome =>
          rw [Call.bind_of_ok (parseHeavyWelcome_of_welcome hextract)]
          exact joinBy_of_refuses fun ⟨group, hjoin, hds⟩ ↦ h ⟨welcome, group, hextract, hjoin, hds⟩

end JoinBy

/-! ### A de-mls conversation -/

namespace GroupV2

variable {cx : ServiceContext P} {welcome : MemberWelcome} {convoId : String} {turn : Turn P.demls.Core}

theorem invitesDue_none (mentioned : List (Bytes × MemberWelcome)) :
    invitesDue (fun _ ↦ none) mentioned = [] := by
  induction mentioned with
  | nil => rfl
  | cons mention mentioned ih => exact ih

/-- Who has just joined has invited nobody. -/
theorem due_joined (cx : ServiceContext P) :
    due ⟨fromTurn convoId turn fun _ ↦ none, cx⟩ = turn.outbound.map (frameEnvelope P) := by
  have hnone : invitesOf ⟨fromTurn convoId turn fun _ ↦ none, cx⟩ = [] := invitesDue_none _
  rw [due, hnone]
  rfl

theorem newFromWelcome_of_joined (h : P.demls.join cx.draws welcome = .ok (some (convoId, turn))) :
    newFromWelcome welcome cx = settle (fromTurn convoId turn fun _ ↦ none) cx.drawn := by
  show (Call.ofResult (orErr ChatError.deMlsError (P.demls.join cx.draws welcome)) >>= _) cx.drawn = _
  rw [h]
  rfl

theorem settle_of_accepts (h : cx.ds.Accepts (1 + turn.outbound.length)) :
    ∃ joined cx', settle (fromTurn convoId turn fun _ ↦ none) cx = (.ok joined, cx') ∧
      joined.convoId = convoId := by
  obtain ⟨hfirst, hrest⟩ := DeliveryService.accepts_one_add_iff.mp h
  let s : InSession P (GroupV2Convo P) :=
    ⟨fromTurn convoId turn fun _ ↦ none, { cx with ds := cx.ds.refused }⟩
  have hsubscribe : InSession.onCx subscribe ⟨fromTurn convoId turn fun _ ↦ none, cx⟩ = (.ok (), s) :=
    InSession.onCx_of_eq (Call.mapErr_of_ok (ServiceContext.subscribe_of_accepts hfirst))
  have hdue : s.cx.ds.Accepts (due s).length := by
    rw [due_joined, List.length_map]
    exact hrest
  obtain ⟨_, t, hafter, -⟩ := (sends_afterOp s).accepted hdue
  refine ⟨t.convo, t.cx, InSession.constructing_of_ok ?_, ?_⟩
  · rw [Call.bind_of_ok hsubscribe, Call.bind_of_ok hafter]
    rfl
  · have hunarmed := afterOp_unarmed s
    rw [hafter] at hunarmed
    exact congrArg (fun aside ↦ aside.2.1) hunarmed

theorem settle_of_refuses (h : ¬ cx.ds.Accepts (1 + turn.outbound.length)) :
    ∃ e cx', settle (fromTurn convoId turn fun _ ↦ none) cx = (.err e, cx') := by
  by_cases hfirst : cx.ds.Accepts 1
  · let s : InSession P (GroupV2Convo P) :=
      ⟨fromTurn convoId turn fun _ ↦ none, { cx with ds := cx.ds.refused }⟩
    have hsubscribe : InSession.onCx subscribe ⟨fromTurn convoId turn fun _ ↦ none, cx⟩ = (.ok (), s) :=
      InSession.onCx_of_eq (Call.mapErr_of_ok (ServiceContext.subscribe_of_accepts hfirst))
    have hdue : ¬ s.cx.ds.Accepts (due s).length := by
      rw [due_joined, List.length_map]
      exact fun hrest ↦ h (DeliveryService.accepts_one_add_iff.mpr ⟨hfirst, hrest⟩)
    obtain ⟨e, t, -, hafter, -⟩ := (sends_afterOp s).refused hdue
    refine ⟨e, t.cx, InSession.constructing_of_err ?_⟩
    rw [Call.bind_of_ok hsubscribe]
    exact Call.bind_of_err hafter
  · obtain ⟨e, hsubscribe⟩ := ServiceContext.subscribe_of_refuses hfirst
    have hfails : InSession.onCx subscribe ⟨fromTurn convoId turn fun _ ↦ none, cx⟩ = _ :=
      InSession.onCx_of_eq (Call.mapErr_of_err hsubscribe)
    exact ⟨.generic e, _, InSession.constructing_of_err (Call.bind_of_err hfails)⟩

end GroupV2

/-! ### The inbox -/

/-- The conversation over a group that we have joined. -/
def GroupV1.joined (group : MlsGroup P.mls.Secrets) : GroupV1Convo P :=
  { mlsGroup := group, convoId := hexEncode group.groupId }

def GroupV3.joined (group : MlsGroup P.mls.Secrets) : GroupV3Convo P :=
  { convoId := hexEncode group.groupId, mlsGroup := group }

namespace InboxV2

variable {W : InboxWire P} {cx : ServiceContext P} {label : GroupKind × String} {invite : InviteType}
  {welcomeBytes : Bytes} {welcome : MemberWelcome}

theorem handleHeavyInvite_eq (welcomeBytes : Bytes) (cx : ServiceContext P) :
    handleHeavyInvite welcomeBytes cx = ((parseHeavyWelcome welcomeBytes >>= joinBy GroupV1.joined) >>=
      fun convo ↦ persistConvo convo >>= fun _ ↦ pure convo) cx := by
  rw [Call.bind_assoc]
  rfl

theorem handleHeavyInvite_of_joinable (h : Joinable cx (.groupV1 welcomeBytes)) :
    ∃ welcome group cx', P.mls.extractWelcome welcomeBytes = .ok (some welcome) ∧
      P.mls.join cx.draws welcome = .ok group ∧
      handleHeavyInvite welcomeBytes cx = (.ok (GroupV1.joined group), cx') := by
  obtain ⟨welcome, group, hextract, hjoin, hds, hstore⟩ := h
  let cx₁ : ServiceContext P := { cx.drawn with ds := cx.ds.refused }
  have hnew : (parseHeavyWelcome welcomeBytes >>= joinBy GroupV1.joined) cx =
      (.ok (GroupV1.joined group), cx₁) :=
    (Call.bind_of_ok (parseHeavyWelcome_of_welcome hextract)).trans (joinBy_of_accepts hjoin hds)
  have hsaved : cx₁.store.answers cx₁.store.requests = none := hstore
  refine ⟨welcome, group, cx₁.saved (recordOf (GroupV1.joined group)), hextract, hjoin, ?_⟩
  rw [handleHeavyInvite_eq, Call.bind_of_ok hnew]
  exact Call.bind_of_ok (persistConvo_of_ok hsaved _)

theorem handleHeavyInvite_of_not_joinable (h : ¬ Joinable cx (.groupV1 welcomeBytes)) :
    ∃ e cx', handleHeavyInvite welcomeBytes cx = (.err e, cx') := by
  rw [handleHeavyInvite_eq]
  by_cases hjoins : ∃ welcome group, P.mls.extractWelcome welcomeBytes = .ok (some welcome) ∧
      P.mls.join cx.draws welcome = .ok group ∧ cx.ds.Accepts 1
  · obtain ⟨welcome, group, hextract, hjoin, hds⟩ := hjoins
    let cx₁ : ServiceContext P := { cx.drawn with ds := cx.ds.refused }
    have hnew : (parseHeavyWelcome welcomeBytes >>= joinBy GroupV1.joined) cx =
        (.ok (GroupV1.joined group), cx₁) :=
      (Call.bind_of_ok (parseHeavyWelcome_of_welcome hextract)).trans (joinBy_of_accepts hjoin hds)
    have hstore : cx₁.store.answers cx₁.store.requests ≠ none :=
      fun hstore ↦ h ⟨welcome, group, hextract, hjoin, hds, hstore⟩
    obtain ⟨e, hanswer⟩ := Option.ne_none_iff_exists'.mp hstore
    obtain ⟨cx', hpersist, -⟩ := persistConvo_of_error hanswer (GroupV1.joined group)
    refine ⟨.storage e, cx', ?_⟩
    rw [Call.bind_of_ok hnew]
    exact Call.bind_of_err hpersist
  · obtain ⟨e, cx', hrefused⟩ := parse_joinBy_of_refuses GroupV1.joined hjoins
    exact ⟨e, cx', Call.bind_of_err hrefused⟩

theorem newFromWelcome_of_not_joinable (h : ¬ Joinable cx (.groupV2 welcome)) :
    ∃ e cx', GroupV2.newFromWelcome welcome cx = (.err e, cx') := by
  cases hjoin : P.demls.join cx.draws welcome with
  | error e =>
      refine ⟨.deMlsError e, cx.drawn, ?_⟩
      show (Call.ofResult (orErr ChatError.deMlsError (P.demls.join cx.draws welcome)) >>= _) cx.drawn = _
      rw [hjoin]
      rfl
  | ok joined =>
      cases joined with
      | none =>
          refine ⟨.generic "welcome not addressed to this member", cx.drawn, ?_⟩
          show (Call.ofResult (orErr ChatError.deMlsError (P.demls.join cx.draws welcome)) >>= _)
            cx.drawn = _
          rw [hjoin]
          rfl
      | some joined =>
          obtain ⟨convoId, turn⟩ := joined
          rw [GroupV2.newFromWelcome_of_joined hjoin]
          exact GroupV2.settle_of_refuses fun hds ↦ h ⟨convoId, turn, hjoin, hds⟩

theorem handleFrame_groupV1 (W : InboxWire P) (welcomeBytes : Bytes) :
    handleFrame (P := P) (W.encodeInvite (.groupV1 welcomeBytes)) =
      (handleHeavyInvite welcomeBytes >>= fun convo ↦ pure (some (.v1 convo, .dm))) := by
  unfold handleFrame
  rw [W.decode_groupV1]

theorem handleFrame_groupV2 (W : InboxWire P) (welcome : MemberWelcome) :
    handleFrame (P := P) (W.encodeInvite (.groupV2 welcome)) =
      (GroupV2.newFromWelcome welcome >>= fun convo ↦ pure (some (.v2 convo, .group))) := by
  obtain ⟨welcomeBytes, hframe, hwelcome⟩ := W.decode_groupV2 welcome
  unfold handleFrame
  rw [hframe]
  dsimp only
  rw [hwelcome]
  rfl

theorem handleFrame_groupV3 (W : InboxWire P) (welcomeBytes : Bytes) :
    handleFrame (P := P) (W.encodeInvite (.groupV3 welcomeBytes)) =
      ((parseHeavyWelcome welcomeBytes >>= joinBy GroupV3.joined) >>= fun convo ↦
        pure (some (.v3 convo, .group))) := by
  unfold handleFrame
  rw [W.decode_groupV3, Call.bind_assoc]
  rfl

/-- An invite that can be taken up brings the conversation that it leads to. -/
theorem handleFrame_of_joinable (hleads : invite.LeadsTo P label) (h : Joinable cx invite) :
    ∃ convo cx', handleFrame (W.encodeInvite invite) cx = (.ok (some (convo, label.1.classOf)), cx') ∧
      convo.label = label := by
  obtain ⟨kind, id⟩ := label
  cases invite with
  | groupV1 welcomeBytes =>
      obtain ⟨rfl, hadmits⟩ := hleads
      obtain ⟨welcome, group, cx', hextract, hjoin, hinvite⟩ := handleHeavyInvite_of_joinable h
      refine ⟨.v1 (GroupV1.joined group), cx', ?_, Prod.ext rfl (hadmits hextract hjoin)⟩
      rw [handleFrame_groupV1]
      exact Call.bind_of_ok hinvite
  | groupV2 welcome =>
      obtain ⟨rfl, hadmits⟩ := hleads
      obtain ⟨convoId, turn, hjoin, hds⟩ := h
      have haccepts : cx.drawn.ds.Accepts (1 + turn.outbound.length) := hds
      obtain ⟨joined, cx', hsettle, hid⟩ := GroupV2.settle_of_accepts haccepts
      refine ⟨.v2 joined, cx', ?_, Prod.ext rfl (hid.trans (hadmits hjoin))⟩
      rw [handleFrame_groupV2]
      exact Call.bind_of_ok ((GroupV2.newFromWelcome_of_joined hjoin).trans hsettle)
  | groupV3 welcomeBytes =>
      obtain ⟨rfl, hadmits⟩ := hleads
      obtain ⟨welcome, group, hextract, hjoin, hds⟩ := h
      refine ⟨.v3 (GroupV3.joined group), { cx.drawn with ds := cx.ds.refused }, ?_,
        Prod.ext rfl (hadmits hextract hjoin)⟩
      rw [handleFrame_groupV3]
      refine Call.bind_of_ok ?_
      exact (Call.bind_of_ok (parseHeavyWelcome_of_welcome hextract)).trans (joinBy_of_accepts hjoin hds)

theorem handleFrame_of_not_joinable (h : ¬ Joinable cx invite) :
    ∃ e cx', handleFrame (W.encodeInvite invite) cx = (.err e, cx') := by
  cases invite with
  | groupV1 welcomeBytes =>
      obtain ⟨e, cx', hfails⟩ := handleHeavyInvite_of_not_joinable h
      rw [handleFrame_groupV1]
      exact ⟨e, cx', Call.bind_of_err hfails⟩
  | groupV2 welcome =>
      obtain ⟨e, cx', hfails⟩ := newFromWelcome_of_not_joinable h
      rw [handleFrame_groupV2]
      exact ⟨e, cx', Call.bind_of_err hfails⟩
  | groupV3 welcomeBytes =>
      obtain ⟨e, cx', hfails⟩ := parse_joinBy_of_refuses GroupV3.joined h
      rw [handleFrame_groupV3]
      exact ⟨e, cx', Call.bind_of_err hfails⟩

end InboxV2

namespace Core

variable {W : InboxWire P} {c : Core P} {label : GroupKind × String} {invite : InviteType}

/-- What a core does with an invite to this conversation: it loads the conversation exactly when it can
join and has none of that id, and fails with its conversations as they were otherwise. -/
structure TakesUp (label : GroupKind × String) (invite : InviteType) (c : Core P)
    (after : Result ChatError PayloadOutcome × Core P) : Prop where
  joins : Joinable c.services invite → label.2 ∉ c.cachedConvos →
    after.1 = .ok (.inbox label.2 label.1.classOf) ∧ ∃ owned,
      after.2.cachedConvos = c.cachedConvos.insert label.2 owned ∧ owned.convo.label = label
  fails : ¬ (Joinable c.services invite ∧ label.2 ∉ c.cachedConvos) →
    (∃ e, after.1 = .err e) ∧ after.2.cachedConvos = c.cachedConvos

theorem handlePayload_of_invite {signer : SignerKey} (hinbox : c.inboxId = conversationIdFor P signer) :
    handlePayload (W.data (inviteEnvelope P signer invite)) c =
      dispatchToInbox (W.encodeInvite invite) c := by
  unfold handlePayload Wire.data
  rw [W.decode_envelope]
  show (if conversationIdFor P signer = c.inboxId then _ else _ : Call (Core P) _ _) c = _
  rw [if_pos hinbox.symm]
  rfl

theorem dispatchToInbox_of_brought {payload : Bytes} {convo : GroupConvo P}
    {conversationClass : ConversationClass} {cx' : ServiceContext P}
    (h : InboxV2.handleFrame payload c.services = (.ok (some (convo, conversationClass)), cx')) :
    ∃ owned : ConvoTypeOwned P, owned.convo = convo ∧
      dispatchToInbox payload c = (registerConvo owned >>= fun _ ↦
        pure (.inbox convo.id conversationClass)) { c with services := cx' } := by
  cases conversationClass with
  | dm => exact ⟨.direct convo, rfl, Call.bind_of_ok (onServices_of_eq h)⟩
  | group => exact ⟨.group convo, rfl, Call.bind_of_ok (onServices_of_eq h)⟩

theorem takesUp_handlePayload (hleads : invite.LeadsTo P label) {signer : SignerKey}
    (hinbox : c.inboxId = conversationIdFor P signer) :
    TakesUp label invite c (handlePayload (W.data (inviteEnvelope P signer invite)) c) := by
  rw [handlePayload_of_invite hinbox]
  by_cases hjoinable : Joinable c.services invite
  · obtain ⟨convo, cx', hframe, hlabel⟩ := InboxV2.handleFrame_of_joinable (W := W) hleads hjoinable
    have hid : convo.id = label.2 := congrArg Prod.snd hlabel
    obtain ⟨owned, howned, hcall⟩ := dispatchToInbox_of_brought hframe
    rw [hcall]
    by_cases hloaded : label.2 ∈ c.cachedConvos
    · have hregister : registerConvo owned { c with services := cx' } =
          (.err (.generic "Convo already exists. Cannot save"), { c with services := cx' }) := by
        unfold registerConvo
        rw [Call.read_bind, howned, hid, if_pos hloaded]
        rfl
      rw [Call.bind_of_err hregister]
      exact ⟨fun _ hnew ↦ absurd hloaded hnew, fun _ ↦ ⟨⟨_, rfl⟩, rfl⟩⟩
    · have hregister : registerConvo owned { c with services := cx' } = (.ok (), { c with
          services := cx'
          cachedConvos := c.cachedConvos.insert label.2 owned }) := by
        unfold registerConvo
        rw [Call.read_bind, howned, hid, if_neg hloaded]
        rfl
      rw [Call.bind_of_ok hregister, hid]
      refine ⟨fun _ _ ↦ ⟨rfl, owned, rfl, by rw [howned, hlabel]⟩, fun hnot ↦ ?_⟩
      exact absurd ⟨hjoinable, hloaded⟩ hnot
  · obtain ⟨e, cx', hframe⟩ := InboxV2.handleFrame_of_not_joinable (W := W) hjoinable
    have hcall : dispatchToInbox (W.encodeInvite invite) c = (.err e, { c with services := cx' }) :=
      Call.bind_of_err (onServices_of_eq hframe)
    rw [hcall]
    exact ⟨fun hjoins ↦ absurd hjoins hjoinable, fun _ ↦ ⟨⟨e, rfl⟩, rfl⟩⟩

end Core

end LogosChat.Conversations
