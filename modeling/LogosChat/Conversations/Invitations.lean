import LogosChat.Conversations.CoreFrame
import LogosChat.Conversations.Creation
import LogosChat.Reasoning.Run

/-!
# Invitations

Six calls of the core invite: the four that create a conversation and the two that add to one.  Each
of them takes a list of signers, asks the registry for those that are new, hands their packages to
MLS and sends them a welcome, some of them only when a later call lands the commit.
-/

namespace LogosChat.Conversations

open Reasoning

variable {P : Platform} {ε α : Type} {allowed : SignerKey → Prop}

/-! ## Joining -/

namespace InboxV2

theorem mails_handleFrame (payload : Bytes) : (handleFrame payload).Keeps (Mails (P := P) allowed) := by
  have hparse : ∀ welcomeBytes, (parseHeavyWelcome welcomeBytes).Keeps (Mails (P := P) allowed) := by
    intro welcomeBytes
    refine (Call.keeps_ofResult _).bind fun extracted ↦ ?_
    split
    · exact Call.keeps_fail _
    · exact Call.keeps_pure _
  unfold handleFrame
  split
  · exact Call.keeps_pure _
  · exact Call.keeps_pure _
  · refine Call.Keeps.bind ?_ fun _ ↦ Call.keeps_pure _
    refine (hparse _).bind fun welcome ↦ ?_
    refine ((GroupV1.keeps_newFromWelcome welcome).mono fun _ _ h ↦ h.mails).bind fun convo ↦ ?_
    refine Call.Keeps.bind ?_ fun _ ↦ Call.keeps_pure _
    exact (silent_onStore _).mapErr.mono fun _ _ h ↦ h.mails
  · refine (Call.keeps_ofResult _).bind fun welcome ↦ ?_
    refine Call.Keeps.bind ?_ fun _ ↦ Call.keeps_pure _
    exact (GroupV2.keeps_newFromWelcome welcome).mono fun _ _ h ↦ h.mails
  · refine (hparse _).bind fun welcome ↦ ?_
    refine Call.Keeps.bind ?_ fun _ ↦ Call.keeps_pure _
    exact (GroupV3.keeps_newFromWelcome welcome).mono fun _ _ h ↦ h.mails

/-- What an invite brings has no invite of ours outstanding. -/
theorem handleFrame_outstanding {payload : Bytes} {cx cx' : ServiceContext P} {convo : GroupConvo P}
    {conversationClass : ConversationClass}
    (h : handleFrame payload cx = (.ok (some (convo, conversationClass)), cx')) (signer : SignerKey) :
    ¬ convo.Outstanding signer := by
  unfold handleFrame at h
  cases hframe : P.proto.decodeInboxFrame payload with
  | error e =>
      rw [hframe] at h
      cases h
  | ok frame =>
      rw [hframe] at h
      rcases frame with _ | welcomeBytes | welcomeBytes | welcomeBytes
      · cases h
      · obtain ⟨_, _, -, h⟩ := Call.bind_eq_ok h
        cases h
        exact id
      · obtain ⟨_, _, -, h⟩ := Call.bind_eq_ok h
        obtain ⟨_, _, hjoin, h⟩ := Call.bind_eq_ok h
        cases h
        obtain ⟨_, _, -, hjoin⟩ := Call.bind_eq_ok hjoin
        obtain ⟨joined, _, -, hjoin⟩ := Call.bind_eq_ok hjoin
        cases joined with
        | none => cases hjoin
        | some joined =>
            have hnobody : ∀ signer, GroupV2.Outstanding (GroupV2.fromTurn joined.1 joined.2 fun _ ↦ none)
                signer → False := nofun
            exact GroupV2.settle_outstanding hnobody hjoin signer
      · obtain ⟨_, _, -, h⟩ := Call.bind_eq_ok h
        obtain ⟨_, _, -, h⟩ := Call.bind_eq_ok h
        cases h
        exact id

end InboxV2

namespace Core

theorem heeds_dispatchToInbox (payload : Bytes) :
    (dispatchToInbox payload).Keeps (Heeds (P := P) allowed) := by
  have hframe : (onServices (InboxV2.handleFrame payload)).Keeps (Heeds (P := P) allowed) :=
    fun c hc ↦ ⟨hc, InboxV2.mails_handleFrame payload c.services⟩
  refine hframe.bind_of_ok fun c received c' hreceived ↦ ?_
  cases received with
  | none => exact refl c'
  | some received =>
      obtain ⟨convo, conversationClass⟩ := received
      have hresult : (InboxV2.handleFrame payload c.services).1 =
          .ok (some (convo, conversationClass)) := congrArg Prod.fst hreceived
      refine Call.Keeps.bind (R := Heeds allowed) (heeds_registerConvo fun signer hout ↦ ?_)
        (fun _ ↦ Call.keeps_pure _) c'
      have hnone := InboxV2.handleFrame_outstanding (Prod.ext hresult rfl) signer
      cases conversationClass <;> exact absurd hout hnone

theorem heeds_handlePayload (payload : Bytes) : (handlePayload payload).Keeps (Heeds (P := P) allowed) := by
  refine (Call.keeps_ofResult _).bind fun env ↦ ?_
  refine (Call.keeps_read _).bind fun c ↦ ?_
  split
  · exact heeds_dispatchToInbox env.payload
  split
  · exact (tends_dispatchToConvo _ _).mono fun _ _ h ↦ h.heeds
  · refine ((tends_hasConversation _).mono fun _ _ h ↦ h.heeds).bind fun stored ↦ ?_
    split
    · exact (tends_dispatchToConvo _ _).mono fun _ _ h ↦ h.heeds
    · exact Call.keeps_pure _

/-! ## What a call does -/

/-- A call that is to invite `signers`, and skips those of `skipped`, hands over the packages of
`kept`; the welcomes it sends, and the invites it leaves outstanding, are theirs or were outstanding
before.  A refused fetch fails the call and leaves every conversation as it was. -/
structure Effect (kind : GroupKind) (skipped signers : List SignerKey) (c : Core P)
    (after : Result ChatError α × Core P) (asked kept : List SignerKey)
    (items : List (Handed × Signer)) : Prop where
  deals : Deals kind signers (fun signer ↦ c.Outstanding signer ∨ signer ∈ kept) c.services
    after.2.services asked kept items
  still : ∀ signer, after.2.Outstanding signer → c.Outstanding signer ∨ signer ∈ kept
  fresh : ∀ signer ∈ kept, signer ∉ skipped
  failed : Refuses kind c.services asked →
    (∃ e, after.1 = .err e) ∧ after.2.cachedConvos = c.cachedConvos

section Effect

variable {kind : GroupKind} {skipped signers asked kept : List SignerKey}
  {items : List (Handed × Signer)} {c : Core P}

theorem effect_of_heeds {m : Call (Core P) ChatError α} (h : m.Keeps (Heeds c.Outstanding)) :
    Effect kind skipped signers c (m c) [] [] [] := by
  obtain ⟨hstill, hmails⟩ := h c fun _ hout ↦ hout
  refine ⟨hmails.deals.mono fun _ hout ↦ .inl hout, fun signer hout ↦ .inl (hstill signer hout), nofun, ?_⟩
  rintro ⟨signer, hmem, -⟩
  cases hmem

theorem effect_failed (e : ChatError) :
    Effect kind skipped signers c ((.err e, c) : Result ChatError α × Core P) [] [] [] :=
  effect_of_heeds (Call.keeps_fail e)

theorem Effect.weaken {after : Result ChatError α × Core P} {skipped' : List SignerKey}
    (h : Effect kind skipped signers c after asked kept items) (hsub : skipped' ⊆ skipped) :
    Effect kind skipped' signers c after asked kept items :=
  { h with fresh := fun signer hmem hskipped ↦ h.fresh signer hmem (hsub hskipped) }

theorem Effect.void {m : Call (Core P) ChatError α}
    (h : Effect kind skipped signers c (m c) asked kept items) :
    Effect kind skipped signers c (m.void c) asked kept items := by
  have hstate : (m.void c).2 = (m c).2 := Call.bind_pure_snd _ c
  refine ⟨hstate ▸ h.deals, hstate ▸ h.still, h.fresh, fun hrefuses ↦ ?_⟩
  obtain ⟨⟨e, he⟩, hcached⟩ := h.failed hrefuses
  have hvoid : m.void c = (.err e, (m c).2) := Call.bind_of_err (Prod.ext he rfl)
  rw [hvoid]
  exact ⟨⟨e, rfl⟩, hcached⟩

theorem createConvo_effect
    {make : List SignerKey → Call (ServiceContext P) ChatError (ConvoTypeOwned P)}
    {participants : List ParticipantId} (hsigners : signersFor c.services.auth participants = .ok signers)
    (h : Makes kind skipped signers c.services (make signers c.services) asked kept items) :
    Effect kind skipped signers c (createConvo make participants c) asked kept items := by
  have hallowed : ∀ signer, signer ∈ kept → c.Outstanding signer ∨ signer ∈ kept := fun _ ↦ .inr
  rw [createConvo_of_resolved hsigners]
  cases hmake : make signers c.services with
  | mk r cx' =>
      rw [hmake] at h
      have hservices := onServices_of_eq hmake
      cases r with
      | ok owned =>
          rw [Call.bind_of_ok hservices]
          refine ⟨?_, fun signer hout ↦ ?_, h.fresh, fun hrefuses ↦ ?_⟩
          · rw [Call.bind_pure_snd, registerConvo_services]
            exact h.toDeals.mono hallowed
          · rw [Call.bind_pure_snd] at hout
            obtain howned | hbefore := outstanding_registerConvo hout
            · exact .inr (h.still owned rfl signer howned)
            · exact .inl hbefore
          · obtain ⟨e, he⟩ := h.failed hrefuses
            cases he
      | err e =>
          rw [Call.bind_of_err hservices]
          exact ⟨h.toDeals.mono hallowed, fun _ ↦ .inl, h.fresh, fun _ ↦ ⟨⟨e, rfl⟩, rfl⟩⟩
      | panic =>
          rw [Call.bind_of_panic hservices]
          refine ⟨h.toDeals.mono hallowed, fun _ ↦ .inl, h.fresh, fun hrefuses ↦ ?_⟩
          obtain ⟨e, he⟩ := h.failed hrefuses
          cases he

theorem replace_self {convoId : String} {owned : ConvoTypeOwned P}
    (h : c.cachedConvos.lookup convoId = some owned) : c.cachedConvos.replace convoId owned = c.cachedConvos :=
  AList.ext (List.kreplace_self c.cachedConvos.nodupKeys (AList.mem_lookup_iff.mp h))

theorem groupAddSigners_effect {convoId : String} {convo : GroupConvo P} {members : List SignerKey}
    (hlookup : c.cachedConvos.lookup convoId = some (.group convo))
    (h : Invites convo.kind GroupConvo.Outstanding convo.seated members ⟨convo, c.services⟩
      (GroupConvo.addSigner members ⟨convo, c.services⟩) asked kept items) :
    Effect convo.kind convo.seated members c (groupAddSigners convoId members c) asked kept items := by
  have hloaded : ∀ signer, convo.Outstanding signer → c.Outstanding signer :=
    fun _ ↦ outstanding_of_lookup hlookup
  unfold groupAddSigners onCached
  rw [hlookup]
  refine ⟨h.deals.mono fun signer ↦ Or.imp_left (hloaded signer), fun signer hout ↦ ?_, h.fresh,
    fun hrefuses ↦ ?_⟩
  · obtain hconvo | hbefore := outstanding_replace hout
    · exact (h.still signer hconvo).imp_left (hloaded signer)
    · exact .inl hbefore
  · obtain ⟨herr, hsame⟩ := h.failed hrefuses
    have hreplaced : c.cachedConvos.replace convoId
        (.group (GroupConvo.addSigner members ⟨convo, c.services⟩).2.convo) = c.cachedConvos := by
      rw [hsame]
      exact replace_self hlookup
    exact ⟨herr, hreplaced⟩

end Effect

/-! ## Every call -/

/-- Whom a call is to invite: the kind of the group, who is seated in it before the call, the creator
of a new group included, and the signers that the call was given. -/
structure Invitation where
  kind : GroupKind := .v1
  seated : List SignerKey := []
  signers : List SignerKey := []

/-- The invitation of a creation; nobody is invited when the participants cannot be resolved. -/
def toCreate (c : Core P) (kind : GroupKind) (participants : List ParticipantId) : Invitation :=
  match signersFor c.services.auth participants with
  | .ok signers => { kind := kind, seated := [c.services.self.signer], signers := signers }
  | .error _ => {}

/-- The invitation of an addition to a loaded group. -/
def toAdd (c : Core P) (convoId : String) (signers : List SignerKey) : Invitation :=
  match c.cachedConvos.lookup convoId with
  | some (.group convo) => { kind := convo.kind, seated := convo.seated, signers := signers }
  | _ => {}

def Event.invitation (c : Core P) : Event P → Invitation
  | .createDirectConvoV1 participant =>
      if participant = c.services.self.participantId then {} else toCreate c .v1 [participant]
  | .createGroupConvoV1 participants => toCreate c .v1 participants
  | .createGroupConvoV2 participants _ _ => toCreate c .v2 participants
  | .createGroupConvoV3 participants => toCreate c .v3 participants
  | .groupAddParticipants convoId participants =>
      match signersFor c.services.auth participants with
      | .ok signers => toAdd c convoId signers
      | .error _ => {}
  | .groupAddSigners convoId members => toAdd c convoId members
  | _ => {}

/-- Those a call leaves out: whoever is seated, but in the creation of a GroupV2 group. -/
def Event.skipped (c : Core P) : Event P → List SignerKey
  | .createGroupConvoV2 _ _ _ => []
  | e => (e.invitation c).seated

theorem createConvo_effects (c : Core P) {kind : GroupKind}
    {make : List SignerKey → Call (ServiceContext P) ChatError (ConvoTypeOwned P)}
    {skipped : List SignerKey} (hmakes : ∀ signers, ∃ asked kept items,
      Makes kind skipped signers c.services (make signers c.services) asked kept items)
    (participants : List ParticipantId) :
    ∃ asked kept items, Effect (toCreate c kind participants).kind skipped
      (toCreate c kind participants).signers c ((createConvo make participants).void c)
      asked kept items := by
  unfold toCreate
  cases hsigners : signersFor c.services.auth participants with
  | error e =>
      have hfails : (createConvo make participants).void c = (.err (.participantResolution e), c) :=
        Call.bind_of_err (createConvo_of_unresolved hsigners)
      rw [hfails]
      exact ⟨[], [], [], effect_failed _⟩
  | ok signers =>
      obtain ⟨asked, kept, items, h⟩ := hmakes signers
      exact ⟨asked, kept, items, (createConvo_effect hsigners h).void⟩

theorem toCreate_seated (c : Core P) (kind : GroupKind) (participants : List ParticipantId) :
    (toCreate c kind participants).seated ⊆ [c.services.self.signer] := by
  unfold toCreate
  split
  · exact fun _ h ↦ h
  · exact List.nil_subset _

/-- A creation that skips its creator. -/
theorem createConvo_effects_seated (c : Core P) {kind : GroupKind}
    {make : List SignerKey → Call (ServiceContext P) ChatError (ConvoTypeOwned P)}
    (hmakes : ∀ signers, ∃ asked kept items, Makes kind [c.services.self.signer] signers c.services
      (make signers c.services) asked kept items) (participants : List ParticipantId) :
    ∃ asked kept items, Effect (toCreate c kind participants).kind (toCreate c kind participants).seated
      (toCreate c kind participants).signers c ((createConvo make participants).void c)
      asked kept items := by
  obtain ⟨asked, kept, items, h⟩ := createConvo_effects c hmakes participants
  exact ⟨asked, kept, items, h.weaken (toCreate_seated c kind participants)⟩

theorem groupAddSigners_effects (c : Core P) (convoId : String) (members : List SignerKey) :
    ∃ asked kept items, Effect (toAdd c convoId members).kind (toAdd c convoId members).seated
      (toAdd c convoId members).signers c (groupAddSigners convoId members c) asked kept items := by
  unfold toAdd
  cases hlookup : c.cachedConvos.lookup convoId with
  | none =>
      have hfails : groupAddSigners convoId members c = (.err (.noConvo convoId), c) := by
        unfold groupAddSigners onCached
        rw [hlookup]
        rfl
      rw [hfails]
      exact ⟨[], [], [], effect_failed _⟩
  | some owned =>
      cases owned with
      | direct convo =>
          have hfails : groupAddSigners convoId members c =
              (.err (.unsupportedFunction convo.id "Add Member"), c) := by
            unfold groupAddSigners onCached
            rw [hlookup]
            show (_, { c with cachedConvos := c.cachedConvos.replace convoId (.direct convo) }) = _
            rw [replace_self hlookup]
            rfl
          rw [hfails]
          exact ⟨[], [], [], effect_failed _⟩
      | group convo =>
          obtain ⟨asked, kept, items, h⟩ := GroupConvo.addSigner_invites members ⟨convo, c.services⟩
          exact ⟨asked, kept, items, groupAddSigners_effect hlookup h⟩

theorem call_effect (c : Core P) (e : Event P) :
    ∃ asked kept items, Effect (e.invitation c).kind (e.skipped c) (e.invitation c).signers c (e.call c)
      asked kept items := by
  -- a call that invites nobody
  have hnobody : ∀ {m : Call (Core P) ChatError Unit}, m.Keeps (Heeds c.Outstanding) →
      ∃ asked kept items, Effect .v1 [] [] c (m c) asked kept items :=
    fun h ↦ ⟨[], [], [], effect_of_heeds h⟩
  have htends : ∀ {m : Call (Core P) ChatError Unit}, m.Keeps (Tends c.Outstanding) →
      ∃ asked kept items, Effect .v1 [] [] c (m c) asked kept items :=
    fun h ↦ hnobody (h.mono fun _ _ h ↦ h.heeds)
  cases e with
  | createDirectConvoV1 participant =>
      dsimp only [Event.skipped, Event.invitation, Event.call]
      have hcall : (createDirectConvoV1 participant).void c =
          (if participant = c.services.self.participantId then Call.fail .cannotMessageSelf
            else createConvo DirectV1.new [participant]).void c :=
        Call.bind_of_eq (Call.read_bind _ _ c)
      rw [hcall]
      split
      · exact hnobody (Call.keeps_fail _).void
      · exact createConvo_effects_seated c (DirectV1.new_makes · c.services) [participant]
  | createGroupConvoV1 participants =>
      exact createConvo_effects_seated c (makeGroupV1_makes · c.services) participants
  | createGroupConvoV2 participants name desc =>
      refine createConvo_effects c (fun signers ↦ ?_) participants
      obtain ⟨asked, kept, items, h, -⟩ := makeGroupV2_makes name desc signers c.services
      exact ⟨asked, kept, items, h⟩
  | createGroupConvoV3 participants =>
      refine createConvo_effects_seated c (fun signers ↦ ?_) participants
      obtain ⟨asked, kept, items, h, -⟩ := makeGroupV3_makes signers c.services
      exact ⟨asked, kept, items, h⟩
  | groupAddParticipants convoId participants =>
      dsimp only [Event.skipped, Event.invitation, Event.call]
      cases hsigners : signersFor c.services.auth participants with
      | error e =>
          rw [groupAddParticipants_of_unresolved hsigners]
          exact ⟨[], [], [], effect_failed _⟩
      | ok signers =>
          rw [groupAddParticipants_of_resolved hsigners]
          exact groupAddSigners_effects c convoId signers
  | groupAddSigners convoId members => exact groupAddSigners_effects c convoId members
  | groupRemoveParticipants convoId participants =>
      exact htends (tends_groupRemoveParticipants convoId participants)
  | groupRemoveSigners convoId members => exact htends (tends_groupRemoveSigners convoId members)
  | sendContent convoId content => exact htends (tends_sendContent convoId content).void
  | handlePayload payload => exact hnobody (heeds_handlePayload payload).void
  | wakeup convoId => exact htends (tends_wakeup convoId).void
  | listAllConversations => exact htends tends_listAllConversations.void
  | servicesChange retrieve auth mlsStorage =>
      refine hnobody fun c' hc ↦ ⟨hc, rfl, rfl, [], (List.append_nil _).symm, invitesOnly_nil⟩

end Core

end LogosChat.Conversations
