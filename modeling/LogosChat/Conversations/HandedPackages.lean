import LogosChat.Conversations.Invitations

/-!
# The packages that reach MLS

Whatever the registry answers, a package that a call hands to MLS was fetched for one of the signers
the call was given, is bound to that signer, and makes a claim that the auth service finds valid; and
a welcome only ever goes to a signer whose package was handed over.

Two checks are not made on every path: GroupV3 takes an HPKE key of any length, and the creation of a
GroupV2 group takes its own creator for a new member.
-/

namespace LogosChat.Conversations

open Reasoning

variable {P : Platform}

/-- The package that MLS finds in what it is handed. -/
def Handed.Holds (M : OpenMls) : Handed → KeyPackage → Prop
  | .keyPackage validated, held => held = validated
  | .encoded bytes, held =>
      ∃ unchecked, M.tlsDeserialize bytes = .ok unchecked ∧ M.validate unchecked = .ok held

/-- The package was fetched for its signer and vetted, and the verdict on it was that it is valid. -/
def HandedOver.Vouched (kind : GroupKind) (cx : ServiceContext P) (h : HandedOver) : Prop :=
  ∃ bytes keyPackage, Vetted (kind.parse P.mls) cx h.signer.signer bytes keyPackage ∧
    h.package = kind.package bytes keyPackage ∧ h.signer = keyPackage.signer ∧ h.verdict = .valid

section Vouched

variable {kind : GroupKind} {cx : ServiceContext P} {signer : SignerKey} {bytes : Bytes}
  {keyPackage held : KeyPackage}

/-- MLS finds the very package that was vetted. -/
theorem Vetted.holds_iff (h : Vetted (kind.parse P.mls) cx signer bytes keyPackage) :
    (kind.package bytes keyPackage).Holds P.mls held ↔ held = keyPackage := by
  cases kind with
  | v1 => exact Iff.rfl
  | v3 => exact Iff.rfl
  | v2 =>
      obtain ⟨unchecked, hparse, hvalidate⟩ := h.decoded
      constructor
      · rintro ⟨unchecked', hparse', hvalidate'⟩
        have hunchecked := hparse.symm.trans hparse'
        cases hunchecked
        have hsame := hvalidate'.symm.trans hvalidate
        cases hsame
        rfl
      · rintro rfl
        exact ⟨unchecked, hparse, hvalidate⟩

theorem HandedOver.Vouched.holds_key {h : HandedOver} (hvouched : h.Vouched kind cx)
    (hheld : h.package.Holds P.mls held) : (⟨held.leafNode.signatureKey⟩ : SignerKey) = h.signer.signer := by
  obtain ⟨bytes, keyPackage, hvetted, hpackage, hsigner, -⟩ := hvouched
  rw [hpackage, hvetted.holds_iff] at hheld
  rw [hheld, hsigner]
  rfl

end Vouched

namespace Core

/-! ## What one call hands over -/

/-- The packages that a call hands to MLS. -/
def newlyHanded (c : Core P) (e : Event P) : List HandedOver :=
  (step c e).services.handed.drop c.services.handed.length

section NewlyHanded

variable {kind : GroupKind} {skipped signers asked kept : List SignerKey}
  {items : List (Handed × Signer)} {c : Core P} {e : Event P}

theorem Effect.handed_eq (h : Effect kind skipped signers c (e.call c) asked kept items) :
    (step c e).services.handed = c.services.handed ++ newlyHanded c e ∧
      newlyHanded c e = items.map fun item ↦ ⟨item.1, item.2, item.2.authStatus c.services.auth⟩ := by
  have hhanded : (step c e).services.handed = c.services.handed ++
      items.map fun item ↦ ⟨item.1, item.2, item.2.authStatus c.services.auth⟩ := h.deals.mails.handed
  unfold newlyHanded
  rw [hhanded, List.drop_left]
  exact ⟨rfl, rfl⟩

theorem Effect.newlyHanded_keys (h : Effect kind skipped signers c (e.call c) asked kept items) :
    (newlyHanded c e).map (·.signer.signer) = kept := by
  rw [h.handed_eq.2, List.map_map]
  exact h.deals.offered.keys

theorem Effect.vouched (h : Effect kind skipped signers c (e.call c) asked kept items)
    {handed : HandedOver} (hmem : handed ∈ newlyHanded c e) : handed.Vouched kind c.services := by
  rw [h.handed_eq.2] at hmem
  obtain ⟨item, hitem, rfl⟩ := List.mem_map.mp hmem
  obtain ⟨bytes, keyPackage, hvetted, hsame, -⟩ := GroupKind.offer_vetted (h.deals.offered.mem hitem)
  have hsigner : item.2 = keyPackage.signer := congrArg Prod.snd hsame
  refine ⟨bytes, keyPackage, hvetted, congrArg Prod.fst hsame, hsigner, ?_⟩
  rw [hsigner]
  exact hvetted.valid

theorem Effect.mem_newlyHanded (h : Effect kind skipped signers c (e.call c) asked kept items)
    {signer : SignerKey} (hmem : signer ∈ kept) : ∃ handed ∈ newlyHanded c e, handed.signer.signer = signer := by
  rw [← h.newlyHanded_keys] at hmem
  exact List.mem_map.mp hmem

end NewlyHanded

/-- What is promised of a call that asks the registry for `asked`. -/
structure InvitesSoundly (c : Core P) (e : Event P) (asked : List SignerKey) : Prop where
  registry : (step c e).services.registry.asked = c.services.registry.asked ++ asked.map SignerKey.toHex
  once : asked.Nodup
  listed : ∀ signer ∈ asked, signer ∈ (e.invitation c).signers
  handed : (step c e).services.handed = c.services.handed ++ newlyHanded c e
  fetched : ∀ handed ∈ newlyHanded c e, handed.signer.signer ∈ asked
  order : ((newlyHanded c e).map (·.signer.signer)).Sublist (firstSeen (e.invitation c).signers)
  vouched : ∀ handed ∈ newlyHanded c e, handed.Vouched (e.invitation c).kind c.services
  -- one package is missing, cannot be decoded, is bound to another signer or is not valid
  refused : (∃ signer ∈ asked, ∀ bytes keyPackage,
      ¬ Vetted ((e.invitation c).kind.parse P.mls) c.services signer bytes keyPackage) →
    (∃ error, (e.call c).1 = .err error) ∧ newlyHanded c e = [] ∧
      (step c e).services.ds.published = c.services.ds.published ∧
      (step c e).cachedConvos = c.cachedConvos

theorem invites_soundly (c : Core P) (e : Event P) : ∃ asked, InvitesSoundly c e asked := by
  obtain ⟨asked, kept, items, h⟩ := call_effect c e
  have hlisted : ∀ signer ∈ asked, signer ∈ (e.invitation c).signers :=
    fun signer hmem ↦ mem_firstSeen.mp (h.deals.order.subset hmem)
  refine ⟨asked,
    { registry := h.deals.mails.asked
      once := h.deals.order.nodup (nodup_firstSeen _)
      listed := hlisted
      handed := h.handed_eq.1
      fetched := fun handed hmem ↦ ?_
      order := ?_
      vouched := fun _ ↦ h.vouched
      refused := ?_ }⟩
  · apply h.deals.picked.subset
    rw [← h.newlyHanded_keys]
    exact List.mem_map_of_mem hmem
  · rw [h.newlyHanded_keys]
    exact h.deals.picked.trans h.deals.order
  · rintro ⟨signer, hmem, hnone⟩
    have hrefuses : Refuses (e.invitation c).kind c.services asked := by
      refine ⟨signer, hmem, fun item hoffer ↦ ?_⟩
      obtain ⟨bytes, keyPackage, hvetted, -⟩ := GroupKind.offer_vetted hoffer
      exact hnone bytes keyPackage hvetted
    obtain ⟨hkept, hpublished⟩ := h.deals.refused hrefuses
    obtain ⟨herror, hcached⟩ := h.failed hrefuses
    have hkeys := h.newlyHanded_keys
    rw [hkept] at hkeys
    exact ⟨herror, List.map_eq_nil_iff.mp hkeys, hpublished, hcached⟩

/-! ## What a session sends -/

/-- One of these calls handed over a package of the signer. -/
def HandedDuring (c : Core P) (events : List (Event P)) (signer : SignerKey) : Prop :=
  ∃ before e after, events = before ++ e :: after ∧
    ∃ handed ∈ newlyHanded (run step c before) e, handed.signer.signer = signer

section Session

variable {c : Core P} {events : List (Event P)} {signer : SignerKey}

theorem HandedDuring.append (h : HandedDuring c events signer) (e : Event P) :
    HandedDuring c (events ++ [e]) signer := by
  obtain ⟨before, call, after, rfl, hhanded⟩ := h
  exact ⟨before, call, after ++ [e], by rw [List.append_assoc, List.cons_append], hhanded⟩

theorem handedDuring_last {e : Event P}
    (h : ∃ handed ∈ newlyHanded (run step c events) e, handed.signer.signer = signer) :
    HandedDuring c (events ++ [e]) signer :=
  ⟨events, e, [], rfl, h⟩

/-- Every welcome sent, and every invite outstanding, is of a signer whose package was handed over. -/
theorem accounted (services : ServiceContext P) (events : List (Event P)) :
    (∃ sent, (run step (assemble services) events).services.ds.published = services.ds.published ++ sent ∧
      InvitesOnly P (HandedDuring (assemble services) events) sent) ∧
    ∀ signer, (run step (assemble services) events).Outstanding signer →
      HandedDuring (assemble services) events signer := by
  induction events using List.reverseRecOn with
  | nil =>
      refine ⟨⟨[], (List.append_nil _).symm, invitesOnly_nil⟩, fun signer hout ↦ ?_⟩
      obtain ⟨entry, hmem, -⟩ := hout
      cases hmem
  | append_singleton events e ih =>
      obtain ⟨hsent, hout⟩ := ih
      rw [run_append]
      generalize hc : run step (assemble services) events = c at hsent hout ⊢
      show (∃ sent, (step c e).services.ds.published = _ ∧ _) ∧ ∀ signer, (step c e).Outstanding signer → _
      obtain ⟨asked, kept, items, h⟩ := call_effect c e
      have hallowed : ∀ signer, c.Outstanding signer ∨ signer ∈ kept →
          HandedDuring (assemble services) (events ++ [e]) signer := by
        rintro signer (hbefore | hkept)
        · exact (hout signer hbefore).append e
        · apply handedDuring_last
          rw [hc]
          exact h.mem_newlyHanded hkept
      refine ⟨?_, fun signer hafter ↦ hallowed signer (h.still signer hafter)⟩
      obtain ⟨sent, hpublished, honly⟩ := hsent
      obtain ⟨new, hnew, hinvites⟩ := h.deals.mails.published
      exact InvitesOnly.trans ⟨sent, hpublished, honly.mono fun _ h ↦ h.append e⟩
        ⟨new, hnew, hinvites.mono hallowed⟩

end Session

/-- For every call in every state, and every welcome sent in a session. -/
theorem invitations_vouched_for :
    (∀ (c : Core P) (e : Event P), ∃ asked, InvitesSoundly c e asked) ∧
    ∀ (services : ServiceContext P) (events : List (Event P)),
      ∃ sent, (run step (assemble services) events).services.ds.published =
          services.ds.published ++ sent ∧
        ∀ envelope ∈ sent, ∀ invite, envelope.payload = .invite invite →
          ∃ signer, HandedDuring (assemble services) events signer ∧
            envelope = inviteEnvelope P signer invite :=
  ⟨invites_soundly, fun services events ↦ (accounted services events).1⟩

/-! ## What is asked of the packages themselves -/

section Held

variable {kind : GroupKind} {skipped signers asked kept : List SignerKey}
  {items : List (Handed × Signer)} {c : Core P} {e : Event P}

/-- Whoever is kept has a vetted package. -/
theorem Effect.kept_vetted (h : Effect kind skipped signers c (e.call c) asked kept items)
    {signer : SignerKey} (hmem : signer ∈ kept) :
    ∃ bytes keyPackage, Vetted (kind.parse P.mls) c.services signer bytes keyPackage ∧
      (kind ≠ .v3 → keyPackage.hpkeInitKey.length = hpkePublicKeyLen) := by
  obtain ⟨item, -, hoffer⟩ := Call.exists_of_mem_left h.deals.offered hmem
  obtain ⟨bytes, keyPackage, hvetted, -, hlength⟩ := GroupKind.offer_vetted hoffer
  exact ⟨bytes, keyPackage, hvetted, hlength⟩

/-- What holds of the packages handed over holds of the vetted packages of those kept. -/
theorem Effect.held_iff (h : Effect kind skipped signers c (e.call c) asked kept items)
    (Q : KeyPackage → Prop) :
    (∀ handed ∈ newlyHanded c e, ∀ held, handed.package.Holds P.mls held → Q held) ↔
      ∀ signer ∈ kept, ∀ bytes keyPackage,
        Vetted (kind.parse P.mls) c.services signer bytes keyPackage → Q keyPackage := by
  constructor
  · intro hheld signer hmem bytes keyPackage hvetted
    obtain ⟨handed, hhanded, rfl⟩ := h.mem_newlyHanded hmem
    obtain ⟨bytes', keyPackage', hvetted', hpackage, -⟩ := h.vouched hhanded
    rw [hvetted.unique hvetted']
    apply hheld handed hhanded
    rw [hpackage]
    exact hvetted'.holds_iff.mpr rfl
  · intro hkept handed hhanded held hheld
    obtain ⟨bytes, keyPackage, hvetted, hpackage, -⟩ := h.vouched hhanded
    rw [hpackage, hvetted.holds_iff] at hheld
    rw [hheld]
    refine hkept handed.signer.signer ?_ bytes keyPackage hvetted
    rw [← h.newlyHanded_keys]
    exact List.mem_map_of_mem hhanded

/-- All packages carry different keys. -/
theorem Effect.pairwise (h : Effect kind skipped signers c (e.call c) asked kept items) :
    (newlyHanded c e).Pairwise fun handed handed' ↦ ∀ held held',
      handed.package.Holds P.mls held → handed'.package.Holds P.mls held' →
      held.leafNode.signatureKey ≠ held'.leafNode.signatureKey := by
  have hnodup : kept.Nodup := (h.deals.picked.trans h.deals.order).nodup (nodup_firstSeen _)
  rw [← h.newlyHanded_keys, List.Nodup, List.pairwise_map] at hnodup
  refine hnodup.imp_of_mem fun hmem hmem' hne held held' hheld hheld' hsame ↦ hne ?_
  rw [← (h.vouched hmem).holds_key hheld, ← (h.vouched hmem').holds_key hheld', hsame]

theorem Effect.held_unseated_iff (h : Effect kind skipped signers c (e.call c) asked kept items)
    (seated : List SignerKey) :
    (∀ handed ∈ newlyHanded c e, ∀ held, handed.package.Holds P.mls held →
      ⟨held.leafNode.signatureKey⟩ ∉ seated) ↔ ∀ signer ∈ kept, signer ∉ seated := by
  rw [h.held_iff fun held ↦ ⟨held.leafNode.signatureKey⟩ ∉ seated]
  constructor
  · intro hunseated signer hmem
    obtain ⟨bytes, keyPackage, hvetted, -⟩ := h.kept_vetted hmem
    have hkey := hunseated signer hmem bytes keyPackage hvetted
    rwa [hvetted.bound] at hkey
  · intro hunseated signer hmem bytes keyPackage hvetted
    rw [hvetted.bound]
    exact hunseated signer hmem

end Held

/-! ### The length of the HPKE key -/

/-- A GroupV3 call comes to its fetch: the new group can be set up, or the roster read. -/
def ReachesFetchV3 (c : Core P) : Event P → Prop
  | .createGroupConvoV3 _ => ∃ groupId secrets, Creates c.services groupId secrets
  | .groupAddParticipants convoId _ => ∃ convo existing,
      c.cachedConvos.lookup convoId = some (.group (.v3 convo)) ∧ GroupV3.signers convo = .ok existing
  | .groupAddSigners convoId _ => ∃ convo existing,
      c.cachedConvos.lookup convoId = some (.group (.v3 convo)) ∧ GroupV3.signers convo = .ok existing
  | _ => False

/-- The signers a call is given that are not seated, each once. -/
def Event.newcomers (c : Core P) (e : Event P) : List SignerKey :=
  keepNew (e.invitation c).seated (e.invitation c).signers

/-- A GroupV3 call hands over its packages. -/
def HandsOverV3 (c : Core P) (e : Event P) : Prop :=
  ReachesFetchV3 c e ∧ ¬ Refuses .v3 c.services (e.newcomers c)

theorem groupAddSigners_v3_effect {c : Core P} {convoId : String} {convo : GroupV3Convo P}
    (hlookup : c.cachedConvos.lookup convoId = some (.group (.v3 convo))) (members : List SignerKey) :
    ∃ asked kept items, Effect .v3 convo.mlsGroup.seated members c (groupAddSigners convoId members c)
      asked kept items ∧
      (GroupV3.Fetches ⟨convo, c.services⟩ members → kept = keepNew convo.mlsGroup.seated members) ∧
      (¬ GroupV3.Fetches ⟨convo, c.services⟩ members → kept = []) := by
  obtain ⟨asked, kept, items, h, hkept⟩ := GroupV3.addSigner_invites members ⟨convo, c.services⟩
  exact ⟨asked, kept, items, groupAddSigners_effect hlookup (h.within fun _ ↦ rfl), hkept⟩

theorem toAdd_v3 {c : Core P} {convoId : String} {signers : List SignerKey}
    (h : (toAdd c convoId signers).kind = .v3) :
    ∃ convo, c.cachedConvos.lookup convoId = some (.group (.v3 convo)) := by
  unfold toAdd at h
  cases hlookup : c.cachedConvos.lookup convoId with
  | none =>
      rw [hlookup] at h
      cases h
  | some owned =>
      rw [hlookup] at h
      rcases owned with convo | convo | convo | convo
      · cases h
      · cases h
      · cases h
      · exact ⟨convo, rfl⟩

theorem toAdd_of_v3 {c : Core P} {convoId : String} {convo : GroupV3Convo P}
    (h : c.cachedConvos.lookup convoId = some (.group (.v3 convo))) (signers : List SignerKey) :
    toAdd c convoId signers = { kind := .v3, seated := convo.mlsGroup.seated, signers := signers } := by
  unfold toAdd
  rw [h]
  rfl

theorem toCreate_v3 {c : Core P} {kind : GroupKind} {participants : List ParticipantId}
    (h : (toCreate c kind participants).kind = .v3) :
    kind = .v3 ∧ ∃ signers, signersFor c.services.auth participants = .ok signers := by
  unfold toCreate at h
  cases hsigners : signersFor c.services.auth participants with
  | error e =>
      rw [hsigners] at h
      cases h
  | ok signers =>
      rw [hsigners] at h
      exact ⟨h, signers, rfl⟩

/-- The call hands over the packages of all newcomers, or none. -/
abbrev AllOrNoneV3 (c : Core P) (e : Event P) : Prop :=
  ∃ skipped asked kept items,
    Effect .v3 skipped (e.invitation c).signers c (e.call c) asked kept items ∧
    (HandsOverV3 c e → kept = e.newcomers c) ∧ (¬ HandsOverV3 c e → kept = [])

theorem allOrNoneV3_create {c : Core P} {participants : List ParticipantId} {signers : List SignerKey}
    (h : signersFor c.services.auth participants = .ok signers) :
    AllOrNoneV3 c (.createGroupConvoV3 participants) := by
  have hinvitation : (Event.createGroupConvoV3 participants).invitation c =
      { kind := .v3, seated := [c.services.self.signer], signers := signers } := by
    show toCreate c .v3 participants = _
    unfold toCreate
    rw [h]
  obtain ⟨asked, kept, items, hmakes, hkept⟩ := makeGroupV3_makes signers c.services
  unfold AllOrNoneV3 HandsOverV3 Event.newcomers
  rw [hinvitation]
  exact ⟨_, asked, kept, items, (createConvo_effect h hmakes).void, hkept⟩

-- both calls that add end in `groupAddSigners`
theorem allOrNoneV3_add {c : Core P} {e : Event P} {convoId : String} {members : List SignerKey}
    (hkind : (toAdd c convoId members).kind = .v3) (hinvitation : e.invitation c = toAdd c convoId members)
    (hcall : e.call c = groupAddSigners convoId members c)
    (hreaches : ReachesFetchV3 c e ↔ ∃ convo existing,
      c.cachedConvos.lookup convoId = some (.group (.v3 convo)) ∧ GroupV3.signers convo = .ok existing) :
    AllOrNoneV3 c e := by
  obtain ⟨convo, hlookup⟩ := toAdd_v3 hkind
  obtain ⟨asked, kept, items, h, hkept⟩ := groupAddSigners_v3_effect hlookup members
  have hiff : HandsOverV3 c e ↔ GroupV3.Fetches ⟨convo, c.services⟩ members := by
    unfold HandsOverV3 GroupV3.Fetches Event.newcomers
    rw [hreaches, hinvitation, toAdd_of_v3 hlookup]
    refine and_congr_left fun _ ↦ ⟨fun ⟨convo', existing, hlookup', hsigners⟩ ↦ ?_,
      fun ⟨existing, hsigners⟩ ↦ ⟨convo, existing, hlookup, hsigners⟩⟩
    rw [hlookup] at hlookup'
    cases hlookup'
    exact ⟨existing, hsigners⟩
  unfold AllOrNoneV3 Event.newcomers
  rw [hiff, hcall, hinvitation, toAdd_of_v3 hlookup]
  exact ⟨_, asked, kept, items, h, hkept⟩

theorem allOrNoneV3 {c : Core P} {e : Event P} (hkind : (e.invitation c).kind = .v3) :
    AllOrNoneV3 c e := by
  cases e with
  | createGroupConvoV3 participants =>
      obtain ⟨-, signers, hsigners⟩ := toCreate_v3 hkind
      exact allOrNoneV3_create hsigners
  | groupAddSigners convoId members => exact allOrNoneV3_add hkind rfl rfl Iff.rfl
  | groupAddParticipants convoId participants =>
      cases hsigners : signersFor c.services.auth participants with
      | error e =>
          dsimp only [Event.invitation] at hkind
          rw [hsigners] at hkind
          cases hkind
      | ok signers =>
          have hinvitation : (Event.groupAddParticipants convoId participants).invitation c =
              toAdd c convoId signers := by
            dsimp only [Event.invitation]
            rw [hsigners]
          rw [hinvitation] at hkind
          have hcall := groupAddParticipants_of_resolved hsigners convoId
          exact allOrNoneV3_add hkind hinvitation hcall Iff.rfl
  | createDirectConvoV1 participant =>
      dsimp only [Event.invitation] at hkind
      split at hkind
      · cases hkind
      · cases (toCreate_v3 hkind).1
  | createGroupConvoV1 participants => cases (toCreate_v3 hkind).1
  | createGroupConvoV2 participants name desc => cases (toCreate_v3 hkind).1
  | groupRemoveParticipants => cases hkind
  | groupRemoveSigners => cases hkind
  | sendContent => cases hkind
  | handlePayload => cases hkind
  | wakeup => cases hkind
  | listAllConversations => cases hkind
  | servicesChange => cases hkind

/-- When a GroupV3 call hands its packages over, the package of every newcomer has an HPKE key of the
right length. -/
def ChecksLength (c : Core P) (e : Event P) : Prop :=
  (e.invitation c).kind = .v3 → HandsOverV3 c e → ∀ signer ∈ e.newcomers c, ∀ bytes keyPackage,
    Vetted P.mls.tlsDeserializeExact c.services signer bytes keyPackage →
      keyPackage.hpkeInitKey.length = hpkePublicKeyLen

/-- A call hands over no package with an HPKE key of the wrong length exactly when it is no GroupV3
call that is given one. -/
theorem handed_hpke_length_iff (c : Core P) (e : Event P) :
    (∀ handed ∈ newlyHanded c e, ∀ held, handed.package.Holds P.mls held →
      held.hpkeInitKey.length = hpkePublicKeyLen) ↔ ChecksLength c e := by
  by_cases hkind : (e.invitation c).kind = .v3
  · obtain ⟨skipped, asked, kept, items, h, hall, hnone⟩ := allOrNoneV3 hkind
    rw [h.held_iff fun held ↦ held.hpkeInitKey.length = hpkePublicKeyLen]
    by_cases hhands : HandsOverV3 c e
    · rw [hall hhands]
      exact ⟨fun hlength _ _ ↦ hlength, fun hlength ↦ hlength hkind hhands⟩
    · rw [hnone hhands]
      exact iff_of_true nofun fun _ hhands' ↦ absurd hhands' hhands
  · obtain ⟨asked, kept, items, h⟩ := call_effect c e
    refine iff_of_true ?_ fun hkind' ↦ absurd hkind' hkind
    rw [h.held_iff fun held ↦ held.hpkeInitKey.length = hpkePublicKeyLen]
    intro signer hmem bytes keyPackage hvetted
    obtain ⟨bytes', keyPackage', hvetted', hlength⟩ := h.kept_vetted hmem
    rw [hvetted.unique hvetted']
    exact hlength hkind

/-- Packages without an HPKE key. -/
abbrev keyless : Platform :=
  { Sample.platform with mls := { Sample.mls with
      tlsDeserializeExact := fun bytes ↦ .ok { Sample.keyPackage bytes with hpkeInitKey := [] } } }

/-- Every participant has the one signer `signer`. -/
def resolving (P : Platform) (signer : Bytes) : Core P :=
  assemble { Sample.services P with
    registry := { retrieve := fun _ ↦ .ok (some signer) }
    auth := { validateSigner := fun _ _ ↦ .ok .valid
              signersForParticipant := fun _ ↦ .ok [⟨signer⟩] } }

/-- The package that the registry has for `[2]` goes to openmls without a look at its key. -/
theorem keyless_package_handed :
    ∃ handed ∈ newlyHanded (resolving keyless [2]) (.createGroupConvoV3 [⟨[]⟩]),
      ∃ held, handed.package.Holds keyless.mls held ∧ held.hpkeInitKey.length ≠ hpkePublicKeyLen :=
  ⟨_, List.mem_cons_self, _, rfl, by decide⟩

/-! ### Who is seated already -/

/-- A GroupV2 creation is not given its own creator, or stops at a package it does not admit. -/
def SparesCreator (c : Core P) : Event P → Prop
  | .createGroupConvoV2 participants _ _ => ∀ signers,
      signersFor c.services.auth participants = .ok signers → c.services.self.signer ∈ signers →
      Refuses .v2 c.services (firstSeen signers)
  | _ => True

/-- No key twice, and none that is seated. -/
def HandsUnseated (c : Core P) (e : Event P) : Prop :=
  (newlyHanded c e).Pairwise (fun handed handed' ↦ ∀ held held',
    handed.package.Holds P.mls held → handed'.package.Holds P.mls held' →
    held.leafNode.signatureKey ≠ held'.leafNode.signatureKey) ∧
  ∀ handed ∈ newlyHanded c e, ∀ held, handed.package.Holds P.mls held →
    ⟨held.leafNode.signatureKey⟩ ∉ (e.invitation c).seated

theorem Effect.handsUnseated_iff {kind : GroupKind} {skipped signers asked kept : List SignerKey}
    {items : List (Handed × Signer)} {c : Core P} {e : Event P}
    (h : Effect kind skipped signers c (e.call c) asked kept items) :
    HandsUnseated c e ↔ ∀ signer ∈ kept, signer ∉ (e.invitation c).seated := by
  unfold HandsUnseated
  rw [h.held_unseated_iff]
  exact and_iff_right h.pairwise

/-- A call that skips whoever is seated. -/
theorem handsUnseated_of_skipped {c : Core P} {e : Event P} (h : (e.invitation c).seated ⊆ e.skipped c) :
    HandsUnseated c e := by
  obtain ⟨asked, kept, items, heffect⟩ := call_effect c e
  rw [heffect.handsUnseated_iff]
  exact fun signer hmem hseated ↦ heffect.fresh signer hmem (h hseated)

theorem handsUnseated_createGroupConvoV2_iff {c : Core P} {participants : List ParticipantId}
    {signers : List SignerKey} (hsigners : signersFor c.services.auth participants = .ok signers)
    (name desc : String) :
    HandsUnseated c (.createGroupConvoV2 participants name desc) ↔
      (c.services.self.signer ∈ signers → Refuses .v2 c.services (firstSeen signers)) := by
  have hseated : ((Event.createGroupConvoV2 participants name desc).invitation c).seated =
      [c.services.self.signer] := by
    show (toCreate c .v2 participants).seated = _
    unfold toCreate
    rw [hsigners]
  obtain ⟨asked, kept, items, h, hall, hnone⟩ := makeGroupV2_makes name desc signers c.services
  have heffect : Effect .v2 [] signers c ((Event.createGroupConvoV2 participants name desc).call c)
      asked kept items := (createConvo_effect hsigners h).void
  rw [heffect.handsUnseated_iff, hseated]
  by_cases hrefuses : Refuses .v2 c.services (firstSeen signers)
  · rw [hnone hrefuses]
    exact iff_of_true nofun fun _ ↦ hrefuses
  · rw [hall hrefuses]
    constructor
    · intro hunseated hself
      exact absurd (List.mem_singleton_self _) (hunseated _ (mem_firstSeen.mpr hself))
    · intro hself signer hmem hsame
      rw [List.mem_singleton.mp hsame] at hmem
      exact hrefuses (hself (mem_firstSeen.mp hmem))

/-- A call hands over no key twice, and none that is seated, exactly when it is no GroupV2 creation
that is given its own creator. -/
theorem handed_unseated_iff (c : Core P) (e : Event P) : HandsUnseated c e ↔ SparesCreator c e := by
  cases e with
  | createGroupConvoV2 participants name desc =>
      dsimp only [SparesCreator]
      cases hsigners : signersFor c.services.auth participants with
      | error e =>
          refine iff_of_true (handsUnseated_of_skipped ?_) fun _ h ↦ nomatch h
          show (toCreate c .v2 participants).seated ⊆ []
          unfold toCreate
          rw [hsigners]
          exact List.nil_subset _
      | ok signers =>
          rw [handsUnseated_createGroupConvoV2_iff hsigners]
          refine ⟨fun h signers' hsame ↦ ?_, fun h ↦ h signers rfl⟩
          cases hsame
          exact h
  | _ => exact iff_of_true (handsUnseated_of_skipped fun _ hmem ↦ hmem) trivial

set_option maxRecDepth 8000 in
/-- A creator that names an account of its own hands its own package to de-mls. -/
theorem creator_handed_to_itself :
    ∃ handed ∈ newlyHanded (resolving Sample.platform [1]) (.createGroupConvoV2 [⟨[]⟩] "" ""),
      ∃ held, handed.package.Holds Sample.mls held ∧
        ⟨held.leafNode.signatureKey⟩ ∈ ((Event.createGroupConvoV2 [⟨[]⟩] "" "").invitation
          (resolving Sample.platform [1])).seated :=
  ⟨_, List.mem_cons_self, _, ⟨_, rfl, rfl⟩, List.mem_cons_self⟩

end Core

end LogosChat.Conversations
