import LogosChat.Conversations.Handover

/-!
# Making a conversation

GroupV1 and GroupV3 set a group up with its creator alone and then add the first members, with the
call that adds later ones.  GroupV2 hands them to de-mls together with the request for the group.
-/

namespace LogosChat.Conversations

open Reasoning

variable {P : Platform} {C ε α : Type} {cx cx' : ServiceContext P} {allowed : SignerKey → Prop}

/-! ## What can be seen from outside -/

/-- From `cx` to `cx'` nothing was asked for, handed over or sent, and the services answer as they
did. -/
structure Silent (cx cx' : ServiceContext P) : Prop where
  registry : cx'.registry = cx.registry
  auth : cx'.auth = cx.auth
  handed : cx'.handed = cx.handed
  published : cx'.ds.published = cx.ds.published

instance : IsPreorder (ServiceContext P) Silent where
  refl _ := ⟨rfl, rfl, rfl, rfl⟩
  trans _ _ _ h h' :=
    { registry := h'.registry.trans h.registry
      auth := h'.auth.trans h.auth
      handed := h'.handed.trans h.handed
      published := h'.published.trans h.published }

/-- The services after `draw`. -/
def ServiceContext.drawn (cx : ServiceContext P) : ServiceContext P := { cx with draws := cx.draws + 1 }

theorem silent_drawn (cx : ServiceContext P) : Silent cx cx.drawn := ⟨rfl, rfl, rfl, rfl⟩

theorem silent_onStore (m : Call ConversationStore ε α) :
    (ServiceContext.onStore m : Call (ServiceContext P) ε α).Keeps Silent :=
  fun _ ↦ ⟨rfl, rfl, rfl, rfl⟩

theorem Silent.mails (h : Silent cx cx') : Mails allowed cx cx' where
  asked := congrArg RegistrationService.asked h.registry
  handed := h.handed
  published := ⟨[], by rw [h.published, List.append_nil], invitesOnly_nil⟩

/-- A handover, seen from outside. -/
structure Deals (kind : GroupKind) (signers : List SignerKey) (allowed : SignerKey → Prop)
    (cx cx' : ServiceContext P) (asked kept : List SignerKey) (items : List (Handed × Signer)) :
    Prop where
  order : asked.Sublist (firstSeen signers)
  picked : kept.Sublist asked
  offered : Offered kind cx kept items
  mails : Mails allowed ((cx.askedFor asked).handing items) cx'
  refused : Refuses kind cx asked → kept = [] ∧ cx'.ds.published = cx.ds.published

section Deals

variable {kind : GroupKind} {signers asked kept : List SignerKey} {items : List (Handed × Signer)}
  {outstanding : SignerKey → Prop}

theorem Mails.deals (h : Mails allowed cx cx') : Deals kind signers allowed cx cx' [] [] [] where
  order := List.nil_sublist _
  picked := List.nil_sublist _
  offered := .nil
  mails := by
    rw [ServiceContext.askedFor_nil, ServiceContext.handing_nil]
    exact h
  refused hrefuses := by
    obtain ⟨signer, hmem, -⟩ := hrefuses
    cases hmem

theorem Handover.deals (h : Handover kind signers outstanding cx cx' asked kept items) :
    Deals kind signers (fun signer ↦ outstanding signer ∨ signer ∈ kept) cx cx' asked kept items where
  order := h.order
  picked := h.picked
  offered := h.offered
  mails := h.publishes.mails
  refused hrefuses := by
    have hcx := h.refused hrefuses
    have hhanded := h.publishes.mails.handed
    rw [hcx] at hhanded
    have hnone := List.self_eq_append_right.mp hhanded
    have hoffered := h.offered
    rw [List.map_eq_nil_iff.mp hnone] at hoffered
    cases hoffered
    exact ⟨rfl, congrArg (·.ds.published) hcx⟩

theorem Deals.mono {allowed' : SignerKey → Prop} (h : Deals kind signers allowed cx cx' asked kept items)
    (hle : ∀ signer, allowed signer → allowed' signer) :
    Deals kind signers allowed' cx cx' asked kept items := by
  obtain ⟨sent, hsent, honly⟩ := h.mails.published
  exact { h with mails := { h.mails with published := ⟨sent, hsent, honly.mono hle⟩ } }

/-- An offer depends on what the registry and the auth service answer. -/
theorem GroupKind.offer_of_silent (h : Silent cx cx') (kind : GroupKind) (signer : SignerKey) :
    kind.offer cx' signer = kind.offer cx signer := by
  cases kind <;> simp only [GroupKind.offer, admitted, h.registry, h.auth]

theorem refuses_of_silent (h : Silent cx cx') : Refuses kind cx' asked ↔ Refuses kind cx asked := by
  simp only [Refuses, GroupKind.offer_of_silent h]

theorem Deals.of_silent {cx₁ : ServiceContext P} (hsilent : Silent cx cx₁)
    (h : Deals kind signers allowed cx₁ cx' asked kept items) :
    Deals kind signers allowed cx cx' asked kept items where
  order := h.order
  picked := h.picked
  offered := h.offered.imp fun signer _ hoffer ↦
    (GroupKind.offer_of_silent hsilent kind signer).symm.trans hoffer
  mails := by
    have hstart : Mails allowed ((cx.askedFor asked).handing items)
        ((cx₁.askedFor asked).handing items) := by
      refine Silent.mails ⟨?_, hsilent.auth, ?_, hsilent.published⟩
      · simp only [ServiceContext.handing, ServiceContext.askedFor, hsilent.registry]
      · simp only [ServiceContext.handing, ServiceContext.askedFor, hsilent.handed, hsilent.auth]
    exact IsTrans.trans _ _ _ hstart h.mails
  refused hrefuses := by
    obtain ⟨hkept, hpublished⟩ := h.refused ((refuses_of_silent hsilent).mpr hrefuses)
    exact ⟨hkept, hpublished.trans hsilent.published⟩

end Deals

/-! ## Setting up a group -/

section SetUp

variable {answer : Except String (Bytes × P.mls.Secrets) → Result ChatError (Bytes × P.mls.Secrets)}
  {convoOf : Signer → Bytes → P.mls.Secrets → C} {groupId : Bytes} {secrets : P.mls.Secrets}

/-- What GroupV1 and GroupV3 do before the first members are added; they differ in what they make of
an error of openmls. -/
def setUp (answer : Except String (Bytes × P.mls.Secrets) → Result ChatError (Bytes × P.mls.Secrets))
    (convoOf : Signer → Bytes → P.mls.Secrets → C) : Call (ServiceContext P) ChatError C := do
  let n ← ServiceContext.draw
  let self ← Call.read (·.self)
  let (groupId, secrets) ← Call.ofResult (answer (P.mls.create n))
  ServiceContext.subscribe.mapErr .generic
  pure (convoOf self groupId secrets)

/-- openmls makes a group, and its messages can be subscribed to. -/
structure Creates (cx : ServiceContext P) (groupId : Bytes) (secrets : P.mls.Secrets) : Prop where
  created : P.mls.create cx.draws = .ok (groupId, secrets)
  subscribed : cx.ds.Accepts 1

/-- The services once a group is set up. -/
def ServiceContext.founded (cx : ServiceContext P) : ServiceContext P :=
  { cx with draws := cx.draws + 1, ds := cx.ds.refused }

theorem silent_founded (cx : ServiceContext P) : Silent cx cx.founded := ⟨rfl, rfl, rfl, rfl⟩

theorem setUp_of_creates (hok : ∀ made, answer (.ok made) = .ok made) (h : Creates cx groupId secrets) :
    setUp answer convoOf cx = (.ok (convoOf cx.self groupId secrets), cx.founded) := by
  have hsubscribe := ServiceContext.subscribe_of_accepts
    (show cx.drawn.ds.Accepts 1 from h.subscribed)
  show (Call.ofResult (answer (P.mls.create cx.draws)) >>= _) _ = _
  rw [h.created, hok, Call.ofResult_ok_bind]
  exact Call.bind_of_ok (Call.mapErr_of_ok hsubscribe)

theorem setUp_of_not_creates (hok : ∀ made, answer (.ok made) = .ok made)
    (herror : ∀ e made, answer (.error e) ≠ .ok made) (h : ¬ ∃ groupId secrets, Creates cx groupId secrets) :
    ∃ r cx', setUp answer convoOf cx = (r, cx') ∧ (∀ convo, r ≠ .ok convo) ∧ Silent cx cx' := by
  show ∃ r cx', (Call.ofResult (answer (P.mls.create cx.draws)) >>= _) cx.drawn = (r, cx') ∧ _ ∧ _
  cases hcreate : P.mls.create cx.draws with
  | error e =>
      obtain ⟨r, hr, hfailed⟩ := Call.bind_of_not_ok (Call.ofResult_apply _ cx.drawn) (herror e)
      exact ⟨r, _, hr, hfailed, ⟨rfl, rfl, rfl, rfl⟩⟩
  | ok made =>
      have hds : ¬ cx.drawn.ds.Accepts 1 := fun hds ↦ h ⟨made.1, made.2, hcreate, hds⟩
      obtain ⟨e, he⟩ := ServiceContext.subscribe_of_refuses hds
      rw [hok, Call.ofResult_ok_bind]
      exact ⟨_, _, Call.bind_of_err (Call.mapErr_of_err he), nofun, ⟨rfl, rfl, rfl, rfl⟩⟩

end SetUp

namespace GroupV1

/-- A conversation as `new` makes it, and the services it leaves. -/
def created (cx : ServiceContext P) (groupId : Bytes) (secrets : P.mls.Secrets) :
    InSession P (GroupV1Convo P) where
  convo := { mlsGroup := MlsGroup.new groupId secrets cx.self, convoId := hexEncode groupId }
  cx := cx.founded

theorem new_eq_setUp : (new : Call (ServiceContext P) _ _) =
    setUp (fun made ↦ (orErr id made).expect) fun self groupId secrets ↦
      { mlsGroup := MlsGroup.new groupId secrets self, convoId := hexEncode groupId } := rfl

theorem new_of_creates {groupId : Bytes} {secrets : P.mls.Secrets} (h : Creates cx groupId secrets) :
    new cx = (.ok (created cx groupId secrets).convo, cx.founded) := by
  rw [new_eq_setUp]
  exact setUp_of_creates (fun _ ↦ rfl) h

theorem new_of_not_creates (h : ¬ ∃ groupId secrets, Creates cx groupId secrets) :
    ∃ r cx', new cx = (r, cx') ∧ (∀ convo, r ≠ .ok convo) ∧ Silent cx cx' := by
  rw [new_eq_setUp]
  exact setUp_of_not_creates (fun _ ↦ rfl) (fun _ _ ↦ nofun) h

end GroupV1

namespace GroupV3

def created (cx : ServiceContext P) (groupId : Bytes) (secrets : P.mls.Secrets) :
    InSession P (GroupV3Convo P) where
  convo := { convoId := hexEncode groupId, mlsGroup := MlsGroup.new groupId secrets cx.self }
  cx := cx.founded

theorem newGroup_eq_setUp : (newGroup : Call (ServiceContext P) _ _) =
    setUp (orErr .groupCreate) fun self groupId secrets ↦
      { convoId := hexEncode groupId, mlsGroup := MlsGroup.new groupId secrets self } := rfl

theorem newGroup_of_creates {groupId : Bytes} {secrets : P.mls.Secrets} (h : Creates cx groupId secrets) :
    newGroup cx = (.ok (created cx groupId secrets).convo, cx.founded) := by
  rw [newGroup_eq_setUp]
  exact setUp_of_creates (fun _ ↦ rfl) h

theorem newGroup_of_not_creates (h : ¬ ∃ groupId secrets, Creates cx groupId secrets) :
    ∃ r cx', newGroup cx = (r, cx') ∧ (∀ convo, r ≠ .ok convo) ∧ Silent cx cx' := by
  rw [newGroup_eq_setUp]
  exact setUp_of_not_creates (fun _ ↦ rfl) (fun _ _ ↦ nofun) h

/-- The creator's credential can be read. -/
theorem created_signers (cx : ServiceContext P) (groupId : Bytes) (secrets : P.mls.Secrets) :
    signers (created cx groupId secrets).convo = .ok [cx.self] := rfl

end GroupV3

/-! ## The first members -/

/-- A creation hands over packages of signers that it does not skip; the invites still outstanding in
what it makes are theirs, and a refused fetch ends it. -/
structure Makes (kind : GroupKind) (skipped signers : List SignerKey) (cx : ServiceContext P)
    (after : Result ChatError (ConvoTypeOwned P) × ServiceContext P) (asked kept : List SignerKey)
    (items : List (Handed × Signer)) : Prop
    extends Deals kind signers (· ∈ kept) cx after.2 asked kept items where
  still : ∀ owned, after.1 = .ok owned → ∀ signer, owned.convo.Outstanding signer → signer ∈ kept
  fresh : ∀ signer ∈ kept, signer ∉ skipped
  failed : Refuses kind cx asked → ∃ e, after.1 = .err e

section Makes

variable {kind : GroupKind} {skipped signers asked kept : List SignerKey}
  {items : List (Handed × Signer)}

/-- A creation that ends before anything is fetched. -/
theorem makes_idle {r : Result ChatError (ConvoTypeOwned P)} (hfailed : ∀ owned, r ≠ .ok owned)
    (h : Silent cx cx') : Makes kind skipped signers cx (r, cx') [] [] [] where
  toDeals := h.mails.deals
  still owned hok := absurd hok (hfailed owned)
  fresh := nofun
  failed hrefuses := by
    obtain ⟨signer, hmem, -⟩ := hrefuses
    cases hmem

/-- The first members are added to a conversation that leaves no invite outstanding. -/
theorem makes_constructing {convo : C} {m : Call (InSession P C) ChatError Unit}
    {wrap : C → ConvoTypeOwned P} (hwrap : ∀ convo signer, ¬ (wrap convo).convo.Outstanding signer)
    (hsilent : Silent cx cx')
    (h : Invites kind nobody skipped signers ⟨convo, cx'⟩ (m ⟨convo, cx'⟩) asked kept items) :
    Makes kind skipped signers cx
      ((InSession.constructing convo m >>= fun made ↦ pure (wrap made)) cx') asked kept items := by
  have hstate : ((InSession.constructing convo m >>= fun made ↦ pure (wrap made)) cx').2 =
      (m ⟨convo, cx'⟩).2.cx := by
    rw [Call.bind_pure_snd, InSession.constructing_snd]
  have hkept : ∀ signer, nobody convo signer ∨ signer ∈ kept → signer ∈ kept :=
    fun _ hsigner ↦ hsigner.resolve_left id
  have hdeals := (h.deals.mono hkept).of_silent hsilent
  rw [← hstate] at hdeals
  refine ⟨hdeals, fun owned hok signer hout ↦ ?_, h.fresh, fun hrefuses ↦ ?_⟩
  · obtain ⟨made, _, -, hmade⟩ := Call.bind_eq_ok (Prod.ext hok rfl)
    cases hmade
    exact absurd hout (hwrap made signer)
  · obtain ⟨⟨e, he⟩, -⟩ := h.failed ((refuses_of_silent hsilent).mpr hrefuses)
    have hconstructing := InSession.constructing_of_err (Prod.ext he rfl)
    exact ⟨e, congrArg Prod.fst (Call.bind_of_err hconstructing)⟩

/-- The same, of a creation whose first call fails. -/
theorem makes_failed {m : Call (ServiceContext P) ChatError α}
    {f : α → Call (ServiceContext P) ChatError (ConvoTypeOwned P)} {r : Result ChatError α}
    {cx₁ : ServiceContext P} (hm : m cx' = (r, cx₁)) (hfailed : ∀ a, r ≠ .ok a) (h : Silent cx cx₁) :
    Makes kind skipped signers cx ((m >>= f) cx') [] [] [] := by
  obtain ⟨r', hcall, hfailed⟩ := Call.bind_of_not_ok (f := f) hm hfailed
  rw [hcall]
  exact makes_idle hfailed h

end Makes

theorem DirectV1.new_makes (signers : List SignerKey) (cx : ServiceContext P) :
    ∃ asked kept items, Makes .v1 [cx.self.signer] signers cx (DirectV1.new signers cx)
      asked kept items := by
  unfold DirectV1.new
  by_cases hcreates : ∃ groupId secrets, Creates cx groupId secrets
  · obtain ⟨groupId, secrets, hcreates⟩ := hcreates
    obtain ⟨asked, kept, items, h⟩ :=
      GroupV1.addSigner_invites signers (GroupV1.created cx groupId secrets)
    rw [Call.bind_of_ok (GroupV1.new_of_creates hcreates)]
    exact ⟨asked, kept, items, makes_constructing (fun _ _ ↦ id) (silent_founded cx) h⟩
  · obtain ⟨r, cx', hnew, hfailed, hsilent⟩ := GroupV1.new_of_not_creates hcreates
    exact ⟨[], [], [], makes_failed hnew hfailed hsilent⟩

theorem makeGroupV1_makes (signers : List SignerKey) (cx : ServiceContext P) :
    ∃ asked kept items, Makes .v1 [cx.self.signer] signers cx (makeGroupV1 signers cx)
      asked kept items := by
  unfold makeGroupV1
  by_cases hcreates : ∃ groupId secrets, Creates cx groupId secrets
  · obtain ⟨groupId, secrets, hcreates⟩ := hcreates
    rw [Call.bind_of_ok (GroupV1.new_of_creates hcreates)]
    cases hpersist : persistConvo (GroupV1.created cx groupId secrets).convo cx.founded with
    | mk r cx' =>
        have hsilent : Silent cx cx' :=
          IsTrans.trans _ _ _ (silent_founded cx) ((silent_onStore _).mapErr.of_eq hpersist)
        by_cases hok : r = .ok ()
        · rw [hok] at hpersist
          obtain ⟨asked, kept, items, h⟩ :=
            GroupV1.addSigner_invites signers ⟨(GroupV1.created cx groupId secrets).convo, cx'⟩
          rw [Call.bind_of_ok hpersist]
          exact ⟨asked, kept, items, makes_constructing (fun _ _ ↦ id) hsilent h⟩
        · exact ⟨[], [], [], makes_failed hpersist (fun _ h ↦ hok h) hsilent⟩
  · obtain ⟨r, cx', hnew, hfailed, hsilent⟩ := GroupV1.new_of_not_creates hcreates
    exact ⟨[], [], [], makes_failed hnew hfailed hsilent⟩

/-- A GroupV3 creation hands its packages over: the group can be set up, and every signer that is not
the creator has a package on offer. -/
def HandsV3 (cx : ServiceContext P) (signers : List SignerKey) : Prop :=
  (∃ groupId secrets, Creates cx groupId secrets) ∧ ¬ Refuses .v3 cx (keepNew [cx.self.signer] signers)

theorem makeGroupV3_makes (signers : List SignerKey) (cx : ServiceContext P) :
    ∃ asked kept items, Makes .v3 [cx.self.signer] signers cx (makeGroupV3 signers cx) asked kept items ∧
      (HandsV3 cx signers → kept = keepNew [cx.self.signer] signers) ∧
      (¬ HandsV3 cx signers → kept = []) := by
  unfold makeGroupV3 GroupV3.new
  rw [Call.bind_assoc]
  by_cases hcreates : ∃ groupId secrets, Creates cx groupId secrets
  · obtain ⟨groupId, secrets, hcreated⟩ := hcreates
    obtain ⟨asked, kept, items, h, hfetches, hnot⟩ :=
      GroupV3.addSigner_invites signers (GroupV3.created cx groupId secrets)
    have hiff : GroupV3.Fetches (GroupV3.created cx groupId secrets) signers ↔ HandsV3 cx signers := by
      have hrefuses : Refuses .v3 cx.founded (keepNew [cx.self.signer] signers) ↔ Refuses .v3 cx _ :=
        refuses_of_silent (silent_founded cx)
      exact ⟨fun h ↦ ⟨⟨groupId, secrets, hcreated⟩, mt hrefuses.mpr h.2⟩,
        fun h ↦ ⟨⟨_, GroupV3.created_signers cx groupId secrets⟩, mt hrefuses.mp h.2⟩⟩
    rw [Call.bind_of_ok (GroupV3.newGroup_of_creates hcreated)]
    refine ⟨asked, kept, items, makes_constructing (fun _ _ ↦ id) (silent_founded cx) h, ?_, ?_⟩
    · exact fun hhands ↦ hfetches (hiff.mpr hhands)
    · exact fun hhands ↦ hnot (mt hiff.mp hhands)
  · obtain ⟨r, cx', hnew, hfailed, hsilent⟩ := GroupV3.newGroup_of_not_creates hcreates
    refine ⟨[], [], [], makes_failed hnew hfailed hsilent, ?_, fun _ ↦ rfl⟩
    exact fun hhands ↦ absurd hhands.1 hcreates

namespace GroupV2

theorem mem_of_pending {invites : List FetchedMember} {joiner : Bytes}
    (h : (pendingOf invites joiner).isSome) : joiner ∈ invites.map (·.signatureKey) := by
  -- the same from any map, of which this is the empty one
  have hfold : ∀ pending : Bytes → Option Bytes,
      (invites.foldl (fun (pending : Bytes → Option Bytes) m ↦
        Function.update pending m.signatureKey (some m.credential)) pending joiner).isSome →
      joiner ∈ invites.map (·.signatureKey) ∨ (pending joiner).isSome := by
    clear h
    induction invites with
    | nil => exact fun _ h ↦ .inr h
    | cons m invites ih =>
        intro pending h
        obtain hmem | hsome := ih _ h
        · exact .inl (List.mem_cons_of_mem _ hmem)
        · by_cases hsame : joiner = m.signatureKey
          · rw [hsame]
            exact .inl List.mem_cons_self
          · dsimp only at hsome
            rw [Function.update_of_ne hsame] at hsome
            exact .inr hsome
  obtain hmem | hnone := hfold _ h
  · exact hmem
  · cases hnone

/-- `new` once the packages are handed over. -/
def found (name desc convoId : String) (invites : List FetchedMember) :
    Call (ServiceContext P) ChatError (GroupV2Convo P) := do
  let n ← ServiceContext.draw
  let self ← Call.read (·.self)
  let turn ← Call.ofResult (orErr .deMlsError
    (P.demls.create n convoId self name desc (invites.map (·.keyPackage))))
  settle (fromTurn convoId turn (pendingOf invites))

section Found

variable {name desc convoId : String} {invites : List FetchedMember}
  (h : ∀ joiner ∈ invites.map (·.signatureKey), allowed ⟨joiner⟩)

include h

theorem outstanding_fromTurn (turn : Turn P.demls.Core) (signer : SignerKey)
    (hout : Outstanding (fromTurn convoId turn (pendingOf invites)) signer) : allowed signer :=
  h signer.bytes (mem_of_pending hout)

theorem keeps_found : (found name desc convoId invites).Keeps (Publishes (P := P) allowed) := by
  refine keeps_draw.bind fun n ↦ ?_
  refine (Call.keeps_read _).bind fun self ↦ ?_
  exact (Call.keeps_ofResult _).bind fun turn ↦ keeps_settle (outstanding_fromTurn h turn)

theorem found_outstanding {convo : GroupV2Convo P} (hok : found name desc convoId invites cx = (.ok convo, cx'))
    (signer : SignerKey) (hout : Outstanding convo signer) : allowed signer := by
  obtain ⟨_, _, -, hok⟩ := Call.bind_eq_ok hok
  obtain ⟨_, _, -, hok⟩ := Call.bind_eq_ok hok
  obtain ⟨turn, _, -, hok⟩ := Call.bind_eq_ok hok
  exact settle_outstanding (outstanding_fromTurn h turn) hok signer hout

end Found

end GroupV2

section MakeGroupV2

variable {signers : List SignerKey}

/-- Every package is admitted: all are handed over at once. -/
theorem makeGroupV2_of_fetched {members : List FetchedMember}
    (hoffered : Offered .v2 cx.drawn (firstSeen signers) (members.map GroupV2.handedMember))
    (hfetch : GroupV2.fetchKeyPackages P signers cx.drawn =
      (.ok members, cx.drawn.askedFor (firstSeen signers))) (name desc : String) :
    Makes .v2 [] signers cx (makeGroupV2 name desc signers cx) (firstSeen signers) (firstSeen signers)
      (members.map GroupV2.handedMember) := by
  have hmembers : ∀ joiner ∈ members.map (·.signatureKey), ⟨joiner⟩ ∈ firstSeen signers := by
    intro joiner hjoiner
    obtain ⟨m, hm, rfl⟩ := List.mem_map.mp hjoiner
    rw [← hoffered.keys, List.map_map]
    exact List.mem_map_of_mem hm
  let handed := (cx.drawn.askedFor (firstSeen signers)).handing (members.map GroupV2.handedMember)
  let found := GroupV2.found (P := P) name desc (hexEncode (P.randomBytes 5 cx.draws)) members
  have hmade : makeGroupV2 name desc signers cx =
      (found >>= fun convo ↦ pure (.group (.v2 convo))) handed :=
    Call.bind_of_eq (Call.bind_of_ok hfetch)
  have hpublishes : Publishes (· ∈ firstSeen signers) handed
      ((found >>= fun convo ↦ pure (ConvoTypeOwned.group (.v2 convo))) handed).2 := by
    rw [Call.bind_pure_snd]
    exact GroupV2.keeps_found hmembers handed
  have hdeals : Deals .v2 signers (· ∈ firstSeen signers) cx.drawn _ (firstSeen signers)
      (firstSeen signers) (members.map GroupV2.handedMember) :=
    { order := .refl _
      picked := .refl _
      offered := hoffered
      mails := hpublishes.mails
      refused := fun hrefuses ↦ absurd hrefuses hoffered.not_refuses }
  rw [hmade]
  refine ⟨hdeals.of_silent (silent_drawn cx), ?_, fun _ _ ↦ List.not_mem_nil, fun hrefuses ↦ ?_⟩
  · intro owned hok signer hout
    obtain ⟨convo, _, hfound, hpure⟩ := Call.bind_eq_ok (Prod.ext hok rfl)
    cases hpure
    exact GroupV2.found_outstanding hmembers hfound signer hout
  · exact absurd ((refuses_of_silent (silent_drawn cx)).mpr hrefuses) hoffered.not_refuses

/-- The first package that is not admitted ends the call. -/
theorem makeGroupV2_of_refused {before rest : List SignerKey} {signer : SignerKey} {e : ChatError}
    (hsplit : firstSeen signers = before ++ signer :: rest)
    (hfetch : GroupV2.fetchKeyPackages P signers cx.drawn =
      (.err e, cx.drawn.askedFor (before ++ [signer]))) (name desc : String) :
    Makes .v2 [] signers cx (makeGroupV2 name desc signers cx) (before ++ [signer]) [] [] := by
  have hnew : GroupV2.new name desc signers cx = (.err e, cx.drawn.askedFor (before ++ [signer])) := by
    show (GroupV2.fetchKeyPackages P signers >>= _) cx.drawn = _
    exact Call.bind_of_err hfetch
  have hmade : makeGroupV2 name desc signers cx = _ := Call.bind_of_err hnew
  have hhandover : Handover .v2 signers (fun _ ↦ False) cx.drawn _ (before ++ [signer]) [] [] :=
    handover_refused (.refl _) hsplit
  have hdeals : Deals .v2 signers (· ∈ []) cx.drawn _ (before ++ [signer]) [] [] :=
    hhandover.deals.mono fun _ h ↦ h.resolve_left id
  rw [hmade]
  exact ⟨hdeals.of_silent (silent_drawn cx), nofun, nofun, fun _ ↦ ⟨e, rfl⟩⟩

/-- GroupV2 skips nobody, and hands over whatever it was given. -/
theorem makeGroupV2_makes (name desc : String) (signers : List SignerKey) (cx : ServiceContext P) :
    ∃ asked kept items, Makes .v2 [] signers cx (makeGroupV2 name desc signers cx) asked kept items ∧
      (¬ Refuses .v2 cx (firstSeen signers) → kept = firstSeen signers) ∧
      (Refuses .v2 cx (firstSeen signers) → kept = []) := by
  have hcases := GroupV2.fetch_cases signers cx.drawn
  rw [keepNew_nil] at hcases
  rw [← refuses_of_silent (silent_drawn cx)]
  obtain ⟨members, hall, hfetch⟩ | ⟨before, signer, rest, e, hsplit, hadmitted, hfetch⟩ := hcases
  · have hoffered : Offered .v2 cx.drawn (firstSeen signers) (members.map GroupV2.handedMember) :=
      offered_map (fun _ ↦ rfl) hall
    refine ⟨_, _, _, makeGroupV2_of_fetched hoffered hfetch name desc, fun _ ↦ rfl, fun hrefuses ↦ ?_⟩
    exact absurd hrefuses hoffered.not_refuses
  · refine ⟨_, [], [], makeGroupV2_of_refused hsplit hfetch name desc, fun hnot ↦ ?_, fun _ ↦ rfl⟩
    exact absurd (refuses_of_err (fun _ ↦ rfl) hadmitted hsplit) hnot

end MakeGroupV2

end LogosChat.Conversations
