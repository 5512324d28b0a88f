import LogosChat.Conversations.CoreFrame
import LogosChat.Conversations.Creation
import LogosChat.Reasoning.Run

/-!
# Records and loaded conversations

Two paths write a record.  An inbox join writes it last, and what is left is to load the
conversation.  The creation of a GroupV1 group writes it before the first members are added, and
nothing takes it back when that fails.
-/

namespace LogosChat.Conversations

open Reasoning

variable {P : Platform} {C ε α : Type}

/-! ## Services that keep their records -/

theorem Invites.records {kind : GroupKind} {outstanding : C → SignerKey → Prop}
    {seated signers asked kept : List SignerKey} {s : InSession P C}
    {after : Result ChatError Unit × InSession P C} {items : List (Handed × Signer)}
    (h : Invites kind outstanding seated signers s after asked kept items) :
    after.2.cx.records = s.cx.records :=
  h.publishes.records

theorem keeps_constructing {R : ServiceContext P → ServiceContext P → Prop} {convo : C}
    {m : Call (InSession P C) ε Unit} (h : m.Keeps fun s t ↦ R s.cx t.cx) :
    (InSession.constructing convo m).Keeps R := by
  intro cx
  rw [InSession.constructing_snd]
  exact h ⟨convo, cx⟩

theorem GroupConvo.addSigner_records (members : List SignerKey) :
    (GroupConvo.addSigner members).Keeps (SameRecords (P := P)) := by
  intro s
  obtain ⟨_, _, _, h⟩ := GroupConvo.addSigner_invites members s
  exact h.records

theorem GroupV1.addSigner_records (members : List SignerKey) :
    (GroupV1.addSigner members).Keeps (SameRecords (P := P)) := by
  intro s
  obtain ⟨_, _, _, h⟩ := GroupV1.addSigner_invites members s
  exact h.records

theorem GroupV3.addSigner_records (members : List SignerKey) :
    (GroupV3.addSigner members).Keeps (SameRecords (P := P)) := by
  intro s
  obtain ⟨_, _, _, h, -⟩ := GroupV3.addSigner_invites members s
  exact h.records

/-! ### Making a conversation -/

section Making

/-- What only publishes keeps the records. -/
theorem Keeps.records {m : Call (ServiceContext P) ε α} (h : m.Keeps (Publishes fun _ ↦ True)) :
    m.Keeps (Call.Same ServiceContext.records) :=
  h.mono fun _ _ hpublishes ↦ hpublishes.records

theorem DirectV1.new_records (signers : List SignerKey) :
    (DirectV1.new signers).Keeps (Call.Same (ServiceContext.records (P := P))) := by
  refine (Keeps.records GroupV1.keeps_new).bind fun convo ↦ ?_
  refine (keeps_constructing (GroupV1.addSigner_records signers)).bind fun _ ↦ ?_
  exact Call.keeps_pure _

theorem GroupV2.new_records (name desc : String) (signers : List SignerKey) :
    (GroupV2.new name desc signers).Keeps (Call.Same (ServiceContext.records (P := P))) := by
  have hfetch : (GroupV2.fetchKeyPackages P signers).Keeps (Call.Same ServiceContext.records) := by
    refine Call.Keeps.collect (fun signer cx ↦ ?_) _
    rw [retrievePackage_eq]
    rfl
  refine (Keeps.records keeps_draw).bind fun _ ↦ ?_
  refine hfetch.bind fun invites ↦ ?_
  refine Call.Keeps.bind (R := Call.Same ServiceContext.records) (fun _ ↦ rfl) fun _ ↦ ?_
  refine (Keeps.records keeps_draw).bind fun n ↦ ?_
  refine (Call.keeps_read _).bind fun self ↦ ?_
  refine (Call.keeps_ofResult _).bind fun turn ↦ ?_
  exact Keeps.records (GroupV2.keeps_settle fun _ _ ↦ trivial)

theorem makeGroupV2_records (name desc : String) (signers : List SignerKey) :
    (makeGroupV2 name desc signers).Keeps (Call.Same (ServiceContext.records (P := P))) :=
  (GroupV2.new_records name desc signers).bind fun _ ↦ Call.keeps_pure _

theorem makeGroupV3_records (signers : List SignerKey) :
    (makeGroupV3 signers).Keeps (Call.Same (ServiceContext.records (P := P))) := by
  refine Call.Keeps.bind ?_ fun _ ↦ Call.keeps_pure _
  refine (Keeps.records GroupV3.keeps_newGroup).bind fun convo ↦ ?_
  exact keeps_constructing (GroupV3.addSigner_records signers)

end Making

/-! ### Writing a record -/

/-- The services once `record` was written. -/
def ServiceContext.saved (cx : ServiceContext P) (record : ConversationMeta) : ServiceContext P :=
  { cx with store := { cx.store with
      requests := cx.store.requests + 1
      records := cx.records.filter (fun r ↦ r.localConvoId ≠ record.localConvoId) ++ [record] } }

/-- The record of a GroupV1 conversation. -/
abbrev recordOf (convo : GroupV1Convo P) : ConversationMeta :=
  { localConvoId := convo.convoId, kind := .groupV1 }

theorem persistConvo_of_ok {cx : ServiceContext P} (h : cx.store.answers cx.store.requests = none)
    (convo : GroupV1Convo P) : persistConvo convo cx = (.ok (), cx.saved (recordOf convo)) := by
  apply Call.mapErr_of_ok
  apply Call.on_of_eq (t := (cx.saved (recordOf convo)).store)
  show ConversationStore.request _ cx.store = _
  rw [ConversationStore.request, h]
  rfl

theorem persistConvo_of_error {cx : ServiceContext P} {e : String}
    (h : cx.store.answers cx.store.requests = some e) (convo : GroupV1Convo P) :
    ∃ cx', persistConvo convo cx = (.err (.storage e), cx') ∧ cx'.records = cx.records := by
  have hrequest : ConversationStore.saveConversation (recordOf convo) cx.store =
      (.err e, { cx.store with requests := cx.store.requests + 1 }) := by
    rw [ConversationStore.saveConversation, ConversationStore.request, h]
  exact ⟨_, Call.mapErr_of_err (Call.on_of_eq hrequest), rfl⟩

theorem ServiceContext.mem_saved {cx : ServiceContext P} {record saved : ConversationMeta}
    (h : record ∈ (cx.saved saved).records) : record ∈ cx.records ∨ record = saved := by
  obtain hmem | hmem := List.mem_append.mp h
  · exact .inl (List.mem_of_mem_filter hmem)
  · exact .inr (List.mem_singleton.mp hmem)

/-! ## Joining -/

namespace InboxV2

theorem parseHeavyWelcome_records (welcomeBytes : Bytes) :
    (parseHeavyWelcome welcomeBytes).Keeps (Call.Same (ServiceContext.records (P := P))) := by
  refine (Call.keeps_ofResult _).bind fun extracted ↦ ?_
  split
  · exact Call.keeps_fail _
  · exact Call.keeps_pure _

/-- A call that leaves the records alone, or writes that of the conversation it returns. -/
def RecordsOnly (convoOf : α → Option (GroupV1Convo P)) (m : Call (ServiceContext P) ε α) : Prop :=
  ∀ cx, (m cx).2.records = cx.records ∨ ∃ a convo cx', m cx = (.ok a, cx') ∧ convoOf a = some convo ∧
    ∀ record ∈ cx'.records, record ∈ cx.records ∨ record.localConvoId = convo.convoId

theorem RecordsOnly.of_keeps {convoOf : α → Option (GroupV1Convo P)} {m : Call (ServiceContext P) ε α}
    (h : m.Keeps (Call.Same ServiceContext.records)) : RecordsOnly convoOf m :=
  fun cx ↦ .inl (h cx)

theorem RecordsOnly.map {β : Type} {convoOf : α → Option (GroupV1Convo P)}
    {convoOf' : β → Option (GroupV1Convo P)} {m : Call (ServiceContext P) ε α} {f : α → β}
    (h : RecordsOnly convoOf m) (hf : ∀ a, convoOf' (f a) = convoOf a) :
    RecordsOnly convoOf' (m >>= fun a ↦ pure (f a)) := by
  intro cx
  obtain hsame | ⟨a, convo, cx', hok, hconvo, hrecords⟩ := h cx
  · rw [Call.bind_pure_snd]
    exact .inl hsame
  · exact .inr ⟨f a, convo, cx', Call.bind_of_ok hok, (hf a).trans hconvo, hrecords⟩

theorem recordsOnly_handleHeavyInvite (welcomeBytes : Bytes) :
    RecordsOnly some (handleHeavyInvite (P := P) welcomeBytes) := by
  intro cx
  have hjoin : (parseHeavyWelcome welcomeBytes >>= GroupV1.newFromWelcome).Keeps
      (Call.Same (ServiceContext.records (P := P))) :=
    (parseHeavyWelcome_records welcomeBytes).bind fun welcome ↦
      Keeps.records (GroupV1.keeps_newFromWelcome welcome)
  have hinvite : handleHeavyInvite welcomeBytes cx =
      ((parseHeavyWelcome welcomeBytes >>= GroupV1.newFromWelcome) >>= fun convo ↦
        persistConvo convo >>= fun _ ↦ pure convo) cx := by
    rw [Call.bind_assoc]
    rfl
  rw [hinvite]
  cases heq : (parseHeavyWelcome welcomeBytes >>= GroupV1.newFromWelcome) cx with
  | mk joined cx₁ =>
      have hsame : cx₁.records = cx.records := hjoin.of_eq heq
      cases joined with
      | err e =>
          rw [Call.bind_of_err heq]
          exact .inl hsame
      | panic =>
          rw [Call.bind_of_panic heq]
          exact .inl hsame
      | ok convo =>
          rw [Call.bind_of_ok heq]
          cases hanswer : cx₁.store.answers cx₁.store.requests with
          | some e =>
              obtain ⟨cx₂, hpersist, hrecords⟩ := persistConvo_of_error hanswer convo
              rw [Call.bind_of_err hpersist]
              exact .inl (hrecords.trans hsame)
          | none =>
              apply Or.inr
              refine ⟨convo, convo, _, Call.bind_of_ok (persistConvo_of_ok hanswer convo), rfl, ?_⟩
              intro record hmem
              obtain hbefore | rfl := ServiceContext.mem_saved hmem
              · exact .inl (hsame ▸ hbefore)
              · exact .inr rfl

/-- The conversation a GroupV1 invite brings. -/
def broughtV1 : Option (GroupConvo P × ConversationClass) → Option (GroupV1Convo P)
  | some (.v1 convo, _) => some convo
  | _ => none

theorem recordsOnly_handleFrame (payload : Bytes) :
    RecordsOnly broughtV1 (handleFrame (P := P) payload) := by
  unfold handleFrame
  split
  · exact .of_keeps (Call.keeps_pure _)
  · exact .of_keeps (Call.keeps_pure _)
  · exact (recordsOnly_handleHeavyInvite _).map fun _ ↦ rfl
  · apply RecordsOnly.of_keeps
    refine (Call.keeps_ofResult _).bind fun welcome ↦ ?_
    exact (Keeps.records (GroupV2.keeps_newFromWelcome welcome)).bind fun _ ↦ Call.keeps_pure _
  · apply RecordsOnly.of_keeps
    refine (parseHeavyWelcome_records _).bind fun welcome ↦ ?_
    exact (Keeps.records (GroupV3.keeps_newFromWelcome welcome)).bind fun _ ↦ Call.keeps_pure _

end InboxV2

/-! ## Creating a GroupV1 group -/

namespace GroupV1

abbrev SameConvoId : InSession P (GroupV1Convo P) → InSession P (GroupV1Convo P) → Prop :=
  Call.Same (·.convo.convoId)

theorem addSigner_convoId (members : List SignerKey) :
    (addSigner members).Keeps (SameConvoId (P := P)) := by
  unfold addSigner
  split
  · exact Call.keeps_fail _
  refine (Call.keeps_read _).bind fun seated ↦ ?_
  dsimp only
  split
  · exact Call.keeps_pure _
  refine Call.Keeps.bind (R := SameConvoId) (fun _ ↦ rfl) fun keyPackages ↦ ?_
  refine Call.Keeps.bind (R := SameConvoId) (fun _ ↦ rfl) fun messages ↦ ?_
  refine Call.Keeps.bind (R := SameConvoId) (fun _ ↦ rfl) fun _ ↦ ?_
  refine Call.Keeps.bind (R := SameConvoId) (Call.Keeps.each fun _ _ _ ↦ rfl) fun _ ↦ ?_
  exact (Call.keeps_ofResult _).bind fun msgBytes _ ↦ rfl

end GroupV1

/-- The creation of a GroupV1 group gets as far as writing its record. -/
structure PersistsGroup (cx : ServiceContext P) (groupId : Bytes) (secrets : P.mls.Secrets) : Prop
    extends Creates cx groupId secrets where
  saved : cx.store.answers cx.store.requests = none

theorem makeGroupV1_of_persists {cx : ServiceContext P} {groupId : Bytes} {secrets : P.mls.Secrets}
    (h : PersistsGroup cx groupId secrets) (signers : List SignerKey) :
    let new := GroupV1.created cx groupId secrets
    makeGroupV1 signers cx =
      (InSession.constructing new.convo (GroupV1.addSigner signers) >>= fun convo ↦
        pure (.group (.v1 convo))) (new.cx.saved (recordOf new.convo)) := by
  intro new
  have hsaved : new.cx.store.answers new.cx.store.requests = none := h.saved
  have hpersist := persistConvo_of_ok hsaved new.convo
  unfold makeGroupV1
  rw [Call.bind_of_ok (GroupV1.new_of_creates h.toCreates)]
  exact Call.bind_of_ok hpersist

section Persists

variable {cx : ServiceContext P} {groupId : Bytes} {secrets : P.mls.Secrets} {signers : List SignerKey}

/-- The call that adds the members does not read the store. -/
theorem addSigner_eq_ok_iff_adds :
    let new := GroupV1.created cx groupId secrets
    (∃ t, GroupV1.addSigner signers ⟨new.convo, new.cx.saved (recordOf new.convo)⟩ = (.ok (), t)) ↔
      GroupV1.Adds new signers := by
  refine (GroupV1.addSigner_eq_ok_iff _ signers).trans ?_
  exact ⟨fun h ↦ ⟨h.short, h.seats⟩, fun h ↦ ⟨h.short, h.seats⟩⟩

theorem makeGroupV1_of_adds (h : PersistsGroup cx groupId secrets)
    (hadds : GroupV1.Adds (GroupV1.created cx groupId secrets) signers) :
    ∃ convo cx', makeGroupV1 signers cx = (.ok (.group (.v1 convo)), cx') ∧
      convo.convoId = hexEncode groupId ∧
      cx'.records = (cx.founded.saved ⟨hexEncode groupId, .groupV1⟩).records := by
  obtain ⟨t, hadd⟩ := addSigner_eq_ok_iff_adds.mpr hadds
  refine ⟨t.convo, t.cx, ?_, (GroupV1.addSigner_convoId signers).of_eq hadd,
    (GroupV1.addSigner_records signers).of_eq hadd⟩
  rw [makeGroupV1_of_persists h, Call.bind_of_ok (InSession.constructing_of_ok hadd)]
  rfl

/-- A creation that cannot add everyone leaves its record. -/
theorem makeGroupV1_of_not_adds (h : PersistsGroup cx groupId secrets)
    (hnot : ¬ GroupV1.Adds (GroupV1.created cx groupId secrets) signers) :
    ∃ r cx', makeGroupV1 signers cx = (r, cx') ∧ (∀ owned, r ≠ .ok owned) ∧
      cx'.records = (cx.founded.saved ⟨hexEncode groupId, .groupV1⟩).records := by
  let new := GroupV1.created cx groupId secrets
  cases hadd : GroupV1.addSigner signers ⟨new.convo, new.cx.saved (recordOf new.convo)⟩ with
  | mk r t =>
      have hfailed : ∀ a, r ≠ .ok a := by
        rintro ⟨⟩ rfl
        exact hnot (addSigner_eq_ok_iff_adds.mp ⟨t, hadd⟩)
      obtain ⟨r₁, hconstruct, hfailed⟩ := InSession.constructing_of_not_ok hadd hfailed
      obtain ⟨r₂, hmade, hfailed⟩ := Call.bind_of_not_ok hconstruct hfailed
      refine ⟨r₂, t.cx, (makeGroupV1_of_persists h signers).trans hmade, hfailed, ?_⟩
      exact (GroupV1.addSigner_records signers).of_eq hadd

/-- A creation that writes no record fails. -/
theorem makeGroupV1_of_not_persists (h : ¬ ∃ groupId secrets, PersistsGroup cx groupId secrets)
    (signers : List SignerKey) :
    ∃ r cx', makeGroupV1 signers cx = (r, cx') ∧ (∀ owned, r ≠ .ok owned) ∧
      cx'.records = cx.records := by
  unfold makeGroupV1
  by_cases hcreates : ∃ groupId secrets, Creates cx groupId secrets
  · obtain ⟨groupId, secrets, hcreates⟩ := hcreates
    rw [Call.bind_of_ok (GroupV1.new_of_creates hcreates)]
    cases hanswer : cx.store.answers cx.store.requests with
    | none => exact absurd ⟨groupId, secrets, hcreates, hanswer⟩ h
    | some e =>
        have hfails : cx.founded.store.answers cx.founded.store.requests = some e := hanswer
        obtain ⟨cx', hpersist, hrecords⟩ := persistConvo_of_error hfails _
        exact ⟨_, _, Call.bind_of_err hpersist, nofun, hrecords⟩
  · obtain ⟨r, cx', hnew, hfailed, -⟩ := GroupV1.new_of_not_creates hcreates
    have hrecords : cx'.records = cx.records := (Keeps.records GroupV1.keeps_new).of_eq hnew
    obtain ⟨r', hcall, hfailed'⟩ := Call.bind_of_not_ok hnew hfailed
    exact ⟨r', cx', hcall, hfailed', hrecords⟩

end Persists

/-! ## Every record is of a loaded conversation -/

namespace Core

/-- Every conversation that the store lists is loaded. -/
def Recorded (c : Core P) : Prop :=
  ∀ record ∈ c.services.records, record.localConvoId ∈ c.cachedConvos

instance (c : Core P) : Decidable (Recorded c) :=
  inferInstanceAs (Decidable (∀ record ∈ c.services.records, _))

theorem Recorded.retained {c c' : Core P} (hc : Recorded c) (h : Retains c c') : Recorded c' := by
  intro record hmem
  rw [h.records] at hmem
  exact h.cached _ (hc record hmem)

theorem Recorded.tended {c c' : Core P} (hc : Recorded c) (h : Tends (fun _ ↦ True) c c') : Recorded c' :=
  hc.retained h.retains

theorem retains_onServices {m : Call (ServiceContext P) ε α}
    (h : m.Keeps (Call.Same ServiceContext.records)) : (onServices m).Keeps Retains :=
  fun c ↦ ⟨h c.services, fun _ hmem ↦ hmem⟩

theorem retains_createConvo {make : List SignerKey → Call (ServiceContext P) ChatError (ConvoTypeOwned P)}
    (h : ∀ signers, (make signers).Keeps (Call.Same ServiceContext.records))
    (participants : List ParticipantId) : (createConvo make participants).Keeps Retains := by
  refine Call.Keeps.bind ((Call.keeps_read _).bind fun _ ↦ Call.keeps_ofResult _) fun signers ↦ ?_
  refine (retains_onServices (h signers)).bind fun owned ↦ ?_
  exact (retains_registerConvo owned).bind fun _ ↦ Call.keeps_pure _

theorem retains_groupAddSigners (convoId : String) (members : List SignerKey) :
    (groupAddSigners convoId members).Keeps (Retains (P := P)) := by
  refine retains_onCached (Call.keeps_fail _) fun owned ↦ ?_
  cases owned with
  | direct convo => exact Call.keeps_fail _
  | group convo => exact GroupConvo.addSigner_records members

theorem retains_createDirectConvoV1 (participant : ParticipantId) :
    (createDirectConvoV1 participant).Keeps (Retains (P := P)) := by
  refine (Call.keeps_read _).bind fun self ↦ ?_
  split
  · exact Call.keeps_fail _
  · exact retains_createConvo DirectV1.new_records _

/-! ### Loading what was recorded -/

theorem registerConvo_loads (owned : ConvoTypeOwned P) (c : Core P) :
    owned.convo.id ∈ (registerConvo owned c).2.cachedConvos := by
  unfold registerConvo
  rw [Call.read_bind]
  by_cases hcached : owned.convo.id ∈ c.cachedConvos
  · rw [if_pos hcached]
    exact hcached
  · rw [if_neg hcached]
    exact (AList.mem_insert _).mpr (.inl rfl)

theorem recorded_registerConvo {c : Core P} {owned : ConvoTypeOwned P}
    (h : ∀ record ∈ c.services.records,
      record.localConvoId ∈ c.cachedConvos ∨ record.localConvoId = owned.convo.id) :
    Recorded (registerConvo owned c).2 := by
  intro record hmem
  have hretains := retains_registerConvo owned c
  rw [hretains.records] at hmem
  obtain hcached | hid := h record hmem
  · exact hretains.cached _ hcached
  · rw [hid]
    exact registerConvo_loads owned c

theorem recorded_dispatchToInbox {c : Core P} (hc : Recorded c) (payload : Bytes) :
    Recorded (dispatchToInbox payload c).2 := by
  obtain hsame | ⟨received, joined, cx', hframe, hjoined, hrecords⟩ :=
    InboxV2.recordsOnly_handleFrame payload c.services
  · have hretains : Retains c (onServices (InboxV2.handleFrame payload) c).2 := ⟨hsame, fun _ h ↦ h⟩
    refine hc.retained (Call.bind_rel hretains fun received c' _ ↦ ?_)
    cases received with
    | none => exact refl c'
    | some received => exact ((retains_registerConvo _).bind fun _ ↦ Call.keeps_pure _) c'
  · -- what was recorded is what is loaded
    rcases received with _ | ⟨convo | convo | convo, conversationClass⟩
    · cases hjoined
    · cases hjoined
      unfold dispatchToInbox
      rw [Call.bind_of_ok (onServices_of_eq hframe), Call.bind_pure_snd]
      apply recorded_registerConvo
      intro record hmem
      obtain hbefore | hid := hrecords record hmem
      · exact .inl (hc record hbefore)
      · apply Or.inr
        rw [hid]
        cases conversationClass <;> rfl
    · cases hjoined
    · cases hjoined

theorem recorded_handlePayload {c : Core P} (hc : Recorded c) (payload : Bytes) :
    Recorded (handlePayload payload c).2 := by
  unfold handlePayload
  cases henv : P.proto.decodeEnvelope payload with
  | error e => exact hc
  | ok env =>
      rw [orErr, Call.ofResult_ok_bind, Call.read_bind]
      split
      · exact recorded_dispatchToInbox hc _
      split
      · exact hc.tended (tends_dispatchToConvo _ _ c)
      · apply hc.tended
        refine (tends_hasConversation _).bind (fun stored ↦ ?_) c
        split
        · exact tends_dispatchToConvo _ _
        · exact Call.keeps_pure _

/-! ### Completing a creation -/

/-- A creation of a GroupV1 group that gets as far as writing its record can also add everyone it was
given; or the id is taken. -/
def Completes (c : Core P) : Event P → Prop
  | .createGroupConvoV1 participants => ∀ signers groupId secrets,
      signersFor c.services.auth participants = .ok signers →
      PersistsGroup c.services groupId secrets →
      hexEncode groupId ∈ c.cachedConvos ∨
        GroupV1.Adds (GroupV1.created c.services groupId secrets) signers
  | _ => True

theorem recorded_saved_iff {c : Core P} (hc : Recorded c) {cx : ServiceContext P}
    {record : ConversationMeta} (h : cx.records = (c.services.founded.saved record).records) :
    Recorded { c with services := cx } ↔ record.localConvoId ∈ c.cachedConvos := by
  constructor
  · intro hrecorded
    apply hrecorded record
    rw [h]
    exact List.mem_append_right _ (List.mem_singleton_self record)
  · intro hcached other hmem
    rw [h] at hmem
    obtain hbefore | rfl := ServiceContext.mem_saved hmem
    · exact hc other hbefore
    · exact hcached

-- what follows the answer of the auth service
theorem recorded_makeGroupV1_iff {c : Core P} (hc : Recorded c) {groupId : Bytes}
    {secrets : P.mls.Secrets} (h : PersistsGroup c.services groupId secrets) (signers : List SignerKey) :
    Recorded ((onServices (makeGroupV1 signers) >>= fun owned ↦
        registerConvo owned >>= fun _ ↦ pure owned.convo.id) c).2 ↔
      hexEncode groupId ∈ c.cachedConvos ∨
        GroupV1.Adds (GroupV1.created c.services groupId secrets) signers := by
  by_cases hadds : GroupV1.Adds (GroupV1.created c.services groupId secrets) signers
  · obtain ⟨convo, cx', hmade, hid, hrecords⟩ := makeGroupV1_of_adds h hadds
    rw [Call.bind_of_ok (onServices_of_eq hmade), Call.bind_pure_snd]
    refine iff_of_true (recorded_registerConvo fun record hmem ↦ ?_) (.inr hadds)
    rw [hrecords] at hmem
    obtain hbefore | rfl := ServiceContext.mem_saved hmem
    · exact .inl (hc record hbefore)
    · exact .inr hid.symm
  · -- the record is left, and no conversation
    obtain ⟨r, cx', hmade, hfailed, hrecords⟩ := makeGroupV1_of_not_adds h hadds
    obtain ⟨_, hcall, -⟩ := Call.bind_of_not_ok (onServices_of_eq hmade) hfailed
    rw [hcall, recorded_saved_iff hc hrecords]
    exact ⟨.inl, fun h ↦ h.resolve_right hadds⟩

theorem recorded_createGroupConvoV1_iff {c : Core P} (hc : Recorded c)
    (participants : List ParticipantId) :
    Recorded (createGroupConvoV1 participants c).2 ↔ Completes c (.createGroupConvoV1 participants) := by
  unfold createGroupConvoV1
  dsimp only [Completes]
  cases hsigners : signersFor c.services.auth participants with
  | error e =>
      rw [createConvo_of_unresolved hsigners]
      exact iff_of_true hc fun _ _ _ h ↦ nomatch h
  | ok signers =>
      rw [createConvo_of_resolved hsigners]
      by_cases hpersists : ∃ groupId secrets, PersistsGroup c.services groupId secrets
      · obtain ⟨groupId, secrets, hpersists⟩ := hpersists
        rw [recorded_makeGroupV1_iff hc hpersists]
        refine ⟨fun h signers' groupId' secrets' hsigners' hpersists' ↦ ?_, fun h ↦ ?_⟩
        · cases hsigners'
          have hcreated := hpersists.created.symm.trans hpersists'.created
          cases hcreated
          exact h
        · exact h signers groupId secrets rfl hpersists
      · obtain ⟨r, cx', hmade, hfailed, hrecords⟩ := makeGroupV1_of_not_persists hpersists signers
        obtain ⟨_, hcall, -⟩ := Call.bind_of_not_ok (onServices_of_eq hmade) hfailed
        rw [hcall]
        refine iff_of_true ?_ fun _ groupId secrets _ h ↦ absurd ⟨groupId, secrets, h⟩ hpersists
        exact hc.retained ⟨hrecords, fun _ hmem ↦ hmem⟩

theorem recorded_step_iff {c : Core P} (hc : Recorded c) (e : Event P) :
    Recorded (step c e) ↔ Completes c e := by
  have hretained : ∀ {m : Call (Core P) ChatError Unit}, m.Keeps Retains →
      (Recorded (m c).2 ↔ True) := fun h ↦ iff_true_intro (hc.retained (h c))
  have htended : ∀ {m : Call (Core P) ChatError Unit}, m.Keeps (Tends fun _ ↦ True) →
      (Recorded (m c).2 ↔ True) := fun h ↦ iff_true_intro (hc.tended (h c))
  cases e with
  | createDirectConvoV1 participant => exact hretained (retains_createDirectConvoV1 participant).void
  | createGroupConvoV1 participants =>
      show Recorded ((createGroupConvoV1 participants).void c).2 ↔ _
      rw [Call.void, Call.bind_pure_snd]
      exact recorded_createGroupConvoV1_iff hc participants
  | createGroupConvoV2 participants name desc =>
      exact hretained (retains_createConvo (makeGroupV2_records name desc) participants).void
  | createGroupConvoV3 participants =>
      exact hretained (retains_createConvo makeGroupV3_records participants).void
  | groupAddParticipants convoId participants =>
      apply hretained
      refine Call.Keeps.bind ((Call.keeps_read _).bind fun _ ↦ Call.keeps_ofResult _) fun signers ↦ ?_
      exact retains_groupAddSigners convoId signers
  | groupAddSigners convoId members => exact hretained (retains_groupAddSigners convoId members)
  | groupRemoveParticipants convoId participants =>
      exact htended (tends_groupRemoveParticipants convoId participants)
  | groupRemoveSigners convoId members => exact htended (tends_groupRemoveSigners convoId members)
  | sendContent convoId content => exact htended (tends_sendContent convoId content).void
  | handlePayload payload =>
      show Recorded ((handlePayload payload).void c).2 ↔ _
      rw [Call.void, Call.bind_pure_snd]
      exact iff_true_intro (recorded_handlePayload hc payload)
  | wakeup convoId => exact htended (tends_wakeup convoId).void
  | listAllConversations => exact htended tends_listAllConversations.void
  | servicesChange retrieve auth mlsStorage => exact hretained fun _ ↦ ⟨rfl, fun _ h ↦ h⟩

/-- From an empty store, every record listed in a session is of a loaded conversation for as long as
every creation of a GroupV1 group that gets to write its record completes, and no longer. -/
theorem recorded_throughout_iff {c : Core P} (hempty : c.services.records = []) (events : List (Event P)) :
    (∀ n, Recorded (run step c (events.take n))) ↔ Along step Completes c events := by
  have hstart : Recorded c := by
    intro record hmem
    rw [hempty] at hmem
    cases hmem
  have hiff : ∀ (c : Core P) e, Recorded c → (Recorded (step c e) ↔ Completes c e) :=
    fun _ e hc ↦ recorded_step_iff hc e
  exact along_iff_reached hiff hstart events

/-- The auth service names this signer for everyone; the registry has a package of `[2]` only. -/
abbrev naming (signer : SignerKey) : Core Sample.platform :=
  assemble { Sample.services _ with auth :=
    { validateSigner := fun _ _ ↦ .ok .valid, signersForParticipant := fun _ ↦ .ok [signer] } }

def attended : Core Sample.platform := naming ⟨[2]⟩

set_option maxRecDepth 8000 in
theorem completes_attended : Completes attended (.createGroupConvoV1 [⟨[]⟩]) := by
  intro signers groupId secrets hsigners hpersists
  cases hsigners
  cases hpersists.created
  exact .inr (addSigner_eq_ok_iff_adds.mp ⟨_, rfl⟩)

set_option maxRecDepth 8000 in
/-- The creation completes, and the one record is of the conversation that was made. -/
theorem recorded_throughout_attended : attended.services.records = [] ∧
    Along step Completes attended [.createGroupConvoV1 [⟨[]⟩]] ∧
    (∀ n, Recorded (run step attended ([Event.createGroupConvoV1 [⟨[]⟩]].take n))) ∧
    (run step attended [.createGroupConvoV1 [⟨[]⟩]]).services.records = [⟨"00", .groupV1⟩] := by
  have halong : Along step Completes attended [.createGroupConvoV1 [⟨[]⟩]] := ⟨completes_attended, trivial⟩
  exact ⟨rfl, halong, (recorded_throughout_iff rfl _).mpr halong, by decide⟩

def mistaken : Core Sample.platform := naming ⟨[3]⟩

set_option maxRecDepth 8000 in
/-- The creation fails on the package, after its record was written. -/
theorem record_without_conversation :
    mistaken.services.records = [] ∧ ∃ e c, createGroupConvoV1 [⟨[]⟩] mistaken = (.err e, c) ∧
      c.services.records = [⟨"00", .groupV1⟩] ∧ c.cachedConvos = ∅ ∧ ¬ Recorded c :=
  ⟨rfl, _, _, rfl, by decide, rfl, by decide⟩

end Core

end LogosChat.Conversations
