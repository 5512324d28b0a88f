import LogosChat.Conversations.Hearing

/-!
# What the core hears

Every conversation is cached under its own id, so what it records when a payload arrives or a wakeup
is due goes under the id that the core looked it up by.  A conversation becomes known in two ways only:
a call creates it, or an invite brings it.
-/

namespace LogosChat.Conversations

open Reasoning

variable {P : Platform} {ε α : Type} {allowed : String → Prop}

namespace Core

/-! ## Known conversations -/

/-- A conversation is loaded, or the store has a record of it. -/
def Known (c : Core P) (convoId : String) : Prop :=
  convoId ∈ c.cachedConvos ∨ ∃ record ∈ c.services.records, record.localConvoId = convoId

/-- Every conversation is cached under its own id. -/
def Keyed (c : Core P) : Prop := ∀ entry ∈ c.cachedConvos.entries, entry.2.convo.id = entry.1

theorem Keyed.of_lookup {c : Core P} (h : Keyed c) {convoId : String} {owned : ConvoTypeOwned P}
    (hlookup : c.cachedConvos.lookup convoId = some owned) : owned.convo.id = convoId :=
  h ⟨convoId, owned⟩ (AList.mem_lookup_iff.mp hlookup)

theorem Keyed.replace {c : Core P} (h : Keyed c) {convoId : String} {owned : ConvoTypeOwned P}
    {convo : GroupConvo P} (hconvo : convo.id = convoId) (cx : ServiceContext P) :
    Keyed { c with services := cx, cachedConvos := c.cachedConvos.replace convoId (owned.put convo) } := by
  intro entry hmem
  obtain rfl | hmem := mem_kreplace hmem
  · cases owned <;> exact hconvo
  · exact h entry hmem

theorem Keyed.insert {c : Core P} (h : Keyed c) {owned : ConvoTypeOwned P}
    (hnew : owned.convo.id ∉ c.cachedConvos) :
    Keyed { c with cachedConvos := c.cachedConvos.insert owned.convo.id owned } := by
  intro entry hmem
  have hentries : entry ∈ (c.cachedConvos.insert owned.convo.id owned).entries := hmem
  rw [AList.entries_insert_of_notMem hnew] at hentries
  obtain rfl | hmem := List.mem_cons.mp hentries
  · rfl
  · exact h entry hmem

/-! ## Calls that open no conversation -/

/-- Nothing but allowed reports was recorded, and the same conversations are loaded. -/
structure Stays (allowed : String → Prop) (c c' : Core P) : Prop where
  hears : Hears allowed c.services c'.services
  cached : ∀ convoId, convoId ∈ c'.cachedConvos ↔ convoId ∈ c.cachedConvos

instance (allowed : String → Prop) : IsPreorder (Core P) (Stays allowed) where
  refl c := ⟨refl c.services, fun _ ↦ Iff.rfl⟩
  trans _ _ _ hab hbc :=
    ⟨IsTrans.trans _ _ _ hab.hears hbc.hears, fun id ↦ (hbc.cached id).trans (hab.cached id)⟩

theorem Stays.known {c c' : Core P} (h : Stays allowed c c') {convoId : String} (hknown : c'.Known convoId) :
    c.Known convoId := by
  unfold Known at hknown
  rw [h.cached, h.hears.records] at hknown
  exact hknown

theorem stays_onServices {m : Call (ServiceContext P) ε α} (h : m.Keeps (Hears allowed)) :
    (onServices m).Meets Keyed (Stays allowed) fun _ ↦ True :=
  fun c hc ↦ ⟨hc, ⟨h c.services, fun _ ↦ Iff.rfl⟩, fun _ _ ↦ trivial⟩

theorem stays_onCached {Q : α → Prop} {convoId : String} {absent : Call (Core P) ε α}
    {m : ConvoTypeOwned P → Call (InSession P (GroupConvo P)) ε α}
    (habsent : absent.Meets Keyed (Stays allowed) Q)
    (hm : ∀ owned, Attends GroupConvo.id convoId allowed Q (m owned)) :
    (onCached convoId absent m).Meets Keyed (Stays allowed) Q := by
  intro c hc
  unfold onCached
  split
  case h_1 => exact habsent c hc
  case h_2 owned hlookup =>
    obtain ⟨hid, hheard, hQ⟩ := hm owned ⟨owned.convo, c.services⟩ (hc.of_lookup hlookup)
    exact ⟨hc.replace hid _, ⟨hheard, fun _ ↦ AList.mem_replace⟩, hQ⟩

-- a request that only reads the store
theorem hears_request {f : List ConversationMeta → α × List ConversationMeta}
    (h : ∀ records, (f records).2 = records) :
    (ServiceContext.onStore (ConversationStore.request f)).Keeps (Hears (P := P) allowed) :=
  fun cx ↦
    have hserves : Serves (fun _ ↦ False) cx _ := serves_request h cx
    .of_same rfl hserves.records

/-- What the store is asked for by an id comes back under it. -/
theorem meets_loadConvo (convoId : String) :
    (loadConvo convoId).Meets (fun _ ↦ True) (Hears (P := P) allowed) (·.id = convoId) := by
  intro cx _
  have hkeeps : (loadConvo convoId).Keeps (Hears (P := P) allowed) := by
    refine (hears_request fun _ ↦ rfl).mapErr.bind fun record ↦ ?_
    split
    · exact Call.keeps_fail _
    split
    · exact Call.keeps_fail _
    split
    · exact Call.keeps_fail _
    · refine Call.Keeps.bind ?_ fun _ ↦ Call.keeps_pure _
      refine (Call.keeps_read _).bind fun stored ↦ ?_
      split
      · exact Call.keeps_fail _
      · exact Call.keeps_fail _
      · exact hears_subscribe.mapErr.bind fun _ ↦ Call.keeps_pure _
  refine ⟨trivial, hkeeps cx, fun convo hok ↦ ?_⟩
  have hload : loadConvo convoId cx = (.ok convo, (loadConvo convoId cx).2) := Prod.ext hok rfl
  obtain ⟨record, cx₁, hrecord, hload⟩ := Call.bind_eq_ok hload
  cases record with
  | none => cases hload
  | some record =>
      have hid : record.localConvoId = convoId := by
        have hfound := congrArg Prod.fst (Call.eq_ok_of_mapErr hrecord)
        have hfound : (ConversationStore.loadConversation convoId cx.store).1 = .ok (some record) := hfound
        unfold ConversationStore.loadConversation ConversationStore.request at hfound
        split at hfound
        · have hfind := List.find?_some (Result.ok.inj hfound)
          exact of_decide_eq_true hfind
        · cases hfound
      obtain ⟨localConvoId, kind⟩ := record
      subst hid
      cases kind with
      | unknown value => cases hload
      | groupV1 =>
          dsimp only at hload
          cases hdecode : hexDecode localConvoId with
          | none =>
              rw [hdecode] at hload
              cases hload
          | some groupId =>
              rw [hdecode] at hload
              obtain ⟨loaded, _, hloaded, hload⟩ := Call.bind_eq_ok hload
              cases hload
              obtain ⟨stored, _, -, hloaded⟩ := Call.bind_eq_ok hloaded
              split at hloaded
              · cases hloaded
              · cases hloaded
              · obtain ⟨_, _, -, hloaded⟩ := Call.bind_eq_ok hloaded
                cases hloaded
                rfl

theorem stays_onConvo {Q : α → Prop} {convoId : String}
    {m : Call (InSession P (GroupConvo P)) ChatError α} (hm : Attends GroupConvo.id convoId allowed Q m) :
    (onConvo convoId m).Meets Keyed (Stays allowed) Q := by
  refine stays_onCached ?_ fun _ ↦ hm
  have hload : (loadConvo convoId >>= fun convo ↦ InSession.temporarily convo m).Meets (fun _ ↦ True)
      (Hears allowed) Q := by
    refine (meets_loadConvo convoId).bind fun convo hid cx _ ↦ ?_
    obtain ⟨-, hheard, hQ⟩ := hm ⟨convo, cx⟩ hid
    exact ⟨trivial, hheard, hQ⟩
  refine hload.on (fun _ _ ↦ trivial) fun c cx hc _ hcx ↦ ?_
  exact ⟨hc, hcx, fun _ ↦ Iff.rfl⟩

theorem stays_sendContent (convoId : String) (content : Bytes) :
    (sendContent convoId content).Meets Keyed (Stays (P := P) allowed) fun _ ↦ True :=
  stays_onConvo (GroupConvo.attends_sendContent content)

theorem stays_groupAddParticipants (convoId : String) (participants : List ParticipantId) :
    (groupAddParticipants convoId participants).Meets Keyed (Stays (P := P) allowed) fun _ ↦ True := by
  refine Call.Meets.bind (Q := fun _ ↦ True) ?_ fun signers _ ↦ ?_
  · exact (Call.meets_read_any _).bind fun _ _ ↦ Call.meets_ofResult_any _
  · refine stays_onCached (Call.meets_fail _) fun owned ↦ ?_
    cases owned with
    | direct convo => exact Call.meets_fail _
    | group convo => exact GroupConvo.attends_addSigner signers

theorem stays_groupRemoveParticipants (convoId : String) (participants : List ParticipantId) :
    (groupRemoveParticipants convoId participants).Meets Keyed (Stays (P := P) allowed) fun _ ↦ True := by
  refine (Call.meets_read_any _).bind fun found _ ↦ ?_
  cases found with
  | none => exact Call.meets_fail _
  | some owned =>
      refine (Call.meets_ofResult_any _).bind fun signers _ ↦ ?_
      refine stays_onCached (Call.meets_fail _) fun owned ↦ ?_
      cases owned with
      | direct convo => exact Call.meets_fail _
      | group convo => exact GroupConvo.attends_removeSigner _

theorem stays_listAllConversations :
    listAllConversations.Meets Keyed (Stays (P := P) allowed) fun _ ↦ True := by
  refine (stays_onServices (hears_request fun _ ↦ rfl).mapErr).bind fun _ _ ↦ ?_
  exact (Call.meets_read_any _).bind fun _ _ ↦ Call.meets_pure trivial

/-! ## What a call does -/

/-- No conversation has become known but the one that was opened, if there is one. -/
structure Opens (opened : Option String) (c c' : Core P) : Prop where
  keyed : Keyed c'
  known : ∀ convoId, c'.Known convoId → c.Known convoId ∨ opened = some convoId
  cached : ∀ convoId, convoId ∈ c'.cachedConvos ↔ convoId ∈ c.cachedConvos ∨ opened = some convoId
  -- what is opened was not loaded before
  fresh : ∀ convoId, opened = some convoId → convoId ∉ c.cachedConvos

/-- One call: the reports it may have recorded, and the conversation it opened. -/
structure Does (allowed : String → Prop) (opened : Option String) (c c' : Core P) : Prop
    extends Opens opened c c' where
  causal : c.services.causal.Hears allowed c'.services.causal

theorem Stays.does {c c' : Core P} (h : Stays allowed c c') (hc : Keyed c') : Does allowed none c c' where
  keyed := hc
  causal := h.hears.causal
  known _ hknown := .inl (h.known hknown)
  cached id := by simpa using h.cached id
  fresh := nofun

theorem does_of_meets {Q : α → Prop} {m : Call (Core P) ε α} (h : m.Meets Keyed (Stays allowed) Q)
    {c : Core P} (hc : Keyed c) : Does allowed none c (m c).2 :=
  (h c hc).2.1.does (h c hc).1

/-- The conversation that a call has made, or that an invite has brought, is taken up unless its id is
taken.  Until then only its record is new. -/
theorem does_registerConvo {c c₁ : Core P} {owned : ConvoTypeOwned P} (hc : Keyed c)
    (hcausal : c.services.causal.Hears allowed c₁.services.causal)
    (hcached : c₁.cachedConvos = c.cachedConvos)
    (hrecords : ∀ record ∈ c₁.services.records,
      record ∈ c.services.records ∨ record.localConvoId = owned.convo.id) :
    (∃ e, registerConvo owned c₁ = (.err e, c₁) ∧ Does allowed none c c₁) ∨
      ∃ c', registerConvo owned c₁ = (.ok (), c') ∧ Does allowed (some owned.convo.id) c c' := by
  have hkeyed : Keyed c₁ := by
    unfold Keyed
    rw [hcached]
    exact hc
  unfold registerConvo
  rw [Call.read_bind]
  by_cases hid : owned.convo.id ∈ c₁.cachedConvos
  · rw [if_pos hid]
    refine .inl ⟨_, rfl, ⟨hkeyed, fun convoId hknown ↦ .inl ?_, fun _ ↦ by simp [hcached], nofun⟩, hcausal⟩
    rw [hcached] at hid
    obtain hmem | ⟨record, hmem, rfl⟩ := hknown
    · rw [hcached] at hmem
      exact .inl hmem
    · obtain hbefore | hsame := hrecords record hmem
      · exact .inr ⟨record, hbefore, rfl⟩
      · rw [hsame]
        exact .inl hid
  · rw [if_neg hid]
    refine .inr ⟨_, rfl, ⟨hkeyed.insert hid, fun convoId hknown ↦ ?_, fun convoId ↦ ?_, ?_⟩, hcausal⟩
    · obtain hmem | ⟨record, hmem, rfl⟩ := hknown
      · obtain rfl | hmem := (AList.mem_insert _).mp hmem
        · exact .inr rfl
        · rw [hcached] at hmem
          exact .inl (.inl hmem)
      · obtain hbefore | hsame := hrecords record hmem
        · exact .inl (.inr ⟨record, hbefore, rfl⟩)
        · rw [hsame]
          exact .inr rfl
    · show convoId ∈ c₁.cachedConvos.insert owned.convo.id owned ↔ _
      rw [AList.mem_insert, hcached, or_comm, Option.some.injEq, eq_comm]
    · rintro convoId ⟨⟩
      rwa [hcached] at hid

/-! ## Creating -/

/-- The id that a call returns. -/
def openedBy : Result ChatError String → Option String
  | .ok convoId => some convoId
  | _ => none

theorem does_createConvo {make : List SignerKey → Call (ServiceContext P) ChatError (ConvoTypeOwned P)}
    (hmake : ∀ signers, (make signers).Keeps (Hears allowed)) (participants : List ParticipantId)
    {c : Core P} (hc : Keyed c) :
    Does allowed (openedBy (createConvo make participants c).1) c (createConvo make participants c).2 := by
  cases hsigners : signersFor c.services.auth participants with
  | error e =>
      rw [createConvo_of_unresolved hsigners]
      exact (refl c : Stays allowed c c).does hc
  | ok signers =>
      rw [createConvo_of_resolved hsigners]
      have hmade := hmake signers c.services
      cases heq : make signers c.services with
      | mk r cx =>
          rw [heq] at hmade
          have hservices := onServices_of_eq heq
          have hstays : Stays allowed c { c with services := cx } := ⟨hmade, fun _ ↦ Iff.rfl⟩
          cases r with
          | err e =>
              rw [Call.bind_of_err hservices]
              exact hstays.does hc
          | panic =>
              rw [Call.bind_of_panic hservices]
              exact hstays.does hc
          | ok owned =>
              rw [Call.bind_of_ok hservices]
              have hrecords : ∀ record ∈ cx.records,
                  record ∈ c.services.records ∨ record.localConvoId = owned.convo.id :=
                fun record hmem ↦ .inl (hmade.records ▸ hmem)
              have hcausal : c.services.causal.Hears allowed
                  ({ c with services := cx } : Core P).services.causal := hmade.causal
              obtain ⟨e, hregister, hdoes⟩ | ⟨c', hregister, hdoes⟩ :=
                does_registerConvo hc hcausal rfl hrecords
              · rw [Call.bind_of_err hregister]
                exact hdoes
              · rw [Call.bind_of_ok hregister]
                exact hdoes

theorem hears_directV1 (signers : List SignerKey) :
    (DirectV1.new signers).Keeps (Hears (P := P) allowed) := by
  refine GroupV1.hears_new.bind fun convo ↦ Call.Keeps.bind ?_ fun _ ↦ Call.keeps_pure _
  have hadd : Attends (P := P) GroupV1.idOf convo.convoId allowed (fun _ ↦ True)
      (GroupV1.addSigner signers) := GroupV1.attends_addSigner signers
  exact fun cx ↦ (hadd.constructing rfl cx trivial).2.1

theorem does_createDirectConvoV1 (participant : ParticipantId) {c : Core P} (hc : Keyed c) :
    Does allowed (openedBy (createDirectConvoV1 participant c).1) c
      (createDirectConvoV1 participant c).2 := by
  unfold createDirectConvoV1
  rw [Call.read_bind]
  split
  · exact (refl c : Stays allowed c c).does hc
  · exact does_createConvo hears_directV1 _ hc

theorem does_createGroupConvoV2 (participants : List ParticipantId) (name desc : String) {c : Core P}
    (hc : Keyed c) : Does allowed (openedBy (createGroupConvoV2 participants name desc c).1) c
      (createGroupConvoV2 participants name desc c).2 := by
  refine does_createConvo (fun signers ↦ ?_) participants hc
  exact (GroupV2.hears_new name desc signers).bind fun _ ↦ Call.keeps_pure _

/-! ## What arrives -/

/-- The conversation that an invite brought. -/
def broughtBy : Result ChatError PayloadOutcome → Option String
  | .ok (.inbox convoId _) => some convoId
  | _ => none

/-- What a payload or a wakeup is reported as: a conversation it names was known. -/
def Reports (c : Core P) (r : Result ChatError PayloadOutcome) : Prop :=
  ∀ outcome, r = .ok (.convo outcome) → c.Known outcome.convoId

theorem reports_err (c : Core P) (e : ChatError) : Reports c (.err e) := by
  intro outcome h
  cases h

theorem reports_panic (c : Core P) : Reports c .panic := by
  intro outcome h
  cases h

theorem reports_empty (c : Core P) : Reports c (.ok .empty) := by
  intro outcome h
  cases h

theorem causal_handleFrame (payload : Bytes) : (InboxV2.handleFrame payload).Keeps
    fun cx cx' : ServiceContext P ↦ cx.causal.Hears allowed cx'.causal := by
  have hparse (welcomeBytes : Bytes) :
      (InboxV2.parseHeavyWelcome welcomeBytes).Keeps (Hears (P := P) allowed) := by
    refine (Call.keeps_ofResult _).bind fun extracted ↦ ?_
    split
    · exact Call.keeps_fail _
    · exact Call.keeps_pure _
  have hjoin (welcomeBytes : Bytes) : (InboxV2.handleHeavyInvite welcomeBytes).Keeps
      fun cx cx' : ServiceContext P ↦ cx.causal.Hears allowed cx'.causal := by
    have htrans : IsTrans (ServiceContext P) fun cx cx' ↦ cx.causal.Hears allowed cx'.causal :=
      ⟨fun _ _ _ hab hbc ↦ IsTrans.trans _ _ _ hab hbc⟩
    refine Call.Keeps.bind ((hparse welcomeBytes).mono fun _ _ h ↦ h.causal) fun welcome ↦ ?_
    refine Call.Keeps.bind ((GroupV1.hears_newFromWelcome welcome).mono fun _ _ h ↦ h.causal) fun convo ↦ ?_
    exact Call.Keeps.bind (fun cx ↦ refl cx.causal) fun _ cx ↦ refl cx.causal
  unfold InboxV2.handleFrame
  split
  · exact fun cx ↦ refl cx.causal
  · exact fun cx ↦ refl cx.causal
  · intro cx
    rw [Call.bind_pure_snd]
    exact hjoin _ cx
  · refine Call.Keeps.mono (R := Hears allowed) ?_ fun _ _ h ↦ h.causal
    refine (Call.keeps_ofResult _).bind fun welcome ↦ ?_
    exact (GroupV2.hears_newFromWelcome welcome).bind fun _ ↦ Call.keeps_pure _
  · refine Call.Keeps.mono (R := Hears allowed) ?_ fun _ _ h ↦ h.causal
    refine (hparse _).bind fun welcome ↦ ?_
    exact (GroupV3.hears_newFromWelcome welcome).bind fun _ ↦ Call.keeps_pure _

theorem does_takeUp {c c₁ : Core P} {owned : ConvoTypeOwned P} {conversationClass : ConversationClass}
    (hc : Keyed c) (hcausal : c.services.causal.Hears allowed c₁.services.causal)
    (hcached : c₁.cachedConvos = c.cachedConvos)
    (hrecords : ∀ record ∈ c₁.services.records,
      record ∈ c.services.records ∨ record.localConvoId = owned.convo.id) :
    let after := (registerConvo owned >>= fun _ ↦
      pure (PayloadOutcome.inbox owned.convo.id conversationClass)) c₁
    Does allowed (broughtBy after.1) c after.2 ∧ ∀ outcome, after.1 ≠ .ok (.convo outcome) := by
  obtain ⟨e, hregister, hdoes⟩ | ⟨c', hregister, hdoes⟩ := does_registerConvo hc hcausal hcached hrecords
  · rw [Call.bind_of_err hregister]
    exact ⟨hdoes, nofun⟩
  · rw [Call.bind_of_ok hregister]
    exact ⟨hdoes, nofun⟩

theorem does_dispatchToInbox (payload : Bytes) {c : Core P} (hc : Keyed c) :
    Does allowed (broughtBy (dispatchToInbox payload c).1) c (dispatchToInbox payload c).2 ∧
      ∀ outcome, (dispatchToInbox payload c).1 ≠ .ok (.convo outcome) := by
  unfold dispatchToInbox
  have hcausal : c.services.causal.Hears allowed _ := causal_handleFrame payload c.services
  have hrecords := InboxV2.recordsOnly_handleFrame payload c.services
  cases heq : InboxV2.handleFrame payload c.services with
  | mk r cx =>
      rw [heq] at hcausal hrecords
      have hservices := onServices_of_eq heq
      have hsame (h : cx.records = c.services.records) : Does allowed none c { c with services := cx } :=
        Stays.does ⟨⟨hcausal, h⟩, fun _ ↦ Iff.rfl⟩ hc
      have hfailed (h : ∀ a, r ≠ .ok a) : Does allowed none c { c with services := cx } := by
        obtain hsame' | ⟨a, _, _, hok, -⟩ := hrecords
        · exact hsame hsame'
        · exact absurd (congrArg Prod.fst hok) (h a)
      cases r with
      | err e =>
          rw [Call.bind_of_err hservices]
          exact ⟨hfailed nofun, nofun⟩
      | panic =>
          rw [Call.bind_of_panic hservices]
          exact ⟨hfailed nofun, nofun⟩
      | ok received =>
          rw [Call.bind_of_ok hservices]
          cases received with
          | none =>
              refine ⟨?_, nofun⟩
              obtain hsame' | ⟨a, convo, _, hok, hbrought, -⟩ := hrecords
              · exact hsame hsame'
              · cases hok
                cases hbrought
          | some received =>
              obtain ⟨convo, conversationClass⟩ := received
              -- only the record of what was brought is new
              have hbrought : ∀ record ∈ cx.records,
                  record ∈ c.services.records ∨ record.localConvoId = convo.id := by
                intro record hmem
                obtain hsame' | ⟨a, joined, _, hok, hjoined, hnew⟩ := hrecords
                · rw [hsame'] at hmem
                  exact .inl hmem
                · cases hok
                  cases convo with
                  | v1 convo =>
                      cases hjoined
                      exact hnew record hmem
                  | v2 convo => cases hjoined
                  | v3 convo => cases hjoined
              cases conversationClass with
              | dm => exact does_takeUp hc hcausal rfl hbrought
              | group => exact does_takeUp hc hcausal rfl hbrought

/-- What is read in a known conversation brings nothing. -/
theorem reads_known {c c₁ : Core P} {m : Call (Core P) ChatError PayloadOutcome}
    (h : m.Meets Keyed (Stays c.Known) fun r ↦ ∃ outcome, r = .convo outcome ∧ c.Known outcome.convoId)
    (hc₁ : Keyed c₁) (hstays₁ : Stays c.Known c c₁) :
    Does c.Known none c (m c₁).2 ∧ Reports c (m c₁).1 ∧ broughtBy (m c₁).1 = none := by
  obtain ⟨hkeyed, hstays, hQ⟩ := h c₁ hc₁
  refine ⟨Stays.does (IsTrans.trans _ _ _ hstays₁ hstays) hkeyed, fun outcome houtcome ↦ ?_, ?_⟩
  · obtain ⟨outcome', heq, hknown⟩ := hQ _ houtcome
    cases heq
    exact hknown
  · cases hr : (m c₁).1 with
    | ok r =>
        obtain ⟨outcome, rfl, -⟩ := hQ r hr
        rfl
    | err e => rfl
    | panic => rfl

theorem known_of_hasConversation {c c' : Core P} {convoId : String}
    (h : onServices ((ServiceContext.onStore
      (ConversationStore.hasConversation convoId)).mapErr ChatError.storage) c = (.ok true, c')) :
    c.Known convoId := by
  have hanswer : (ConversationStore.hasConversation convoId c.services.store).1 = .ok true :=
    Result.mapErr_eq_ok.mp (congrArg Prod.fst h)
  unfold ConversationStore.hasConversation ConversationStore.request at hanswer
  split at hanswer
  · obtain ⟨record, hmem, hid⟩ := List.any_eq_true.mp (Result.ok.inj hanswer)
    exact .inr ⟨record, hmem, of_decide_eq_true hid⟩
  · cases hanswer

/-- A payload is read in a conversation that was known, or opens the one that it brings. -/
theorem does_handlePayload (payload : Bytes) {c : Core P} (hc : Keyed c) :
    Does c.Known (broughtBy (handlePayload payload c).1) c (handlePayload payload c).2 ∧
      Reports c (handlePayload payload c).1 := by
  have hempty : Does c.Known none c c := (refl c : Stays c.Known c c).does hc
  have hconvo (convoId : String) (bytes : Bytes) (hknown : c.Known convoId) :
      (dispatchToConvo convoId bytes).Meets Keyed (Stays (P := P) c.Known)
        fun r ↦ ∃ outcome, r = .convo outcome ∧ c.Known outcome.convoId := by
    refine (stays_onConvo (GroupConvo.attends_handlePayload hknown bytes)).bind fun outcome hid ↦ ?_
    exact Call.meets_pure ⟨outcome, rfl, hid ▸ hknown⟩
  have hread {r : Result ChatError PayloadOutcome} {c' : Core P}
      (h : Does c.Known none c c' ∧ Reports c r ∧ broughtBy r = none) :
      Does c.Known (broughtBy r) c c' ∧ Reports c r := by
    rw [h.2.2]
    exact ⟨h.1, h.2.1⟩
  unfold handlePayload
  cases henv : P.proto.decodeEnvelope payload with
  | error e => exact ⟨hempty, reports_err c _⟩
  | ok env =>
      rw [orErr, Call.ofResult_ok_bind, Call.read_bind]
      split
      · have hinbox : Does c.Known _ c _ ∧ _ := does_dispatchToInbox env.payload hc
        exact ⟨hinbox.1, fun outcome houtcome ↦ absurd houtcome (hinbox.2 outcome)⟩
      split
      case isTrue hcached => exact hread (reads_known (hconvo _ env.payload (.inl hcached)) hc (refl c))
      case isFalse hcached =>
        have hstays : (onServices ((ServiceContext.onStore (ConversationStore.hasConversation
            env.conversationHint)).mapErr ChatError.storage)).Meets Keyed (Stays (P := P) c.Known)
            fun _ ↦ True := stays_onServices (hears_request fun _ ↦ rfl).mapErr
        obtain ⟨hkeyed, hstays, -⟩ := hstays c hc
        cases heq : onServices ((ServiceContext.onStore (ConversationStore.hasConversation
            env.conversationHint)).mapErr ChatError.storage) c with
        | mk r c₁ =>
            rw [heq] at hkeyed hstays
            cases r with
            | err e =>
                rw [Call.bind_of_err heq]
                exact ⟨hstays.does hkeyed, reports_err c e⟩
            | panic =>
                rw [Call.bind_of_panic heq]
                exact ⟨hstays.does hkeyed, reports_panic c⟩
            | ok stored =>
                rw [Call.bind_of_ok heq]
                cases stored with
                | false => exact ⟨hstays.does hkeyed, reports_empty c⟩
                | true =>
                    have hknown : c.Known env.conversationHint := known_of_hasConversation heq
                    exact hread (reads_known (hconvo _ env.payload hknown) hkeyed hstays)

/-- So is a wakeup, which brings nothing. -/
theorem does_wakeup (convoId : String) {c : Core P} (hc : Keyed c) :
    Does c.Known none c (wakeup convoId c).2 ∧ Reports c (wakeup convoId c).1 ∧
      broughtBy (wakeup convoId c).1 = none := by
  unfold wakeup
  rw [Call.read_bind]
  have hempty : Does c.Known none c c := (refl c : Stays c.Known c c).does hc
  split
  · exact ⟨hempty, reports_err c _, rfl⟩
  split
  case isTrue hcached =>
    have hknown : c.Known convoId := .inl hcached
    have hwakeup : (onCached convoId (Call.fail (.generic "No Convo Found")) fun _ ↦
        GroupConvo.wakeup).Meets Keyed (Stays (P := P) c.Known) (·.convoId = convoId) :=
      stays_onCached (Call.meets_fail _) fun _ ↦ GroupConvo.attends_wakeup hknown
    have hreport := hwakeup.bind fun outcome hid ↦
      Call.meets_pure (Q := fun r ↦ ∃ outcome, r = PayloadOutcome.convo outcome ∧ c.Known outcome.convoId)
        ⟨outcome, rfl, hid ▸ hknown⟩
    exact reads_known hreport hc (refl c)
  case isFalse => exact ⟨hempty, reports_empty c, rfl⟩

end Core

end LogosChat.Conversations
