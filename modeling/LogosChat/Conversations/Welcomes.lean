import LogosChat.Conversations.Invitations
import LogosChat.Conversations.Posts
import LogosChat.Reasoning.Meets

/-!
# Where an invite leads

An invite carries a welcome that openmls or de-mls made in one group, and whoever takes it up comes to
hold a conversation under the id that its welcome gives it.  Here every invite is followed from the
conversation that sends it: through the calls of the three kinds, through the core that holds the
conversations, and into the inbox of the core that receives it.
-/

namespace LogosChat.Conversations

open Reasoning

variable {P : Platform} {C ε α : Type}

/-! ## What is asked of the backends -/

namespace OpenMls

variable (M : OpenMls)

/-- A group that is joined by these bytes goes by this id. -/
def AdmitsTo (convoId : String) (welcomeBytes : Bytes) : Prop :=
  ∀ ⦃welcome n group⦄, M.extractWelcome welcomeBytes = .ok (some welcome) →
    M.join n welcome = .ok group → hexEncode group.groupId = convoId

/-- A welcome admits to the group that it was made in. -/
def Admits : Prop :=
  ∀ ⦃group keyPackages bundle welcomeBytes welcome n joined⦄,
    M.addMembers group keyPackages = .ok bundle → M.toBytes bundle.welcome = .ok welcomeBytes →
    M.extractWelcome welcomeBytes = .ok (some welcome) → M.join n welcome = .ok joined →
    joined.groupId = group.groupId

end OpenMls

namespace DeMls

variable (D : DeMls)

/-- A conversation that is joined by this welcome goes by this id. -/
def AdmitsTo (convoId : String) (welcome : MemberWelcome) : Prop :=
  ∀ ⦃n joined turn⦄, D.join n welcome = .ok (some (joined, turn)) → joined = convoId

/-- The state of a conversation tells its id, and the welcomes among the events admit to it. -/
structure Within (idOf : D.Core → String) (convoId : String) (core : D.Core)
    (events : List ConversationEvent) : Prop where
  core : idOf core = convoId
  welcomes : ∀ welcome, .welcomeReady welcome ∈ events → D.AdmitsTo convoId welcome

/-- de-mls keeps a conversation under the id that it was created or joined under, and every welcome
that it readies admits to that conversation. -/
structure Naming where
  idOf : D.Core → String
  created : ∀ {n convoId creator name desc members turn},
    D.create n convoId creator name desc members = .ok turn → D.Within idOf convoId turn.core turn.events
  joined : ∀ {n welcome convoId turn},
    D.join n welcome = .ok (some (convoId, turn)) → D.Within idOf convoId turn.core turn.events
  sent : ∀ core bytes, D.Within idOf (idOf core) (D.sendMessage core bytes).2.core
    (D.sendMessage core bytes).2.events
  processed : ∀ core sender frame, D.Within idOf (idOf core) (D.processInbound core sender frame).2.core
    (D.processInbound core sender frame).2.events
  polled : ∀ core, D.Within idOf (idOf core) (D.poll core).core (D.poll core).events
  added : ∀ core keyPackage, D.Within idOf (idOf core) (D.addMember core keyPackage).2.core
    (D.addMember core keyPackage).2.events
  removed : ∀ core target, D.Within idOf (idOf core) (D.removeMember core target).2.core
    (D.removeMember core target).2.events

end DeMls

/-! ## Invites that are sent -/

/-- Whatever conversation this invite brings is this one. -/
def InviteType.LeadsTo (P : Platform) (label : GroupKind × String) : InviteType → Prop
  | .groupV1 welcomeBytes => label.1 = .v1 ∧ P.mls.AdmitsTo label.2 welcomeBytes
  | .groupV2 welcome => label.1 = .v2 ∧ P.demls.AdmitsTo label.2 welcome
  | .groupV3 welcomeBytes => label.1 = .v3 ∧ P.mls.AdmitsTo label.2 welcomeBytes

/-- If this is an invite then it is for a signer's inbox, and leads to one of these conversations. -/
def InvitesTo (P : Platform) (those : GroupKind × String → Prop) (envelope : AddressedEnvelope) : Prop :=
  ∀ invite, envelope.payload = .invite invite → ∃ signer label,
    envelope = inviteEnvelope P signer invite ∧ invite.LeadsTo P label ∧ those label

/-- From `cx` to `cx'` nobody was invited but to these conversations. -/
def Bids (those : GroupKind × String → Prop) (cx cx' : ServiceContext P) : Prop :=
  ∃ sent, cx'.ds.published = cx.ds.published ++ sent ∧ ∀ envelope ∈ sent, InvitesTo P those envelope

variable {those : GroupKind × String → Prop} {cx cx' : ServiceContext P}

theorem invitesTo_message {envelope : AddressedEnvelope} (h : ∀ invite, envelope.payload ≠ .invite invite) :
    InvitesTo P those envelope :=
  fun invite hinvite ↦ absurd hinvite (h invite)

theorem invitesTo_invite {label : GroupKind × String} (signer : SignerKey) {invite : InviteType}
    (h : invite.LeadsTo P label) : InvitesTo P (· = label) (inviteEnvelope P signer invite) := by
  rintro _ ⟨⟩
  exact ⟨signer, label, rfl, h, rfl⟩

theorem Bids.of_same (h : cx'.ds.published = cx.ds.published) : Bids those cx cx' :=
  ⟨[], by rw [h, List.append_nil], nofun⟩

theorem Bids.mono {those' : GroupKind × String → Prop} (h : Bids those cx cx')
    (hle : ∀ label, those label → those' label) : Bids those' cx cx' := by
  obtain ⟨sent, hpublished, hsent⟩ := h
  refine ⟨sent, hpublished, fun envelope hmem invite hinvite ↦ ?_⟩
  obtain ⟨signer, label, heq, hleads, hthose⟩ := hsent envelope hmem invite hinvite
  exact ⟨signer, label, heq, hleads, hle label hthose⟩

instance (those : GroupKind × String → Prop) : IsPreorder (ServiceContext P) (Bids those) where
  refl _ := .of_same rfl
  trans _ _ _ := by
    rintro ⟨xs, hxs, hthose⟩ ⟨ys, hys, hthose'⟩
    refine ⟨xs ++ ys, by rw [hys, hxs, List.append_assoc], fun envelope hmem ↦ ?_⟩
    exact (List.mem_append.mp hmem).elim (hthose envelope) (hthose' envelope)

/-- Who invites nobody leads nobody anywhere. -/
theorem Mails.bids (h : Mails (fun _ ↦ False) cx cx') : Bids those cx cx' := by
  obtain ⟨sent, hpublished, hnobody⟩ := h.published
  refine ⟨sent, hpublished, fun envelope hmem invite hinvite ↦ ?_⟩
  obtain ⟨_, hfalse, -⟩ := hnobody envelope hmem invite hinvite
  exact hfalse.elim

theorem bids_publish {envelope : AddressedEnvelope} (h : InvitesTo P those envelope) :
    (ServiceContext.publish envelope : Call (ServiceContext P) _ _).Keeps (Bids those) := by
  intro cx
  obtain ⟨k, hpublished⟩ := (sends_publish envelope cx).published
  refine ⟨[envelope].take k, hpublished, fun envelope' hmem ↦ ?_⟩
  rw [List.mem_singleton.mp (List.take_subset k _ hmem)]
  exact h

theorem bids_subscribe : (ServiceContext.subscribe : Call (ServiceContext P) _ _).Keeps (Bids those) :=
  keeps_subscribe.mono fun _ _ h ↦ (Publishes.mails h).bids

theorem bids_retrievePackage {β : Type} (missing : SignerKey → ChatError)
    (vet : AuthService → SignerKey → Bytes → Result ChatError β) (signer : SignerKey) :
    (retrievePackage P missing vet signer).Keeps (Bids those) := by
  intro cx
  rw [retrievePackage_eq]
  exact .of_same rfl

/-! ## In a conversation -/

abbrev Bidding (those : GroupKind × String → Prop) (s t : InSession P C) : Prop := Bids those s.cx t.cx

instance (those : GroupKind × String → Prop) : IsPreorder (InSession P C) (Bidding those) where
  refl s := refl s.cx
  trans _ _ _ := IsTrans.trans _ _ _

/-- The calls of a conversation that stays at home and invites to itself only. -/
abbrev Hosts (home : C → Prop) (label : GroupKind × String) (Q : α → Prop)
    (m : Call (InSession P C) ε α) : Prop :=
  m.Meets (fun s ↦ home s.convo) (Bidding (· = label)) Q

section Hosts

variable {home : C → Prop} {label : GroupKind × String}

theorem hosts_onCx {m : Call (ServiceContext P) ε α} (h : m.Keeps (Bids (· = label))) :
    Hosts home label (fun _ ↦ True) (InSession.onCx m) :=
  fun s hs ↦ ⟨hs, h s.cx, fun _ _ ↦ trivial⟩

/-- A conversation that somebody has joined, or is about to create. -/
theorem Hosts.constructing {convo : C} {m : Call (InSession P C) ε Unit}
    (h : Hosts home label (fun _ ↦ True) m) (hconvo : home convo) :
    (InSession.constructing convo m).Meets (fun _ ↦ True) (Bids (· = label)) home := by
  intro cx _
  have hm := h ⟨convo, cx⟩ hconvo
  refine ⟨trivial, ?_, fun made hmade ↦ ?_⟩
  · rw [InSession.constructing_snd]
    exact hm.2.1
  · have hmade : InSession.constructing convo m cx =
        (.ok made, (InSession.constructing convo m cx).2) := Prod.ext hmade rfl
    have hhome := hm.1
    rw [InSession.constructing_eq_ok hmade] at hhome
    exact hhome

end Hosts

/-! ### An openmls group -/

/-- A conversation, by its id and the id of its group, is named after its group. -/
def Housed (key : C → String × Bytes) (id : String) (convo : C) : Prop :=
  (key convo).1 = id ∧ hexEncode (key convo).2 = id

/-- A call that keeps both ids and invites nobody. -/
theorem hosts_of_same {key : C → String × Bytes} {id : String} {label : GroupKind × String}
    {m : Call (InSession P C) ε α} (hsame : m.Keeps (Call.Same fun s ↦ key s.convo))
    (hminds : m.Keeps (Minds nobody fun _ ↦ False)) : Hosts (Housed key id) label (fun _ ↦ True) m := by
  intro s hs
  have hkey : key (m s).2.convo = key s.convo := hsame s
  refine ⟨⟨?_, ?_⟩, (hminds s fun _ h ↦ h).2.mails.bids, fun _ _ ↦ trivial⟩
  · exact (congrArg Prod.fst hkey).trans hs.1
  · exact (congrArg (fun key ↦ hexEncode key.2) hkey).trans hs.2

namespace MlsGroup

variable {M : OpenMls} {id : String}

abbrev SameId : MlsGroup M.Secrets → MlsGroup M.Secrets → Prop := Call.Same (·.groupId)

theorem same_addMembers (keyPackages : List KeyPackage) :
    (addMembers M keyPackages).Keeps SameId := by
  intro group
  unfold addMembers
  split <;> rfl

theorem same_removeMembers (leaves : List UInt32) : (removeMembers M leaves).Keeps SameId := by
  intro group
  unfold removeMembers
  split <;> rfl

theorem same_mergePendingCommit : (mergePendingCommit M).Keeps SameId := by
  intro group
  unfold mergePendingCommit merged
  split
  · dsimp only
    split <;> rfl
  · rfl

theorem same_clearPendingCommit : (clearPendingCommit M).Keeps SameId := by
  intro group
  unfold clearPendingCommit
  split <;> rfl

theorem same_createMessage (plaintext : Bytes) : (createMessage M plaintext).Keeps SameId := by
  intro group
  unfold createMessage
  split <;> rfl

theorem same_processMessage (message : ProtocolMessage) : (processMessage M message).Keeps SameId := by
  intro group
  unfold processMessage
  split <;> rfl

theorem same_mergeStagedCommit (commit : StagedCommit) : (mergeStagedCommit M commit).Keeps SameId := by
  intro group
  unfold mergeStagedCommit
  split <;> rfl

/-- What is made to admit new members admits them to this group. -/
theorem meets_addMembers (hM : M.Admits) (keyPackages : List KeyPackage) :
    (addMembers M keyPackages).Meets (fun group ↦ hexEncode group.groupId = id) (fun _ _ ↦ True)
      fun made ↦ ∀ welcomeBytes, M.toBytes made.2 = .ok welcomeBytes → M.AdmitsTo id welcomeBytes := by
  intro group hgroup
  have hsame : (addMembers M keyPackages group).2.groupId = group.groupId := same_addMembers keyPackages group
  refine ⟨(congrArg hexEncode hsame).trans hgroup, trivial, fun made hmade welcomeBytes hbytes ↦ ?_⟩
  unfold addMembers at hmade
  split at hmade
  case h_1 bundle hadd =>
    cases hmade
    intro welcome n joined hextract hjoin
    rw [hM hadd hbytes hextract hjoin, hgroup]
  case h_2 => cases hmade

theorem meets_of_same {m : Call (MlsGroup M.Secrets) ε α} (h : m.Keeps SameId) :
    m.Meets (fun group ↦ hexEncode group.groupId = id) (fun _ _ ↦ True) fun _ ↦ True := by
  intro group hgroup
  have hsame : (m group).2.groupId = group.groupId := h group
  exact ⟨(congrArg hexEncode hsame).trans hgroup, trivial, fun _ _ ↦ trivial⟩

end MlsGroup

/-- The MLS group of a conversation, beside its id. -/
structure GroupSlot (P : Platform) (C : Type) where
  convoId : C → String
  mlsGroup : C → MlsGroup P.mls.Secrets
  put : MlsGroup P.mls.Secrets → C → C
  convoId_put : ∀ group convo, convoId (put group convo) = convoId convo
  mlsGroup_put : ∀ group convo, mlsGroup (put group convo) = group

namespace GroupSlot

variable (slot : GroupSlot P C) {id : String}

abbrev key (convo : C) : String × Bytes := (slot.convoId convo, (slot.mlsGroup convo).groupId)

abbrev onGroup (m : Call (MlsGroup P.mls.Secrets) ε α) : Call (InSession P C) ε α :=
  m.on (slot.mlsGroup ·.convo) fun group s ↦ { s with convo := slot.put group s.convo }

theorem same_onGroup {m : Call (MlsGroup P.mls.Secrets) ε α} (h : m.Keeps MlsGroup.SameId) :
    (slot.onGroup m).Keeps (Call.Same fun s ↦ slot.key s.convo) := by
  intro s
  have hgroup : (m (slot.mlsGroup s.convo)).2.groupId = (slot.mlsGroup s.convo).groupId := h _
  refine Prod.ext (slot.convoId_put _ _) ?_
  exact (congrArg MlsGroup.groupId (slot.mlsGroup_put _ _)).trans hgroup

theorem hosts_onGroup {Q : α → Prop} {label : GroupKind × String} {m : Call (MlsGroup P.mls.Secrets) ε α}
    (h : m.Meets (fun group ↦ hexEncode group.groupId = id) (fun _ _ ↦ True) Q) :
    Hosts (Housed slot.key id) label Q (slot.onGroup m) := by
  refine h.on (fun _ hs ↦ hs.2) fun s group hs hgroup _ ↦ ⟨⟨?_, ?_⟩, refl s.cx⟩
  · exact (slot.convoId_put _ _).trans hs.1
  · exact (congrArg (fun group ↦ hexEncode group.groupId) (slot.mlsGroup_put group s.convo)).trans hgroup

end GroupSlot

/-! ### GroupV1 -/

namespace GroupV1

abbrev slot : GroupSlot P (GroupV1Convo P) where
  convoId := (·.convoId)
  mlsGroup := (·.mlsGroup)
  put group convo := { convo with mlsGroup := group }
  convoId_put _ _ := rfl
  mlsGroup_put _ _ := rfl

abbrev key (convo : GroupV1Convo P) : String × Bytes := slot.key convo

abbrev SameKey : InSession P (GroupV1Convo P) → InSession P (GroupV1Convo P) → Prop :=
  Call.Same fun s ↦ key s.convo

variable {id : String}

theorem hosts_sendContent (content : Bytes) :
    Hosts (P := P) (Housed key id) (.v1, id) (fun _ ↦ True) (sendContent content) := by
  refine hosts_of_same ?_ (minds_sendContent content)
  refine (Call.keeps_read _).bind fun convoId ↦ Call.Keeps.bind (fun _ ↦ rfl) fun reliable ↦ ?_
  refine (slot.same_onGroup (MlsGroup.same_createMessage _)).mapErr.bind fun message ↦ ?_
  refine (Call.keeps_ofResult _).bind fun msgBytes ↦ ?_
  exact Call.Keeps.bind (fun _ ↦ rfl) fun _ ↦ Call.keeps_pure _

theorem hosts_handlePayload (payload : Bytes) :
    Hosts (P := P) (Housed key id) (.v1, id) (fun _ ↦ True) (handlePayload payload) := by
  refine hosts_of_same ?_ (minds_handlePayload payload)
  refine keeps_handlePayload (fun message ↦ ?_) (fun commit ↦ ?_) (fun _ _ _ ↦ rfl) payload
  · exact slot.same_onGroup (MlsGroup.same_processMessage message)
  · exact slot.same_onGroup (MlsGroup.same_mergeStagedCommit commit)

theorem hosts_removeSigner (members : List SignerKey) :
    Hosts (P := P) (Housed key id) (.v1, id) (fun _ ↦ True) (removeSigner members) := by
  refine hosts_of_same ?_ (minds_removeSigner members)
  refine (Call.keeps_read _).bind fun group ↦ ?_
  dsimp only
  split
  · exact Call.keeps_fail _
  split
  · exact Call.keeps_fail _
  refine (slot.same_onGroup (MlsGroup.same_removeMembers _)).mapErr.bind fun commit ↦ ?_
  refine (slot.same_onGroup MlsGroup.same_mergePendingCommit).mapErr.bind fun _ ↦ ?_
  exact (Call.keeps_ofResult _).bind fun _ _ ↦ rfl

/-- The welcomes lead to the conversation that announces them, and the commit is no invite. -/
theorem hosts_announce (members : List SignerKey) (commit : P.mls.MlsMessageOut)
    {welcome : P.mls.MlsMessageOut}
    (h : ∀ welcomeBytes, P.mls.toBytes welcome = .ok welcomeBytes → P.mls.AdmitsTo id welcomeBytes) :
    Hosts (Housed key id) (.v1, id) (fun _ ↦ True) (announce members commit welcome) := by
  refine (Call.Meets.each fun signer _ ↦ hosts_onCx ?_).bind fun _ _ ↦ ?_
  · refine Call.keeps_ofResult_bind fun welcomeBytes hbytes ↦ ?_
    have hleads : (InviteType.groupV1 welcomeBytes).LeadsTo P (.v1, id) :=
      ⟨rfl, h welcomeBytes (orErr_eq_ok.mp hbytes)⟩
    exact (bids_publish (invitesTo_invite signer hleads)).mapErr
  · refine (Call.meets_ofResult_any _).bind fun msgBytes _ ↦ ?_
    exact hosts_of_same (fun _ ↦ rfl) (minds_sendPayload msgBytes)

theorem hosts_addSigner (hM : P.mls.Admits) (members : List SignerKey) :
    Hosts (P := P) (Housed key id) (.v1, id) (fun _ ↦ True) (addSigner members) := by
  unfold addSigner
  split
  · exact Call.meets_fail _
  refine (Call.meets_read_any _).bind fun seated _ ↦ ?_
  dsimp only
  split
  · exact Call.meets_pure trivial
  refine (hosts_onCx (Call.Keeps.collect (bids_retrievePackage _ _) _)).bind fun keyPackages _ ↦ ?_
  refine Call.Meets.bind (Q := fun made : P.mls.MlsMessageOut × P.mls.MlsMessageOut ↦
    ∀ welcomeBytes, P.mls.toBytes made.2 = .ok welcomeBytes → P.mls.AdmitsTo id welcomeBytes) ?_
    fun ⟨commit, welcome⟩ hwelcome ↦ ?_
  · refine (hosts_onCx fun _ ↦ .of_same rfl).bind fun _ _ ↦ ?_
    exact (slot.hosts_onGroup (MlsGroup.meets_addMembers hM keyPackages)).mapErr
  · refine (slot.hosts_onGroup (MlsGroup.meets_of_same MlsGroup.same_mergePendingCommit)).mapErr.bind
      fun _ _ ↦ ?_
    exact hosts_announce _ commit hwelcome

end GroupV1

/-! ### GroupV3 -/

namespace GroupV3

abbrev slot : GroupSlot P (GroupV3Convo P) where
  convoId := (·.convoId)
  mlsGroup := (·.mlsGroup)
  put group convo := { convo with mlsGroup := group }
  convoId_put _ _ := rfl
  mlsGroup_put _ _ := rfl

abbrev key (convo : GroupV3Convo P) : String × Bytes := slot.key convo

abbrev SameKey : InSession P (GroupV3Convo P) → InSession P (GroupV3Convo P) → Prop :=
  Call.Same fun s ↦ key s.convo

variable {id : String}

theorem same_publishMlsMsg (message : P.mls.MlsMessageOut) :
    (publishMlsMsg message).Keeps (SameKey (P := P)) :=
  (Call.keeps_read _).bind fun _ ↦ (Call.keeps_ofResult _).bind fun _ _ ↦ rfl

theorem hosts_publishMlsMsg (message : P.mls.MlsMessageOut) :
    Hosts (Housed key id) (.v3, id) (fun _ ↦ True) (publishMlsMsg message) :=
  hosts_of_same (same_publishMlsMsg message) (minds_publishMlsMsg message)

theorem hosts_sendContent (content : Bytes) :
    Hosts (P := P) (Housed key id) (.v3, id) (fun _ ↦ True) (sendContent content) := by
  refine hosts_of_same ?_ (minds_sendContent content)
  apply Call.Keeps.mapErr
  refine (slot.same_onGroup (MlsGroup.same_createMessage _)).mapErr.bind fun message ↦ ?_
  exact (same_publishMlsMsg message).bind fun _ ↦ Call.keeps_pure _

theorem hosts_handlePayload (payload : Bytes) :
    Hosts (P := P) (Housed key id) (.v3, id) (fun _ ↦ True) (handlePayload payload) := by
  refine hosts_of_same ?_ (minds_handlePayload payload)
  refine keeps_handlePayload (fun message ↦ ?_) (fun commit ↦ keeps_handleMlsCommit ?_) payload
  · exact slot.same_onGroup (MlsGroup.same_processMessage message)
  · exact slot.same_onGroup (MlsGroup.same_mergeStagedCommit commit)

/-- The invites that wait for the commit. -/
theorem meets_createInvites {home : GroupV3Convo P → Prop} (keyPackages : List KeyPackage)
    {welcome : P.mls.MlsMessageOut}
    (h : ∀ welcomeBytes, P.mls.toBytes welcome = .ok welcomeBytes → P.mls.AdmitsTo id welcomeBytes) :
    Hosts home (.v3, id) (fun invites ↦ ∀ envelope ∈ invites, InvitesTo P (· = (.v3, id)) envelope)
      (createInvites keyPackages welcome) := by
  unfold createInvites
  induction keyPackages with
  | nil => exact Call.meets_pure nofun
  | cons keyPackage keyPackages ih =>
      refine Call.Meets.bind (Q := InvitesTo P (· = (.v3, id))) (Call.meets_ofResult fun envelope hmade ↦ ?_)
        fun envelope henvelope ↦ ih.bind fun invites hinvites ↦ Call.meets_pure ?_
      · obtain ⟨welcomeBytes, hbytes, hmade⟩ := Result.bind_eq_ok.mp hmade
        cases hmade
        exact invitesTo_invite _ ⟨rfl, h welcomeBytes (orErr_eq_ok.mp hbytes)⟩
      · exact List.forall_mem_cons.mpr ⟨henvelope, hinvites⟩

theorem hosts_sendPendingCommit (commit : P.mls.MlsMessageOut) {dependent : List AddressedEnvelope}
    (h : ∀ envelope ∈ dependent, InvitesTo P (· = (.v3, id)) envelope) :
    Hosts (Housed key id) (.v3, id) (fun _ ↦ True) (sendPendingCommit commit dependent) := by
  refine (hosts_publishMlsMsg commit).attempt.bind fun sent _ ↦ ?_
  split
  · have hclear : Hosts (Housed key id) (.v3, id) (fun _ ↦ True)
        (onGroup (MlsGroup.clearPendingCommit P.mls)) :=
      slot.hosts_onGroup (MlsGroup.meets_of_same MlsGroup.same_clearPendingCommit)
    exact hclear.attempt.bind fun _ _ ↦ Call.meets_fail _
  · refine (slot.hosts_onGroup (MlsGroup.meets_of_same MlsGroup.same_mergePendingCommit)).mapErr.bind
      fun _ _ ↦ Call.Meets.each fun envelope hmem ↦ ?_
    exact (hosts_onCx (bids_publish (h envelope hmem))).mapErr.mapErr

theorem hosts_addSigner (hM : P.mls.Admits) (members : List SignerKey) :
    Hosts (P := P) (Housed key id) (.v3, id) (fun _ ↦ True) (addSigner members) := by
  refine (Call.meets_read_any _).bind fun seated _ ↦ (Call.meets_ofResult_any _).bind fun existing _ ↦ ?_
  refine (hosts_onCx (Call.Keeps.collect (bids_retrievePackage _ _) _)).bind fun keyPackages _ ↦ ?_
  split
  · exact Call.meets_pure trivial
  refine Call.Meets.bind (Q := fun made : P.mls.MlsMessageOut × P.mls.MlsMessageOut ↦
    ∀ welcomeBytes, P.mls.toBytes made.2 = .ok welcomeBytes → P.mls.AdmitsTo id welcomeBytes) ?_
    fun ⟨commit, welcome⟩ hwelcome ↦ ?_
  · refine (hosts_onCx fun _ ↦ .of_same rfl).bind fun _ _ ↦ ?_
    exact (slot.hosts_onGroup (MlsGroup.meets_addMembers hM keyPackages)).mapErr
  · refine (meets_createInvites keyPackages hwelcome).mapErr.bind fun invites hinvites ↦ ?_
    exact hosts_sendPendingCommit commit hinvites

end GroupV3

/-! ### GroupV2 -/

namespace Conversation

variable {D : DeMls} {N : D.Naming} {id : String}

/-- The conversation is the one of this id, and so are those its queued welcomes admit to. -/
abbrev Home (N : D.Naming) (id : String) (conversation : Conversation D) : Prop :=
  D.Within N.idOf id conversation.core conversation.events

theorem Home.queued {conversation : Conversation D} {turn : Turn D.Core} (h : conversation.Home N id)
    (hturn : D.Within N.idOf id turn.core turn.events) : (conversation.queued turn).Home N id := by
  refine ⟨hturn.core, fun welcome hmem ↦ ?_⟩
  exact (List.mem_append.mp hmem).elim (h.welcomes welcome) (hturn.welcomes welcome)

theorem meets_turn {f : D.Core → Except ConversationError Unit × Turn D.Core}
    (hf : ∀ core, D.Within N.idOf (N.idOf core) (f core).2.core (f core).2.events) :
    (turn f).Meets (Home N id) (fun _ _ ↦ True) fun _ ↦ True := by
  intro conversation h
  have hturn := hf conversation.core
  rw [h.core] at hturn
  refine ⟨?_, trivial, fun _ _ ↦ trivial⟩
  unfold turn
  split
  case h_1 heq =>
    rw [heq] at hturn
    exact h.queued hturn
  case h_2 heq =>
    rw [heq] at hturn
    exact h.queued hturn

theorem meets_poll : (poll : Call (Conversation D) ε Unit).Meets (Home N id) (fun _ _ ↦ True)
    fun _ ↦ True := by
  intro conversation h
  have hturn := N.polled conversation.core
  rw [h.core] at hturn
  exact ⟨h.queued hturn, trivial, fun _ _ ↦ trivial⟩

theorem meets_drainEvents : (drainEvents : Call (Conversation D) ε _).Meets (Home N id) (fun _ _ ↦ True)
    fun events ↦ ∀ welcome, .welcomeReady welcome ∈ events → D.AdmitsTo id welcome := by
  intro conversation h
  refine ⟨⟨h.core, nofun⟩, trivial, fun events hevents ↦ ?_⟩
  cases hevents
  exact h.welcomes

theorem meets_drainOutbound : (drainOutbound : Call (Conversation D) ε _).Meets (Home N id)
    (fun _ _ ↦ True) fun _ ↦ True :=
  fun _ h ↦ ⟨⟨h.core, h.welcomes⟩, trivial, fun _ _ ↦ trivial⟩

end Conversation

namespace GroupV2

variable {N : P.demls.Naming} {id : String}

structure Home (N : P.demls.Naming) (id : String) (convo : GroupV2Convo P) : Prop where
  convoId : convo.convoId = id
  conversation : convo.conversation.Home N id

theorem hosts_onConversation {Q : α → Prop} {m : Call (Conversation P.demls) ε α}
    (h : m.Meets (Conversation.Home N id) (fun _ _ ↦ True) Q) :
    Hosts (Home N id) (.v2, id) Q (onConversation m) :=
  h.on (fun _ hs ↦ hs.conversation) fun s _ hs ht _ ↦ ⟨⟨hs.convoId, ht⟩, refl s.cx⟩

-- a step on the invites or the directory
theorem hosts_modify {f : GroupV2Convo P → GroupV2Convo P} (hid : ∀ convo, (f convo).convoId = convo.convoId)
    (hconversation : ∀ convo, (f convo).conversation = convo.conversation) :
    Hosts (ε := ε) (Home N id) (.v2, id) (fun _ ↦ True)
      (Call.modify fun s : InSession P (GroupV2Convo P) ↦ { s with convo := f s.convo }) := by
  intro s hs
  refine ⟨⟨(hid s.convo).trans hs.convoId, ?_⟩, refl s.cx, fun _ _ ↦ trivial⟩
  show (f s.convo).conversation.Home N id
  rw [hconversation]
  exact hs.conversation

theorem hosts_setPending (joiner : Bytes) (credential : Option Bytes) :
    Hosts (ε := ε) (Home N id) (.v2, id) (fun _ ↦ True) (Call.modify fun s : InSession P (GroupV2Convo P) ↦
      { s with convo := setPending joiner credential s.convo }) :=
  hosts_modify (fun _ ↦ rfl) fun _ ↦ rfl

theorem hosts_routeWelcome {welcome : MemberWelcome} (h : P.demls.AdmitsTo id welcome) (joiner : Bytes) :
    Hosts (Home N id) (.v2, id) (fun _ ↦ True) (routeWelcome welcome joiner) := by
  refine (Call.meets_read_any _).bind fun invited _ ↦ ?_
  split
  · refine (hosts_setPending joiner none).bind fun _ _ ↦ hosts_onCx ?_
    have hleads : (InviteType.groupV2 welcome).LeadsTo P (.v2, id) := ⟨rfl, h⟩
    exact (bids_publish (invitesTo_invite ⟨joiner⟩ hleads)).mapErr
  · exact Call.meets_pure trivial

theorem hosts_routeEvent {event : ConversationEvent}
    (h : ∀ welcome, event = .welcomeReady welcome → P.demls.AdmitsTo id welcome) :
    Hosts (Home N id) (.v2, id) (fun _ ↦ True) (routeEvent event) := by
  cases event with
  | welcomeReady welcome => exact Call.Meets.each fun joiner _ ↦ hosts_routeWelcome (h welcome rfl) joiner
  | membersChanged added removed =>
      exact hosts_modify (f := changeMembers added removed) (fun _ ↦ rfl) fun _ ↦ rfl
  | conversationMessage message sender => exact Call.meets_pure trivial
  | commitApplied => exact Call.meets_pure trivial
  | leaving => exact Call.meets_pure trivial
  | other => exact Call.meets_pure trivial

theorem hosts_publishFrame (out : Outbound) :
    Hosts (P := P) (Home N id) (.v2, id) (fun _ ↦ True) (publishFrame out) := by
  have hframe : InvitesTo P (· = (.v2, id)) (frameEnvelope P out) := invitesTo_message fun _ ↦ nofun
  exact (hosts_onCx (bids_publish hframe)).mapErr

theorem hosts_rearm (wakeup : Option Nat) :
    Hosts (P := P) (Home N id) (.v2, id) (fun _ ↦ True) (rearm wakeup) := by
  cases wakeup with
  | none => exact Call.meets_pure trivial
  | some duration => exact (Call.meets_read_any _).bind fun _ _ ↦ hosts_onCx fun _ ↦ .of_same rfl

theorem hosts_afterOp : Hosts (P := P) (Home N id) (.v2, id) (fun _ ↦ True) afterOp := by
  refine (hosts_onConversation Conversation.meets_drainEvents).bind fun events hevents ↦ ?_
  refine (hosts_onConversation Conversation.meets_drainOutbound).bind fun outbound _ ↦ ?_
  refine (Call.meets_read_any _).bind fun wakeup _ ↦ ?_
  refine (Call.Meets.each fun event hmem ↦ hosts_routeEvent fun welcome hevent ↦ ?_).bind fun _ _ ↦ ?_
  · subst hevent
    exact hevents welcome hmem
  refine (Call.Meets.each fun out _ ↦ hosts_publishFrame out).bind fun _ _ ↦ ?_
  exact (hosts_rearm wakeup).bind fun _ _ ↦ Call.meets_pure trivial

theorem hosts_sendContent (content : Bytes) :
    Hosts (P := P) (Home N id) (.v2, id) (fun _ ↦ True) (sendContent content) := by
  refine (Call.meets_read_any _).bind fun convoId _ ↦ ?_
  refine (hosts_onCx ((keeps_onSend convoId content).mono fun _ _ h ↦ (Publishes.mails h).bids)).bind
    fun reliable _ ↦ ?_
  refine (hosts_onConversation (Conversation.meets_turn fun core ↦ N.sent core _)).mapErr.bind fun _ _ ↦ ?_
  exact hosts_afterOp.bind fun _ _ ↦ Call.meets_pure trivial

theorem hosts_report : Hosts (P := P) (Home N id) (.v2, id) (fun _ ↦ True) report := by
  refine hosts_afterOp.bind fun ⟨events, _⟩ _ ↦ ?_
  have hpost (message : Bytes) (sender : LeafNode) :
      Hosts (P := P) (Home N id) (.v2, id) (fun _ ↦ True) (readPost message sender) := by
    refine (Call.meets_ofResult_any _).bind fun reliable _ ↦ (Call.meets_read_any _).bind fun convoId _ ↦ ?_
    refine (hosts_onCx fun _ ↦ .of_same rfl).bind fun _ _ ↦ ?_
    exact (Call.meets_read_any _).bind fun _ _ ↦ Call.meets_pure trivial
  unfold outcomeFromEvents
  dsimp only
  split
  · refine (Call.meets_pure (Q := fun _ ↦ True) trivial).bind fun _ _ ↦ ?_
    exact (Call.meets_read_any _).bind fun _ _ ↦ Call.meets_pure trivial
  · exact (hpost _ _).bind fun _ _ ↦ (Call.meets_read_any _).bind fun _ _ ↦ Call.meets_pure trivial

theorem hosts_feed (payload : Bytes) :
    Hosts (P := P) (Home N id) (.v2, id) (fun _ ↦ True) (feed payload) := by
  refine (Call.meets_ofResult_any _).bind fun encrypted _ ↦ ?_
  cases encrypted with
  | other => exact Call.meets_fail _
  | plaintext bytes =>
      refine (Call.meets_read_any _).bind fun seated _ ↦ ?_
      split
      · exact Call.meets_pure trivial
      refine (Call.meets_ofResult_any _).bind fun frame _ ↦ ?_
      split
      · refine (hosts_onConversation (Conversation.meets_turn fun core ↦ ?_)).mapErr.bind fun _ _ ↦ ?_
        · exact N.processed core _ _
        · exact (hosts_onConversation Conversation.meets_poll).bind fun _ _ ↦ Call.meets_pure trivial
      · exact Call.meets_pure trivial

theorem hosts_handlePayload (payload : Bytes) :
    Hosts (P := P) (Home N id) (.v2, id) (fun _ ↦ True) (handlePayload payload) := by
  refine (hosts_feed payload).bind fun fed _ ↦ ?_
  split
  · exact hosts_report
  · exact Call.meets_read_any _

theorem hosts_wakeup : Hosts (P := P) (Home N id) (.v2, id) (fun _ ↦ True) wakeup :=
  (hosts_onConversation Conversation.meets_poll).bind fun _ _ ↦ hosts_report

theorem hosts_andFlush (result : Except ChatError Unit) :
    Hosts (P := P) (Home N id) (.v2, id) (fun _ ↦ True) (andFlush result) := by
  refine hosts_afterOp.attempt.bind fun flushed _ ↦ ?_
  split
  · exact Call.meets_fail _
  · exact Call.meets_fail _
  · exact Call.meets_pure trivial

theorem hosts_proposeAll (existing : List Bytes) (members : List FetchedMember) :
    Hosts (P := P) (Home N id) (.v2, id) (fun _ ↦ True) (proposeAll existing members) := by
  induction members with
  | nil => exact Call.meets_pure trivial
  | cons m members ih =>
      unfold proposeAll
      split
      · exact ih
      refine (hosts_setPending m.signatureKey (some m.credential)).bind fun _ _ ↦ ?_
      refine (hosts_onCx fun _ ↦ .of_same rfl).bind fun _ _ ↦ ?_
      refine (hosts_onConversation (Conversation.meets_turn fun core ↦ N.added core _)).attempt.bind
        fun answer _ ↦ ?_
      split
      · exact ih.bind fun _ _ ↦ Call.meets_pure trivial
      · exact (hosts_setPending m.signatureKey none).bind fun _ _ ↦ ih
      · exact (hosts_setPending m.signatureKey none).bind fun _ _ ↦ Call.meets_pure trivial

theorem hosts_addSigner (members : List SignerKey) :
    Hosts (P := P) (Home N id) (.v2, id) (fun _ ↦ True) (addSigner members) := by
  refine Call.Meets.bind (Q := fun _ ↦ True) ?_ fun result _ ↦ hosts_andFlush result
  refine (hosts_onCx (Call.Keeps.collect (bids_retrievePackage _ _) _)).bind fun fetched _ ↦ ?_
  refine (Call.meets_read_any _).bind fun existing _ ↦ ?_
  refine (hosts_proposeAll existing fetched).bind fun ⟨result, added⟩ _ ↦ ?_
  dsimp only
  split
  · exact (hosts_onConversation Conversation.meets_poll).bind fun _ _ ↦ Call.meets_pure trivial
  · exact Call.meets_pure trivial

theorem hosts_removeAll (targets : List MemberId) :
    Hosts (P := P) (Home N id) (.v2, id) (fun _ ↦ True) (removeAll targets) := by
  induction targets with
  | nil => exact Call.meets_pure trivial
  | cons target targets ih =>
      refine (hosts_onConversation (Conversation.meets_turn fun core ↦ N.removed core _)).attempt.bind
        fun answer _ ↦ ?_
      split
      · exact ih
      · exact ih
      · exact Call.meets_pure trivial

theorem hosts_removeSigner (members : List SignerKey) :
    Hosts (P := P) (Home N id) (.v2, id) (fun _ ↦ True) (removeSigner members) := by
  refine (Call.meets_read_any _).bind fun convo _ ↦ ?_
  dsimp only
  split
  · exact Call.meets_fail _
  split
  · exact Call.meets_fail _
  exact (hosts_removeAll _).bind fun result _ ↦ hosts_andFlush result

/-- Both constructors end in `settle`. -/
theorem meets_settle {convo : GroupV2Convo P} (h : Home N id convo) :
    (settle convo).Meets (fun _ ↦ True) (Bids (· = (.v2, id))) (Home N id) := by
  refine Hosts.constructing ?_ h
  refine (hosts_onCx bids_subscribe.mapErr).bind fun _ _ ↦ ?_
  exact hosts_afterOp.bind fun _ _ ↦ Call.meets_pure trivial

end GroupV2

end LogosChat.Conversations
