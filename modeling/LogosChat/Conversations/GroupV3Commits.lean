import LogosChat.Conversations.Handover
import LogosChat.Reasoning.Run

/-!
# Commits of GroupV3

`addSigner` stages its commit, makes the invites, publishes the commit, merges it and sends the
invites last.  A commit that cannot be published is discarded.  One whose welcome cannot be
serialised is not: the call returns before it comes to that, and the commit stays pending.

A commit of another member is fingerprinted before it is merged, and one that removes us has nothing
to take the fingerprint of.
-/

namespace LogosChat.Conversations.GroupV3

open Reasoning

variable {P : Platform} {s t : InSession P (GroupV3Convo P)} {members : List SignerKey}

/-- openmls clears and merges a staged commit whenever it is asked to. -/
structure SettlesCommits (M : OpenMls) : Prop where
  clears : ∀ group, ∃ secrets, M.clearPendingCommit group = .ok secrets
  merges : ∀ group, ∃ secrets, M.mergePendingCommit group = .ok secrets

theorem onGroup_of_eq {ε α : Type} {m : Call (MlsGroup P.mls.Secrets) ε α} {r : Result ε α}
    {group : MlsGroup P.mls.Secrets} (h : m (groupOf s) = (r, group)) :
    onGroup m s = (r, { s with convo := { s.convo with mlsGroup := group } }) :=
  Call.on_of_eq h

/-! ## What the call leaves behind -/

/-- What was published between `s` and `t`. -/
def sent (s t : InSession P (GroupV3Convo P)) : List AddressedEnvelope :=
  t.cx.ds.published.drop s.cx.ds.published.length

theorem sent_of_append {new : List AddressedEnvelope}
    (h : t.cx.ds.published = s.cx.ds.published ++ new) : sent s t = new := by
  rw [sent, h, List.drop_left]

/-- Nothing was published, epoch and roster are those of `s`, and no commit is pending. -/
structure Untouched (s t : InSession P (GroupV3Convo P)) : Prop where
  published : t.cx.ds.published = s.cx.ds.published
  epoch : (groupOf t).epoch = (groupOf s).epoch
  roster : (groupOf t).members = (groupOf s).members
  settled : (groupOf t).pendingCommit = none

theorem Untouched.of_convo (hs : (groupOf s).pendingCommit = none) (hconvo : t.convo = s.convo)
    (hpublished : t.cx.ds.published = s.cx.ds.published) : Untouched s t := by
  refine ⟨hpublished, ?_, ?_, ?_⟩
  all_goals rw [groupOf, hconvo]
  exact hs

/-- The new signers have packages, and openmls stages a commit that seats them. -/
structure StagesAdd (s : InSession P (GroupV3Convo P)) (members : List SignerKey)
    (keyPackages : List KeyPackage) (bundle : CommitBundle P.mls.Secrets P.mls.MlsMessageOut) :
    Prop where
  fetched : ∃ existing, signers s.convo = .ok existing ∧
    (fetchKeyPackages P (unique (memberDiff members existing)) s.cx).1 = .ok keyPackages
  nonempty : keyPackages ≠ []
  staged : P.mls.addMembers (groupOf s) keyPackages = .ok bundle

theorem StagesAdd.unique {keyPackages keyPackages' : List KeyPackage}
    {bundle bundle' : CommitBundle P.mls.Secrets P.mls.MlsMessageOut}
    (h : StagesAdd s members keyPackages bundle) (h' : StagesAdd s members keyPackages' bundle') :
    keyPackages' = keyPackages ∧ bundle' = bundle := by
  obtain ⟨existing, hsigners, hfetched⟩ := h.fetched
  obtain ⟨existing', hsigners', hfetched'⟩ := h'.fetched
  cases hsigners.symm.trans hsigners'
  cases hfetched.symm.trans hfetched'
  cases h.staged.symm.trans h'.staged
  exact ⟨rfl, rfl⟩

/-- At `t` the commit is published and merged, and nothing else was published. -/
structure Committed (s t : InSession P (GroupV3Convo P))
    (bundle : CommitBundle P.mls.Secrets P.mls.MlsMessageOut) : Prop where
  published : ∃ envelope, toEnvelope P s.convo.convoId bundle.commit = .ok envelope ∧
    t.cx.ds.published = s.cx.ds.published ++ [envelope]
  epoch : (groupOf t).epoch = (groupOf s).epoch + 1
  roster : (groupOf t).members = bundle.members
  settled : (groupOf t).pendingCommit = none

/-- The commit of the add was published. -/
def CommitSent (s t : InSession P (GroupV3Convo P)) (members : List SignerKey) : Prop :=
  ∃ keyPackages bundle envelope, StagesAdd s members keyPackages bundle ∧
    toEnvelope P s.convo.convoId bundle.commit = .ok envelope ∧ envelope ∈ sent s t

def WelcomeSent (s t : InSession P (GroupV3Convo P)) : Prop :=
  ∃ signer invite, inviteEnvelope P signer invite ∈ sent s t

def invitesFor (P : Platform) (keyPackages : List KeyPackage) (welcomeBytes : Bytes) :
    List AddressedEnvelope :=
  keyPackages.map fun k ↦ inviteEnvelope P ⟨k.leafNode.signatureKey⟩ (.groupV3 welcomeBytes)

/-- The end of `sendPendingCommit`. -/
def sendInvites (invites : List AddressedEnvelope) :
    Call (InSession P (GroupV3Convo P)) ChatError Unit :=
  Call.each (fun envelope ↦ (publishEnvelope envelope).mapErr .sendError) invites

/-- Welcomes go out only once the commit is published and merged, and a call that fails without
having published its commit leaves nothing behind. -/
structure AddsCleanly (s : InSession P (GroupV3Convo P)) (members : List SignerKey) : Prop where
  welcomesLast : WelcomeSent s (addSigner members s).2 →
    ∃ keyPackages bundle welcomeBytes t, StagesAdd s members keyPackages bundle ∧
      P.mls.toBytes bundle.welcome = .ok welcomeBytes ∧ Committed s t bundle ∧
      addSigner members s = sendInvites (invitesFor P keyPackages welcomeBytes) t
  undone : ∀ e t, addSigner members s = (.err e, t) → ¬ CommitSent s t members → Untouched s t

/-- The welcome of the staged commit can be serialised. -/
def WelcomeSerialises (s : InSession P (GroupV3Convo P)) (members : List SignerKey) : Prop :=
  ∀ keyPackages bundle, StagesAdd s members keyPackages bundle →
    ∃ welcomeBytes, P.mls.toBytes bundle.welcome = .ok welcomeBytes

/-! ## The steps of an add -/

section Steps

variable {keyPackages : List KeyPackage} {bundle : CommitBundle P.mls.Secrets P.mls.MlsMessageOut}

/-- The state with the commit staged. -/
def staged (s : InSession P (GroupV3Convo P)) (keyPackages : List KeyPackage)
    (bundle : CommitBundle P.mls.Secrets P.mls.MlsMessageOut) : InSession P (GroupV3Convo P) where
  convo := { s.convo with mlsGroup := (groupOf s).stage P.mls bundle }
  cx := s.cx.handing (keyPackages.map fun k ↦ (.keyPackage k, k.signer))

theorem addMembers_of_ok (h : P.mls.addMembers (groupOf s) keyPackages = .ok bundle) :
    addMembers keyPackages s =
      (.ok (bundle.commit, bundle.welcome), staged s keyPackages bundle) := by
  let handed : InSession P (GroupV3Convo P) :=
    { s with cx := s.cx.handing (keyPackages.map fun k ↦ (.keyPackage k, k.signer)) }
  exact Call.mapErr_of_ok (onGroup_of_eq (s := handed) (MlsGroup.addMembers_of_ok h))

theorem addMembers_of_error {e : String}
    (h : P.mls.addMembers (groupOf s) keyPackages = .error e) :
    addMembers keyPackages s = (.err (.generic e),
      { s with cx := s.cx.handing (keyPackages.map fun k ↦ (.keyPackage k, k.signer)) }) := by
  let handed : InSession P (GroupV3Convo P) :=
    { s with cx := s.cx.handing (keyPackages.map fun k ↦ (.keyPackage k, k.signer)) }
  exact Call.mapErr_of_err (onGroup_of_eq (s := handed) (MlsGroup.addMembers_of_error h))

variable {message welcome : P.mls.MlsMessageOut}

theorem createInvites_of_ok {welcomeBytes : Bytes} (h : P.mls.toBytes welcome = .ok welcomeBytes)
    (keyPackages : List KeyPackage) (s : InSession P (GroupV3Convo P)) :
    createInvites keyPackages welcome s = (.ok (invitesFor P keyPackages welcomeBytes), s) := by
  induction keyPackages with
  | nil => rfl
  | cons k keyPackages ih =>
      have hinvite : createInvite P ⟨k.leafNode.signatureKey⟩ welcome =
          .ok (inviteEnvelope P ⟨k.leafNode.signatureKey⟩ (.groupV3 welcomeBytes)) := by
        rw [createInvite, h]
        rfl
      unfold createInvites at ih ⊢
      rw [Call.collect, hinvite, Call.ofResult_ok_bind, Call.bind_of_ok ih]
      rfl

theorem createInvites_of_error {e : String} (h : P.mls.toBytes welcome = .error e)
    (hsome : keyPackages ≠ []) (s : InSession P (GroupV3Convo P)) :
    createInvites keyPackages welcome s = (.err (.mlsMessageError e), s) := by
  obtain ⟨k, rest, rfl⟩ := List.exists_cons_of_ne_nil hsome
  have hinvite : createInvite P ⟨k.leafNode.signatureKey⟩ welcome = .err (.mlsMessageError e) := by
    rw [createInvite, h]
    rfl
  rw [createInvites, Call.collect, hinvite, Call.ofResult_err_bind]

theorem toEnvelope_of_error {e : String} (h : P.mls.toBytes message = .error e) (convoId : String) :
    toEnvelope P convoId message = .err (.mlsMessageError e) := by
  rw [toEnvelope, toPayload, h]
  rfl

theorem toEnvelope_of_ok {bytes : Bytes} (h : P.mls.toBytes message = .ok bytes) (convoId : String) :
    ∃ envelope, toEnvelope P convoId message = .ok envelope := by
  rw [toEnvelope, toPayload, h]
  exact ⟨_, rfl⟩

/-- A message is published, or the conversation and what was published are as before. -/
theorem publishMlsMsg_cases (message : P.mls.MlsMessageOut) (s : InSession P (GroupV3Convo P)) :
    (∃ e t, publishMlsMsg message s = (.err e, t) ∧ t.convo = s.convo ∧
      t.cx.ds.published = s.cx.ds.published) ∨
    ∃ envelope, toEnvelope P s.convo.convoId message = .ok envelope ∧
      publishMlsMsg message s =
        (.ok (), { s with cx := { s.cx with ds := s.cx.ds.delivered [envelope] } }) := by
  unfold publishMlsMsg
  rw [Call.read_bind]
  cases hbytes : P.mls.toBytes message with
  | error e =>
      rw [toEnvelope_of_error hbytes, Call.ofResult_err_bind]
      exact .inl ⟨_, s, rfl, rfl, rfl⟩
  | ok bytes =>
      obtain ⟨envelope, henvelope⟩ := toEnvelope_of_ok hbytes s.convo.convoId
      rw [henvelope, Call.ofResult_ok_bind]
      by_cases haccepts : s.cx.ds.Accepts 1
      · have hpublish := ServiceContext.publish_of_accepts envelope haccepts
        exact .inr ⟨envelope, rfl, Call.mapErr_of_ok (InSession.onCx_of_eq hpublish)⟩
      · obtain ⟨e, hpublish⟩ := ServiceContext.publish_of_refuses envelope haccepts
        exact .inl ⟨_, _, Call.mapErr_of_err (InSession.onCx_of_eq hpublish), rfl, rfl⟩

/-- The commit is discarded, or it is published and merged and the invites follow. -/
theorem sendPendingCommit_cases (hsettles : SettlesCommits P.mls) (commit : P.mls.MlsMessageOut)
    (invites : List AddressedEnvelope) (s : InSession P (GroupV3Convo P)) :
    (∃ e t secrets, sendPendingCommit commit invites s = (.err e, t) ∧
      t.cx.ds.published = s.cx.ds.published ∧
      groupOf t = { groupOf s with pendingCommit := none, secrets := secrets }) ∨
    ∃ envelope t secrets, toEnvelope P s.convo.convoId commit = .ok envelope ∧
      t.cx.ds.published = s.cx.ds.published ++ [envelope] ∧
      groupOf t = (groupOf s).merged P.mls secrets ∧
      sendPendingCommit commit invites s = sendInvites invites t := by
  unfold sendPendingCommit
  obtain ⟨e, t, hpublish, hconvo, hpublished⟩ | ⟨envelope, henvelope, hpublish⟩ :=
    publishMlsMsg_cases commit s
  -- serialisation or delivery failed: the group of `t` is that of `s`, and it is cleared
  · obtain ⟨secrets, hclear⟩ := hsettles.clears (groupOf t)
    have hcleared : (onGroup (MlsGroup.clearPendingCommit P.mls)).attempt t =
        ((.ok _ : Result ChatError _), _) :=
      Call.attempt_of_ok (onGroup_of_eq (MlsGroup.clearPendingCommit_of_ok hclear))
    rw [Call.bind_of_ok (Call.attempt_of_err hpublish)]
    refine .inl ⟨_, _, secrets, Call.bind_of_ok hcleared, hpublished, ?_⟩
    show { t.convo.mlsGroup with pendingCommit := none, secrets := secrets } = _
    rw [hconvo]
  -- the publish leaves the conversation alone, so it is the staged group that is merged
  · obtain ⟨secrets, hmerge⟩ := hsettles.merges (groupOf s)
    let published : InSession P (GroupV3Convo P) :=
      { s with cx := { s.cx with ds := s.cx.ds.delivered [envelope] } }
    have hmerged := Call.mapErr_of_ok (g := ChatError.mlsMergeCommit)
      (onGroup_of_eq (s := published) (MlsGroup.mergePendingCommit_of_ok hmerge))
    rw [Call.bind_of_ok (Call.attempt_of_ok hpublish)]
    exact .inr ⟨envelope, _, secrets, henvelope, rfl, rfl, Call.bind_of_ok hmerged⟩

end Steps

/-! ## The whole call -/

/-- An add that stages nothing leaves nothing behind. -/
theorem addSigner_staged_cases (hs : (groupOf s).pendingCommit = none) (members : List SignerKey) :
    (Untouched s (addSigner members s).2 ∧
      ∀ keyPackages bundle, ¬ StagesAdd s members keyPackages bundle) ∨
    ∃ keyPackages bundle cx, StagesAdd s members keyPackages bundle ∧ cx.ds = s.cx.ds ∧
      addSigner members s =
        ((createInvites keyPackages bundle.welcome).mapErr ChatError.sendError >>= fun invites ↦
          sendPendingCommit bundle.commit invites) (staged ⟨s.convo, cx⟩ keyPackages bundle) := by
  cases hsigners : signers s.convo with
  | error e =>
      rw [addSigner_of_unreadable hsigners]
      refine .inl ⟨.of_convo hs rfl rfl, fun keyPackages bundle h ↦ ?_⟩
      obtain ⟨existing, hok, -⟩ := h.fetched
      cases hsigners.symm.trans hok
  | ok existing =>
      -- what openmls stages, it stages with the packages of this fetch
      have hpackages {keyPackages : List KeyPackage}
          {bundle : CommitBundle P.mls.Secrets P.mls.MlsMessageOut}
          (h : StagesAdd s members keyPackages bundle) :
          (fetchKeyPackages P (unique (memberDiff members existing)) s.cx).1 = .ok keyPackages := by
        obtain ⟨existing', hok, hfetched⟩ := h.fetched
        cases hsigners.symm.trans hok
        exact hfetched
      obtain ⟨keyPackages, -, hfetch⟩ | ⟨before, signer, rest, e, -, -, hfetch⟩ :=
        fetch_cases (unique (memberDiff members existing)) s.cx
      · by_cases hempty : keyPackages = []
        · rw [hempty] at hfetch
          rw [addSigner_of_nobody hsigners hfetch]
          refine .inl ⟨.of_convo hs rfl rfl, fun keyPackages bundle h ↦ ?_⟩
          cases (congrArg Prod.fst hfetch).symm.trans (hpackages h)
          exact absurd rfl h.nonempty
        rw [addSigner_of_fetched hsigners hempty hfetch]
        let asked : InSession P (GroupV3Convo P) :=
          { s with cx := s.cx.askedFor (keepNew [] (unique (memberDiff members existing))) }
        cases hstaged : P.mls.addMembers (groupOf s) keyPackages with
        | error e =>
            rw [Call.bind_of_err (addMembers_of_error (s := asked) hstaged)]
            refine .inl ⟨.of_convo hs rfl rfl, fun packages bundle h ↦ ?_⟩
            cases (congrArg Prod.fst hfetch).symm.trans (hpackages h)
            cases hstaged.symm.trans h.staged
        | ok bundle =>
            rw [Call.bind_of_ok (addMembers_of_ok (s := asked) hstaged)]
            exact .inr ⟨keyPackages, bundle, asked.cx,
              ⟨⟨existing, hsigners, congrArg Prod.fst hfetch⟩, hempty, hstaged⟩, rfl, rfl⟩
      · rw [addSigner_of_refused hsigners hfetch]
        refine .inl ⟨.of_convo hs rfl rfl, fun keyPackages bundle h ↦ ?_⟩
        cases (congrArg Prod.fst hfetch).symm.trans (hpackages h)

/-- An add leaves nothing behind, or it returns with its commit pending because the welcome cannot be
serialised, or it publishes its commit, merges it and goes on to the invites. -/
theorem addSigner_cases (hsettles : SettlesCommits P.mls) (hs : (groupOf s).pendingCommit = none)
    (members : List SignerKey) :
    (Untouched s (addSigner members s).2 ∧ WelcomeSerialises s members) ∨
    (∃ keyPackages bundle e e' t, StagesAdd s members keyPackages bundle ∧
      P.mls.toBytes bundle.welcome = .error e ∧ addSigner members s = (.err e', t) ∧
      t.cx.ds.published = s.cx.ds.published ∧
      (groupOf t).pendingCommit = some bundle.members) ∨
    ∃ keyPackages bundle welcomeBytes t, StagesAdd s members keyPackages bundle ∧
      P.mls.toBytes bundle.welcome = .ok welcomeBytes ∧ Committed s t bundle ∧
      addSigner members s = sendInvites (invitesFor P keyPackages welcomeBytes) t := by
  obtain ⟨huntouched, hnone⟩ | ⟨keyPackages, bundle, cx, hstages, hds, hcall⟩ :=
    addSigner_staged_cases hs members
  · exact .inl ⟨huntouched, fun keyPackages bundle h ↦ absurd h (hnone keyPackages bundle)⟩
  rw [hcall]
  have hpublished : (staged ⟨s.convo, cx⟩ keyPackages bundle).cx.ds.published =
      s.cx.ds.published := congrArg (·.published) hds
  cases hwelcome : P.mls.toBytes bundle.welcome with
  | error e =>
      -- `invites?` leaves the call here, past the staging and short of the cleanup
      have hinvites := createInvites_of_error hwelcome hstages.nonempty
        (staged ⟨s.convo, cx⟩ keyPackages bundle)
      exact .inr (.inl ⟨keyPackages, bundle, e, _, _, hstages, hwelcome,
        Call.bind_of_err (Call.mapErr_of_err hinvites), hpublished, rfl⟩)
  | ok welcomeBytes =>
      have hinvites := createInvites_of_ok hwelcome keyPackages
        (staged ⟨s.convo, cx⟩ keyPackages bundle)
      rw [Call.bind_of_ok (Call.mapErr_of_ok hinvites)]
      obtain ⟨e, t, secrets, hsend, hkept, hgroup⟩ |
          ⟨envelope, t, secrets, henvelope, hpublish, hgroup, hsend⟩ :=
        sendPendingCommit_cases hsettles bundle.commit (invitesFor P keyPackages welcomeBytes)
          (staged ⟨s.convo, cx⟩ keyPackages bundle)
      · rw [hsend]
        refine .inl ⟨⟨hkept.trans hpublished, ?_, ?_, ?_⟩, fun keyPackages' bundle' h ↦ ?_⟩
        · exact congrArg (·.epoch) hgroup
        · exact congrArg (·.members) hgroup
        · exact congrArg (·.pendingCommit) hgroup
        · obtain ⟨-, rfl⟩ := hstages.unique h
          exact ⟨welcomeBytes, hwelcome⟩
      · refine .inr (.inr ⟨keyPackages, bundle, welcomeBytes, t, hstages, hwelcome, ?_, hsend⟩)
        refine ⟨⟨envelope, henvelope, hpublish.trans (by rw [hpublished])⟩, ?_, ?_, ?_⟩
        · exact congrArg (·.epoch) hgroup
        · exact congrArg (·.members) hgroup
        · exact congrArg (·.pendingCommit) hgroup

/-- A commit is in what was sent only when something was. -/
theorem not_commitSent (h : t.cx.ds.published = s.cx.ds.published) : ¬ CommitSent s t members := by
  rintro ⟨_, _, _, -, -, hmem⟩
  rw [sent, h, List.drop_length] at hmem
  cases hmem

theorem not_welcomeSent (h : t.cx.ds.published = s.cx.ds.published) : ¬ WelcomeSent s t := by
  rintro ⟨_, _, hmem⟩
  rw [sent, h, List.drop_length] at hmem
  cases hmem

theorem sends_sendInvites (invites : List AddressedEnvelope) (s : InSession P (GroupV3Convo P)) :
    Sends (·.cx.ds) invites (sendInvites invites) s := by
  have hinvite (envelope : AddressedEnvelope) (t : InSession P (GroupV3Convo P)) :
      Sends (·.cx.ds) [envelope] ((publishEnvelope envelope).mapErr ChatError.sendError) t :=
    (Sends.onCx (sends_publish envelope t.cx)).mapErr.mapErr
  have hsends : Sends (·.cx.ds) (invites.map id) (sendInvites invites) s := Sends.each hinvite invites s
  rwa [List.map_id] at hsends

/-- Whatever becomes of the invites, the commit was sent. -/
theorem Committed.commitSent {keyPackages : List KeyPackage}
    {bundle : CommitBundle P.mls.Secrets P.mls.MlsMessageOut} (h : Committed s t bundle)
    (hstages : StagesAdd s members keyPackages bundle) (invites : List AddressedEnvelope) :
    CommitSent s (sendInvites invites t).2 members := by
  obtain ⟨envelope, henvelope, hpublished⟩ := h.published
  obtain ⟨k, hlater⟩ := (sends_sendInvites invites t).published
  rw [hpublished, List.append_assoc] at hlater
  refine ⟨keyPackages, bundle, envelope, hstages, henvelope, ?_⟩
  rw [sent_of_append hlater]
  exact List.mem_cons_self

/-- An add is clean exactly when the welcome of its commit can be serialised: when it cannot, the
call fails with the commit still pending. -/
theorem addSigner_clean_iff (hsettles : SettlesCommits P.mls) (s : InSession P (GroupV3Convo P))
    (hs : (groupOf s).pendingCommit = none) (members : List SignerKey) :
    AddsCleanly s members ↔ WelcomeSerialises s members := by
  obtain ⟨huntouched, hserialises⟩ | ⟨keyPackages, bundle, e, e', t, hstages, hwelcome, hcall,
      hpublished, hpending⟩ | ⟨keyPackages, bundle, welcomeBytes, t, hstages, hwelcome, hcommitted,
      hcall⟩ := addSigner_cases hsettles hs members
  · refine iff_of_true ⟨fun hsent ↦ ?_, fun e t hcall _ ↦ ?_⟩ hserialises
    · exact absurd hsent (not_welcomeSent huntouched.published)
    · rw [hcall] at huntouched
      exact huntouched
  · refine iff_of_false (fun hclean ↦ ?_) fun hserialises ↦ ?_
    · have huntouched := hclean.undone e' t hcall (not_commitSent hpublished)
      rw [huntouched.settled] at hpending
      cases hpending
    · obtain ⟨welcomeBytes, hok⟩ := hserialises keyPackages bundle hstages
      cases hwelcome.symm.trans hok
  · refine iff_of_true ⟨fun _ ↦ ?_, fun e u hfailed hunsent ↦ ?_⟩ fun keyPackages' bundle' h ↦ ?_
    · exact ⟨keyPackages, bundle, welcomeBytes, t, hstages, hwelcome, hcommitted, hcall⟩
    · have hsent := hcommitted.commitSent hstages (invitesFor P keyPackages welcomeBytes)
      rw [← hcall, hfailed] at hsent
      exact absurd hsent hunsent
    · obtain ⟨-, rfl⟩ := hstages.unique h
      exact ⟨welcomeBytes, hwelcome⟩

/-- A group of the signer `[1]` alone. -/
abbrev alone (P : Platform) (secrets : P.mls.Secrets) : InSession P (GroupV3Convo P) where
  convo :=
    { convoId := ""
      mlsGroup :=
        { groupId := [0], epoch := 4, members := [Sample.seat 0 [1]]
          ownLeafIndex := 0, secrets := secrets } }
  cx := Sample.services _

/-- Where every message can be serialised. -/
theorem addSigner_clean_of_serialisable : AddsCleanly (alone Sample.platform ()) [⟨[2]⟩] :=
  (addSigner_clean_iff ⟨fun _ ↦ ⟨(), rfl⟩, fun _ ↦ ⟨(), rfl⟩⟩ _ rfl _).mpr fun _ _ _ ↦ ⟨_, rfl⟩

/-- The welcome `[1]` cannot be serialised; and as in openmls, no commit is staged while another one is
pending. -/
abbrev unwelcoming : Platform :=
  { Sample.platform with mls := { Sample.mls with
      addMembers := fun group packages ↦
        if group.pendingCommit.isSome then .error "pending commit"
        else .ok { commit := [0], welcome := [1], secrets := ()
                   members := Sample.seatNext group.members packages }
      toBytes := fun message ↦ if message = [1] then .error "vector too long" else .ok message } }

set_option maxRecDepth 8000 in
/-- The add of `[2]` fails with nothing published and the commit still pending, and because of that
commit the next add is refused. -/
theorem welcome_unserialisable_leaves_pending :
    SettlesCommits unwelcoming.mls ∧
    (groupOf (alone unwelcoming ())).pendingCommit = none ∧
    ∃ t u, addSigner [⟨[2]⟩] (alone unwelcoming ()) =
        (.err (.sendError (.mlsMessageError "vector too long")), t) ∧
      t.cx.ds.published = [] ∧ (groupOf t).pendingCommit ≠ none ∧
      ¬ Untouched (alone unwelcoming ()) t ∧ ¬ AddsCleanly (alone unwelcoming ()) [⟨[2]⟩] ∧
      addSigner [⟨[2]⟩] t = (.err (.generic "pending commit"), u) := by
  refine ⟨⟨fun _ ↦ ⟨(), rfl⟩, fun _ ↦ ⟨(), rfl⟩⟩, rfl, _, _, rfl, rfl, ?_, ?_, ?_, rfl⟩
  · exact fun h ↦ nomatch h
  · exact fun h ↦ nomatch h.settled
  · exact fun h ↦ nomatch (h.undone _ _ rfl (not_commitSent rfl)).settled

/-! ## Commits of others -/

/-- The MLS message in a frame. -/
def messageIn (P : Platform) (frame : Bytes) : Option ProtocolMessage := do
  let payload ← (P.proto.decodeGroupV3Payload frame).toOption
  (P.mls.protocolMessage payload.encryptedFrame).toOption

/-- The commit that openmls stages for a message which is not from a past epoch. -/
def commitOf (group : MlsGroup P.mls.Secrets) (message : ProtocolMessage) : Option StagedCommit :=
  if message.epoch < group.epoch then none
  else
    match P.mls.processMessage group message with
    | .ok ⟨_, .stagedCommitMessage commit, _⟩ => some commit
    | _ => none

/-- openmls stages a commit for the frame, and it removes us. -/
def Removes (s : InSession P (GroupV3Convo P)) (frame : Bytes) : Prop :=
  ∃ commit ∈ (messageIn P frame).bind (commitOf (groupOf s)), commit.epochAuthenticator = none

theorem handleMlsApplicationMessage_safe (sender : Option GroupMember) (bytes : Bytes) :
    (handleMlsApplicationMessage sender bytes : Call (InSession P (GroupV3Convo P)) _ _).Safe := by
  refine (Call.safe_read _).bind fun convoId ↦ ?_
  refine (Call.safe_ofResult (orErr_ne_panic _ _)).bind fun frame ↦ ?_
  split
  · exact Call.safe_pure _
  · exact (Call.safe_read _).bind fun _ ↦ Call.safe_pure _

theorem mergeStagedCommit_safe (commit : StagedCommit) :
    (MlsGroup.mergeStagedCommit P.mls commit).Safe := by
  intro group
  unfold MlsGroup.mergeStagedCommit
  cases P.mls.mergeStagedCommit group commit <;> exact nofun

theorem handleMlsCommit_panics_iff (commit : StagedCommit) (s : InSession P (GroupV3Convo P)) :
    (handleMlsCommit commit s).1 = .panic ↔ commit.epochAuthenticator = none := by
  cases hauth : commit.epochAuthenticator with
  | none =>
      refine iff_of_true ?_ rfl
      rw [handleMlsCommit, epochFingerprint, hauth]
      rfl
  | some authenticator =>
      have hsafe : (handleMlsCommit commit : Call (InSession P (GroupV3Convo P)) _ _).Safe := by
        refine (Call.safe_ofResult ?_).bind fun _ ↦ ?_
        · rw [epochFingerprint, hauth]
          exact nofun
        refine (mergeStagedCommit_safe commit).on.mapErr.bind fun _ ↦ ?_
        exact (Call.safe_read _).bind fun _ ↦ Call.safe_pure _
      exact iff_of_false (hsafe s) nofun

theorem handleMlsProtocolMsg_panics_iff (message : ProtocolMessage) (s : InSession P (GroupV3Convo P)) :
    (handleMlsProtocolMsg message s).1 = .panic ↔
      ∃ commit ∈ commitOf (groupOf s) message, commit.epochAuthenticator = none := by
  unfold handleMlsProtocolMsg commitOf
  rw [Call.read_bind]
  split
  · exact iff_of_false nofun (by simp)
  cases hprocessed : P.mls.processMessage (groupOf s) message with
  | error e =>
      have hfailed : onGroup (MlsGroup.processMessage P.mls message) s = (.err e, s) :=
        onGroup_of_eq (by rw [MlsGroup.processMessage, hprocessed])
      rw [Call.bind_of_ok (Call.attempt_of_err hfailed)]
      refine iff_of_false ?_ (by simp)
      cases e <;> exact nofun
  | ok processed =>
      obtain ⟨sender, content, secrets⟩ := processed
      have hstaged : onGroup (MlsGroup.processMessage P.mls message) s = (.ok (sender, content), _) :=
        onGroup_of_eq (by rw [MlsGroup.processMessage, hprocessed])
      rw [Call.bind_of_ok (Call.attempt_of_ok hstaged)]
      -- of the three kinds of content only a commit is fingerprinted
      cases content with
      | applicationMessage bytes =>
          refine iff_of_false ?_ (by simp)
          exact ((Call.safe_read _).bind fun _ ↦ handleMlsApplicationMessage_safe _ bytes) _
      | stagedCommitMessage commit =>
          refine (handleMlsCommit_panics_iff commit _).trans ?_
          simp
      | other => exact iff_of_false nofun (by simp)

/-- A frame makes the call panic exactly when it brings a commit that removes us. -/
theorem handlePayload_panics_iff (frame : Bytes) (s : InSession P (GroupV3Convo P)) :
    (handlePayload frame s).1 = .panic ↔ Removes s frame := by
  unfold handlePayload Removes
  cases hpayload : P.proto.decodeGroupV3Payload frame with
  | error e =>
      have hnone : messageIn P frame = none := by rw [messageIn, hpayload]; rfl
      exact iff_of_false (by rintro ⟨⟩) (by simp [hnone])
  | ok payload =>
      rw [orErr, Call.ofResult_ok_bind]
      cases hmessage : P.mls.protocolMessage payload.encryptedFrame with
      | error e =>
          have hnone : messageIn P frame = none := by
            rw [messageIn, hpayload]
            show (P.mls.protocolMessage payload.encryptedFrame).toOption = none
            rw [hmessage]
            rfl
          exact iff_of_false (by rintro ⟨⟩) (by simp [hnone])
      | ok message =>
          have hsome : messageIn P frame = some message := by
            rw [messageIn, hpayload]
            show (P.mls.protocolMessage payload.encryptedFrame).toOption = some message
            rw [hmessage]
            rfl
          rw [hsome]
          exact handleMlsProtocolMsg_panics_iff message s

/-- A commit is merged only when it has an authenticator, so an active group stays active. -/
def StaysActive (s t : InSession P (GroupV3Convo P)) : Prop :=
  (groupOf s).isActive = true → (groupOf t).isActive = true

instance : IsPreorder (InSession P (GroupV3Convo P)) StaysActive where
  refl _ h := h
  trans _ _ _ hst htu h := htu (hst h)

theorem processMessage_staysActive (message : ProtocolMessage) :
    (onGroup (MlsGroup.processMessage P.mls message)).Keeps StaysActive := by
  intro s hactive
  show ((MlsGroup.processMessage P.mls message (groupOf s)).2).isActive = true
  unfold MlsGroup.processMessage
  split <;> exact hactive

theorem handleMlsCommit_staysActive (commit : StagedCommit) :
    (handleMlsCommit commit).Keeps (StaysActive (P := P)) := by
  refine Call.keeps_ofResult_bind fun _ hfingerprint ↦ ?_
  have hauth : commit.epochAuthenticator.isSome = true := by
    unfold epochFingerprint at hfingerprint
    split at hfingerprint
    case isTrue h => exact h
    case isFalse => cases hfingerprint
  have hmerge : (onGroup (MlsGroup.mergeStagedCommit P.mls commit)).Keeps StaysActive := by
    intro s hactive
    show ((MlsGroup.mergeStagedCommit P.mls commit (groupOf s)).2).isActive = true
    unfold MlsGroup.mergeStagedCommit
    split
    · exact hauth
    · exact hactive
  exact hmerge.mapErr.bind fun _ ↦ (Call.keeps_read _).bind fun _ ↦ Call.keeps_pure _

theorem handlePayload_staysActive (frame : Bytes) :
    (handlePayload frame).Keeps (StaysActive (P := P)) :=
  keeps_handlePayload processMessage_staysActive handleMlsCommit_staysActive frame

/-! ### Over a run -/

def receive (s : InSession P (GroupV3Convo P)) (frame : Bytes) : InSession P (GroupV3Convo P) :=
  (handlePayload frame s).2

/-- We were a member, and none of the frames has removed us. -/
def Member (s : InSession P (GroupV3Convo P)) (frames : List Bytes) : Prop :=
  (groupOf s).isActive = true ∧ Along receive (fun s frame ↦ ¬ Removes s frame) s frames

theorem Member.isActive {frames : List Bytes} (h : Member s frames) :
    (groupOf (run receive s frames)).isActive = true :=
  run_invariant (fun s frame ↦ handlePayload_staysActive frame s) h.1 frames

theorem Member.of_append {before after : List Bytes} (h : Member s (before ++ after)) :
    Member s before :=
  ⟨h.1, (along_append.mp h.2).1⟩

/-- At every point of the run the next frame does not make the call panic, we can send exactly while
we are a member, and once we are not, a message is passed over in silence. -/
structure FollowsRemovals (s : InSession P (GroupV3Convo P)) (frames : List Bytes) : Prop where
  safe : ∀ before frame after, frames = before ++ frame :: after →
    (handlePayload frame (run receive s before)).1 ≠ .panic
  canSend_iff : ∀ before after, frames = before ++ after →
    (canSend (run receive s before).convo = true ↔ Member s before)
  silent : ∀ before frame after, frames = before ++ frame :: after → ¬ Member s before →
    (messageIn P frame).isSome →
    (handlePayload frame (run receive s before)).1 = .ok (.empty (run receive s before).convo.convoId)

/-- The run goes as it should exactly when none of its frames removes us. -/
theorem removals_followed_iff (s : InSession P (GroupV3Convo P)) (frames : List Bytes) :
    FollowsRemovals s frames ↔ Member s frames := by
  constructor
  · intro h
    -- `canSend` is constantly true, so we were a member at the start
    refine ⟨((h.canSend_iff [] frames rfl).mp rfl).1, along_iff_split.mpr ?_⟩
    intro before frame after hsplit
    exact mt (handlePayload_panics_iff frame _).mpr (h.safe before frame after hsplit)
  · intro hmember
    refine ⟨fun before frame after hsplit ↦ ?_, fun before after hsplit ↦ ?_,
      fun before frame after hsplit hgone _ ↦ ?_⟩
    · have hkept := along_iff_split.mp hmember.2 before frame after hsplit
      exact mt (handlePayload_panics_iff frame _).mp hkept
    · rw [hsplit] at hmember
      exact iff_of_true rfl hmember.of_append
    · rw [hsplit] at hmember
      exact absurd hmember.of_append hgone

/-- Every frame is the commit of another member that removes us. -/
abbrev removing : Platform :=
  { Sample.platform with
    proto := { Sample.proto with decodeGroupV3Payload := fun bytes ↦ .ok ⟨[], bytes⟩ }
    mls := { Sample.mls with
      protocolMessage := fun bytes ↦ .ok ⟨4, bytes⟩
      processMessage := fun group _ ↦
        .ok { sender := some 1, secrets := ()
              content := .stagedCommitMessage ⟨group.members.drop 1, none⟩ } } }

/-- The frame that removes us makes the call panic, and we may still send. -/
theorem removal_panics : (groupOf (alone removing ())).isActive = true ∧
    (handlePayload [7] (alone removing ())).1 = .panic ∧
    canSend (receive (alone removing ()) [7]).convo = true ∧
    ¬ Member (alone removing ()) [[7]] ∧ ¬ FollowsRemovals (alone removing ()) [[7]] := by
  have hremoves : Removes (alone removing ()) [7] := ⟨_, rfl, rfl⟩
  refine ⟨rfl, rfl, rfl, fun h ↦ h.2.1 hremoves, fun h ↦ ?_⟩
  exact h.safe [] [7] [] rfl rfl

end LogosChat.Conversations.GroupV3
