import LogosChat.Conversations.GroupV1

/-!
# Commits of GroupV1

`addSigner` and `removeSigner` merge their commit before they publish it.  Up to the merge a failed
call leaves epoch and roster as they were; from the merge on it does not.
-/

namespace LogosChat.Conversations.GroupV1

open Reasoning

variable {P : Platform} {s : InSession P (GroupV1Convo P)}

/-! ## Publishing after the merge -/

abbrev groupOf (s : InSession P (GroupV1Convo P)) : MlsGroup P.mls.Secrets := s.convo.mlsGroup

theorem keeps_onCx {ε α : Type} (m : Call (ServiceContext P) ε α) :
    (InSession.onCx m : Call (InSession P (GroupV1Convo P)) ε α).Keeps (Call.Same groupOf) :=
  fun _ ↦ rfl

theorem sendPayload_keeps (msgBytes : Bytes) :
    (sendPayload msgBytes : Call (InSession P (GroupV1Convo P)) _ _).Keeps (Call.Same groupOf) :=
  fun _ ↦ rfl

theorem announce_keeps (members : List SignerKey) (commit welcome : P.mls.MlsMessageOut) :
    (announce members commit welcome).Keeps (Call.Same groupOf) := by
  refine (Call.Keeps.each fun _ _ ↦ keeps_onCx _).bind fun _ ↦ ?_
  exact (Call.keeps_ofResult _).bind fun _ ↦ sendPayload_keeps _

theorem sends_sendPayload (msgBytes : Bytes) (s : InSession P (GroupV1Convo P)) :
    Sends (·.cx.ds) [payloadEnvelope s.convo msgBytes] (sendPayload msgBytes) s := by
  have hpublish : Sends (·.cx.ds) [payloadEnvelope s.convo msgBytes]
      ((InSession.onCx (ServiceContext.publish (payloadEnvelope s.convo msgBytes))).mapErr
        ChatError.delivery) { s with convo := remember msgBytes s.convo } :=
    Sends.mapErr (Sends.onCx (sends_publish _ s.cx))
  exact hpublish.of_eq rfl rfl

theorem sends_inviteUser {welcome : P.mls.MlsMessageOut} {welcomeBytes : Bytes}
    (h : P.mls.toBytes welcome = .ok welcomeBytes) (signer : SignerKey)
    (s : InSession P (GroupV1Convo P)) :
    Sends (·.cx.ds) [inviteEnvelope P signer (.groupV1 welcomeBytes)]
      (InSession.onCx (inviteUser welcome signer)) s := by
  apply Sends.onCx
  unfold inviteUser
  rw [h]
  exact (sends_publish _ s.cx).mapErr

/-- What follows the merge of an add succeeds: both messages serialise, and the service accepts a
welcome for each new member and the commit. -/
def Announces (ds : DeliveryService) (members : List SignerKey) (commit welcome : P.mls.MlsMessageOut) :
    Prop :=
  (∃ welcomeBytes, P.mls.toBytes welcome = .ok welcomeBytes) ∧
    (∃ commitBytes, P.mls.toBytes commit = .ok commitBytes) ∧ ds.Accepts (members.length + 1)

theorem inviteUser_of_error {welcome : P.mls.MlsMessageOut} {e : String}
    (h : P.mls.toBytes welcome = .error e) (signer : SignerKey) (cx : ServiceContext P) :
    inviteUser welcome signer cx = (.err (.mlsMessageError e), cx) := by
  unfold inviteUser
  rw [h]
  rfl

theorem sends_invites {welcome : P.mls.MlsMessageOut} {welcomeBytes : Bytes}
    (h : P.mls.toBytes welcome = .ok welcomeBytes) (members : List SignerKey)
    (s : InSession P (GroupV1Convo P)) :
    Sends (·.cx.ds) (members.map fun m ↦ inviteEnvelope P m (.groupV1 welcomeBytes))
      (Call.each (fun signer ↦ InSession.onCx (inviteUser welcome signer)) members) s :=
  Sends.each (fun signer t ↦ sends_inviteUser h signer t) members s

theorem sends_announce {commit welcome : P.mls.MlsMessageOut} {commitBytes welcomeBytes : Bytes}
    (hwelcome : P.mls.toBytes welcome = .ok welcomeBytes)
    (hcommit : P.mls.toBytes commit = .ok commitBytes) (members : List SignerKey)
    (s : InSession P (GroupV1Convo P)) :
    Sends (·.cx.ds) ((members.map fun m ↦ inviteEnvelope P m (.groupV1 welcomeBytes)) ++
      [payloadEnvelope s.convo commitBytes]) (announce members commit welcome) s := by
  apply (sends_invites hwelcome members s).bind
  intro _ t ht
  -- the invites go to the services alone
  have hkeeps : Call.Keeps (Call.Same InSession.convo) (Call.each (fun signer ↦
      (InSession.onCx (inviteUser welcome signer) : Call (InSession P (GroupV1Convo P)) _ _)) members) :=
    Call.Keeps.each fun _ _ ↦ InSession.keeps_onCx _
  have hconvo : t.convo = s.convo := hkeeps.of_eq ht
  have hsend := sends_sendPayload commitBytes t
  rw [hconvo] at hsend
  apply hsend.of_eq ?_ rfl
  rw [hcommit]
  rfl

theorem announce_of_announces {members : List SignerKey} {commit welcome : P.mls.MlsMessageOut}
    (h : Announces s.cx.ds members commit welcome) : ∃ t, announce members commit welcome s = (.ok (), t) := by
  obtain ⟨⟨welcomeBytes, hwelcome⟩, ⟨commitBytes, hcommit⟩, haccepts⟩ := h
  obtain ⟨_, t, ht, -⟩ := (sends_announce hwelcome hcommit members s).accepted (by simpa using haccepts)
  exact ⟨t, ht⟩

theorem announce_of_not_announces {members : List SignerKey} (hmembers : members ≠ [])
    {commit welcome : P.mls.MlsMessageOut}
    (h : ¬ Announces s.cx.ds members commit welcome) :
    ∃ e t, announce members commit welcome s = (.err e, t) := by
  cases hwelcome : P.mls.toBytes welcome with
  | error e =>
      -- the first invite already fails
      obtain ⟨signer, rest, rfl⟩ := List.exists_cons_of_ne_nil hmembers
      have hfirst : InSession.onCx (inviteUser welcome signer) s =
          ((.err (.mlsMessageError e) : Result ChatError Unit), s) := by
        rw [InSession.onCx, Call.on, inviteUser_of_error hwelcome]
      exact ⟨_, _, Call.bind_of_err (Call.bind_of_err hfirst)⟩
  | ok welcomeBytes =>
      cases hcommit : P.mls.toBytes commit with
      | error e =>
          have hinvites := sends_invites hwelcome members s
          by_cases haccepts : s.cx.ds.Accepts
              (members.map fun m ↦ inviteEnvelope P m (.groupV1 welcomeBytes)).length
          · obtain ⟨_, t, ht, -⟩ := hinvites.accepted haccepts
            refine ⟨.mlsMessageError e, t, ?_⟩
            rw [announce, Call.bind_of_ok ht, hcommit]
            rfl
          · obtain ⟨e', t, -, ht, -⟩ := hinvites.refused haccepts
            exact ⟨e', t, Call.bind_of_err ht⟩
      | ok commitBytes =>
          have haccepts : ¬ s.cx.ds.Accepts (members.length + 1) :=
            fun haccepts ↦ h ⟨⟨welcomeBytes, hwelcome⟩, ⟨commitBytes, hcommit⟩, haccepts⟩
          obtain ⟨e, t, -, ht, -⟩ :=
            (sends_announce hwelcome hcommit members s).refused (by simpa using haccepts)
          exact ⟨e, t, ht⟩

/-! ## Up to the merge -/

theorem onGroup_of_eq {ε α : Type} {m : Call (MlsGroup P.mls.Secrets) ε α} {r : Result ε α}
    {group : MlsGroup P.mls.Secrets} (h : m (groupOf s) = (r, group)) :
    onGroup m s = (r, { s with convo := { s.convo with mlsGroup := group } }) :=
  Call.on_of_eq h

/-- Epoch and roster are those of `s`. -/
def SameEpoch (s t : InSession P (GroupV1Convo P)) : Prop :=
  (groupOf t).epoch = (groupOf s).epoch ∧ (groupOf t).members = (groupOf s).members

/-- The call stages the commit that openmls answers with, or fails as openmls does. -/
structure Stages {α : Type} (s : InSession P (GroupV1Convo P))
    (answer : Except String (CommitBundle P.mls.Secrets P.mls.MlsMessageOut))
    (result : CommitBundle P.mls.Secrets P.mls.MlsMessageOut → α)
    (stage : Call (InSession P (GroupV1Convo P)) ChatError α) : Prop where
  ok : ∀ bundle, answer = .ok bundle → ∃ t, stage s = (.ok (result bundle), t) ∧
    groupOf t = (groupOf s).stage P.mls bundle ∧ t.cx.ds = s.cx.ds
  error : ∀ e, answer = .error e → ∃ t, stage s = (.err (.generic e), t) ∧ groupOf t = groupOf s

theorem stages_addMembers (s : InSession P (GroupV1Convo P)) (keyPackages : List KeyPackage) :
    Stages s (P.mls.addMembers (groupOf s) keyPackages) (fun bundle ↦ (bundle.commit, bundle.welcome))
      (addMembers keyPackages) := by
  let handed : InSession P (GroupV1Convo P) :=
    { s with cx := s.cx.handing (keyPackages.map fun k ↦ (.keyPackage k, k.signer)) }
  constructor
  · intro bundle h
    have hstaged := Call.mapErr_of_ok (g := ChatError.generic)
      (onGroup_of_eq (s := handed) (MlsGroup.addMembers_of_ok h))
    exact ⟨_, hstaged, rfl, rfl⟩
  · intro e h
    have hfailed := Call.mapErr_of_err (g := ChatError.generic)
      (onGroup_of_eq (s := handed) (MlsGroup.addMembers_of_error h))
    exact ⟨_, hfailed, rfl⟩

theorem stages_removeMembers (s : InSession P (GroupV1Convo P)) (leaves : List UInt32) :
    Stages s (P.mls.removeMembers (groupOf s) leaves) (·.commit)
      ((onGroup (MlsGroup.removeMembers P.mls leaves)).mapErr .generic) := by
  constructor
  · intro bundle h
    have hstaged := Call.mapErr_of_ok (g := ChatError.generic)
      (onGroup_of_eq (MlsGroup.removeMembers_of_ok h))
    exact ⟨_, hstaged, rfl, rfl⟩
  · intro e h
    have hfailed := Call.mapErr_of_err (g := ChatError.generic)
      (onGroup_of_eq (MlsGroup.removeMembers_of_error h))
    exact ⟨_, hfailed, rfl⟩

/-- openmls stages a commit and merges it. -/
def Merges (s : InSession P (GroupV1Convo P))
    (answer : Except String (CommitBundle P.mls.Secrets P.mls.MlsMessageOut))
    (bundle : CommitBundle P.mls.Secrets P.mls.MlsMessageOut) : Prop :=
  answer = .ok bundle ∧
    ∃ secrets, P.mls.mergePendingCommit ((groupOf s).stage P.mls bundle) = .ok secrets

theorem Merges.unique {answer : Except String (CommitBundle P.mls.Secrets P.mls.MlsMessageOut)}
    {b b' : CommitBundle P.mls.Secrets P.mls.MlsMessageOut} (h : Merges s answer b)
    (h' : Merges s answer b') : b = b' := by
  have heq := h.1.symm.trans h'.1
  cases heq
  rfl

/-- A call that stages a commit and merges it ends in the old epoch, or goes on with the merged
commit. -/
theorem Stages.merge_cases {α : Type}
    {answer : Except String (CommitBundle P.mls.Secrets P.mls.MlsMessageOut)}
    {result : CommitBundle P.mls.Secrets P.mls.MlsMessageOut → α}
    {stage : Call (InSession P (GroupV1Convo P)) ChatError α} (h : Stages s answer result stage)
    (rest : α → Call (InSession P (GroupV1Convo P)) ChatError Unit) :
    let call := stage >>= fun a ↦ mergePendingCommit >>= fun _ ↦ rest a
    (∃ e t, call s = (.err e, t) ∧ SameEpoch s t ∧ ∀ bundle, ¬ Merges s answer bundle) ∨
    ∃ bundle t, Merges s answer bundle ∧ (groupOf t).epoch = (groupOf s).epoch + 1 ∧
      t.cx.ds = s.cx.ds ∧ call s = rest (result bundle) t := by
  intro call
  cases hanswer : answer with
  | error e =>
      apply Or.inl
      obtain ⟨t, hfailed, hgroup⟩ := h.error e hanswer
      refine ⟨_, t, Call.bind_of_err hfailed, ?_, fun _ h ↦ nomatch h.1⟩
      exact ⟨congrArg (·.epoch) hgroup, congrArg (·.members) hgroup⟩
  | ok bundle =>
      obtain ⟨t, hstage, hstaged, hds⟩ := h.ok bundle hanswer
      have hcall : call s = _ := Call.bind_of_ok hstage
      rw [hcall]
      cases hmerge : P.mls.mergePendingCommit (groupOf t) with
      | ok secrets =>
          apply Or.inr
          have hmerged : mergePendingCommit t = _ :=
            Call.mapErr_of_ok (onGroup_of_eq (MlsGroup.mergePendingCommit_of_ok hmerge))
          rw [Call.bind_of_ok hmerged]
          refine ⟨bundle, { t with convo := { t.convo with mlsGroup := (groupOf t).merged P.mls secrets } },
            ⟨rfl, secrets, by rw [← hstaged, hmerge]⟩, ?_, hds, rfl⟩
          show ((groupOf t).merged P.mls secrets).epoch = _
          rw [hstaged, MlsGroup.merged_stage_epoch]
      | error e =>
          apply Or.inl
          have hfailed : mergePendingCommit t = _ :=
            Call.mapErr_of_err (onGroup_of_eq (MlsGroup.mergePendingCommit_of_error hmerge))
          refine ⟨_, t, Call.bind_of_err hfailed, ?_, ?_⟩
          · show (groupOf t).epoch = _ ∧ (groupOf t).members = _
            rw [hstaged]
            exact ⟨rfl, rfl⟩
          · intro bundle' ⟨hbundle, secrets, hok⟩
            cases hbundle
            rw [← hstaged, hmerge] at hok
            cases hok

/-- An add gets as far as merging its commit. -/
structure MergesAdd (s : InSession P (GroupV1Convo P)) (members : List SignerKey)
    (bundle : CommitBundle P.mls.Secrets P.mls.MlsMessageOut) : Prop where
  short : members.length ≤ 50
  nonempty : keepNew (groupOf s).seated members ≠ []
  merges : ∃ keyPackages,
    (Call.collect (keyPackageForSigner P) (keepNew (groupOf s).seated members) s.cx).1 =
      .ok keyPackages ∧
    Merges s (P.mls.addMembers (groupOf s) keyPackages) bundle

/-! The four ways through `addSigner`. -/

section Add

variable {members : List SignerKey}

theorem addSigner_of_long (h : 50 < members.length) :
    addSigner members s = (.err (.protocol "Cannot add more than 50 Members at a time"), s) := by
  unfold addSigner
  rw [if_pos h]
  rfl

variable (hshort : ¬ 50 < members.length)

include hshort

theorem addSigner_of_nobody (h : keepNew (groupOf s).seated members = []) :
    addSigner members s = (.ok (), s) := by
  unfold addSigner
  rw [if_neg hshort, Call.read_bind, h]
  rfl

theorem addSigner_of_refused (hfresh : keepNew (groupOf s).seated members ≠ []) {e : ChatError}
    {cx : ServiceContext P} (hfetch : Call.collect (keyPackageForSigner P)
      (keepNew (groupOf s).seated members) s.cx = (.err e, cx)) :
    addSigner members s = (.err e, { s with cx := cx }) := by
  unfold addSigner
  rw [if_neg hshort, Call.read_bind, if_neg (by simpa using hfresh)]
  exact Call.bind_of_err (Call.on_of_eq hfetch)

/-- What follows the fetch. -/
theorem addSigner_of_fetched (hfresh : keepNew (groupOf s).seated members ≠ [])
    {keyPackages : List KeyPackage} {cx : ServiceContext P}
    (hfetch : Call.collect (keyPackageForSigner P) (keepNew (groupOf s).seated members) s.cx =
      (.ok keyPackages, cx)) :
    addSigner members s = (addMembers keyPackages >>= fun messages ↦ mergePendingCommit >>= fun _ ↦
      announce (keepNew (groupOf s).seated members) messages.1 messages.2) { s with cx := cx } := by
  unfold addSigner
  rw [if_neg hshort, Call.read_bind, if_neg (by simpa using hfresh)]
  exact Call.bind_of_ok (Call.on_of_eq hfetch)

end Add

theorem addSigner_cases (s : InSession P (GroupV1Convo P)) (members : List SignerKey) :
    (SameEpoch s (addSigner members s).2 ∧ (∀ bundle, ¬ MergesAdd s members bundle) ∧
      ((addSigner members s).1 = .ok () →
        members.length ≤ 50 ∧ keepNew (groupOf s).seated members = [])) ∨
    ∃ bundle t, MergesAdd s members bundle ∧ (groupOf t).epoch = (groupOf s).epoch + 1 ∧
      t.cx.ds = s.cx.ds ∧
      addSigner members s =
        announce (keepNew (groupOf s).seated members) bundle.commit bundle.welcome t := by
  by_cases hshort : 50 < members.length
  · rw [addSigner_of_long hshort]
    exact .inl ⟨⟨rfl, rfl⟩, fun _ h ↦ by have := h.short; omega, nofun⟩
  by_cases hempty : keepNew (groupOf s).seated members = []
  · rw [addSigner_of_nobody hshort hempty]
    exact .inl ⟨⟨rfl, rfl⟩, fun _ h ↦ h.nonempty hempty, fun _ ↦ ⟨by omega, hempty⟩⟩
  obtain ⟨keyPackages, -, hfetch⟩ | ⟨before, signer, after, e, -, -, hfetch⟩ :=
    fetch_cases (keepNew (groupOf s).seated members) s.cx
  · rw [addSigner_of_fetched hshort hempty hfetch]
    have hstages := stages_addMembers
      { s with cx := s.cx.askedFor (keepNew (groupOf s).seated members) } keyPackages
    obtain ⟨e, t, hcall, hsame, hfails⟩ | ⟨bundle, t, hmerges, hepoch, hds, hcall⟩ :=
      hstages.merge_cases
        fun messages ↦ announce (keepNew (groupOf s).seated members) messages.1 messages.2
    · apply Or.inl
      rw [hcall]
      refine ⟨hsame, fun bundle h ↦ ?_, nofun⟩
      obtain ⟨keyPackages', hok, hmerges⟩ := h.merges
      rw [hfetch] at hok
      cases hok
      exact hfails bundle hmerges
    · apply Or.inr
      refine ⟨bundle, t, ⟨by omega, hempty, ?_⟩, hepoch, hds, hcall⟩
      exact ⟨keyPackages, congrArg Prod.fst hfetch, hmerges⟩
  · apply Or.inl
    rw [addSigner_of_refused hshort hempty hfetch]
    refine ⟨⟨rfl, rfl⟩, fun _ h ↦ ?_, nofun⟩
    obtain ⟨keyPackages, hok, -⟩ := h.merges
    rw [hfetch] at hok
    cases hok

theorem MergesAdd.unique {members : List SignerKey}
    {b b' : CommitBundle P.mls.Secrets P.mls.MlsMessageOut} (h : MergesAdd s members b)
    (h' : MergesAdd s members b') : b = b' := by
  obtain ⟨keyPackages, hfetch, hmerges⟩ := h.merges
  obtain ⟨keyPackages', hfetch', hmerges'⟩ := h'.merges
  rw [hfetch] at hfetch'
  cases hfetch'
  exact hmerges.unique hmerges'

/-- An add goes through: nobody is new, or all who are have their packages admitted, openmls seats
them, and everything can be announced. -/
structure Adds (s : InSession P (GroupV1Convo P)) (members : List SignerKey) : Prop where
  short : members.length ≤ 50
  seats : keepNew (groupOf s).seated members = [] ∨
    ∃ keyPackages bundle, List.Forall₂ (fun signer k ↦
        admitted missing (vet P) s.cx signer = .ok k) (keepNew (groupOf s).seated members) keyPackages ∧
      Merges s (P.mls.addMembers (groupOf s) keyPackages) bundle ∧
      Announces s.cx.ds (keepNew (groupOf s).seated members) bundle.commit bundle.welcome

theorem addSigner_eq_ok_iff (s : InSession P (GroupV1Convo P)) (members : List SignerKey) :
    (∃ t, addSigner members s = (.ok (), t)) ↔ Adds s members := by
  obtain ⟨-, hfails, hnobody⟩ | ⟨bundle, t, hmerges, -, hds, hcall⟩ := addSigner_cases s members
  · constructor
    · rintro ⟨t, ht⟩
      obtain ⟨hshort, hempty⟩ := hnobody (congrArg Prod.fst ht)
      exact ⟨hshort, .inl hempty⟩
    · intro h
      have hempty : keepNew (groupOf s).seated members = [] := by
        by_contra hfresh
        obtain hempty | ⟨keyPackages, bundle, hall, hmerges, -⟩ := h.seats
        · exact hfresh hempty
        · exact hfails bundle ⟨h.short, hfresh, keyPackages, fetch_eq_ok_iff.mpr hall, hmerges⟩
      exact ⟨s, addSigner_of_nobody (Nat.not_lt.mpr h.short) hempty⟩
  · rw [hcall]
    constructor
    · rintro ⟨u, hu⟩
      obtain ⟨keyPackages, hok, hstaged⟩ := hmerges.merges
      refine ⟨hmerges.short, .inr ⟨keyPackages, bundle, fetch_eq_ok_iff.mp hok, hstaged, ?_⟩⟩
      by_contra hnot
      rw [← hds] at hnot
      obtain ⟨e, u', hu'⟩ := announce_of_not_announces hmerges.nonempty hnot
      rw [hu'] at hu
      cases hu
    · intro h
      obtain hempty | ⟨keyPackages, bundle', hall, hstaged, hannounces⟩ := h.seats
      · exact absurd hempty hmerges.nonempty
      · have hmerges' : MergesAdd s members bundle' :=
          ⟨h.short, hmerges.nonempty, keyPackages, fetch_eq_ok_iff.mpr hall, hstaged⟩
        rw [hmerges'.unique hmerges, ← hds] at hannounces
        exact announce_of_announces hannounces

/-- A removal gets as far as merging its commit. -/
structure MergesRemove (s : InSession P (GroupV1Convo P)) (members : List SignerKey)
    (bundle : CommitBundle P.mls.Secrets P.mls.MlsMessageOut) : Prop where
  notSelf : (groupOf s).ownLeafIndex ∉ leavesOf (groupOf s) members
  nonempty : leavesOf (groupOf s) members ≠ []
  merges : Merges s (P.mls.removeMembers (groupOf s) (leavesOf (groupOf s) members)) bundle

/-- The end of a removal. -/
def announceRemoval (commit : P.mls.MlsMessageOut) :
    Call (InSession P (GroupV1Convo P)) ChatError Unit := do
  let msgBytes ← Call.ofResult (orErr .mlsMessageError (P.mls.toBytes commit))
  sendPayload msgBytes

theorem removeSigner_cases (s : InSession P (GroupV1Convo P)) (members : List SignerKey) :
    (SameEpoch s (removeSigner members s).2 ∧ ∀ bundle, ¬ MergesRemove s members bundle) ∨
    ∃ bundle t, MergesRemove s members bundle ∧ (groupOf t).epoch = (groupOf s).epoch + 1 ∧
      t.cx.ds = s.cx.ds ∧ removeSigner members s = announceRemoval bundle.commit t := by
  unfold removeSigner
  rw [Call.read_bind]
  by_cases hself : (groupOf s).ownLeafIndex ∈ leavesOf (groupOf s) members
  · rw [if_pos hself]
    exact .inl ⟨⟨rfl, rfl⟩, fun _ h ↦ h.notSelf hself⟩
  rw [if_neg hself]
  by_cases hempty : leavesOf (groupOf s) members = []
  · rw [hempty]
    exact .inl ⟨⟨rfl, rfl⟩, fun _ h ↦ h.nonempty hempty⟩
  rw [if_neg (by simpa using hempty)]
  obtain ⟨e, t, hcall, hsame, hfails⟩ | ⟨bundle, t, hmerges, hepoch, hds, hcall⟩ :=
    (stages_removeMembers s (leavesOf (groupOf s) members)).merge_cases announceRemoval
  · refine .inl ⟨?_, fun bundle h ↦ hfails bundle h.merges⟩
    exact (congrArg (fun after ↦ SameEpoch s after.2) hcall).mpr hsame
  · exact .inr ⟨bundle, t, ⟨hself, hempty, hmerges⟩, hepoch, hds, hcall⟩

/-- What follows the merge of a removal succeeds. -/
def AnnouncesRemoval (ds : DeliveryService) (commit : P.mls.MlsMessageOut) : Prop :=
  (∃ commitBytes, P.mls.toBytes commit = .ok commitBytes) ∧ ds.Accepts 1

theorem announceRemoval_keeps (commit : P.mls.MlsMessageOut) :
    (announceRemoval commit).Keeps (Call.Same groupOf) :=
  (Call.keeps_ofResult _).bind fun _ ↦ sendPayload_keeps _

theorem announceRemoval_of_announces {commit : P.mls.MlsMessageOut}
    (h : AnnouncesRemoval s.cx.ds commit) :
    ∃ t, announceRemoval commit s = (.ok (), t) := by
  obtain ⟨⟨commitBytes, hcommit⟩, haccepts⟩ := h
  obtain ⟨_, t, ht, -⟩ := (sends_sendPayload commitBytes s).accepted haccepts
  refine ⟨t, ?_⟩
  rw [announceRemoval, hcommit]
  exact ht

theorem announceRemoval_of_not_announces {commit : P.mls.MlsMessageOut}
    (h : ¬ AnnouncesRemoval s.cx.ds commit) : ∃ e t, announceRemoval commit s = (.err e, t) := by
  unfold announceRemoval
  cases hcommit : P.mls.toBytes commit with
  | error e => exact ⟨.mlsMessageError e, s, rfl⟩
  | ok commitBytes =>
      have haccepts : ¬ s.cx.ds.Accepts 1 := fun haccepts ↦ h ⟨⟨commitBytes, hcommit⟩, haccepts⟩
      obtain ⟨e, t, -, ht, -⟩ := (sends_sendPayload commitBytes s).refused haccepts
      exact ⟨e, t, ht⟩

/-! ## A failed call and its epoch -/

section Epoch

variable {Bundle : Type} {call : Call (InSession P (GroupV1Convo P)) ChatError Unit}
  {rest : Bundle → Call (InSession P (GroupV1Convo P)) ChatError Unit} {merges : Bundle → Prop}

/-- Whatever fails before the merge is undone, and nothing that fails after it is. -/
theorem keeps_epoch_iff (announces : DeliveryService → Bundle → Prop)
    (hcases : (SameEpoch s (call s).2 ∧ ∀ bundle, ¬ merges bundle) ∨
      ∃ bundle t, merges bundle ∧ (groupOf t).epoch = (groupOf s).epoch + 1 ∧ t.cx.ds = s.cx.ds ∧
        call s = rest bundle t)
    (hunique : ∀ b b', merges b → merges b' → b = b')
    (hkeeps : ∀ b, (rest b).Keeps (Call.Same groupOf))
    (hok : ∀ t b, announces t.cx.ds b → ∃ u, rest b t = (.ok (), u))
    (herr : ∀ t b, merges b → ¬ announces t.cx.ds b → ∃ e u, rest b t = (.err e, u)) :
    (∀ e t, call s = (.err e, t) → SameEpoch s t) ↔ ∀ b, merges b → announces s.cx.ds b := by
  obtain ⟨hsame, hnot⟩ | ⟨bundle, t, hmerges, hepoch, hds, hcall⟩ := hcases
  · refine iff_of_true (fun e t heq ↦ ?_) fun b hb ↦ absurd hb (hnot b)
    rw [heq] at hsame
    exact hsame
  · rw [← hds]
    constructor
    · intro hfailed b hb
      rw [hunique b bundle hb hmerges]
      by_contra hrefused
      obtain ⟨e, u, hu⟩ := herr t bundle hmerges hrefused
      have hgroup : groupOf u = groupOf t := (hkeeps bundle).of_eq hu
      have hsame : (groupOf u).epoch = (groupOf s).epoch := (hfailed e u (hcall.trans hu)).1
      rw [hgroup] at hsame
      omega
    · intro hannounces e u hu
      obtain ⟨u', hu'⟩ := hok t bundle (hannounces bundle hmerges)
      rw [hcall, hu'] at hu
      cases hu

end Epoch

/-- A failed add or removal leaves epoch and roster as they were exactly when it could not merge, or
what follows the merge cannot fail. -/
theorem failed_change_keeps_epoch_iff (s : InSession P (GroupV1Convo P)) (members : List SignerKey) :
    ((∀ e t, addSigner members s = (.err e, t) → SameEpoch s t) ↔
      ∀ bundle, MergesAdd s members bundle →
        Announces s.cx.ds (keepNew (groupOf s).seated members) bundle.commit bundle.welcome) ∧
    ((∀ e t, removeSigner members s = (.err e, t) → SameEpoch s t) ↔
      ∀ bundle, MergesRemove s members bundle → AnnouncesRemoval s.cx.ds bundle.commit) := by
  constructor
  · apply keeps_epoch_iff (fun ds bundle ↦ Announces ds _ bundle.commit bundle.welcome)
      ((addSigner_cases s members).imp_left fun h ↦ ⟨h.1, h.2.1⟩) (fun _ _ h h' ↦ h.unique h')
    · exact fun _ ↦ announce_keeps _ _ _
    · exact fun _ _ ↦ announce_of_announces
    · exact fun _ _ h ↦ announce_of_not_announces h.nonempty
  · apply keeps_epoch_iff (fun ds bundle ↦ AnnouncesRemoval ds bundle.commit)
      (removeSigner_cases s members) (fun _ _ h h' ↦ h.merges.unique h'.merges)
    · exact fun _ ↦ announceRemoval_keeps _
    · exact fun _ _ ↦ announceRemoval_of_announces
    · exact fun _ _ _ ↦ announceRemoval_of_not_announces

/-- A group of the signers `[1]` and `[3]`, out of reach of the delivery service. -/
def pairOffline : InSession Sample.platform (GroupV1Convo Sample.platform) where
  convo :=
    { mlsGroup :=
        { groupId := [0], epoch := 4, members := [Sample.seat 0 [1], Sample.seat 1 [3]]
          ownLeafIndex := 0, secrets := () }
      convoId := "" }
  cx := { Sample.services _ with ds := Sample.offline }

set_option maxRecDepth 8000 in
/-- Neither the welcome nor the commit can be published: both calls fail in the new epoch, which
nobody else was told of. -/
theorem change_refused_after_merge :
    (∃ e t, addSigner [⟨[2]⟩] pairOffline = (.err e, t) ∧ ¬ SameEpoch pairOffline t ∧
      t.cx.ds.published = []) ∧
    ∃ e t, removeSigner [⟨[3]⟩] pairOffline = (.err e, t) ∧ ¬ SameEpoch pairOffline t ∧
      t.cx.ds.published = [] := by
  constructor
  · exact ⟨_, _, rfl, fun h ↦ absurd h.1 (by decide), rfl⟩
  · exact ⟨_, _, rfl, fun h ↦ absurd h.1 (by decide), rfl⟩

end LogosChat.Conversations.GroupV1
