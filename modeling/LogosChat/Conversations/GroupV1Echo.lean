import LogosChat.Conversations.GroupV1Commits
import LogosChat.Conversations.MessageIds
import LogosChat.Reasoning.Run
import LogosChat.Reasoning.Window

/-!
# Our own frames when they come back

On a broadcast transport GroupV1 receives what it has sent, and openmls refuses to decrypt it.
`handlePayload` drops a frame whose hash it remembers; it remembers the last `OUTBOUND_HASH_CACHE_SIZE`
of them, and a conversation that is rebuilt from storage remembers none.  Whatever else comes back in
the epoch it was sent in ends in an error.
-/

namespace LogosChat.Conversations

open Reasoning

/-! ## What openmls does with our frames -/

/-- The same leaf of the same group, at the same time or later. -/
structure MlsGroup.SameSeat {κ : Type} (group later : MlsGroup κ) : Prop where
  groupId : later.groupId = group.groupId
  ownLeafIndex : later.ownLeafIndex = group.ownLeafIndex
  epoch : group.epoch ≤ later.epoch

namespace OpenMls

/-- The member at our leaf cannot process the message while the epoch lasts. -/
def Refuses (M : OpenMls) (group : MlsGroup M.Secrets) (message : ProtocolMessage) : Prop :=
  ∀ later, group.SameSeat later → later.epoch = group.epoch →
    ∃ e, M.processMessage later message = .error e

/-- A frame carries the epoch it was made in, and whoever sent a message cannot decrypt it. -/
structure RefusesOwn (M : OpenMls) : Prop where
  message : ∀ group plaintext out secrets bytes, M.createMessage group plaintext = .ok (out, secrets) →
    M.toBytes out = .ok bytes → ∃ message, M.protocolMessage bytes = .ok message ∧
      message.epoch = group.epoch ∧ M.Refuses group message
  addition : ∀ group keyPackages bundle bytes, M.addMembers group keyPackages = .ok bundle →
    M.toBytes bundle.commit = .ok bytes →
      ∃ message, M.protocolMessage bytes = .ok message ∧ message.epoch = group.epoch
  removal : ∀ group leaves bundle bytes, M.removeMembers group leaves = .ok bundle →
    M.toBytes bundle.commit = .ok bytes →
      ∃ message, M.protocolMessage bytes = .ok message ∧ message.epoch = group.epoch

/-- A frame that can only be of a past epoch or refused. -/
def OwnFrame (M : OpenMls) (group : MlsGroup M.Secrets) (bytes : Bytes) : Prop :=
  ∃ message, M.protocolMessage bytes = .ok message ∧
    (message.epoch < group.epoch ∨ message.epoch = group.epoch ∧ M.Refuses group message)

end OpenMls

namespace MlsGroup

section Seat

variable {κ : Type} {group later last : MlsGroup κ}

theorem SameSeat.of_group (h : later = group) : group.SameSeat later := by
  rw [h]
  exact ⟨rfl, rfl, le_refl _⟩

theorem SameSeat.trans (h : group.SameSeat later) (h' : later.SameSeat last) : group.SameSeat last where
  groupId := h'.groupId.trans h.groupId
  ownLeafIndex := h'.ownLeafIndex.trans h.ownLeafIndex
  epoch := h.epoch.trans h'.epoch

end Seat

variable (M : OpenMls)

theorem keepsSeat_createMessage (plaintext : Bytes) :
    (createMessage M plaintext).Keeps SameSeat := by
  intro group
  unfold createMessage
  split
  · exact ⟨rfl, rfl, le_refl _⟩
  · exact .of_group rfl

theorem keepsSeat_processMessage (message : ProtocolMessage) :
    (processMessage M message).Keeps SameSeat := by
  intro group
  unfold processMessage
  split
  · exact ⟨rfl, rfl, le_refl _⟩
  · exact .of_group rfl

theorem keepsSeat_addMembers (keyPackages : List KeyPackage) :
    (addMembers M keyPackages).Keeps SameSeat := by
  intro group
  unfold addMembers
  split
  · exact ⟨rfl, rfl, le_refl _⟩
  · exact .of_group rfl

theorem keepsSeat_removeMembers (leaves : List UInt32) :
    (removeMembers M leaves).Keeps SameSeat := by
  intro group
  unfold removeMembers
  split
  · exact ⟨rfl, rfl, le_refl _⟩
  · exact .of_group rfl

theorem sameSeat_merged (group : MlsGroup M.Secrets) (secrets : M.Secrets) :
    group.SameSeat (group.merged M secrets) := by
  unfold merged
  split
  · exact ⟨rfl, rfl, Nat.le_succ _⟩
  · exact .of_group rfl

theorem keepsSeat_mergePendingCommit : (mergePendingCommit M).Keeps SameSeat := by
  intro group
  unfold mergePendingCommit
  split
  · exact sameSeat_merged M group _
  · exact .of_group rfl

theorem keepsSeat_mergeStagedCommit (commit : StagedCommit) :
    (mergeStagedCommit M commit).Keeps SameSeat := by
  intro group
  unfold mergeStagedCommit
  split
  · exact ⟨rfl, rfl, Nat.le_succ _⟩
  · exact .of_group rfl

end MlsGroup

theorem OpenMls.OwnFrame.later {M : OpenMls} {group later : MlsGroup M.Secrets} {bytes : Bytes}
    (h : M.OwnFrame group bytes) (hseat : group.SameSeat later) : M.OwnFrame later bytes := by
  obtain ⟨message, hmessage, hepoch⟩ := h
  refine ⟨message, hmessage, ?_⟩
  have hle := hseat.epoch
  obtain hpast | ⟨hcurrent, hrefuses⟩ := hepoch
  · exact .inl (by omega)
  · by_cases hsame : later.epoch = group.epoch
    · refine .inr ⟨by omega, fun last hlast hepoch ↦ ?_⟩
      exact hrefuses last (hseat.trans hlast) (by omega)
    · exact .inl (by omega)

namespace GroupV1

variable {P : Platform} {s t u : InSession P (GroupV1Convo P)}

/-! ## What the cache remembers -/

abbrev frameHash (P : Platform) (bytes : Bytes) : String :=
  P.blake2bHex Platform.messageIdSize [bytes]

/-- The cache holds the hashes of the last of these frames. -/
def Remembers (convo : GroupV1Convo P) (frames : List Bytes) : Prop :=
  convo.outboundMsgs = recent outboundHashCacheSize (frames.map (frameHash P))

theorem Remembers.remember {convo : GroupV1Convo P} {frames : List Bytes} (h : Remembers convo frames)
    (bytes : Bytes) : Remembers (remember bytes convo) (frames ++ [bytes]) := by
  have hlen : convo.outboundMsgs.length ≤ outboundHashCacheSize := by
    rw [h]
    exact length_recent_le _ _
  have hpushed : (GroupV1.remember bytes convo).outboundMsgs =
      recent outboundHashCacheSize (convo.outboundMsgs ++ [frameHash P bytes]) :=
    recent_push hlen _
  rw [Remembers, hpushed, h, recent_recent_append, List.map_append, List.map_singleton]

theorem Remembers.hash_mem_iff {convo : GroupV1Convo P} {frames sent : List Bytes}
    (h : Remembers convo frames) (hframes : frames ⊆ sent)
    (hhash : P.HashesApart fun components ↦ ∃ bytes ∈ sent, components = [bytes]) {bytes : Bytes}
    (hsent : bytes ∈ sent) :
    frameHash P bytes ∈ convo.outboundMsgs ↔ bytes ∈ recent outboundHashCacheSize frames := by
  rw [h, recent_map, List.mem_map]
  refine ⟨fun ⟨other, hother, hsame⟩ ↦ ?_, fun hmem ↦ ⟨bytes, hmem, rfl⟩⟩
  have heq : other = bytes :=
    hhash.of_last [] ⟨other, hframes ((recent_sublist _ _).subset hother), rfl⟩ ⟨bytes, hsent, rfl⟩ hsame
  exact heq ▸ hother

/-! ## What a call publishes -/

def frame (envelope : AddressedEnvelope) : Option Bytes :=
  match envelope.payload with
  | .encrypted bytes => some bytes
  | .groupV3 _ => none
  | .invite _ => none

/-- The services published these frames, among other envelopes. -/
def Published (frames : List Bytes) (cx cx' : ServiceContext P) : Prop :=
  ∃ envelopes, cx'.ds.published = cx.ds.published ++ envelopes ∧ envelopes.filterMap frame = frames

theorem Published.of_same {cx cx' : ServiceContext P} (h : cx'.ds = cx.ds) : Published [] cx cx' :=
  ⟨[], by rw [h, List.append_nil], rfl⟩

theorem Published.append {frames frames' : List Bytes} {a b c : ServiceContext P}
    (h : Published frames a b) (h' : Published frames' b c) : Published (frames ++ frames') a c := by
  obtain ⟨xs, hxs, hframes⟩ := h
  obtain ⟨ys, hys, hframes'⟩ := h'
  refine ⟨xs ++ ys, by rw [hys, hxs, List.append_assoc], ?_⟩
  rw [List.filterMap_append, hframes, hframes']

instance publishedNothing_preorder : IsPreorder (ServiceContext P) (Published []) where
  refl _ := .of_same rfl
  trans _ _ _ h h' := h.append h'

/-- The frames among what was published between the two. -/
def framesSince (s t : InSession P (GroupV1Convo P)) : List Bytes :=
  (t.cx.ds.published.drop s.cx.ds.published.length).filterMap frame

theorem Published.framesSince {frames : List Bytes} (h : Published frames s.cx t.cx) :
    framesSince s t = frames := by
  obtain ⟨envelopes, hpublished, hframes⟩ := h
  rw [GroupV1.framesSince, hpublished, List.drop_left, hframes]

/-- From `s` to `t` no frame was sent or forgotten, and our place was kept. -/
structure Quiet (s t : InSession P (GroupV1Convo P)) : Prop where
  seat : (groupOf s).SameSeat (groupOf t)
  cache : t.convo.outboundMsgs = s.convo.outboundMsgs
  published : Published [] s.cx t.cx

instance quiet_preorder : IsPreorder (InSession P (GroupV1Convo P)) Quiet where
  refl _ := ⟨.of_group rfl, rfl, .of_same rfl⟩
  trans _ _ _ h h' := ⟨h.seat.trans h'.seat, h'.cache.trans h.cache, h.published.append h'.published⟩

theorem quiet_onGroup {ε α : Type} {m : Call (MlsGroup P.mls.Secrets) ε α}
    (h : m.Keeps MlsGroup.SameSeat) : (onGroup m).Keeps Quiet :=
  fun s ↦ ⟨h (groupOf s), rfl, .of_same rfl⟩

theorem quiet_onCx {ε α : Type} {m : Call (ServiceContext P) ε α} (h : m.Keeps (Published [])) :
    (InSession.onCx m : Call (InSession P (GroupV1Convo P)) ε α).Keeps Quiet :=
  fun s ↦ ⟨.of_group rfl, rfl, h s.cx⟩

theorem quiet_handlePayload (payload : Bytes) : (handlePayload payload).Keeps (Quiet (P := P)) :=
  keeps_handlePayload (fun message ↦ quiet_onGroup (MlsGroup.keepsSeat_processMessage P.mls message))
    (fun commit ↦ quiet_onGroup (MlsGroup.keepsSeat_mergeStagedCommit P.mls commit))
    (fun _ _ ↦ quiet_onCx fun _ ↦ .of_same rfl) payload

theorem quiet_addMembers (keyPackages : List KeyPackage) :
    (addMembers keyPackages).Keeps (Quiet (P := P)) := by
  refine (quiet_onCx fun _ ↦ .of_same rfl).bind fun _ ↦ ?_
  exact (quiet_onGroup (MlsGroup.keepsSeat_addMembers P.mls keyPackages)).mapErr

theorem quiet_mergePendingCommit : mergePendingCommit.Keeps (Quiet (P := P)) :=
  (quiet_onGroup (MlsGroup.keepsSeat_mergePendingCommit P.mls)).mapErr

/-- The invites travel in envelopes of their own. -/
theorem quiet_inviteUser (welcome : P.mls.MlsMessageOut) (signer : SignerKey) :
    (InSession.onCx (inviteUser welcome signer)).Keeps (Quiet (P := P)) := by
  apply quiet_onCx
  refine (Call.keeps_ofResult _).bind fun welcomeBytes ↦ Call.Keeps.mapErr fun cx ↦ ?_
  obtain ⟨k, hpublished⟩ := (sends_publish (inviteEnvelope P signer (.groupV1 welcomeBytes)) cx).published
  refine ⟨_, hpublished, List.filterMap_eq_nil_iff.mpr fun envelope hmem ↦ ?_⟩
  rw [List.mem_singleton.mp (List.mem_of_mem_take hmem)]
  rfl

/-- From `s` to `t` one frame of our own was sent: it is remembered, published, and of an epoch that is
over or refused. -/
structure Posts (s t : InSession P (GroupV1Convo P)) (bytes : Bytes) : Prop where
  seat : (groupOf s).SameSeat (groupOf t)
  remembered : t.convo.outboundMsgs = (remember bytes s.convo).outboundMsgs
  published : Published [bytes] s.cx t.cx
  own : P.mls.OwnFrame (groupOf t) bytes

theorem remember_congr {convo convo' : GroupV1Convo P} (h : convo'.outboundMsgs = convo.outboundMsgs)
    (bytes : Bytes) : (remember bytes convo').outboundMsgs = (remember bytes convo).outboundMsgs := by
  simp only [remember, h]

theorem Posts.after {bytes : Bytes} (h : Posts u t bytes) (hquiet : Quiet s u) : Posts s t bytes where
  seat := hquiet.seat.trans h.seat
  remembered := by rw [h.remembered, remember_congr hquiet.cache]
  published := hquiet.published.append h.published
  own := h.own

theorem sendPayload_posts {bytes : Bytes} (h : sendPayload bytes s = (.ok (), t))
    (hown : P.mls.OwnFrame (groupOf s) bytes) : Posts s t bytes := by
  have hgroup : groupOf t = groupOf s := (sendPayload_keeps bytes).of_eq h
  have hconvo : (sendPayload bytes s).2.convo = remember bytes s.convo := rfl
  rw [h] at hconvo
  refine ⟨.of_group hgroup, congrArg (·.outboundMsgs) hconvo, ?_, by rwa [hgroup]⟩
  have hds := (sends_sendPayload bytes s).delivered_of_ok h
  exact ⟨[payloadEnvelope s.convo bytes], congrArg (·.published) hds, rfl⟩

/-! ### A message -/

theorem createMessage_eq_ok {plaintext : Bytes} {out : P.mls.MlsMessageOut}
    (h : onGroup (MlsGroup.createMessage P.mls plaintext) s = (.ok out, t)) :
    ∃ secrets, P.mls.createMessage (groupOf s) plaintext = .ok (out, secrets) := by
  cases hcreate : P.mls.createMessage (groupOf s) plaintext with
  | error e => cases (onGroup_of_eq (MlsGroup.createMessage_of_error hcreate)).symm.trans h
  | ok answer =>
      cases (onGroup_of_eq (MlsGroup.createMessage_of_ok hcreate)).symm.trans h
      exact ⟨_, rfl⟩

theorem sendEnveloped_posts (hmls : P.mls.RefusesOwn) {reliable : ReliablePayload} {id : String}
    (h : sendEnveloped reliable s = (.ok id, t)) : ∃ bytes, Posts s t bytes := by
  obtain ⟨out, created, hcreate, h⟩ := Call.bind_eq_ok h
  obtain ⟨bytes, _, hbytes, h⟩ := Call.bind_eq_ok h
  obtain ⟨htoBytes, rfl⟩ := Call.ofResult_eq_ok hbytes
  obtain ⟨_, _, hsend, h⟩ := Call.bind_eq_ok h
  cases h
  have hquiet : Quiet s created :=
    (quiet_onGroup (MlsGroup.keepsSeat_createMessage P.mls _)).mapErr.of_eq hcreate
  obtain ⟨secrets, hcreated⟩ := createMessage_eq_ok (Call.eq_ok_of_mapErr hcreate)
  obtain ⟨message, hmessage, hcurrent, hrefuses⟩ :=
    hmls.message _ _ _ _ bytes hcreated (orErr_eq_ok.mp htoBytes)
  have hown : P.mls.OwnFrame (groupOf s) bytes := ⟨message, hmessage, .inr ⟨hcurrent, hrefuses⟩⟩
  exact ⟨bytes, (sendPayload_posts hsend (hown.later hquiet.seat)).after hquiet⟩

theorem sendContent_posts (hmls : P.mls.RefusesOwn) {content : Bytes} {id : String}
    (h : sendContent content s = (.ok id, t)) : ∃ bytes, Posts s t bytes := by
  rw [sendContent_eq] at h
  obtain ⟨reliable, enveloped, henvelope, h⟩ := Call.bind_eq_ok h
  have honSend : (ServiceContext.onSend s.convo.convoId content :
      Call (ServiceContext P) ChatError _).Keeps (Published []) := by
    intro cx
    unfold ServiceContext.onSend
    split <;> exact .of_same rfl
  obtain ⟨bytes, hposts⟩ := sendEnveloped_posts hmls h
  exact ⟨bytes, hposts.after ((quiet_onCx honSend).of_eq henvelope)⟩

/-- Nothing but openmls, the serialiser and the delivery service can fail after the envelope. -/
theorem sendContent_of_enveloped {content : Bytes} {reliable : ReliablePayload}
    {causal : CausalHistoryStore} (henvelope : Enveloped s.convo.convoId content s.cx reliable causal)
    {out : P.mls.MlsMessageOut} {secrets : P.mls.Secrets} {bytes : Bytes}
    (hcreate : P.mls.createMessage (groupOf s) (P.proto.encodeReliable reliable) = .ok (out, secrets))
    (hbytes : P.mls.toBytes out = .ok bytes) (haccepts : s.cx.ds.Accepts 1) :
    ∃ id t, sendContent content s = (.ok id, t) ∧ groupOf t = { groupOf s with secrets := secrets } ∧
      t.cx.ds = s.cx.ds.delivered [payloadEnvelope s.convo bytes] := by
  let enveloped : InSession P (GroupV1Convo P) := { s with cx := { s.cx with causal := causal } }
  have hcall : sendContent content s = sendEnveloped reliable enveloped := by
    rw [sendContent_eq]
    exact Call.bind_of_ok (InSession.onCx_of_eq (onSend_of_enveloped henvelope))
  have hcreated : sendEnveloped reliable enveloped = _ :=
    Call.bind_of_ok (Call.mapErr_of_ok (onGroup_of_eq (MlsGroup.createMessage_of_ok hcreate)))
  rw [hbytes] at hcreated
  obtain ⟨_, t, hsend, hds⟩ := (sends_sendPayload bytes
    { enveloped with convo := { s.convo with mlsGroup := { groupOf s with secrets := secrets } } }).accepted
      haccepts
  refine ⟨reliable.messageId, t, ?_, (sendPayload_keeps bytes).of_eq hsend, hds⟩
  exact hcall.trans (hcreated.trans (Call.bind_of_ok hsend))

/-! ### A commit

It is merged before it is published, and so of a past epoch by then. -/

/-- What a call that stages a commit and merges it goes on with. -/
theorem Stages.of_merged {α : Type}
    {answer : Except String (CommitBundle P.mls.Secrets P.mls.MlsMessageOut)}
    {result : CommitBundle P.mls.Secrets P.mls.MlsMessageOut → α}
    {stage : Call (InSession P (GroupV1Convo P)) ChatError α} (h : Stages s answer result stage)
    (hquiet : stage.Keeps Quiet) {rest : α → Call (InSession P (GroupV1Convo P)) ChatError Unit}
    (hok : (stage >>= fun a ↦ mergePendingCommit >>= fun _ ↦ rest a) s = (.ok (), t)) :
    ∃ bundle merged, answer = .ok bundle ∧ Quiet s merged ∧
      (groupOf s).epoch < (groupOf merged).epoch ∧ rest (result bundle) merged = (.ok (), t) := by
  obtain ⟨a, staged, hstage, hok⟩ := Call.bind_eq_ok hok
  obtain ⟨_, merged, hmerge, hrest⟩ := Call.bind_eq_ok hok
  have hseat : Quiet s merged :=
    IsTrans.trans _ _ _ (hquiet.of_eq hstage) (quiet_mergePendingCommit.of_eq hmerge)
  -- the call succeeded, so neither the staging nor the merge failed
  cases hanswer : answer with
  | error e =>
      obtain ⟨_, hfailed, -⟩ := h.error e hanswer
      cases hstage.symm.trans hfailed
  | ok bundle =>
      obtain ⟨_, hstaged, hgroup, -⟩ := h.ok bundle hanswer
      cases hstage.symm.trans hstaged
      refine ⟨bundle, merged, rfl, hseat, ?_, hrest⟩
      cases hsecrets : P.mls.mergePendingCommit (groupOf staged) with
      | error e =>
          have hfailed : mergePendingCommit staged = _ :=
            Call.mapErr_of_err (onGroup_of_eq (MlsGroup.mergePendingCommit_of_error hsecrets))
          cases hmerge.symm.trans hfailed
      | ok secrets =>
          have hmerged : mergePendingCommit staged = _ :=
            Call.mapErr_of_ok (onGroup_of_eq (MlsGroup.mergePendingCommit_of_ok hsecrets))
          cases hmerge.symm.trans hmerged
          show _ < ((groupOf staged).merged P.mls secrets).epoch
          rw [hgroup, MlsGroup.merged_stage_epoch]
          exact Nat.lt_succ_self _

/-- The end of an add and of a removal. -/
theorem announceRemoval_posts {commit : P.mls.MlsMessageOut} (h : announceRemoval commit s = (.ok (), t))
    (hown : ∀ bytes, P.mls.toBytes commit = .ok bytes → P.mls.OwnFrame (groupOf s) bytes) :
    ∃ bytes, Posts s t bytes := by
  obtain ⟨bytes, _, hbytes, h⟩ := Call.bind_eq_ok h
  obtain ⟨htoBytes, rfl⟩ := Call.ofResult_eq_ok hbytes
  exact ⟨bytes, sendPayload_posts h (hown bytes (orErr_eq_ok.mp htoBytes))⟩

theorem announce_posts {members : List SignerKey} {commit welcome : P.mls.MlsMessageOut}
    (h : announce members commit welcome s = (.ok (), t))
    (hown : ∀ bytes, P.mls.toBytes commit = .ok bytes → P.mls.OwnFrame (groupOf s) bytes) :
    ∃ bytes, Posts s t bytes := by
  obtain ⟨_, invited, hinvites, h⟩ := Call.bind_eq_ok h
  have hquiet : Quiet s invited :=
    (Call.Keeps.each fun signer _ ↦ quiet_inviteUser welcome signer).of_eq hinvites
  obtain ⟨bytes, hposts⟩ :=
    announceRemoval_posts h fun bytes hbytes ↦ (hown bytes hbytes).later hquiet.seat
  exact ⟨bytes, hposts.after hquiet⟩

theorem addSigner_posts (hmls : P.mls.RefusesOwn) {members : List SignerKey}
    (h : addSigner members s = (.ok (), t)) : t = s ∨ ∃ bytes, Posts s t bytes := by
  by_cases hlong : 50 < members.length
  · cases (addSigner_of_long hlong).symm.trans h
  by_cases hnobody : keepNew (groupOf s).seated members = []
  · cases (addSigner_of_nobody hlong hnobody).symm.trans h
    exact .inl rfl
  obtain ⟨keyPackages, -, hfetch⟩ | ⟨_, _, _, _, -, -, hfetch⟩ :=
    fetch_cases (keepNew (groupOf s).seated members) s.cx
  · rw [addSigner_of_fetched hlong hnobody hfetch] at h
    have hfetched : Quiet s { s with cx := s.cx.askedFor (keepNew (groupOf s).seated members) } :=
      ⟨.of_group rfl, rfl, .of_same rfl⟩
    obtain ⟨bundle, merged, hbundle, hquiet, hepoch, h⟩ :=
      (stages_addMembers _ keyPackages).of_merged (quiet_addMembers keyPackages) h
    -- the commit carries the epoch it was made in, which the merge has ended
    obtain ⟨bytes, hposts⟩ := announce_posts h fun bytes hbytes ↦ by
      obtain ⟨message, hmessage, hcurrent⟩ := hmls.addition _ _ _ bytes hbundle hbytes
      exact ⟨message, hmessage, .inl (hcurrent ▸ hepoch)⟩
    exact .inr ⟨bytes, (hposts.after hquiet).after hfetched⟩
  · cases (addSigner_of_refused hlong hnobody hfetch).symm.trans h

theorem removeSigner_posts (hmls : P.mls.RefusesOwn) {members : List SignerKey}
    (h : removeSigner members s = (.ok (), t)) : ∃ bytes, Posts s t bytes := by
  unfold removeSigner at h
  rw [Call.read_bind] at h
  by_cases hself : (groupOf s).ownLeafIndex ∈ leavesOf (groupOf s) members
  · rw [if_pos hself] at h
    cases h
  rw [if_neg hself] at h
  by_cases hnobody : (leavesOf (groupOf s) members).isEmpty
  · rw [if_pos hnobody] at h
    cases h
  rw [if_neg hnobody] at h
  let stage : Call (InSession P (GroupV1Convo P)) ChatError P.mls.MlsMessageOut :=
    (onGroup (MlsGroup.removeMembers P.mls (leavesOf (groupOf s) members))).mapErr .generic
  have hstage : stage.Keeps Quiet := (quiet_onGroup (MlsGroup.keepsSeat_removeMembers P.mls _)).mapErr
  have hmerges : (stage >>= fun commit ↦ mergePendingCommit >>= fun _ ↦ announceRemoval commit) s =
      (.ok (), t) := h
  obtain ⟨bundle, merged, hbundle, hquiet, hepoch, h⟩ :=
    (stages_removeMembers s (leavesOf (groupOf s) members)).of_merged hstage hmerges
  obtain ⟨bytes, hposts⟩ := announceRemoval_posts h fun bytes hbytes ↦ by
    obtain ⟨message, hmessage, hcurrent⟩ := hmls.removal _ _ _ bytes hbundle hbytes
    exact ⟨message, hmessage, .inl (hcurrent ▸ hepoch)⟩
  exact ⟨bytes, hposts.after hquiet⟩

/-! ## A frame that comes back -/

/-- The payload has no effect and reports nothing. -/
def Drops (s : InSession P (GroupV1Convo P)) (payload : Bytes) : Prop :=
  handlePayload payload s = (.ok (.empty s.convo.convoId), s)

/-- The payload has no effect but an error. -/
def Fails (s : InSession P (GroupV1Convo P)) (payload : Bytes) : Prop :=
  ∃ text, handlePayload payload s = (.err (.generic text), s)

def OfCurrentEpoch (s : InSession P (GroupV1Convo P)) (bytes : Bytes) : Prop :=
  ∃ message, P.mls.protocolMessage bytes = .ok message ∧ message.epoch = (groupOf s).epoch

theorem Fails.not_drops {payload : Bytes} (h : Fails s payload) : ¬ Drops s payload := by
  intro hdrops
  obtain ⟨text, hfails⟩ := h
  cases hfails.symm.trans hdrops

section Receive

variable {payload bytes : Bytes}
  (hdecode : P.proto.decodeEncryptedPayload payload = .ok (.plaintext bytes))

include hdecode

/-- The checks of a payload, in their order, up to where openmls processes it. -/
theorem handlePayload_of_plaintext (s : InSession P (GroupV1Convo P)) : ∃ rest, handlePayload payload s =
    (if ¬ (groupOf s).isActive then pure (.empty s.convo.convoId)
      else if frameHash P bytes ∈ s.convo.outboundMsgs then pure (.empty s.convo.convoId)
      else Call.ofResult (orErr .generic (P.mls.protocolMessage bytes)) >>= fun message ↦
        if message.epoch < (groupOf s).epoch then pure (.empty s.convo.convoId)
        else (onGroup (MlsGroup.processMessage P.mls message)).mapErr (.generic ·.text) >>= rest :
      Call (InSession P (GroupV1Convo P)) ChatError ConvoOutcome) s := by
  unfold handlePayload
  rw [hdecode]
  exact ⟨_, rfl⟩

theorem drops_of_inactive (h : ¬ (groupOf s).isActive) : Drops s payload := by
  obtain ⟨rest, hcall⟩ := handlePayload_of_plaintext hdecode s
  rw [Drops, hcall, if_pos h]
  rfl

variable (hactive : (groupOf s).isActive)

include hactive

theorem drops_of_remembered (h : frameHash P bytes ∈ s.convo.outboundMsgs) : Drops s payload := by
  obtain ⟨rest, hcall⟩ := handlePayload_of_plaintext hdecode s
  rw [Drops, hcall, if_neg (not_not.mpr hactive), if_pos h]
  rfl

variable (hforgotten : frameHash P bytes ∉ s.convo.outboundMsgs) {message : ProtocolMessage}
  (hmessage : P.mls.protocolMessage bytes = .ok message)

include hforgotten hmessage

theorem drops_of_past (h : message.epoch < (groupOf s).epoch) : Drops s payload := by
  obtain ⟨rest, hcall⟩ := handlePayload_of_plaintext hdecode s
  rw [Drops, hcall, if_neg (not_not.mpr hactive), if_neg hforgotten, hmessage, orErr,
    Call.ofResult_ok_bind, if_pos h]
  rfl

theorem fails_of_refused (h : message.epoch = (groupOf s).epoch) {e : ProcessMessageError}
    (hrefused : P.mls.processMessage (groupOf s) message = .error e) : Fails s payload := by
  have hprocess : MlsGroup.processMessage P.mls message (groupOf s) = (.err e, groupOf s) := by
    rw [MlsGroup.processMessage, hrefused]
  obtain ⟨rest, hcall⟩ := handlePayload_of_plaintext hdecode s
  refine ⟨e.text, ?_⟩
  rw [hcall, if_neg (not_not.mpr hactive), if_neg hforgotten, hmessage, orErr, Call.ofResult_ok_bind,
    if_neg (by omega)]
  exact Call.bind_of_err (Call.mapErr_of_err (onGroup_of_eq hprocess))

end Receive

/-- A frame of our own is dropped in a group we have left, in a later epoch, and while it is remembered;
otherwise it fails. -/
theorem drops_own_iff {payload bytes : Bytes}
    (hdecode : P.proto.decodeEncryptedPayload payload = .ok (.plaintext bytes))
    (hown : P.mls.OwnFrame (groupOf s) bytes) :
    (Drops s payload ↔ ((groupOf s).isActive → OfCurrentEpoch s bytes →
      frameHash P bytes ∈ s.convo.outboundMsgs)) ∧ (¬ Drops s payload → Fails s payload) := by
  obtain ⟨message, hmessage, hepoch⟩ := hown
  by_cases hactive : (groupOf s).isActive
  · by_cases hremembered : frameHash P bytes ∈ s.convo.outboundMsgs
    · have hdrops := drops_of_remembered hdecode hactive hremembered
      exact ⟨iff_of_true hdrops fun _ _ ↦ hremembered, absurd hdrops⟩
    · obtain hpast | ⟨hcurrent, hrefuses⟩ := hepoch
      · have hdrops := drops_of_past hdecode hactive hremembered hmessage hpast
        refine ⟨iff_of_true hdrops fun _ ⟨message', hmessage', hcurrent⟩ ↦ ?_, absurd hdrops⟩
        cases hmessage.symm.trans hmessage'
        omega
      · obtain ⟨e, hrefused⟩ := hrefuses (groupOf s) (.of_group rfl) rfl
        have hfails := fails_of_refused hdecode hactive hremembered hmessage hcurrent hrefused
        refine ⟨iff_of_false hfails.not_drops fun h ↦ ?_, fun _ ↦ hfails⟩
        exact hremembered (h hactive ⟨message, hmessage, hcurrent⟩)
  · have hdrops := drops_of_inactive hdecode hactive
    exact ⟨iff_of_true hdrops fun h ↦ absurd h hactive, absurd hdrops⟩

/-! ## Over a run -/

/-- A conversation of one client, the frames it has sent, and those among them that it has sent since the
conversation was built. -/
structure Member (P : Platform) where
  session : InSession P (GroupV1Convo P)
  sent : List Bytes := []
  fresh : List Bytes := []

inductive Event (P : Platform) where
  | send (content : Bytes)
  | add (members : List SignerKey)
  | remove (members : List SignerKey)
  -- a frame of whoever, for the first time or again
  | receive (payload : Bytes)
  -- the conversation is built from storage once more
  | reload
  -- what the client does elsewhere
  | services (cx : ServiceContext P)

namespace Member

/-- A conversation that was just built. -/
def built (s : InSession P (GroupV1Convo P)) : Member P := { session := s }

/-- The member after a call of its own. -/
def called (m : Member P) (t : InSession P (GroupV1Convo P)) : Member P :=
  { session := t
    sent := m.sent ++ framesSince m.session t
    fresh := m.fresh ++ framesSince m.session t }

/-- openmls stores a group whenever it changes. -/
def stored (s : InSession P (GroupV1Convo P)) : ServiceContext P :=
  { s.cx with
    mlsStorage := Function.update s.cx.mlsStorage (groupOf s).groupId (.ok (some (groupOf s))) }

def reloaded (m : Member P) : Member P :=
  match load m.session.convo.convoId (groupOf m.session).groupId (stored m.session) with
  | (.ok convo, cx) => { m with session := ⟨convo, cx⟩, fresh := [] }
  | (_, cx) => { m with session := { m.session with cx := cx } }

def step (m : Member P) : Event P → Member P
  | .send content => m.called (sendContent content m.session).2
  | .add members => m.called (addSigner members m.session).2
  | .remove members => m.called (removeSigner members m.session).2
  | .receive payload => { m with session := (handlePayload payload m.session).2 }
  | .reload => m.reloaded
  | .services cx => { m with session := { m.session with cx := cx } }

/-- A send returns `Ok`. -/
def Succeeds (m : Member P) : Event P → Prop
  | .send content => (sendContent content m.session).1.isOk
  | .add members => (addSigner members m.session).1.isOk
  | .remove members => (removeSigner members m.session).1.isOk
  | .receive _ | .reload | .services _ => True

theorem succeeds_of_ok {m : Member P} {content : Bytes} {id : String} {t : InSession P (GroupV1Convo P)}
    (h : sendContent content m.session = (.ok id, t)) :
    m.Succeeds (.send content) ∧ m.step (.send content) = m.called t := by
  have hresult : (sendContent content m.session).1 = .ok id := congrArg Prod.fst h
  have hstate : (sendContent content m.session).2 = t := congrArg Prod.snd h
  exact ⟨congrArg Result.isOk hresult, congrArg m.called hstate⟩

/-- The cache is the window over what was sent since the conversation was built, and openmls refuses every
frame that is not of a past epoch. -/
structure Inv (m : Member P) : Prop where
  remembers : Remembers m.session.convo m.fresh
  fresh : m.fresh ⊆ m.sent
  own : ∀ bytes ∈ m.sent, P.mls.OwnFrame (groupOf m.session) bytes

variable {m : Member P}

theorem Inv.quiet (h : Inv m) (hseat : (groupOf m.session).SameSeat (groupOf t))
    (hcache : t.convo.outboundMsgs = m.session.convo.outboundMsgs) : Inv { m with session := t } where
  remembers := hcache.trans h.remembers
  fresh := h.fresh
  own bytes hmem := (h.own bytes hmem).later hseat

theorem Inv.posts (h : Inv m) {bytes : Bytes} (hposts : Posts m.session t bytes) : Inv (m.called t) := by
  have hframes : framesSince m.session t = [bytes] := hposts.published.framesSince
  unfold called
  rw [hframes]
  refine ⟨hposts.remembered.trans (h.remembers.remember bytes), ?_, fun frame hmem ↦ ?_⟩
  · exact List.append_subset.mpr ⟨List.Subset.trans h.fresh (List.subset_append_left _ _),
      List.subset_append_right _ _⟩
  obtain hsent | hnew := List.mem_append.mp hmem
  · exact (h.own frame hsent).later hposts.seat
  · rw [List.mem_singleton.mp hnew]
    exact hposts.own

theorem called_self (m : Member P) : m.called m.session = m := by
  have hframes : framesSince m.session m.session = [] := (Published.of_same rfl).framesSince
  rw [called, hframes, List.append_nil, List.append_nil]

/-- A conversation built from storage has our place and an empty cache. -/
theorem load_stored {convo : GroupV1Convo P} {cx : ServiceContext P} {convoId : String}
    (h : load convoId (groupOf s).groupId (stored s) = (.ok convo, cx)) :
    convo = { mlsGroup := groupOf s, convoId := convoId } := by
  have hstored : (stored s).mlsStorage (groupOf s).groupId = .ok (some (groupOf s)) :=
    Function.update_self ..
  unfold load at h
  rw [Call.read_bind, hstored] at h
  obtain ⟨_, _, -, h⟩ := Call.bind_eq_ok h
  cases h
  rfl

theorem Inv.reloaded (h : Inv m) : Inv m.reloaded := by
  unfold Member.reloaded
  split
  case h_1 convo cx hload =>
    -- what was sent before stays our own; only the cache starts anew
    have hconvo := load_stored hload
    subst hconvo
    exact ⟨rfl, List.nil_subset _, h.own⟩
  case h_2 => exact h.quiet (.of_group rfl) rfl

theorem Inv.step (hmls : P.mls.RefusesOwn) (h : Inv m) {e : Event P} (hsucceeds : m.Succeeds e) :
    Inv (m.step e) := by
  cases e with
  | send content =>
      obtain ⟨id, hok⟩ := Result.isOk_iff.mp hsucceeds
      obtain ⟨bytes, hposts⟩ := sendContent_posts hmls (Prod.ext hok rfl)
      exact h.posts hposts
  | add members =>
      obtain ⟨_, hok⟩ := Result.isOk_iff.mp hsucceeds
      obtain hnobody | ⟨bytes, hposts⟩ := addSigner_posts hmls (Prod.ext hok rfl)
      · -- everybody was seated already, and nothing was sent
        have hsame : m.step (.add members) = m := (congrArg m.called hnobody).trans m.called_self
        rw [hsame]
        exact h
      · exact h.posts hposts
  | remove members =>
      obtain ⟨_, hok⟩ := Result.isOk_iff.mp hsucceeds
      obtain ⟨bytes, hposts⟩ := removeSigner_posts hmls (Prod.ext hok rfl)
      exact h.posts hposts
  | receive payload =>
      have hquiet := quiet_handlePayload payload m.session
      exact h.quiet hquiet.seat hquiet.cache
  | reload => exact h.reloaded
  | services cx => exact h.quiet (.of_group rfl) rfl

end Member

/-- Whatever happens to a conversation between its sends, a frame of its own that comes back is dropped
exactly when the group is left, the frame is of a past epoch, or it is one of the last twenty-five sent
since the conversation was built.  Any other is an error. -/
theorem own_frame_dropped_iff (hmls : P.mls.RefusesOwn) {s : InSession P (GroupV1Convo P)}
    (hbuilt : s.convo.outboundMsgs = []) {events : List (Event P)}
    (hsends : Along Member.step Member.Succeeds (.built s) events) {m : Member P}
    (hm : m = run Member.step (.built s) events)
    (hhash : P.HashesApart fun components ↦ ∃ bytes ∈ m.sent, components = [bytes])
    {bytes payload : Bytes} (hsent : bytes ∈ m.sent)
    (hdecode : P.proto.decodeEncryptedPayload payload = .ok (.plaintext bytes)) :
    (Drops m.session payload ↔ ((groupOf m.session).isActive → OfCurrentEpoch m.session bytes →
      bytes ∈ recent outboundHashCacheSize m.fresh)) ∧
    (¬ Drops m.session payload → Fails m.session payload) := by
  have hinv : Member.Inv m := by
    rw [hm]
    exact hsends.invariant (fun _ _ h hsucceeds ↦ h.step hmls hsucceeds)
      ⟨hbuilt, List.Subset.refl _, nofun⟩
  rw [← hinv.remembers.hash_mem_iff hinv.fresh hhash hsent]
  exact drops_own_iff hdecode (hinv.own bytes hsent)

end GroupV1

namespace Sample

/-- A frame that tells its epoch in unary, before its number. -/
def numbered (epoch number : Nat) : Bytes := .replicate epoch 1 ++ 0 :: .replicate number 2

/-- openmls for a client that is alone in its group: the secrets count its messages, and it refuses to
process what it sent. -/
abbrev alone : OpenMls :=
  { Sample.mls with
    Secrets := Nat
    create := fun n ↦ .ok ([UInt8.ofNat n], 0)
    join := fun _ _ ↦ .error "no welcome"
    addMembers := fun group packages ↦
      .ok { commit := numbered group.epoch group.secrets, welcome := [], secrets := group.secrets + 1
            members := seatNext group.members packages }
    removeMembers := fun group leaves ↦
      .ok { commit := numbered group.epoch group.secrets, welcome := [], secrets := group.secrets + 1
            members := group.members.filter fun m ↦ m.index ∉ leaves }
    mergePendingCommit := fun group ↦ .ok group.secrets
    clearPendingCommit := fun group ↦ .ok group.secrets
    createMessage := fun group _ ↦ .ok (numbered group.epoch group.secrets, group.secrets + 1)
    protocolMessage := fun bytes ↦ .ok ⟨(bytes.takeWhile (· = 1)).length, bytes⟩
    processMessage := fun _ _ ↦ .error .cannotDecryptOwnMessage
    mergeStagedCommit := fun group _ ↦ .ok group.secrets }

theorem epoch_numbered (epoch number : Nat) :
    ((numbered epoch number).takeWhile (· = 1)).length = epoch := by
  simp [numbered]

theorem alone_refusesOwn : alone.RefusesOwn where
  message group plaintext out secrets bytes hcreate hbytes := by
    cases hcreate
    cases hbytes
    exact ⟨_, rfl, epoch_numbered _ _, fun _ _ _ ↦ ⟨_, rfl⟩⟩
  addition group keyPackages bundle bytes hadd hbytes := by
    cases hadd
    cases hbytes
    exact ⟨_, rfl, epoch_numbered _ _⟩
  removal group leaves bundle bytes hremove hbytes := by
    cases hremove
    cases hbytes
    exact ⟨_, rfl, epoch_numbered _ _⟩

-- a release build, whose Lamport clock wraps around
abbrev echoing : Platform := { hashing with mls := alone, overflowChecks := false }

theorem echoing_hashesApart (hashed : List Bytes → Prop) : echoing.HashesApart hashed :=
  fun _ _ _ _ h ↦ h

/-- The group in its first epoch, after `n` messages. -/
def soliloquy (n : Nat) : MlsGroup alone.Secrets :=
  { groupId := [0], epoch := 1, members := [seat 0 [1]], ownLeafIndex := 0, secrets := n }

theorem createMessage_soliloquy {group : MlsGroup alone.Secrets} {n : Nat} (h : group = soliloquy n)
    (plaintext : Bytes) : alone.createMessage group plaintext = .ok (numbered 1 n, n + 1) := by
  rw [h]
  rfl

def soliloquist : InSession echoing (GroupV1Convo echoing) where
  convo := { mlsGroup := soliloquy 0, convoId := "" }
  cx := services _

end Sample

namespace GroupV1

theorem tick_echoing (clock : Int32) : tick Sample.echoing.build clock = .ok (clock + 1) := rfl

/-- The client has sent `n` messages. -/
structure Talked (n : Nat) (m : Member Sample.echoing) : Prop where
  group : groupOf m.session = Sample.soliloquy n
  answers : ∀ k, m.session.cx.ds.answers k = none
  sent : m.sent = (List.range n).map (Sample.numbered 1)
  fresh : m.fresh = (List.range n).map (Sample.numbered 1)

theorem Talked.send {n : Nat} {m : Member Sample.echoing} (h : Talked n m) (content : Bytes) :
    m.Succeeds (.send content) ∧ Talked (n + 1) (m.step (.send content)) := by
  obtain ⟨reliable, causal, henvelope⟩ := CausalHistoryStore.onSend_of_tick
    m.session.cx.self.signer content (tick_echoing (m.session.cx.causal.clock m.session.convo.convoId))
  obtain ⟨id, t, hsend, hgroup, hds⟩ := sendContent_of_enveloped henvelope
    (Sample.createMessage_soliloquy h.group _) rfl fun k _ ↦ h.answers _
  have hframes : framesSince m.session t = [Sample.numbered 1 n] :=
    Published.framesSince ⟨_, congrArg (·.published) hds, rfl⟩
  obtain ⟨hsucceeds, hstep⟩ := Member.succeeds_of_ok hsend
  rw [h.group] at hgroup
  have hnext : (List.range (n + 1)).map (Sample.numbered 1) =
      (List.range n).map (Sample.numbered 1) ++ [Sample.numbered 1 n] := by
    rw [List.range_succ, List.map_append, List.map_singleton]
  refine ⟨hsucceeds, ?_⟩
  rw [hstep, Member.called, hframes]
  refine ⟨hgroup, fun k ↦ ?_, ?_, ?_⟩
  · show t.cx.ds.answers k = none
    rw [hds]
    exact h.answers k
  · rw [hnext, h.sent]
  · rw [hnext, h.fresh]

/-- The run of `n` messages. -/
abbrev spoken (n : Nat) : Member Sample.echoing :=
  run Member.step (.built Sample.soliloquist) (.replicate n (.send [7]))

theorem talked (n : Nat) :
    Along Member.step Member.Succeeds (.built Sample.soliloquist) (.replicate n (.send [7])) ∧
      Talked n (spoken n) := by
  induction n with
  | zero => exact ⟨trivial, rfl, fun _ ↦ rfl, rfl, rfl⟩
  | succ n ih =>
      obtain ⟨hsucceeds, hnext⟩ := ih.2.send [7]
      rw [spoken, List.replicate_succ', along_append, run_append]
      exact ⟨⟨ih.1, hsucceeds, trivial⟩, hnext⟩

/-- Of twenty-five messages the first one is still dropped when it comes back. -/
theorem first_of_twenty_five_dropped :
    Sample.alone.RefusesOwn ∧ Sample.echoing.HashesApart (fun _ ↦ True) ∧
    Drops (spoken 25).session (Sample.numbered 1 0) := by
  obtain ⟨hsends, htalked⟩ := talked 25
  refine ⟨Sample.alone_refusesOwn, Sample.echoing_hashesApart _, ?_⟩
  have hsent : Sample.numbered 1 0 ∈ (spoken 25).sent := by
    rw [htalked.sent]
    decide
  refine (own_frame_dropped_iff Sample.alone_refusesOwn rfl hsends rfl (Sample.echoing_hashesApart _)
    hsent rfl).1.mpr fun _ _ ↦ ?_
  rw [htalked.fresh]
  decide

/-- Of twenty-six messages the first one, in the epoch it was sent in, is an error. -/
theorem first_of_twenty_six_fails :
    Sample.alone.RefusesOwn ∧ Sample.echoing.HashesApart (fun _ ↦ True) ∧
    ∃ events m, Along Member.step Member.Succeeds (.built Sample.soliloquist) events ∧
      m = run Member.step (.built Sample.soliloquist) events ∧ Sample.numbered 1 0 ∈ m.sent ∧
      OfCurrentEpoch m.session (Sample.numbered 1 0) ∧ Fails m.session (Sample.numbered 1 0) := by
  obtain ⟨hsends, htalked⟩ := talked 26
  refine ⟨Sample.alone_refusesOwn, Sample.echoing_hashesApart _, _, _, hsends, rfl, ?_, ?_, ?_⟩
  · rw [htalked.sent]
    decide
  · exact ⟨_, rfl, by rw [htalked.group]; rfl⟩
  · have hinv : Member.Inv (spoken 26) :=
      hsends.invariant (fun _ _ h hsucceeds ↦ h.step Sample.alone_refusesOwn hsucceeds)
        ⟨rfl, List.Subset.refl _, nofun⟩
    have hsent : Sample.numbered 1 0 ∈ (spoken 26).sent := by
      rw [htalked.sent]
      decide
    refine fails_of_refused rfl ?_ ?_ rfl ?_ rfl
    · rw [htalked.group]
      rfl
    · rw [hinv.remembers.hash_mem_iff hinv.fresh (Sample.echoing_hashesApart _) hsent, htalked.fresh]
      decide
    · rw [htalked.group]
      rfl

end GroupV1

end LogosChat.Conversations
