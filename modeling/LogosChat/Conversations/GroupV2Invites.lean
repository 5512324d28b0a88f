import LogosChat.Conversations.GroupV2Delivery

/-!
# Invites in flight

An invite of GroupV2 stays pending until the commit that seats the joiner lands; then `afterOp` sends
the welcome.  `addSigner` writes the pending invite of each new member before it asks de-mls to add
it and takes it back when de-mls refuses, also when an earlier call had put it there.
-/

namespace LogosChat.Conversations.GroupV2

open Reasoning

variable {P : Platform} {s t : InSession P (GroupV2Convo P)}

abbrev Pending (s : InSession P (GroupV2Convo P)) (joiner : Bytes) : Prop :=
  (s.convo.pendingInvites joiner).isSome

/-! ## Due invites are pending -/

theorem pending_of_mem_invitesDue {pending : Bytes → Option Bytes} {invite : Bytes × MemberWelcome}
    {mentioned : List (Bytes × MemberWelcome)} (h : invite ∈ invitesDue pending mentioned) :
    (pending invite.1).isSome := by
  induction mentioned generalizing pending with
  | nil => cases h
  | cons mention mentioned ih =>
      rw [invitesDue] at h
      by_cases hpending : (pending mention.1).isSome
      · rw [if_pos hpending] at h
        obtain rfl | h := List.mem_cons.mp h
        · exact hpending
        · have hlater := ih h
          by_cases hsame : invite.1 = mention.1
          · rw [hsame, Function.update_self] at hlater
            cases hlater
          · rwa [Function.update_of_ne hsame] at hlater
      · rw [if_neg hpending] at h
        exact ih h

theorem nodup_invitesDue (pending : Bytes → Option Bytes) (mentioned : List (Bytes × MemberWelcome)) :
    ((invitesDue pending mentioned).map Prod.fst).Nodup := by
  induction mentioned generalizing pending with
  | nil => exact List.nodup_nil
  | cons mention mentioned ih =>
      rw [invitesDue]
      by_cases hpending : (pending mention.1).isSome
      · rw [if_pos hpending, List.map_cons, List.nodup_cons]
        refine ⟨fun hmem ↦ ?_, ih _⟩
        obtain ⟨invite, hinvite, hsame⟩ := List.mem_map.mp hmem
        have hlater := pending_of_mem_invitesDue hinvite
        rw [hsame, Function.update_self] at hlater
        cases hlater
      · rw [if_neg hpending]
        exact ih pending

/-! ## The loop of `addSigner` -/

/-- An answer of de-mls to an add. -/
structure AddAnswer (D : DeMls) where
  member : FetchedMember
  answer : Except ConversationError Unit
  turn : Turn D.Core

/-- What de-mls answers to the adds of a batch, up to the refusal that ends the loop. -/
def addAnswers (D : DeMls) : D.Core → List FetchedMember → List (AddAnswer D)
  | _, [] => []
  | core, m :: members =>
      match D.addMember core m.keyPackage with
      | (.ok _, turn) => ⟨m, .ok (), turn⟩ :: addAnswers D turn.core members
      | (.error .alreadyMember, turn) =>
          ⟨m, .error .alreadyMember, turn⟩ :: addAnswers D turn.core members
      | (.error e, turn) => [⟨m, .error e, turn⟩]

/-- The invite of a member that is refused is gone, whoever put it there. -/
def AddAnswer.leaves (convo : GroupV2Convo P) (a : AddAnswer P.demls) : GroupV2Convo P :=
  setPending a.member.signatureKey (a.answer.toOption.map fun _ ↦ a.member.credential)
    { convo with conversation := convo.conversation.queued a.turn }

/-- The invite is pending and the package on its way to de-mls. -/
def entered (m : FetchedMember) (s : InSession P (GroupV2Convo P)) : InSession P (GroupV2Convo P) where
  convo := setPending m.signatureKey (some m.credential) s.convo
  cx := s.cx.handing [handedMember m]

/-- de-mls has answered. -/
def proposed (m : FetchedMember) (turn : Turn P.demls.Core) (s : InSession P (GroupV2Convo P)) :
    InSession P (GroupV2Convo P) :=
  { entered m s with convo := { (entered m s).convo with
      conversation := s.convo.conversation.queued turn } }

/-- The invite is taken back. -/
def withdrawn (m : FetchedMember) (s : InSession P (GroupV2Convo P)) : InSession P (GroupV2Convo P) :=
  { s with convo := setPending m.signatureKey none s.convo }

variable {existing : List Bytes} {m : FetchedMember} {members : List FetchedMember}
  {turn : Turn P.demls.Core} {e : ConversationError}

theorem proposeAll_of_seated (h : m.signatureKey ∈ existing) (s : InSession P (GroupV2Convo P)) :
    proposeAll existing (m :: members) s = proposeAll existing members s := by
  rw [proposeAll, if_pos h]

theorem addMember_of_ok
    (h : P.demls.addMember s.convo.conversation.core m.keyPackage = (.ok (), turn)) :
    (onConversation (Conversation.addMember m.keyPackage)).attempt (entered m s) =
      ((.ok (.ok ()) : Result ChatError _), proposed m turn s) :=
  Call.attempt_of_ok (Call.on_of_eq (Conversation.turn_of_ok h))

theorem addMember_of_error
    (h : P.demls.addMember s.convo.conversation.core m.keyPackage = (.error e, turn)) :
    (onConversation (Conversation.addMember m.keyPackage)).attempt (entered m s) =
      ((.ok (.error e) : Result ChatError _), proposed m turn s) :=
  Call.attempt_of_err (Call.on_of_eq (Conversation.turn_of_error h))

theorem proposeAll_of_ok (hseat : m.signatureKey ∉ existing)
    (h : P.demls.addMember s.convo.conversation.core m.keyPackage = (.ok (), turn)) :
    proposeAll existing (m :: members) s =
      (proposeAll existing members >>= fun r ↦ pure (r.1, true)) (proposed m turn s) := by
  rw [proposeAll, if_neg hseat]
  exact Call.bind_of_ok (addMember_of_ok h)

theorem proposeAll_of_alreadyMember (hseat : m.signatureKey ∉ existing)
    (h : P.demls.addMember s.convo.conversation.core m.keyPackage = (.error .alreadyMember, turn)) :
    proposeAll existing (m :: members) s =
      proposeAll existing members (withdrawn m (proposed m turn s)) := by
  rw [proposeAll, if_neg hseat]
  exact Call.bind_of_ok (addMember_of_error h)

theorem proposeAll_of_error (hseat : m.signatureKey ∉ existing)
    (h : P.demls.addMember s.convo.conversation.core m.keyPackage = (.error e, turn))
    (hother : e ≠ .alreadyMember) :
    proposeAll existing (m :: members) s =
      (.ok (.error (.deMlsError e), false), withdrawn m (proposed m turn s)) := by
  rw [proposeAll, if_neg hseat]
  cases e with
  | alreadyMember => exact absurd rfl hother
  | memberGone => exact Call.bind_of_ok (addMember_of_error h)
  | other text => exact Call.bind_of_ok (addMember_of_error h)

theorem convo_proposed (m : FetchedMember) (turn : Turn P.demls.Core) (s : InSession P (GroupV2Convo P)) :
    (proposed m turn s).convo = AddAnswer.leaves s.convo ⟨m, .ok (), turn⟩ := rfl

theorem convo_withdrawn (m : FetchedMember) (turn : Turn P.demls.Core) (e : ConversationError)
    (s : InSession P (GroupV2Convo P)) :
    (withdrawn m (proposed m turn s)).convo = AddAnswer.leaves s.convo ⟨m, .error e, turn⟩ := by
  have hgone := Function.update_idem (a := m.signatureKey) (some m.credential) none s.convo.pendingInvites
  exact congrArg (fun pending ↦ ({ s.convo with
    conversation := s.convo.conversation.queued turn
    pendingInvites := pending } : GroupV2Convo P)) hgone

/-- The loop leaves the conversation as the answers do. -/
theorem proposeAll_spec (existing : List Bytes) (members : List FetchedMember)
    (s : InSession P (GroupV2Convo P)) :
    ∃ result t, proposeAll existing members s = (.ok (result,
        (addAnswers P.demls s.convo.conversation.core
          (members.filter fun m ↦ m.signatureKey ∉ existing)).any fun a ↦ a.answer.isOk), t) ∧
      t.convo = run AddAnswer.leaves s.convo (addAnswers P.demls s.convo.conversation.core
        (members.filter fun m ↦ m.signatureKey ∉ existing)) ∧ t.cx.ds = s.cx.ds := by
  induction members generalizing s with
  | nil => exact ⟨.ok (), s, rfl, rfl, rfl⟩
  | cons m members ih =>
      by_cases hseat : m.signatureKey ∈ existing
      · rw [List.filter_cons_of_neg (by simpa using hseat), proposeAll_of_seated hseat]
        exact ih s
      rw [List.filter_cons_of_pos (by simpa using hseat), addAnswers]
      rcases hadd : P.demls.addMember s.convo.conversation.core m.keyPackage with ⟨answer, turn⟩
      cases answer with
      | ok _ =>
          obtain ⟨result, t, hcall, hconvo, hds⟩ := ih (proposed m turn s)
          refine ⟨result, t, ?_, ?_, hds⟩
          · rw [proposeAll_of_ok hseat hadd, Call.bind_of_ok hcall]
            rfl
          · rw [hconvo, convo_proposed]
            rfl
      | error e =>
          cases e with
          | alreadyMember =>
              obtain ⟨result, t, hcall, hconvo, hds⟩ := ih (withdrawn m (proposed m turn s))
              refine ⟨result, t, ?_, ?_, hds⟩
              · rw [proposeAll_of_alreadyMember hseat hadd, hcall]
                rfl
              · rw [hconvo, convo_withdrawn m turn .alreadyMember s]
                rfl
          | memberGone =>
              refine ⟨_, _, proposeAll_of_error hseat hadd nofun, ?_, rfl⟩
              exact convo_withdrawn m turn .memberGone s
          | other text =>
              refine ⟨_, _, proposeAll_of_error hseat hadd nofun, ?_, rfl⟩
              exact convo_withdrawn m turn (.other text) s

theorem addAnswers_keys (D : DeMls) (core : D.Core) (members : List FetchedMember) :
    (addAnswers D core members).map (·.member.signatureKey) <+: members.map (·.signatureKey) := by
  induction members generalizing core with
  | nil => exact List.prefix_rfl
  | cons m members ih =>
      rw [addAnswers]
      split
      · exact List.cons_prefix_cons.mpr ⟨rfl, ih _⟩
      · exact List.cons_prefix_cons.mpr ⟨rfl, ih _⟩
      · exact List.cons_prefix_cons.mpr ⟨rfl, List.nil_prefix⟩

theorem pendingInvites_of_not_asked {answers : List (AddAnswer P.demls)} {joiner : Bytes}
    (h : joiner ∉ answers.map (·.member.signatureKey)) (convo : GroupV2Convo P) :
    (run AddAnswer.leaves convo answers).pendingInvites joiner = convo.pendingInvites joiner := by
  induction answers generalizing convo with
  | nil => rfl
  | cons a answers ih =>
      rw [List.map_cons, List.mem_cons, not_or] at h
      rw [run_cons, ih h.2]
      exact Function.update_of_ne h.1 _ _

/-- A pending invite stays so if its add is not refused. -/
theorem pending_answers_iff {answers : List (AddAnswer P.demls)} {joiner : Bytes}
    (hnodup : (answers.map (·.member.signatureKey)).Nodup) {convo : GroupV2Convo P}
    (hpending : (convo.pendingInvites joiner).isSome) :
    ((run AddAnswer.leaves convo answers).pendingInvites joiner).isSome ↔
      ∀ a ∈ answers, a.member.signatureKey = joiner → ∀ e, a.answer ≠ .error e := by
  induction answers generalizing convo with
  | nil => exact iff_of_true hpending fun _ hmem ↦ absurd hmem List.not_mem_nil
  | cons a answers ih =>
      rw [List.map_cons, List.nodup_cons] at hnodup
      rw [run_cons, List.forall_mem_cons]
      by_cases hsame : a.member.signatureKey = joiner
      · subst hsame
        have hlater : (run AddAnswer.leaves (AddAnswer.leaves convo a) answers).pendingInvites
            a.member.signatureKey = a.answer.toOption.map fun _ ↦ a.member.credential := by
          rw [pendingInvites_of_not_asked hnodup.1]
          exact Function.update_self _ _ _
        have hothers : ∀ b ∈ answers, b.member.signatureKey = a.member.signatureKey →
            ∀ e, b.answer ≠ .error e :=
          fun b hb hkey ↦ absurd (List.mem_map.mpr ⟨b, hb, hkey⟩) hnodup.1
        rw [hlater, and_iff_left hothers]
        cases hanswer : a.answer with
        | ok _ => exact iff_of_true rfl fun _ _ ↦ nofun
        | error e => exact iff_of_false (by simp [Except.toOption]) fun h ↦ h rfl e rfl
      · have hkept : ((AddAnswer.leaves convo a).pendingInvites joiner).isSome := by
          show (Function.update convo.pendingInvites _ _ joiner).isSome
          rw [Function.update_of_ne (Ne.symm hsame)]
          exact hpending
        rw [ih hnodup.2 hkept, and_iff_right fun h ↦ absurd h hsame]

/-! ## A whole add -/

/-- What de-mls answers to an add of these signers, if their key packages are found: those that have a seat
are not asked for. -/
def answersTo (signers : List SignerKey) (s : InSession P (GroupV2Convo P)) :
    Option (List (AddAnswer P.demls)) :=
  match (fetchKeyPackages P signers s.cx).1 with
  | .ok fetched => some (addAnswers P.demls s.convo.conversation.core (fetched.filter fun m ↦
      m.signatureKey ∉ s.convo.conversation.membersView.map (·.signatureKey)))
  | _ => none

/-- The conversation that is flushed after these answers: it is polled if a member was added. -/
def atFlush (convo : GroupV2Convo P) (answers : List (AddAnswer P.demls)) : GroupV2Convo P :=
  let asked := run AddAnswer.leaves convo answers
  if answers.any fun a ↦ a.answer.isOk then
    { asked with conversation := asked.conversation.queued (P.demls.poll asked.conversation.core) }
  else asked

theorem atFlush_pendingInvites (convo : GroupV2Convo P) (answers : List (AddAnswer P.demls)) :
    (atFlush convo answers).pendingInvites = (run AddAnswer.leaves convo answers).pendingInvites := by
  unfold atFlush
  dsimp only
  split <;> rfl

theorem SignerKey.nodup_bytes {signers : List SignerKey} (h : signers.Nodup) :
    (signers.map (·.bytes)).Nodup :=
  h.map fun _ _ heq ↦ congrArg SignerKey.mk heq

theorem propose_cases (signers : List SignerKey) (s : InSession P (GroupV2Convo P)) :
    (∃ e t, propose signers s = (.err e, t) ∧ t.convo = s.convo ∧ answersTo signers s = none) ∨
    ∃ answers result t, answersTo signers s = some answers ∧ propose signers s = (.ok result, t) ∧
      t.convo = atFlush s.convo answers ∧ t.cx.ds = s.cx.ds ∧
      (answers.map (·.member.signatureKey)).Nodup := by
  unfold answersTo
  obtain ⟨fetched, hall, hfetch⟩ | ⟨before, signer, after, e, -, -, hfetch⟩ :=
    fetch_cases signers s.cx
  · apply Or.inr
    have hfetched : InSession.onCx (fetchKeyPackages P signers) s = _ := Call.on_of_eq hfetch
    have hnodup : (fetched.map (·.signatureKey)).Nodup := by
      rw [fetched_keys hall]
      exact SignerKey.nodup_bytes (nodup_keepNew [] signers)
    obtain ⟨answers, hanswers⟩ : ∃ answers, answers = addAnswers P.demls s.convo.conversation.core
      (fetched.filter fun m ↦ m.signatureKey ∉ s.convo.conversation.membersView.map (·.signatureKey)) :=
        ⟨_, rfl⟩
    obtain ⟨result, t, hcall, hconvo, hds⟩ := proposeAll_spec
      (s.convo.conversation.membersView.map (·.signatureKey)) fetched
      { s with cx := s.cx.askedFor (keepNew [] signers) }
    change proposeAll _ _ _ = (.ok (result, List.any (addAnswers P.demls s.convo.conversation.core _) _), t)
      at hcall
    change t.convo = run AddAnswer.leaves s.convo (addAnswers P.demls s.convo.conversation.core _) at hconvo
    rw [← hanswers] at hcall hconvo
    have hloop : propose signers s = _ :=
      (Call.bind_of_ok hfetched).trans ((Call.read_bind _ _ _).trans (Call.bind_of_ok hcall))
    have hasked : (answers.map (·.member.signatureKey)).Nodup := by
      rw [hanswers]
      exact hnodup.sublist ((addAnswers_keys _ _ _).sublist.trans (List.filter_sublist.map _))
    rw [hfetch, hloop]
    have hanswered : some (addAnswers P.demls s.convo.conversation.core _) = some answers :=
      congrArg some hanswers.symm
    cases hadded : answers.any fun a ↦ a.answer.isOk with
    | true =>
        refine ⟨answers, result, _, hanswered, rfl, ?_, hds, hasked⟩
        change ({ t.convo with conversation := t.convo.conversation.poll.2 } : GroupV2Convo P) = _
        rw [atFlush, if_pos hadded, hconvo]
        rfl
    | false =>
        refine ⟨answers, result, t, hanswered, rfl, ?_, hds, hasked⟩
        rw [hconvo, atFlush, if_neg (by simp [hadded])]
  · apply Or.inl
    have hfetched : InSession.onCx (fetchKeyPackages P signers) s = _ := Call.on_of_eq hfetch
    rw [hfetch]
    exact ⟨e, _, Call.bind_of_err hfetched, rfl, rfl⟩

/-- The flush leaves the state that `afterOp` leaves. -/
theorem andFlush_state (result : Except ChatError Unit) (s : InSession P (GroupV2Convo P)) :
    (andFlush result s).2 = (afterOp s).2 := by
  by_cases haccepts : s.cx.ds.Accepts (due s).length
  · obtain ⟨a, t, hcall, -⟩ := (sends_afterOp s).accepted haccepts
    have hflush : andFlush result s = _ := Call.bind_of_ok (Call.attempt_of_ok hcall)
    rw [hflush, hcall]
    cases result <;> rfl
  · obtain ⟨e, t, -, hcall, -⟩ := (sends_afterOp s).refused haccepts
    have hflush : andFlush result s = _ := Call.bind_of_ok (Call.attempt_of_err hcall)
    rw [hflush, hcall]
    cases result <;> rfl

/-- How many sends a drain tries and how many it makes: all, or all up to the first one refused. -/
theorem afterOp_counts (s : InSession P (GroupV2Convo P)) :
    (s.cx.ds.Accepts (due s).length ∧
      (afterOp s).2.cx.ds.requests = s.cx.ds.requests + (due s).length ∧
      (afterOp s).2.cx.ds.published.length = s.cx.ds.published.length + (due s).length) ∨
    ∃ k, k < (due s).length ∧ s.cx.ds.RefusesAt k ∧
      (afterOp s).2.cx.ds.requests = s.cx.ds.requests + (k + 1) ∧
      (afterOp s).2.cx.ds.published.length = s.cx.ds.published.length + k := by
  by_cases haccepts : s.cx.ds.Accepts (due s).length
  · obtain ⟨_, t, hcall, hds⟩ := (sends_afterOp s).accepted haccepts
    rw [hcall, hds]
    exact .inl ⟨haccepts, rfl, by simp⟩
  · obtain ⟨e, t, k, hcall, hk, hat, hds⟩ := (sends_afterOp s).refused haccepts
    rw [hcall, hds]
    refine .inr ⟨k, hk, hat, ?_, ?_⟩
    · simp only [DeliveryService.refused_requests, DeliveryService.delivered_requests,
        List.length_take]
      omega
    · simp only [DeliveryService.refused_published, DeliveryService.delivered_published,
        List.length_append, List.length_take]
      omega

/-- The joiners whose welcome was published between the drain of `s` and `t`: the first ones due. -/
def welcomed (s t : InSession P (GroupV2Convo P)) : List Bytes :=
  ((invitesOf s).take (t.cx.ds.published.length - s.cx.ds.published.length)).map Prod.fst

/-- The joiners whose welcome an add has published. -/
def routed (signers : List SignerKey) (s : InSession P (GroupV2Convo P)) : List Bytes :=
  match answersTo signers s with
  | some answers => welcomed { s with convo := atFlush s.convo answers } (addSigner signers s).2
  | none => []

/-- de-mls answers the add of this signer so. -/
def Answered (signers : List SignerKey) (s : InSession P (GroupV2Convo P)) (joiner : Bytes)
    (answer : Except ConversationError Unit) : Prop :=
  ∃ answers, answersTo signers s = some answers ∧
    ∃ a ∈ answers, a.member.signatureKey = joiner ∧ a.answer = answer

/-- The welcome of `joiner` is the first thing due that the delivery service refuses. -/
def WelcomeRefused (s : InSession P (GroupV2Convo P)) (joiner : Bytes) : Prop :=
  ∃ i welcome, (invitesOf s)[i]? = some (joiner, welcome) ∧ s.cx.ds.RefusesAt i

theorem pending_afterOp_iff {joiner : Bytes} (hpending : Pending s joiner) :
    Pending (afterOp s).2 joiner ↔
      joiner ∉ ((invitesOf s).take ((afterOp s).2.cx.ds.requests - s.cx.ds.requests)).map Prod.fst := by
  rw [Pending, afterOp_pending, forget]
  split <;> simp_all

theorem length_invitesOf_le (s : InSession P (GroupV2Convo P)) :
    (invitesOf s).length ≤ (due s).length := by
  simp [due, welcomes]

/-- A drain keeps a pending invite or sends its welcome, unless that welcome is refused. -/
theorem drain_keeps_iff {joiner : Bytes} (hpending : Pending s joiner) :
    (Pending (afterOp s).2 joiner ∨ joiner ∈ welcomed s (afterOp s).2) ↔ ¬ WelcomeRefused s joiner := by
  rw [pending_afterOp_iff hpending, welcomed]
  have hlength := length_invitesOf_le s
  obtain ⟨haccepts, hrequests, hpublished⟩ | ⟨k, hk, hat, hrequests, hpublished⟩ := afterOp_counts s
  · rw [hrequests, hpublished, Nat.add_sub_cancel_left, Nat.add_sub_cancel_left]
    refine iff_of_true (em _).symm fun ⟨i, welcome, hi, hati⟩ ↦ ?_
    have hlt : i < (invitesOf s).length := (List.getElem?_eq_some_iff.mp hi).1
    exact hati.not_accepts (by omega) haccepts
  · rw [hrequests, hpublished, Nat.add_sub_cancel_left, Nat.add_sub_cancel_left, List.take_add_one,
      List.map_append]
    have hnodup := nodup_invitesDue s.convo.pendingInvites
      (s.convo.conversation.events.flatMap mentions)
    rcases hlast : (invitesOf s)[k]? with _ | ⟨last, welcome⟩
    · -- the refused send is a frame
      rw [Option.toList_none, List.map_nil, List.append_nil]
      refine iff_of_true (em _).symm fun ⟨i, welcome, hi, hati⟩ ↦ ?_
      rw [hati.unique hat, hlast] at hi
      cases hi
    · by_cases hsame : joiner = last
      · -- its own welcome is refused: it was not among those sent before
        refine iff_of_false ?_ (not_not.mpr ⟨k, welcome, by rw [hlast, hsame], hat⟩)
        have hfirst := hnodup.sublist ((List.take_sublist (k + 1) (invitesOf s)).map Prod.fst)
        rw [List.take_add_one, hlast, List.map_append, List.nodup_append] at hfirst
        rintro (hkept | hsent)
        · exact hkept (by simp [hsame])
        · exact hfirst.2.2 joiner hsent last (by simp) hsame
      · refine iff_of_true ?_ fun ⟨i, welcome', hi, hati⟩ ↦ ?_
        · rw [Option.toList_some, List.map_singleton, List.mem_append, List.mem_singleton]
          tauto
        · rw [hati.unique hat, hlast] at hi
          cases hi
          exact hsame rfl

/-- An invite that de-mls has just refused is in no later flush. -/
theorem not_welcomed_of_not_pending {joiner : Bytes} (h : ¬ Pending s joiner)
    (t : InSession P (GroupV2Convo P)) : joiner ∉ welcomed s t := by
  intro hmem
  obtain ⟨invite, hinvite, rfl⟩ := List.mem_map.mp hmem
  exact h (pending_of_mem_invitesDue (List.mem_of_mem_take hinvite))

theorem not_pending_afterOp {joiner : Bytes} (h : ¬ Pending s joiner) :
    ¬ Pending (afterOp s).2 joiner := by
  rw [Pending, afterOp_pending, forget]
  split
  · simp
  · exact h

/-- The welcome of a pending joiner is sent when its commit lands. -/
theorem welcome_sent {joiner : Bytes} {welcome : MemberWelcome} (hpending : Pending s joiner)
    (hready : .welcomeReady welcome ∈ s.convo.conversation.events)
    (hjoiner : joiner ∈ welcome.joinerIdentities) (haccepts : s.cx.ds.Accepts (due s).length) :
    ∃ welcome', inviteEnvelope P ⟨joiner⟩ (.groupV2 welcome') ∈ (afterOp s).2.cx.ds.published := by
  have hmention : (joiner, welcome) ∈ s.convo.conversation.events.flatMap mentions :=
    List.mem_flatMap.mpr ⟨_, hready, List.mem_map.mpr ⟨joiner, hjoiner, rfl⟩⟩
  obtain ⟨welcome', hdue⟩ := mem_invitesDue hpending hmention
  obtain ⟨_, t, hcall, hds, -⟩ := afterOp_of_accepts haccepts
  refine ⟨welcome', ?_⟩
  rw [hcall, hds, DeliveryService.delivered_published]
  apply List.mem_append_right
  exact List.mem_append_left _ (List.mem_map.mpr ⟨_, hdue, rfl⟩)

/-- A pending invite survives an add, or has had its welcome, exactly when de-mls does not refuse the add of
its joiner and the delivery service not its welcome. -/
theorem pending_addSigner_iff (signers : List SignerKey) {s : InSession P (GroupV2Convo P)} {joiner : Bytes}
    (hpending : Pending s joiner) :
    (joiner ∉ routed signers s → Pending (addSigner signers s).2 joiner) ↔
      (∀ e, ¬ Answered signers s joiner (.error e)) ∧ ∀ answers, answersTo signers s = some answers →
        ¬ WelcomeRefused { s with convo := atFlush s.convo answers } joiner := by
  obtain ⟨e, t, hpropose, hconvo, hanswers⟩ | ⟨answers, result, t, hanswers, hpropose, hconvo, hds, hnodup⟩ :=
    propose_cases signers s
  · have hadd : addSigner signers s = (.err e, t) := Call.bind_of_err hpropose
    rw [hadd]
    refine iff_of_true (fun _ ↦ ?_) ⟨?_, fun answers h ↦ ?_⟩
    · rwa [Pending, hconvo]
    · rintro e ⟨answers, h, -⟩
      cases hanswers.symm.trans h
    · cases hanswers.symm.trans h
  · have hadd : (addSigner signers s).2 = (afterOp t).2 := by
      rw [← andFlush_state result t]
      exact congrArg Prod.snd (Call.bind_of_ok hpropose)
    have hflush : invitesOf { s with convo := atFlush s.convo answers } = invitesOf t := by
      rw [invitesOf, invitesOf, hconvo]
    have hwelcomed (t' : InSession P (GroupV2Convo P)) :
        welcomed { s with convo := atFlush s.convo answers } t' = welcomed t t' := by
      rw [welcomed, welcomed, hflush, hds]
    have hrefused : WelcomeRefused { s with convo := atFlush s.convo answers } joiner ↔
        WelcomeRefused t joiner := by
      rw [WelcomeRefused, WelcomeRefused, hflush, hds]
    have hkept_iff : Pending t joiner ↔ ∀ e, ¬ Answered signers s joiner (.error e) := by
      rw [Pending, hconvo, atFlush_pendingInvites, pending_answers_iff hnodup hpending]
      constructor
      · rintro h e ⟨answers', hanswers', a, ha, hkey, hanswer⟩
        cases hanswers.symm.trans hanswers'
        exact h a ha hkey e hanswer
      · exact fun h a ha hkey e hanswer ↦ h e ⟨answers, hanswers, a, ha, hkey, hanswer⟩
    have hforall : (∀ answers', answersTo signers s = some answers' →
        ¬ WelcomeRefused { s with convo := atFlush s.convo answers' } joiner) ↔
          ¬ WelcomeRefused t joiner := by
      rw [hanswers]
      simp only [Option.some.injEq, forall_eq', hrefused]
    rw [routed, hanswers, hadd, ← hkept_iff]
    dsimp only
    rw [hwelcomed, ← hanswers, hforall]
    by_cases hkept : Pending t joiner
    · rw [← Classical.or_iff_not_imp_left, or_comm, drain_keeps_iff hkept, and_iff_right hkept]
    · refine iff_of_false (fun h ↦ ?_) fun h ↦ hkept h.1
      exact not_pending_afterOp hkept (h (not_welcomed_of_not_pending hkept _))

/-- Where de-mls does not answer that a signer has its seat already, an add keeps every invite that was
pending and has not had its welcome, exactly when de-mls refuses none of them again and the delivery service
does not refuse the welcome of one.  The welcome of a pending joiner is sent when its commit lands. -/
theorem add_keeps_invites_iff (signers : List SignerKey) (s : InSession P (GroupV2Convo P)) :
    ((∀ joiner, Pending s joiner → ¬ Answered signers s joiner (.error .alreadyMember) →
        joiner ∉ routed signers s → Pending (addSigner signers s).2 joiner) ↔
      ∀ joiner, Pending s joiner → ¬ Answered signers s joiner (.error .alreadyMember) →
        (∀ e, ¬ Answered signers s joiner (.error e)) ∧ ∀ answers, answersTo signers s = some answers →
          ¬ WelcomeRefused { s with convo := atFlush s.convo answers } joiner) ∧
    ∀ (t : InSession P (GroupV2Convo P)) joiner welcome, Pending t joiner →
      .welcomeReady welcome ∈ t.convo.conversation.events → joiner ∈ welcome.joinerIdentities →
      t.cx.ds.Accepts (due t).length →
      ∃ welcome', inviteEnvelope P ⟨joiner⟩ (.groupV2 welcome') ∈ (afterOp t).2.cx.ds.published := by
  constructor
  · refine forall_congr' fun joiner ↦ forall_congr' fun hpending ↦ forall_congr' fun _ ↦ ?_
    exact pending_addSigner_iff signers hpending
  · exact fun t joiner welcome hpending hready hjoiner haccepts ↦
      welcome_sent hpending hready hjoiner haccepts

namespace Sample

/-- de-mls takes no further member. -/
abbrev closed : Platform :=
  { Sample.platform with demls := { Sample.demls with
      addMember := fun roster _ ↦ (.error (.other "a round is open"), { core := roster }) } }

/-- `[2]` is invited, and its commit has not landed yet. -/
def inviting : InSession closed (GroupV2Convo closed) where
  convo :=
    { convoId := ""
      conversation := { core := [Sample.seat 0 [1]] }
      pendingInvites := fun joiner ↦ if joiner = [2] then some [] else none }
  cx := Sample.services _

end Sample

set_option maxRecDepth 8000 in
/-- Inviting `[2]` a second time is refused, though it has no seat, and with that the first invite is gone. -/
theorem second_invite_cancels_first :
    Pending Sample.inviting [2] ∧ ¬ Answered [⟨[2]⟩] Sample.inviting [2] (.error .alreadyMember) ∧
      [2] ∉ routed [⟨[2]⟩] Sample.inviting ∧ ¬ Pending (addSigner [⟨[2]⟩] Sample.inviting).2 [2] := by
  refine ⟨rfl, ?_, nofun, nofun⟩
  rintro ⟨answers, hanswers, a, ha, -, hanswer⟩
  obtain rfl := Option.some.inj hanswers
  obtain rfl := List.mem_singleton.mp ha
  cases hanswer

end LogosChat.Conversations.GroupV2
