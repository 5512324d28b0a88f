import LogosChat.Conversations.GroupV2

/-!
# What a GroupV2 drain owes

`afterOp` empties the queues of de-mls before it sends anything.  The welcomes of the joiners we
invited and the outbound frames are then due, in this order, and the first one that the delivery
service refuses ends the operation.
-/

namespace LogosChat.Conversations.GroupV2

open Reasoning

variable {P : Platform} {s t : InSession P (GroupV2Convo P)}

/-! ## The invites due -/

/-- The joiners an event names, each with its welcome. -/
def mentions : ConversationEvent → List (Bytes × MemberWelcome)
  | .welcomeReady welcome => welcome.joinerIdentities.map (·, welcome)
  | _ => []

/-- The first mention of each joiner that is pending. -/
def invitesDue (pending : Bytes → Option Bytes) :
    List (Bytes × MemberWelcome) → List (Bytes × MemberWelcome)
  | [] => []
  | mention :: rest =>
      if (pending mention.1).isSome then
        mention :: invitesDue (Function.update pending mention.1 none) rest
      else invitesDue pending rest

/-- The pending invites without those of `invites`. -/
def forget (pending : Bytes → Option Bytes) (invites : List (Bytes × MemberWelcome)) :
    Bytes → Option Bytes :=
  fun joiner ↦ if joiner ∈ invites.map Prod.fst then none else pending joiner

@[simp] theorem forget_nil (pending : Bytes → Option Bytes) : forget pending [] = pending := by
  funext joiner
  simp [forget]

@[simp] theorem forget_forget (pending : Bytes → Option Bytes)
    (xs ys : List (Bytes × MemberWelcome)) :
    forget (forget pending xs) ys = forget pending (xs ++ ys) := by
  funext joiner
  simp only [forget, List.map_append, List.mem_append]
  by_cases hys : joiner ∈ ys.map Prod.fst
  · rw [if_pos hys, if_pos (.inr hys)]
  · rw [if_neg hys]
    by_cases hxs : joiner ∈ xs.map Prod.fst
    · rw [if_pos hxs, if_pos (.inl hxs)]
    · rw [if_neg hxs, if_neg (not_or.mpr ⟨hxs, hys⟩)]

theorem update_eq_forget (pending : Bytes → Option Bytes) (mention : Bytes × MemberWelcome) :
    Function.update pending mention.1 none = forget pending [mention] := by
  funext joiner
  by_cases h : joiner = mention.1
  · rw [h]
    simp [forget]
  · simp [forget, h]

theorem invitesDue_append (pending : Bytes → Option Bytes) (xs ys : List (Bytes × MemberWelcome)) :
    invitesDue pending (xs ++ ys) =
      invitesDue pending xs ++ invitesDue (forget pending (invitesDue pending xs)) ys := by
  induction xs generalizing pending with
  | nil => simp [invitesDue]
  | cons mention xs ih =>
      rw [List.cons_append, invitesDue, invitesDue]
      by_cases h : (pending mention.1).isSome
      · rw [if_pos h, if_pos h, ih, update_eq_forget, forget_forget]
        rfl
      · rw [if_neg h, if_neg h, ih]

/-- A pending joiner that is mentioned is due. -/
theorem mem_invitesDue {pending : Bytes → Option Bytes} {joiner : Bytes} {welcome : MemberWelcome}
    {all : List (Bytes × MemberWelcome)} (hpending : (pending joiner).isSome)
    (hmention : (joiner, welcome) ∈ all) :
    ∃ welcome', (joiner, welcome') ∈ invitesDue pending all := by
  induction all generalizing pending with
  | nil => cases hmention
  | cons mention all ih =>
      rw [invitesDue]
      by_cases hsame : joiner = mention.1
      · rw [hsame] at hpending
        rw [if_pos hpending, hsame]
        exact ⟨mention.2, List.mem_cons_self⟩
      · have hrest : (joiner, welcome) ∈ all := by
          obtain rfl | hrest := List.mem_cons.mp hmention
          · exact absurd rfl hsame
          · exact hrest
        by_cases h : (pending mention.1).isSome
        · rw [if_pos h]
          have hpending' : ((Function.update pending mention.1 none) joiner).isSome := by
            rwa [Function.update_of_ne hsame]
          obtain ⟨welcome', hmem⟩ := ih hpending' hrest
          exact ⟨welcome', List.mem_cons_of_mem _ hmem⟩
        · rw [if_neg h]
          exact ih hpending hrest

/-! ## Routing -/

def welcomes (P : Platform) (invites : List (Bytes × MemberWelcome)) : List AddressedEnvelope :=
  invites.map fun invite ↦ inviteEnvelope P ⟨invite.1⟩ (.groupV2 invite.2)

/-- From `s` the call sends the welcomes due to those mentioned, and forgets each joiner when its
turn comes, sent or not. -/
structure Routes (mentioned : List (Bytes × MemberWelcome))
    (m : Call (InSession P (GroupV2Convo P)) ChatError Unit) (s : InSession P (GroupV2Convo P)) :
    Prop where
  sends : Sends (·.cx.ds) (welcomes P (invitesDue s.convo.pendingInvites mentioned)) m s
  pending : (m s).2.convo.pendingInvites = forget s.convo.pendingInvites
    ((invitesDue s.convo.pendingInvites mentioned).take
      ((m s).2.cx.ds.requests - s.cx.ds.requests))

theorem routes_nil {m : Call (InSession P (GroupV2Convo P)) ChatError Unit} (h : m s = (.ok (), t))
    (hds : t.cx.ds = s.cx.ds) (hpending : t.convo.pendingInvites = s.convo.pendingInvites) :
    Routes [] m s where
  sends := sends_nil h hds
  pending := by
    rw [h, hpending]
    simp [invitesDue]

theorem routeWelcome_of_pending {joiner : Bytes} (h : (s.convo.pendingInvites joiner).isSome)
    (welcome : MemberWelcome) :
    routeWelcome welcome joiner s =
      InSession.onCx (inviteUser ⟨joiner⟩ welcome) { s with convo := setPending joiner none s.convo } := by
  unfold routeWelcome
  rw [Call.read_bind, if_pos h]
  rfl

theorem routeWelcome_of_not_pending {joiner : Bytes} (h : ¬ (s.convo.pendingInvites joiner).isSome)
    (welcome : MemberWelcome) : routeWelcome welcome joiner s = (.ok (), s) := by
  unfold routeWelcome
  rw [Call.read_bind, if_neg h]
  rfl

theorem routes_routeWelcome (welcome : MemberWelcome) (joiner : Bytes)
    (s : InSession P (GroupV2Convo P)) :
    Routes [(joiner, welcome)] (routeWelcome welcome joiner) s := by
  by_cases hpending : (s.convo.pendingInvites joiner).isSome
  · have hdue : invitesDue s.convo.pendingInvites [(joiner, welcome)] = [(joiner, welcome)] := by
      simp [invitesDue, hpending]
    have hsends : Sends (·.cx.ds) (welcomes P [(joiner, welcome)]) (routeWelcome welcome joiner) s := by
      apply Sends.of_eq _ (routeWelcome_of_pending hpending welcome) rfl
      exact Sends.onCx (sends_publish _ s.cx).mapErr
    constructor
    · rw [hdue]
      exact hsends
    · obtain ⟨n, hle, hpos, hrequests⟩ := hsends.requests
      have hn : n = 1 := by
        have := hpos (by simp [welcomes])
        simp [welcomes] at hle
        omega
      rw [hdue, hrequests, hn, Nat.add_sub_cancel_left, List.take_of_length_le (by simp),
        routeWelcome_of_pending hpending]
      exact update_eq_forget _ (joiner, welcome)
  · have hdue : invitesDue s.convo.pendingInvites [(joiner, welcome)] = [] := by
      simp [invitesDue, hpending]
    have hcall := routeWelcome_of_not_pending hpending welcome
    constructor
    · rw [hdue]
      exact sends_nil hcall rfl
    · rw [hdue, hcall]
      simp

theorem Routes.bind {xs ys : List (Bytes × MemberWelcome)}
    {m : Call (InSession P (GroupV2Convo P)) ChatError Unit}
    {f : Unit → Call (InSession P (GroupV2Convo P)) ChatError Unit} (hm : Routes xs m s)
    (hf : ∀ t, m s = (.ok (), t) → Routes ys (f ()) t) : Routes (xs ++ ys) (m >>= f) s := by
  have hsplit := invitesDue_append s.convo.pendingInvites xs ys
  by_cases haccepts : s.cx.ds.Accepts (welcomes P (invitesDue s.convo.pendingInvites xs)).length
  · obtain ⟨_, t, hfirst, hds⟩ := hm.sends.accepted haccepts
    have hrest := hf t hfirst
    have hrequests : t.cx.ds.requests = s.cx.ds.requests + (invitesDue s.convo.pendingInvites xs).length := by
      rw [hds]
      simp [welcomes]
    have hpending : t.convo.pendingInvites =
        forget s.convo.pendingInvites (invitesDue s.convo.pendingInvites xs) := by
      have := hm.pending
      rw [hfirst, hrequests, Nat.add_sub_cancel_left, List.take_length] at this
      exact this
    constructor
    · rw [hsplit, welcomes, List.map_append]
      apply hm.sends.bind
      intro _ t' ht'
      rw [hfirst] at ht'
      cases ht'
      rw [← hpending]
      exact hrest.sends
    · obtain ⟨n, -, -, hmore⟩ := hrest.sends.requests
      rw [Call.bind_of_ok hfirst, hrest.pending, hsplit, hmore, hrequests, hpending, forget_forget]
      have hcount : s.cx.ds.requests + (invitesDue s.convo.pendingInvites xs).length + n -
          s.cx.ds.requests = (invitesDue s.convo.pendingInvites xs).length + n := by omega
      rw [hcount, Nat.add_sub_cancel_left, List.take_length_add_append]
  · obtain ⟨e, t, -, hfirst, -⟩ := hm.sends.refused haccepts
    constructor
    · rw [hsplit, welcomes, List.map_append]
      apply hm.sends.bind
      intro _ t' ht'
      rw [hfirst] at ht'
      cases ht'
    · have hrequests : t.cx.ds.requests - s.cx.ds.requests ≤
          (invitesDue s.convo.pendingInvites xs).length := by
        obtain ⟨n, hn, -, hmore⟩ := hm.sends.requests
        rw [hfirst] at hmore
        simp only [welcomes, List.length_map] at hn
        rw [hmore]
        omega
      have hpending := hm.pending
      rw [hfirst] at hpending
      rw [Call.bind_of_err hfirst, hsplit, List.take_append_of_le_length hrequests, hpending]

theorem routes_each (welcome : MemberWelcome) (joiners : List Bytes) (s : InSession P (GroupV2Convo P)) :
    Routes (joiners.map (·, welcome)) (Call.each (routeWelcome welcome) joiners) s := by
  induction joiners generalizing s with
  | nil => exact routes_nil (Call.pure_apply () s) rfl rfl
  | cons joiner joiners ih => exact (routes_routeWelcome welcome joiner s).bind fun t _ ↦ ih t

theorem routes_routeEvent (event : ConversationEvent) (s : InSession P (GroupV2Convo P)) :
    Routes (mentions event) (routeEvent event) s := by
  cases event with
  | welcomeReady welcome => exact routes_each welcome welcome.joinerIdentities s
  | membersChanged added removed => exact routes_nil rfl rfl rfl
  | conversationMessage message sender => exact routes_nil rfl rfl rfl
  | commitApplied => exact routes_nil rfl rfl rfl
  | leaving => exact routes_nil rfl rfl rfl
  | other => exact routes_nil rfl rfl rfl

theorem routes_events (events : List ConversationEvent) (s : InSession P (GroupV2Convo P)) :
    Routes (events.flatMap mentions) (Call.each routeEvent events) s := by
  induction events generalizing s with
  | nil => exact routes_nil (Call.pure_apply () s) rfl rfl
  | cons event events ih =>
      rw [List.flatMap_cons]
      exact (routes_routeEvent event s).bind fun t _ ↦ ih t

/-! ## A whole drain -/

/-- The state with the queues of de-mls emptied. -/
def drained (s : InSession P (GroupV2Convo P)) : InSession P (GroupV2Convo P) :=
  { s with convo := { s.convo with
      conversation := { s.convo.conversation with events := [], outbound := [] } } }

def invitesOf (s : InSession P (GroupV2Convo P)) : List (Bytes × MemberWelcome) :=
  invitesDue s.convo.pendingInvites (s.convo.conversation.events.flatMap mentions)

/-- All that a drain of `s` has to send. -/
def due (s : InSession P (GroupV2Convo P)) : List AddressedEnvelope :=
  welcomes P (invitesOf s) ++ s.convo.conversation.outbound.map (frameEnvelope P)

def armed (s : InSession P (GroupV2Convo P)) : List (Nat × String) :=
  (s.convo.conversation.nextWakeupIn.map (·, s.convo.convoId)).toList

/-- What sending leaves alone. -/
def aside (s : InSession P (GroupV2Convo P)) : Conversation P.demls × String × ServiceContext P :=
  (s.convo.conversation, s.convo.convoId, { s.cx with ds := {} })

/-- What a whole drain leaves alone: it arms a wakeup in the end. -/
def unarmed (s : InSession P (GroupV2Convo P)) : Conversation P.demls × String × ServiceContext P :=
  (s.convo.conversation, s.convo.convoId, { s.cx with ds := {}, wakeups := [] })

theorem routeWelcome_keeps (welcome : MemberWelcome) (joiner : Bytes) :
    (routeWelcome welcome joiner : Call (InSession P (GroupV2Convo P)) _ _).Keeps (Call.Same aside) := by
  intro s
  by_cases hpending : (s.convo.pendingInvites joiner).isSome
  · rw [routeWelcome_of_pending hpending]
    rfl
  · rw [routeWelcome_of_not_pending hpending]
    rfl

theorem routeEvent_keeps (event : ConversationEvent) :
    (routeEvent event : Call (InSession P (GroupV2Convo P)) _ _).Keeps (Call.Same aside) := by
  cases event with
  | welcomeReady welcome => exact Call.Keeps.each fun _ _ ↦ routeWelcome_keeps welcome _
  | membersChanged added removed => exact fun _ ↦ rfl
  | conversationMessage message sender => exact Call.keeps_pure ()
  | commitApplied => exact Call.keeps_pure ()
  | leaving => exact Call.keeps_pure ()
  | other => exact Call.keeps_pure ()

theorem publishFrame_keeps (out : Outbound) :
    (publishFrame out : Call (InSession P (GroupV2Convo P)) _ _).Keeps (Call.Same aside) :=
  fun _ ↦ rfl

/-- `afterOp` once the welcomes are routed. -/
def publishAll (events : List ConversationEvent) (outbound : List Outbound) (wakeup : Option Nat) :
    Call (InSession P (GroupV2Convo P)) ChatError (List ConversationEvent × Option Bytes) := do
  Call.each publishFrame outbound
  rearm wakeup
  pure (events, (outbound.map (encodeFrame P)).getLast?)

theorem afterOp_eq (s : InSession P (GroupV2Convo P)) :
    afterOp s = (Call.each routeEvent s.convo.conversation.events >>= fun _ ↦
      publishAll s.convo.conversation.events s.convo.conversation.outbound
        s.convo.conversation.nextWakeupIn) (drained s) := rfl

theorem sends_frames (outbound : List Outbound) (s : InSession P (GroupV2Convo P)) :
    Sends (·.cx.ds) (outbound.map (frameEnvelope P)) (Call.each publishFrame outbound) s :=
  Sends.each (fun out t ↦ Sends.mapErr (Sends.onCx (sends_publish (frameEnvelope P out) t.cx)))
    outbound s

theorem rearm_eq (wakeup : Option Nat) (s : InSession P (GroupV2Convo P)) :
    rearm wakeup s = (.ok (), { s with cx := { s.cx with
      wakeups := s.cx.wakeups ++ (wakeup.map (·, s.convo.convoId)).toList } }) := by
  cases wakeup with
  | none =>
      rw [Option.map_none, Option.toList_none, List.append_nil]
      rfl
  | some duration => rfl

theorem sends_publishAll (events : List ConversationEvent) (outbound : List Outbound)
    (wakeup : Option Nat) (s : InSession P (GroupV2Convo P)) :
    Sends (·.cx.ds) (outbound.map (frameEnvelope P)) (publishAll events outbound wakeup) s := by
  apply (sends_frames outbound s).followed
  intro _ t _
  rw [Call.bind_of_ok (rearm_eq wakeup t)]
  exact ⟨_, _, rfl, rfl⟩

/-- The frames are published on the services alone. -/
theorem publishAll_convo (events : List ConversationEvent) (outbound : List Outbound)
    (wakeup : Option Nat) :
    (publishAll events outbound wakeup : Call (InSession P (GroupV2Convo P)) _ _).Keeps
      (Call.Same InSession.convo) := by
  refine (Call.Keeps.each fun _ _ ↦ (InSession.keeps_onCx _).mapErr).bind fun _ ↦ ?_
  refine Call.Keeps.bind (fun t ↦ ?_) fun _ ↦ Call.keeps_pure _
  rw [rearm_eq]
  rfl

theorem Same.unarmed {m : Call (InSession P (GroupV2Convo P)) ChatError Unit}
    (h : m.Keeps (Call.Same aside)) : m.Keeps (Call.Same unarmed) :=
  h.mono fun _ _ hst ↦ congrArg (fun a : Conversation P.demls × String × ServiceContext P ↦
    (a.1, a.2.1, ({ a.2.2 with wakeups := [] } : ServiceContext P))) hst

/-- However the drain ends, the queues are empty and nothing aside has changed. -/
theorem afterOp_unarmed (s : InSession P (GroupV2Convo P)) :
    unarmed (afterOp s).2 = unarmed (drained s) := by
  have hkeeps : (Call.each routeEvent s.convo.conversation.events >>= fun _ ↦
      publishAll s.convo.conversation.events s.convo.conversation.outbound
        s.convo.conversation.nextWakeupIn : Call (InSession P (GroupV2Convo P)) _ _).Keeps
      (Call.Same unarmed) := by
    refine (Same.unarmed (Call.Keeps.each fun _ _ ↦ routeEvent_keeps _)).bind fun _ ↦ ?_
    refine (Same.unarmed (Call.Keeps.each fun _ _ ↦ publishFrame_keeps _)).bind fun _ ↦ ?_
    refine Call.Keeps.bind (fun t ↦ ?_) fun _ ↦ Call.keeps_pure _
    rw [rearm_eq]
    rfl
  exact hkeeps (drained s)

theorem sends_afterOp (s : InSession P (GroupV2Convo P)) : Sends (·.cx.ds) (due s) afterOp s := by
  have hsends := (routes_events s.convo.conversation.events (drained s)).sends.bind fun _ t _ ↦
    sends_publishAll s.convo.conversation.events s.convo.conversation.outbound
      s.convo.conversation.nextWakeupIn t
  exact hsends.of_eq (afterOp_eq s) rfl

/-- When all that is due is accepted the drain succeeds and the wakeup is armed. -/
theorem afterOp_of_accepts (h : s.cx.ds.Accepts (due s).length) :
    ∃ post t, afterOp s = (.ok (s.convo.conversation.events, post), t) ∧
      t.cx.ds = s.cx.ds.delivered (due s) ∧ t.cx.wakeups = s.cx.wakeups ++ armed s := by
  have hsplit := h
  rw [due, List.length_append, DeliveryService.accepts_add_iff] at hsplit
  obtain ⟨_, t, hroute, hds⟩ :=
    (routes_events s.convo.conversation.events (drained s)).sends.accepted hsplit.1
  have hframes : t.cx.ds.Accepts (s.convo.conversation.outbound.map (frameEnvelope P)).length := by
    rw [hds]
    exact hsplit.2
  obtain ⟨_, u, hpublish, hds'⟩ := (sends_frames s.convo.conversation.outbound t).accepted hframes
  have haside : aside t = aside (drained s) := (Call.Keeps.each fun _ _ ↦ routeEvent_keeps _).of_eq hroute
  have haside' : aside u = aside t := (Call.Keeps.each fun _ _ ↦ publishFrame_keeps _).of_eq hpublish
  have hwakeups : u.cx.wakeups = s.cx.wakeups :=
    congrArg (fun a ↦ a.2.2.wakeups) (haside'.trans haside)
  have hconvoId : u.convo.convoId = s.convo.convoId :=
    congrArg (fun a ↦ a.2.1) (haside'.trans haside)
  have hcall : afterOp s = (.ok (s.convo.conversation.events,
      (s.convo.conversation.outbound.map (encodeFrame P)).getLast?), { u with cx := { u.cx with
        wakeups := u.cx.wakeups ++
          (s.convo.conversation.nextWakeupIn.map (·, u.convo.convoId)).toList } }) := by
    rw [afterOp_eq, Call.bind_of_ok hroute, publishAll, Call.bind_of_ok hpublish,
      Call.bind_of_ok (rearm_eq _ u)]
    rfl
  refine ⟨_, _, hcall, ?_, ?_⟩
  · show u.cx.ds = _
    rw [hds', hds, DeliveryService.delivered_delivered]
    rfl
  · show u.cx.wakeups ++ _ = _
    rw [hwakeups, hconvoId]
    rfl

/-- Whoever's turn came is no longer pending. -/
theorem afterOp_pending (s : InSession P (GroupV2Convo P)) :
    (afterOp s).2.convo.pendingInvites = forget s.convo.pendingInvites
      ((invitesOf s).take ((afterOp s).2.cx.ds.requests - s.cx.ds.requests)) := by
  have hroutes := routes_events s.convo.conversation.events (drained s)
  have hpending := hroutes.pending
  by_cases haccepts : s.cx.ds.Accepts (welcomes P (invitesOf s)).length
  · obtain ⟨_, t, hroute, hds⟩ := hroutes.sends.accepted haccepts
    have hrequests : t.cx.ds.requests = s.cx.ds.requests + (invitesOf s).length := by
      rw [hds]
      simp [welcomes, invitesOf, drained]
    rw [hroute, hrequests] at hpending
    -- publishing the frames adds requests and touches no invite
    rw [afterOp_eq, Call.bind_of_ok hroute]
    have hconvo := publishAll_convo s.convo.conversation.events s.convo.conversation.outbound
      s.convo.conversation.nextWakeupIn t
    obtain ⟨n, -, -, hmore⟩ := (sends_publishAll s.convo.conversation.events
      s.convo.conversation.outbound s.convo.conversation.nextWakeupIn t).requests
    rw [hconvo, hpending, hmore, hrequests]
    have hfew : s.cx.ds.requests + (invitesOf s).length - (drained s).cx.ds.requests =
        (invitesOf s).length := Nat.add_sub_cancel_left _ _
    rw [hfew]
    show forget _ ((invitesOf s).take _) = _
    rw [List.take_of_length_le (by omega), List.take_of_length_le (by omega)]
    rfl
  · obtain ⟨e, t, -, hroute, -⟩ := hroutes.sends.refused haccepts
    rw [hroute] at hpending
    have hcall : afterOp s = (.err e, t) := (afterOp_eq s).trans (Call.bind_of_err hroute)
    rw [hcall]
    exact hpending

/-! ## A failed delivery -/

/-- Nothing that was drained from `s` is lost in a call that then returned `r` in state `t`. -/
structure NothingLost (s : InSession P (GroupV2Convo P)) (r : Result ChatError ConvoOutcome)
    (t : InSession P (GroupV2Convo P)) : Prop where
  -- a post of a valid sender is reported, or still queued
  post : ∀ message sender reliable,
    .conversationMessage (some (.conversationMessage message)) sender ∈ s.convo.conversation.events →
    (Signer.fromLeaf sender.signatureKey sender.credential.serializedContent).authStatus s.cx.auth =
      .valid →
    P.proto.decodeReliable message = .ok reliable →
    (∃ outcome, r = .ok outcome ∧ .content
      { bytes := reliable.content
        sender := ⟨.fromLeaf sender.signatureKey sender.credential.serializedContent⟩
        messageId := reliable.messageId } ∈ outcome.observations) ∨
    .conversationMessage (some (.conversationMessage message)) sender ∈ t.convo.conversation.events
  -- each welcome and each frame was published, or is still due
  sent : ∃ new, t.cx.ds.published = s.cx.ds.published ++ new ∧ (due s).Subperm (new ++ due t)
  alarm : ∀ duration, s.convo.conversation.nextWakeupIn = some duration →
    ∃ new, t.cx.wakeups = s.cx.wakeups ++ new ∧ (duration, s.convo.convoId) ∈ new

/-- At most one post, as de-mls emits for a frame. -/
def OnePost (s : InSession P (GroupV2Convo P)) : Prop :=
  (s.convo.conversation.events.filterMap postOf).length ≤ 1

theorem findSome?_postOf {events : List ConversationEvent} {message : Bytes} {sender : LeafNode}
    (hone : (events.filterMap postOf).length ≤ 1)
    (hmem : .conversationMessage (some (.conversationMessage message)) sender ∈ events) :
    events.findSome? postOf = some (message, sender) := by
  have hpost : (message, sender) ∈ events.filterMap postOf := List.mem_filterMap.mpr ⟨_, hmem, rfl⟩
  rw [← List.head?_filterMap]
  cases hall : events.filterMap postOf with
  | nil =>
      rw [hall] at hpost
      cases hpost
  | cons post rest =>
      rw [hall] at hpost hone
      have hrest : rest = [] := List.eq_nil_of_length_eq_zero (by simpa using hone)
      rw [hrest] at hpost
      rw [List.mem_singleton.mp hpost]
      rfl

theorem afterOp_queues (s : InSession P (GroupV2Convo P)) :
    (afterOp s).2.convo.conversation.events = [] ∧ (afterOp s).2.convo.conversation.outbound = [] := by
  have hconversation : (afterOp s).2.convo.conversation = (drained s).convo.conversation :=
    congrArg Prod.fst (afterOp_unarmed s)
  rw [hconversation]
  exact ⟨rfl, rfl⟩

theorem due_of_queues (h : t.convo.conversation.events = [] ∧ t.convo.conversation.outbound = []) :
    due t = [] := by
  rw [due, invitesOf, h.1, h.2]
  rfl

theorem readPost_keeps (message : Bytes) (sender : LeafNode) :
    (readPost message sender : Call (InSession P (GroupV2Convo P)) _ _).Keeps
      (Call.Same fun s ↦ (s.convo, s.cx.ds, s.cx.wakeups)) := by
  refine (Call.keeps_ofResult _).bind fun _ ↦ (Call.keeps_read _).bind fun _ ↦ ?_
  refine Call.Keeps.bind (fun _ ↦ rfl) fun _ ↦ ?_
  exact (Call.keeps_read _).bind fun _ ↦ Call.keeps_pure _

/-- Reading the events touches the causal history alone. -/
theorem outcomeFromEvents_keeps (events : List ConversationEvent) :
    (outcomeFromEvents events : Call (InSession P (GroupV2Convo P)) _ _).Keeps
      (Call.Same fun s ↦ (s.convo, s.cx.ds, s.cx.wakeups)) := by
  unfold outcomeFromEvents
  cases events.findSome? postOf with
  | none => exact (Call.keeps_pure _).bind fun _ ↦ (Call.keeps_read _).bind fun _ ↦ Call.keeps_pure _
  | some post =>
      refine (readPost_keeps post.1 post.2).bind fun _ ↦ ?_
      exact (Call.keeps_read _).bind fun _ ↦ Call.keeps_pure _

theorem outcomeFromEvents_of_post {events : List ConversationEvent} {message : Bytes}
    {sender : LeafNode} {reliable : ReliablePayload}
    (hpost : events.findSome? postOf = some (message, sender))
    (hvalid : (Signer.fromLeaf sender.signatureKey sender.credential.serializedContent).authStatus
      s.cx.auth = .valid)
    (hdecode : P.proto.decodeReliable message = .ok reliable) :
    ∃ outcome t, outcomeFromEvents events s = (.ok outcome, t) ∧ .content
      { bytes := reliable.content
        sender := ⟨.fromLeaf sender.signatureKey sender.credential.serializedContent⟩
        messageId := reliable.messageId } ∈ outcome.observations := by
  have hread : readPost message sender s = (.ok (some
      { bytes := reliable.content
        sender := ⟨.fromLeaf sender.signatureKey sender.credential.serializedContent⟩
        messageId := reliable.messageId }),
      { s with cx := { s.cx with causal := (s.cx.causal.onReceive s.convo.convoId reliable).2 } }) := by
    unfold readPost
    rw [hdecode, orErr, Call.ofResult_ok_bind, Call.read_bind]
    show (Result.ok (Option.map _ ((Signer.fromLeaf sender.signatureKey
      sender.credential.serializedContent).requireValid s.cx.auth)), _) = _
    rw [Signer.requireValid_of_valid hvalid]
    rfl
  unfold outcomeFromEvents
  rw [hpost]
  refine ⟨_, _, Call.bind_of_ok hread, ?_⟩
  simp

/-- What is drained survives exactly when every send that is due is accepted. -/
theorem report_nothingLost_iff (hone : OnePost s) :
    NothingLost s (report s).1 (report s).2 ↔ s.cx.ds.Accepts (due s).length := by
  constructor
  · intro hlost
    by_contra hnot
    obtain ⟨e, t, k, hcall, hk, -, hds⟩ := (sends_afterOp s).refused hnot
    have hqueues := afterOp_queues s
    rw [hcall] at hqueues
    have hreport : report s = (.err e, t) := Call.bind_of_err hcall
    rw [hreport] at hlost
    obtain ⟨new, hpublished, hsubperm⟩ := hlost.sent
    have hnew : new = (due s).take k := by
      rw [hds] at hpublished
      exact (List.append_cancel_left hpublished).symm
    have hlength := hsubperm.length_le
    rw [due_of_queues hqueues, List.append_nil, hnew, List.length_take] at hlength
    omega
  · intro haccepts
    obtain ⟨post, t, hcall, hds, hwakeups⟩ := afterOp_of_accepts haccepts
    have hreport : report s = outcomeFromEvents s.convo.conversation.events t := Call.bind_of_ok hcall
    have hkeeps := outcomeFromEvents_keeps s.convo.conversation.events t
    have hunarmed := afterOp_unarmed s
    rw [hcall] at hunarmed
    have hauth : t.cx.auth = s.cx.auth := congrArg (fun a ↦ a.2.2.auth) hunarmed
    rw [hreport]
    constructor
    · intro message sender reliable hmem hvalid hdecode
      rw [← hauth] at hvalid
      obtain ⟨outcome, u, houtcome, hcontent⟩ :=
        outcomeFromEvents_of_post (findSome?_postOf hone hmem) hvalid hdecode
      exact .inl ⟨outcome, by rw [houtcome], hcontent⟩
    · have hpublished : (outcomeFromEvents s.convo.conversation.events t).2.cx.ds = t.cx.ds :=
        congrArg (fun a ↦ a.2.1) hkeeps
      refine ⟨due s, by rw [hpublished, hds]; rfl, ?_⟩
      exact (List.sublist_append_left _ _).subperm
    · intro duration hnext
      have harmed : (outcomeFromEvents s.convo.conversation.events t).2.cx.wakeups = t.cx.wakeups :=
        congrArg (fun a ↦ a.2.2) hkeeps
      refine ⟨armed s, by rw [harmed, hwakeups], ?_⟩
      rw [armed, hnext]
      exact List.mem_singleton_self _

/-- What drives a conversation from outside. -/
inductive Incoming where
  | frame (bytes : Bytes)
  | alarm

def Incoming.call : Incoming → Call (InSession P (GroupV2Convo P)) ChatError ConvoOutcome
  | .frame bytes => handlePayload bytes
  | .alarm => wakeup

/-- The part of the call before its drain, and whether there is one. -/
def Incoming.prepare : Incoming → Call (InSession P (GroupV2Convo P)) ChatError Bool
  | .frame bytes => feed bytes
  | .alarm => do
      onConversation Conversation.poll
      pure true

theorem Incoming.call_of_prepare {incoming : Incoming} (h : incoming.prepare s = (.ok true, t)) :
    incoming.call s = report t := by
  cases incoming with
  | frame bytes => exact Call.bind_of_ok h
  | alarm =>
      obtain ⟨-, rfl⟩ := Prod.mk.inj h
      rfl

/-- Whatever a payload or a wakeup drains survives the call exactly when the delivery service accepts
all that is due then. -/
theorem drain_survives_iff (incoming : Incoming) (s : InSession P (GroupV2Convo P)) :
    (∀ t, incoming.prepare s = (.ok true, t) → OnePost t →
      NothingLost t (incoming.call s).1 (incoming.call s).2) ↔
    ∀ t, incoming.prepare s = (.ok true, t) → OnePost t → t.cx.ds.Accepts (due t).length := by
  refine forall_congr' fun t ↦ forall_congr' fun hprepare ↦ forall_congr' fun hone ↦ ?_
  rw [incoming.call_of_prepare hprepare]
  exact report_nothingLost_iff hone

namespace Sample

def welcome : MemberWelcome := ⟨[], [], [[2]]⟩

def post : ConversationEvent := .conversationMessage (some (.conversationMessage [7])) ⟨[3], ⟨true, []⟩⟩

def reliable : ReliablePayload :=
  { messageId := "", senderId := "", channelId := "", lamportTimestamp := 1, causalHistory := []
    bloomFilter := [], content := [7] }

/-- A poll that lands the commit admitting `[2]`, reads a post and queues a frame. -/
abbrev busy : Platform :=
  { Sample.platform with
    proto := { Sample.proto with decodeReliable := fun _ ↦ .ok reliable }
    demls := { Sample.demls with
      nextWakeupIn := fun _ ↦ some 5
      poll := fun roster ↦
        { core := roster, events := [.welcomeReady welcome, post], outbound := [⟨"", [], [8]⟩] } } }

/-- `[2]` is invited, and the delivery service is out of reach. -/
def busyOffline : InSession busy (GroupV2Convo busy) where
  convo :=
    { convoId := ""
      conversation := { core := [Sample.seat 0 [1]] }
      pendingInvites := fun joiner ↦ if joiner = [2] then some [] else none }
  cx := { Sample.services _ with ds := Sample.offline }

end Sample

/-- The welcome is refused: with it go the frame, the post of a valid sender and the alarm, and the
invite is no longer pending. -/
theorem refused_welcome_loses_drain :
    ∃ e t u, Incoming.alarm.prepare Sample.busyOffline = (.ok true, t) ∧ OnePost t ∧
      Incoming.alarm.call Sample.busyOffline = (.err e, u) ∧ ¬ NothingLost t (.err e) u ∧
      u.convo.conversation.events = [] ∧ u.convo.conversation.outbound = [] ∧
      u.convo.pendingInvites [2] = none ∧ u.cx.ds.published = [] ∧ u.cx.wakeups = [] := by
  refine ⟨_, _, _, rfl, Nat.le_refl 1, rfl, ?_, rfl, rfl, rfl, rfl, rfl⟩
  intro hlost
  obtain ⟨new, hnew, hmem⟩ := hlost.alarm 5 rfl
  have hnil : [] = new := hnew
  rw [← hnil] at hmem
  cases hmem

end LogosChat.Conversations.GroupV2
