import LogosChat.Conversations.Services

/-!
# Calls that publish

Most operations publish a list of envelopes one by one and stop at the first one the delivery
service refuses.  `Sends` says so of a call, and a sequence of such calls is one again.
-/

namespace LogosChat.Conversations

open Reasoning

namespace DeliveryService

variable {ds : DeliveryService} {m n : Nat}

@[simp] theorem delivered_nil (ds : DeliveryService) : ds.delivered [] = ds := by
  simp [delivered]

@[simp] theorem delivered_delivered (ds : DeliveryService) (xs ys : List AddressedEnvelope) :
    (ds.delivered xs).delivered ys = ds.delivered (xs ++ ys) := by
  simp [delivered, Nat.add_assoc]

@[simp] theorem delivered_published (ds : DeliveryService) (xs : List AddressedEnvelope) :
    (ds.delivered xs).published = ds.published ++ xs := rfl

@[simp] theorem refused_published (ds : DeliveryService) : ds.refused.published = ds.published := rfl

@[simp] theorem delivered_requests (ds : DeliveryService) (xs : List AddressedEnvelope) :
    (ds.delivered xs).requests = ds.requests + xs.length := rfl

@[simp] theorem refused_requests (ds : DeliveryService) : ds.refused.requests = ds.requests + 1 := rfl

theorem Accepts.mono (h : ds.Accepts n) (hmn : m ≤ n) : ds.Accepts m :=
  fun k hk ↦ h k (by omega)

/-- The service accepts a list and then `n` more. -/
theorem accepts_add_iff {xs : List AddressedEnvelope} :
    ds.Accepts (xs.length + n) ↔ ds.Accepts xs.length ∧ (ds.delivered xs).Accepts n := by
  refine ⟨fun h ↦ ⟨h.mono (by omega), fun k hk ↦ ?_⟩, fun h k hk ↦ ?_⟩
  · have hlater := h (xs.length + k) (by omega)
    show ds.answers (ds.requests + xs.length + k) = none
    rwa [Nat.add_assoc]
  · by_cases hfirst : k < xs.length
    · exact h.1 k hfirst
    · have hlater : ds.answers (ds.requests + xs.length + (k - xs.length)) = none :=
        h.2 (k - xs.length) (by omega)
      have hsum : ds.requests + xs.length + (k - xs.length) = ds.requests + k := by omega
      rwa [hsum] at hlater

theorem accepts_one_iff : ds.Accepts 1 ↔ ds.answers ds.requests = none := by
  refine ⟨fun h ↦ h 0 (by omega), fun h k hk ↦ ?_⟩
  have hzero : k = 0 := by omega
  rw [hzero]
  exact h

/-- The request `k` from now is the first one that the service refuses. -/
def RefusesAt (ds : DeliveryService) (k : Nat) : Prop := ds.Accepts k ∧ ¬ ds.Accepts (k + 1)

theorem RefusesAt.unique {j k : Nat} (hj : ds.RefusesAt j) (hk : ds.RefusesAt k) : j = k := by
  by_contra hne
  obtain hlt | hlt := Nat.lt_or_gt_of_ne hne
  · exact hj.2 (hk.1.mono (by omega))
  · exact hk.2 (hj.1.mono (by omega))

theorem RefusesAt.not_accepts {k : Nat} (h : ds.RefusesAt k) (hlt : k < n) : ¬ ds.Accepts n :=
  fun haccepts ↦ h.2 (haccepts.mono (by omega))

theorem publish_of_accepts (envelope : AddressedEnvelope) (h : ds.Accepts 1) :
    publish envelope ds = (.ok (), ds.delivered [envelope]) := by
  rw [publish, accepts_one_iff.mp h]

theorem publish_of_refuses (envelope : AddressedEnvelope) (h : ¬ ds.Accepts 1) :
    ∃ e, publish envelope ds = (.err e, ds.refused) := by
  rw [accepts_one_iff] at h
  unfold publish
  cases hanswer : ds.answers ds.requests with
  | none => exact absurd hanswer h
  | some e => exact ⟨e, rfl⟩

theorem subscribe_of_accepts (h : ds.Accepts 1) : subscribe ds = (.ok (), ds.refused) := by
  rw [subscribe, accepts_one_iff.mp h]

theorem subscribe_of_refuses (h : ¬ ds.Accepts 1) : ∃ e, subscribe ds = (.err e, ds.refused) := by
  rw [accepts_one_iff] at h
  unfold subscribe
  cases hanswer : ds.answers ds.requests with
  | none => exact absurd hanswer h
  | some e => exact ⟨e, rfl⟩

theorem publish_answers (envelope : AddressedEnvelope) (ds : DeliveryService) :
    (publish envelope ds).2.answers = ds.answers := by
  unfold publish
  split <;> rfl

theorem subscribe_answers (ds : DeliveryService) : (subscribe ds).2.answers = ds.answers := by
  unfold subscribe
  split <;> rfl

end DeliveryService

section Sends

variable {σ ε ε' α β : Type}

/-- From `s` the call publishes `due` in order and succeeds, unless the service refuses one of them:
then it fails at the first such one. -/
structure Sends (get : σ → DeliveryService) (due : List AddressedEnvelope) (m : Call σ ε α) (s : σ) :
    Prop where
  accepted : (get s).Accepts due.length →
    ∃ a t, m s = (.ok a, t) ∧ get t = (get s).delivered due
  refused : ¬ (get s).Accepts due.length →
    ∃ e t k, m s = (.err e, t) ∧ k < due.length ∧ (get s).RefusesAt k ∧
      get t = ((get s).delivered (due.take k)).refused

variable {get : σ → DeliveryService} {due xs ys : List AddressedEnvelope} {m : Call σ ε α}
  {f : α → Call σ ε β} {s t : σ}

/-- A step that succeeds and publishes nothing. -/
theorem sends_nil {a : α} (h : m s = (.ok a, t)) (hget : get t = get s) : Sends get [] m s where
  accepted _ := ⟨a, t, h, by rw [hget, DeliveryService.delivered_nil]⟩
  refused hnot := absurd (fun k hk ↦ by simp at hk) hnot

-- after steps that publish nothing
theorem Sends.of_eq {m' : Call σ ε α} {s' : σ} (h : Sends get due m' s') (hm : m s = m' s')
    (hget : get s = get s') : Sends get due m s where
  accepted := by
    rw [hm, hget]
    exact h.accepted
  refused := by
    rw [hm, hget]
    exact h.refused

theorem Sends.bind (hm : Sends get xs m s)
    (hf : ∀ a t, m s = (.ok a, t) → Sends get ys (f a) t) : Sends get (xs ++ ys) (m >>= f) s where
  accepted haccepts := by
    rw [List.length_append, DeliveryService.accepts_add_iff] at haccepts
    rcases hm.accepted haccepts.1 with ⟨a, t, hfirst, hget⟩
    rw [← hget] at haccepts
    rcases (hf a t hfirst).accepted haccepts.2 with ⟨b, u, hsecond, hget'⟩
    refine ⟨b, u, by rw [Call.bind_of_ok hfirst, hsecond], ?_⟩
    rw [hget', hget, DeliveryService.delivered_delivered]
  refused hnot := by
    rw [List.length_append, DeliveryService.accepts_add_iff] at hnot
    by_cases hxs : (get s).Accepts xs.length
    · rcases hm.accepted hxs with ⟨a, t, hfirst, hget⟩
      have hys : ¬ (get t).Accepts ys.length := by
        rw [hget]
        exact fun h ↦ hnot ⟨hxs, h⟩
      rcases (hf a t hfirst).refused hys with ⟨e, u, k, hsecond, hk, hat, hget'⟩
      refine ⟨e, u, xs.length + k, by rw [Call.bind_of_ok hfirst, hsecond], ?_, ?_, ?_⟩
      · rw [List.length_append]
        omega
      · rw [hget] at hat
        constructor
        · exact DeliveryService.accepts_add_iff.mpr ⟨hxs, hat.1⟩
        · rw [Nat.add_assoc, DeliveryService.accepts_add_iff]
          exact fun h ↦ hat.2 h.2
      · rw [hget', hget, DeliveryService.delivered_delivered, List.take_length_add_append]
    · rcases hm.refused hxs with ⟨e, t, k, hfirst, hk, hat, hget⟩
      refine ⟨e, t, k, Call.bind_of_err hfirst, ?_, hat, ?_⟩
      · rw [List.length_append]
        omega
      · rw [hget, List.take_append_of_le_length (by omega)]

/-- What follows publishes nothing and does not fail. -/
theorem Sends.followed (hm : Sends get due m s)
    (hf : ∀ a t, m s = (.ok a, t) → ∃ b u, f a t = (.ok b, u) ∧ get u = get t) :
    Sends get due (m >>= f) s := by
  have hsends := hm.bind fun a t ht ↦ by
    obtain ⟨b, u, hu, hget⟩ := hf a t ht
    exact sends_nil hu hget
  rwa [List.append_nil] at hsends

theorem Sends.each {γ : Type} {f : γ → Call σ ε Unit} {envelope : γ → AddressedEnvelope}
    (hf : ∀ x t, Sends get [envelope x] (f x) t) (items : List γ) (s : σ) :
    Sends get (items.map envelope) (Call.each f items) s := by
  induction items generalizing s with
  | nil => exact sends_nil (Call.pure_apply () s) rfl
  | cons x items ih =>
      rw [List.map_cons, ← List.singleton_append]
      exact (hf x s).bind fun _ t _ ↦ ih t

theorem Sends.mapErr {g : ε → ε'} (h : Sends get due m s) : Sends get due (m.mapErr g) s where
  accepted haccepts := by
    rcases h.accepted haccepts with ⟨a, t, heq, hget⟩
    refine ⟨a, t, ?_, hget⟩
    rw [Call.mapErr, heq]
    rfl
  refused hnot := by
    rcases h.refused hnot with ⟨e, t, k, heq, hrest⟩
    refine ⟨g e, t, k, ?_, hrest⟩
    rw [Call.mapErr, heq]
    rfl

theorem Sends.outcome (h : Sends get due m s) :
    (∃ a t, m s = (.ok a, t) ∧ get t = (get s).delivered due) ∨
    ∃ e t k, m s = (.err e, t) ∧ k < due.length ∧ (get s).RefusesAt k ∧
      get t = ((get s).delivered (due.take k)).refused := by
  by_cases haccepts : (get s).Accepts due.length
  · exact .inl (h.accepted haccepts)
  · exact .inr (h.refused haccepts)

theorem Sends.delivered_of_ok {a : α} (h : Sends get due m s) (hok : m s = (.ok a, t)) :
    get t = (get s).delivered due := by
  obtain ⟨_, _, heq, hget⟩ | ⟨_, _, _, heq, -⟩ := h.outcome
  · cases hok.symm.trans heq
    exact hget
  · cases hok.symm.trans heq

/-- However the call ends, what it published is the start of what it had to. -/
theorem Sends.published (h : Sends get due m s) :
    ∃ k, (get (m s).2).published = (get s).published ++ due.take k := by
  by_cases haccepts : (get s).Accepts due.length
  · rcases h.accepted haccepts with ⟨a, t, heq, hget⟩
    refine ⟨due.length, ?_⟩
    rw [heq, hget, List.take_length]
    rfl
  · rcases h.refused haccepts with ⟨e, t, k, heq, -, -, hget⟩
    refine ⟨k, ?_⟩
    rw [heq, hget]
    rfl

/-- Each envelope is one request, and there is one at least when something is due. -/
theorem Sends.requests (h : Sends get due m s) :
    ∃ n, n ≤ due.length ∧ (due ≠ [] → 0 < n) ∧ (get (m s).2).requests = (get s).requests + n := by
  by_cases haccepts : (get s).Accepts due.length
  · obtain ⟨a, t, heq, hget⟩ := h.accepted haccepts
    refine ⟨due.length, le_refl _, List.length_pos_of_ne_nil, ?_⟩
    rw [heq, hget]
    rfl
  · obtain ⟨e, t, k, heq, hk, -, hget⟩ := h.refused haccepts
    refine ⟨k + 1, hk, fun _ ↦ Nat.succ_pos k, ?_⟩
    rw [heq, hget, DeliveryService.refused_requests, DeliveryService.delivered_requests,
      List.length_take, Nat.min_eq_left (by omega), Nat.add_assoc]

end Sends

variable {P : Platform} {C : Type}

theorem ServiceContext.publish_of_accepts {cx : ServiceContext P} (envelope : AddressedEnvelope)
    (h : cx.ds.Accepts 1) :
    ServiceContext.publish envelope cx = (.ok (), { cx with ds := cx.ds.delivered [envelope] }) := by
  unfold ServiceContext.publish ServiceContext.onDs
  exact Call.on_of_eq (DeliveryService.publish_of_accepts envelope h)

theorem ServiceContext.publish_of_refuses {cx : ServiceContext P} (envelope : AddressedEnvelope)
    (h : ¬ cx.ds.Accepts 1) :
    ∃ e, ServiceContext.publish envelope cx = (.err e, { cx with ds := cx.ds.refused }) := by
  obtain ⟨e, he⟩ := DeliveryService.publish_of_refuses envelope h
  unfold ServiceContext.publish ServiceContext.onDs
  exact ⟨e, Call.on_of_eq he⟩

theorem sends_publish (envelope : AddressedEnvelope) (cx : ServiceContext P) :
    Sends (·.ds) [envelope] (ServiceContext.publish envelope) cx where
  accepted h := ⟨(), _, ServiceContext.publish_of_accepts envelope h, rfl⟩
  refused h := by
    obtain ⟨e, he⟩ := ServiceContext.publish_of_refuses envelope h
    exact ⟨e, _, 0, he, by simp, ⟨fun k hk ↦ by omega, h⟩, by simp⟩

theorem ServiceContext.subscribe_of_accepts {cx : ServiceContext P} (h : cx.ds.Accepts 1) :
    ServiceContext.subscribe cx = (.ok (), { cx with ds := cx.ds.refused }) := by
  unfold ServiceContext.subscribe ServiceContext.onDs
  exact Call.on_of_eq (DeliveryService.subscribe_of_accepts h)

theorem ServiceContext.subscribe_of_refuses {cx : ServiceContext P} (h : ¬ cx.ds.Accepts 1) :
    ∃ e, ServiceContext.subscribe cx = (.err e, { cx with ds := cx.ds.refused }) := by
  obtain ⟨e, he⟩ := DeliveryService.subscribe_of_refuses h
  unfold ServiceContext.subscribe ServiceContext.onDs
  exact ⟨e, Call.on_of_eq he⟩

theorem InSession.keeps_onCx {ε α : Type} (m : Call (ServiceContext P) ε α) :
    (InSession.onCx m : Call (InSession P C) ε α).Keeps (Call.Same InSession.convo) :=
  fun _ ↦ rfl

/-- A call on the services sends what it sends inside a conversation. -/
theorem Sends.onCx {ε α : Type} {due : List AddressedEnvelope} {m : Call (ServiceContext P) ε α}
    {s : InSession P C} (h : Sends (·.ds) due m s.cx) :
    Sends (fun s : InSession P C ↦ s.cx.ds) due (InSession.onCx m) s where
  accepted haccepts := by
    rcases h.accepted haccepts with ⟨a, cx, heq, hget⟩
    refine ⟨a, { s with cx := cx }, ?_, hget⟩
    rw [InSession.onCx, Call.on, heq]
  refused hnot := by
    rcases h.refused hnot with ⟨e, cx, k, heq, hrest⟩
    refine ⟨e, { s with cx := cx }, k, ?_, hrest⟩
    rw [InSession.onCx, Call.on, heq]

end LogosChat.Conversations
