import LogosChat.Client.Session

/-!
# What the application is told

Over every session, whatever the order of the calls, the payloads and the wakeups: an event about a
conversation comes after the one that announced it, unless a call made the conversation or the store
had it from before; and each acknowledgement and each gap that the core records is told once.
-/

namespace LogosChat.Client

open Reasoning Crypto Conversations
open Cli (Event)

namespace Session

variable {P : Platform} {E : Ed25519} {describe : ChatError → String}

/-! ## Announcements come first -/

/-- Where the conversations of a session come from: `from before`, a call, or an announcement. -/
structure Ordered (before : String → Prop) (s : Session P) : Prop where
  known : ∀ convoId, s.core.Known convoId →
    before convoId ∨ convoId ∈ s.created ∨ convoId ∈ s.stream.filterMap announced
  follows : ∀ front event rest, s.stream = front ++ event :: rest → ∀ convoId,
    about event = some convoId →
      before convoId ∨ convoId ∈ s.created ∨ convoId ∈ front.filterMap announced
  once : (s.stream.filterMap announced ++ s.created).Nodup
  loaded : ∀ convoId ∈ s.stream.filterMap announced ++ s.created, convoId ∈ s.core.cachedConvos

theorem ordered_start (services : ServiceContext P) :
    Ordered (fun convoId ↦ ∃ record ∈ services.records, record.localConvoId = convoId)
      (start services) where
  known convoId h := by
    obtain h | h := h
    · exact absurd h (AList.notMem_empty convoId)
    · exact .inl h
  follows front event rest h := by
    have hlength := congrArg List.length h
    simp [stream, start] at hlength
  once := List.nodup_nil
  loaded := nofun

/-- One lemma for all steps: what was opened is announced, or returned by a call, and whatever is told
is about conversations known before. -/
theorem Ordered.grow {before : String → Prop} {s s' : Session P} (h : s.Ordered before)
    (events : List Event) (new : List String) {opened : Option String} {c : Core P}
    (hopens : s.core.Opens opened c) (hknown : ∀ convoId, s'.core.Known convoId → c.Known convoId)
    (hcached : s'.core.cachedConvos = c.cachedConvos)
    (hstream : s'.stream = s.stream ++ events) (hcreated : s'.created = s.created ++ new)
    (hopened : events.filterMap announced ++ new = opened.toList)
    (habout : ∀ event ∈ events, ∀ convoId, about event = some convoId → s.core.Known convoId) :
    s'.Ordered before := by
  have hannounced : s'.stream.filterMap announced =
      s.stream.filterMap announced ++ events.filterMap announced := by
    rw [hstream, List.filterMap_append]
  have hmem (convoId : String) : convoId ∈ s'.stream.filterMap announced ++ s'.created ↔
      convoId ∈ s.stream.filterMap announced ++ s.created ∨ opened = some convoId := by
    rw [← Option.mem_toList, ← hopened, hannounced, hcreated]
    simp only [List.mem_append]
    tauto
  refine ⟨fun convoId hid ↦ ?_, fun front event rest hsplit convoId hid ↦ ?_, ?_, fun convoId hid ↦ ?_⟩
  · obtain hid | hid := hopens.known convoId (hknown convoId hid)
    · rw [hannounced, hcreated, List.mem_append, List.mem_append]
      have hbefore := h.known convoId hid
      tauto
    · have hnew := (hmem convoId).mpr (.inr hid)
      rw [List.mem_append] at hnew
      tauto
  · rw [hcreated, List.mem_append]
    rw [hstream] at hsplit
    obtain ⟨more, hfront, hevents⟩ | ⟨more, hfront, hevents⟩ := List.append_eq_append_iff.mp hsplit
    · -- the event is one of the new ones
      have hevent : event ∈ events := by
        rw [hevents]
        exact List.mem_append_right _ List.mem_cons_self
      have hbefore := h.known convoId (habout event hevent convoId hid)
      rw [hfront, List.filterMap_append, List.mem_append]
      tauto
    · cases more with
      | nil =>
          rw [List.nil_append] at hevents
          have hevent : event ∈ events := hevents ▸ List.mem_cons_self
          have hbefore := h.known convoId (habout event hevent convoId hid)
          rw [List.append_nil] at hfront
          rw [← hfront]
          tauto
      | cons first more =>
          obtain ⟨rfl, -⟩ := List.cons.inj hevents
          have hbefore := h.follows front event more hfront convoId hid
          tauto
  · have hperm : (s'.stream.filterMap announced ++ s'.created).Perm
        ((s.stream.filterMap announced ++ s.created) ++ opened.toList) := by
      rw [← hopened, hannounced, hcreated, List.append_assoc, List.append_assoc]
      refine List.Perm.append_left _ ?_
      rw [← List.append_assoc, ← List.append_assoc]
      exact List.Perm.append_right _ List.perm_append_comm
    rw [hperm.nodup_iff, List.nodup_append]
    refine ⟨h.once, ?_, ?_⟩
    · cases opened with
      | none => exact List.nodup_nil
      | some id => exact List.nodup_singleton id
    · rintro a ha b hb rfl
      exact hopens.fresh a (Option.mem_toList.mp hb) (h.loaded a ha)
  · rw [hcached, hopens.cached]
    exact ((hmem convoId).mp hid).imp_left (h.loaded convoId)

theorem Moves.ordered {before : String → Prop} {s s' : Session P} (h : s.Moves s')
    (hs : s.Ordered before) (hready : s.Ready) : s'.Ordered before := by
  cases h with
  | called opened does created stream working =>
      refine hs.grow [] opened.toList does.toOpens (fun _ h ↦ h) rfl ?_ created rfl nofun
      rw [stream, List.append_nil]
  | turned opened c events working does core stream created announced about =>
      refine hs.grow events [] does.toOpens (fun convoId h ↦ ?_) ?_ stream ?_ ?_ about
      · rw [core] at h
        exact h
      · rw [core]
        rfl
      · rw [created, List.append_nil]
      · rw [announced, List.append_nil]
  | died does created stream working =>
      refine hs.grow [] [] does.toOpens (fun _ h ↦ h) rfl ?_ ?_ rfl nofun
      · rw [stream, List.append_nil]
      · rw [created, List.append_nil]
  | idle core created stream working =>
      have hsame : s.core.Opens none s'.core := by
        rw [core]
        exact ((refl s.core : Core.Stays (fun _ ↦ False) s.core s.core).does hready.keyed).toOpens
      refine hs.grow [] [] hsame (fun _ h ↦ h) rfl ?_ ?_ rfl nofun
      · rw [stream, List.append_nil]
      · rw [created, List.append_nil]

/-- Every event about a conversation comes after its announcement, except for the conversations that
the calls of the session have returned and those that the store had from before; and no conversation is
announced twice, nor one that a call returned. -/
theorem events_follow_announcement (services : ServiceContext P) (steps : List (Step P)) :
    let s := run (step E describe) (start services) steps
    (∀ front event rest, s.events = front ++ event :: rest → ∀ convoId, about event = some convoId →
      (∃ record ∈ services.records, record.localConvoId = convoId) ∨ convoId ∈ s.created ∨
        ∃ conversationClass, Event.conversationStarted convoId conversationClass ∈ front) ∧
      (s.events.filterMap announced ++ s.created).Nodup := by
  intro s
  have hstep (before : String → Prop) (s : Session P) (e : Step P) (hs : s.Ready ∧ s.Ordered before) :
      (step E describe s e).Ready ∧ (step E describe s e).Ordered before := by
    have hmoves : s.Moves (step E describe s e) := step_moves hs.1 e
    exact ⟨hmoves.ready hs.1, hmoves.ordered hs.2 hs.1⟩
  have hinv : s.Ready ∧ s.Ordered _ :=
    run_invariant (hstep _) ⟨ready_start services, ordered_start services⟩ steps
  refine ⟨fun front event rest hsplit convoId hid ↦ ?_, ?_⟩
  · have hstream : s.stream = front ++ event :: (rest ++ s.outgoing) := by
      rw [stream, hsplit, List.append_assoc, List.cons_append]
    refine (hinv.2.follows front event _ hstream convoId hid).imp_right (Or.imp_right fun hmem ↦ ?_)
    obtain ⟨started, hstarted, hannounced⟩ := List.mem_filterMap.mp hmem
    cases started with
    | conversationStarted started conversationClass =>
        cases hannounced
        exact ⟨conversationClass, hstarted⟩
    | _ => cases hannounced
  · have honce := hinv.2.once
    rw [stream, List.filterMap_append, List.append_assoc] at honce
    refine honce.sublist (List.Sublist.append_left ?_ _)
    exact List.sublist_append_right _ _

/-! ## Reports are passed on once -/

section Reports

variable {α : Type} (source : Reporter CausalHistoryStore α) (read : Event → Option α)

/-- What has been passed on, followed by what waits in the core. -/
def passedOn : Reporter (Session P) α where
  log s := s.stream.filterMap read ++ source.log s.core.services.causal
  told s := source.told s.core.services.causal

variable {source read} {s s' : Session P}

-- a step that only records
theorem grows_of_recorded {allowed : α → Prop} (hstream : s'.stream = s.stream)
    (h : source.Grows allowed s.core.services.causal s'.core.services.causal) :
    (passedOn source read).Grows allowed s s' := by
  obtain ⟨new, hlog, hnodup, hnew, htold⟩ := h
  refine ⟨new, ?_, hnodup, hnew, htold⟩
  show s'.stream.filterMap read ++ _ = s.stream.filterMap read ++ _ ++ new
  rw [hstream, hlog, List.append_assoc]

-- a turn, which passes on what it drains
theorem grows_of_turn {allowed : α → Prop} {c : Core P} {events : List Event}
    (hstream : s'.stream = s.stream ++ events) (hcore : s'.core = drained c)
    (hempty : source.log s.core.services.causal = [])
    (hread : events.filterMap read = source.log c.services.causal)
    (hdrained : source.log (drained c).services.causal = [] ∧
      ∀ a, source.told (drained c).services.causal a ↔ source.told c.services.causal a)
    (h : source.Grows allowed s.core.services.causal c.services.causal) :
    (passedOn source read).Grows allowed s s' := by
  obtain ⟨new, hlog, hnodup, hnew, htold⟩ := h
  refine ⟨new, ?_, hnodup, hnew, fun a ↦ ?_⟩
  · show s'.stream.filterMap read ++ source.log s'.core.services.causal =
      s.stream.filterMap read ++ source.log s.core.services.causal ++ new
    rw [hstream, hcore, List.filterMap_append, hread, hlog, hdrained.1, hempty]
    simp
  · show source.told s'.core.services.causal a ↔ _
    rw [hcore, hdrained.2]
    exact htold a

end Reports

theorem Moves.reports {s s' : Session P} (h : s.Moves s') (hs : s.Ready) :
    (passedOn CausalHistoryStore.ackReports ackOf).Grows (fun _ ↦ True) s s' ∧
      (passedOn CausalHistoryStore.gapReports gapOf).Grows (fun _ ↦ True) s s' := by
  -- a call records nothing, and a turn that dies leaves what it recorded in the core
  have hrecorded (allowed : String → Prop) (hstream : s'.stream = s.stream)
      (hears : s.core.services.causal.Hears allowed s'.core.services.causal) :
      (passedOn CausalHistoryStore.ackReports ackOf).Grows (fun _ ↦ True) s s' ∧
        (passedOn CausalHistoryStore.gapReports gapOf).Grows (fun _ ↦ True) s s' :=
    ⟨grows_of_recorded hstream (hears.acks.mono fun _ _ ↦ trivial),
      grows_of_recorded hstream (hears.gaps.mono fun _ _ ↦ trivial)⟩
  cases h with
  | called opened does created stream working => exact hrecorded _ stream does.causal
  | died does created stream working => exact hrecorded _ stream does.causal
  | idle core created stream working =>
      refine hrecorded (fun _ ↦ True) stream ?_
      rw [core]
      exact refl _
  | turned opened c events working does core stream created announced about acks gaps =>
      constructor
      · exact grows_of_turn stream core (hs.acks working) acks ⟨rfl, fun _ ↦ Iff.rfl⟩
          (does.causal.acks.mono fun _ _ ↦ trivial)
      · exact grows_of_turn stream core (hs.missing working) gaps ⟨rfl, fun _ ↦ Iff.rfl⟩
          (does.causal.gaps.mono fun _ _ ↦ trivial)

/-- While the worker runs, the acknowledgements that the application has been told of, or is about to
be, are those on record in the conversations, each told once; and so are the gaps. -/
theorem reports_passed_on_once (services : ServiceContext P) (steps : List (Step P)) :
    let s := run (step E describe) (start services) steps
    (s.stream.filterMap ackOf).Nodup ∧ (s.stream.filterMap gapOf).Nodup ∧
      (s.working = true → ∀ convoId,
        (∀ messageId signer, Event.messageAcked convoId messageId signer ∈ s.stream ↔
          signer ∈ (s.core.services.causal.convos convoId).ackedBy messageId) ∧
        ∀ messageId signer, Event.messageMissing convoId messageId signer ∈ s.stream ↔
          ⟨signer, messageId⟩ ∈ (s.core.services.causal.convos convoId).reportedMissing) := by
  intro s
  have hready : s.Ready := by
    refine run_invariant (fun s e hs ↦ ?_) (ready_start services) steps
    exact (step_moves hs e : s.Moves (step E describe s e)).ready hs
  have hgrown (α : Type) (source : Reporter CausalHistoryStore α) (read : Event → Option α)
      (hstep : ∀ (s : Session P) e, s.Ready →
        (passedOn source read).Grows (fun _ ↦ True) s (step E describe s e)) :
      (passedOn source read).Grows (fun _ ↦ True) (start services) s := by
    refine run_relates (fun s ↦ refl s) (fun _ _ _ h h' ↦ h.trans h') (fun s e hs ↦ ?_) hstep
      (ready_start services) steps
    exact (step_moves hs e : s.Moves (step E describe s e)).ready hs
  have hacks := hgrown _ CausalHistoryStore.ackReports ackOf fun s e hs ↦
    (Moves.reports (step_moves hs e) hs).1
  have hgaps := hgrown _ CausalHistoryStore.gapReports gapOf fun s e hs ↦
    (Moves.reports (step_moves hs e) hs).2
  obtain ⟨hnodupA, -, htoldA⟩ := hacks.of_empty rfl
  obtain ⟨hnodupG, -, htoldG⟩ := hgaps.of_empty rfl
  refine ⟨(List.nodup_append.mp hnodupA).1, (List.nodup_append.mp hnodupG).1, fun hw convoId ↦ ?_⟩
  constructor
  · intro messageId signer
    have htold := htoldA ⟨convoId, messageId, signer⟩
    have hlog : (passedOn CausalHistoryStore.ackReports ackOf).log s = s.stream.filterMap ackOf := by
      show _ ++ s.core.services.causal.acks = _
      rw [hready.acks hw, List.append_nil]
    rw [hlog, mem_acks_iff] at htold
    refine Iff.symm (htold.trans (or_iff_right ?_))
    exact Finset.notMem_empty signer
  · intro messageId signer
    have htold := htoldG ⟨convoId, ⟨signer, messageId⟩⟩
    have hlog : (passedOn CausalHistoryStore.gapReports gapOf).log s = s.stream.filterMap gapOf := by
      show _ ++ s.core.services.causal.missing = _
      rw [hready.missing hw, List.append_nil]
    rw [hlog, mem_gaps_iff] at htold
    refine Iff.symm (htold.trans (or_iff_right ?_))
    exact Finset.notMem_empty _

end Session

end LogosChat.Client
