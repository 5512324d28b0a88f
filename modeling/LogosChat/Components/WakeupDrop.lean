import LogosChat.Components.Wakeup

/-!
# Dropping the wakeup service

The drop stores the flag and notifies without the mutex, so the notification may come between the worker's
look at the flag and its wait.  It is lost then, and the join waits for a worker that nothing wakes.
-/

namespace LogosChat.Components

open Reasoning

namespace ClientPc

/-- It has cleared the flag. -/
def stopped : ClientPc → Bool
  | .stored => true
  | .joining => true
  | .dropped => true
  | _ => false

end ClientPc

/-- How far the worker is from its end once the flag is cleared. -/
def WorkerPc.rank : WorkerPc → Nat
  | .returned => 0
  | .panicked => 0
  | .locked => 1
  | .unlocked => 2
  | .reacquired => 3
  | .sending _ => 3
  | .woken => 4
  | .popped _ => 4
  | .due => 5
  | .waiting _ _ => 5
  | .timed _ _ => 6
  | .peeked _ => 7
  | .checked => 8
  | .untimed => 9

/-- It is not about to wait without a timeout, and does not wait so unless it is notified. -/
def WorkerPc.settled : WorkerPc → Bool
  | .checked => false
  | .untimed => false
  | .waiting none false => false
  | _ => true

namespace System

/-- The join waits for a worker that waits for a notification. -/
def Stuck (s : System) : Prop := s.client = .joining ∧ s.worker = .waiting none false

/-- The worker has seen the flag set and nothing pending, and does not wait yet. -/
def InWindow (s : System) : Prop := s.worker = .untimed ∨ s.worker = .checked ∧ s.pending = []

/-- The drop does not notify while the worker is about to wait. -/
def NotifiesInTime (s : System) : Event → Prop
  | .client => s.client = .stored → ¬ s.InWindow
  | _ => True

/-- The flag is cleared when the drop has cleared it, and a drop that has notified was heard. -/
structure Heard (s : System) : Prop where
  stopped : s.client.stopped → s.running = false
  heard : s.client = .joining → ¬ s.InWindow ∧ s.worker ≠ .waiting none false

variable {maxInstant : Nat} {H : Heap} {s : System}

theorem workerStep_client : (s.workerStep H).client = s.client := by
  unfold workerStep
  split <;> (try split) <;> (try split) <;> rfl

theorem workerStep_running : (s.workerStep H).running = s.running := by
  unfold workerStep
  split <;> (try split) <;> (try split) <;> rfl

/-! ## A drop that is heard -/

theorem not_inWindow_of_settled (h : s.worker.settled) : ¬ s.InWindow ∧ s.worker ≠ .waiting none false := by
  refine ⟨?_, fun hpc ↦ ?_⟩
  · rintro (hpc | ⟨hpc, -⟩) <;> rw [hpc] at h <;> cases h
  · rw [hpc] at h
    cases h

theorem Inv.lock_eq_none (h : s.Inv H) (hclient : s.client.holdsLock = false)
    (hworker : s.worker.holdsLock = false) : s.lock = none := by
  cases hlock : s.lock with
  | none => rfl
  | some thread =>
      cases thread with
      | client => exact absurd (h.lock_client.mp hlock) (by simp [hclient])
      | worker => exact absurd (h.lock_worker.mp hlock) (by simp [hworker])

/-- Once the flag is cleared and the lock is left to it, the worker comes closer to its end with every step,
unless it waits for a timeout. -/
theorem Inv.worker_settles (h : s.Inv H) (hclient : s.client.holdsLock = false) (hstopped : s.running = false)
    (hwindow : ¬ s.InWindow) (hheard : s.worker ≠ .waiting none false) :
    (s.workerStep H).worker.settled ∧
      (s.worker.ended ∨ (∃ t, s.worker = .waiting (some t) false ∧ s.clock < t.deadline) ∨
        (s.workerStep H).worker.rank < s.worker.rank) := by
  have hlock := h.lock_eq_none hclient
  unfold System.workerStep
  cases hpc : s.worker with
  | unlocked =>
      rw [hpc] at hlock
      rw [hlock rfl]
      dsimp only
      split
      · exact ⟨rfl, .inr (.inr (by decide : 0 < 2))⟩
      · exact ⟨rfl, .inr (.inr (by decide : 1 < 2))⟩
  | locked =>
      dsimp only
      rw [if_neg (by simp [hstopped])]
      exact ⟨rfl, .inr (.inr (by decide : 0 < 1))⟩
  | checked =>
      dsimp only
      split
      case h_1 hpeek => exact absurd (.inr ⟨hpc, H.peek_eq_none _ hpeek⟩) hwindow
      case h_2 next hpeek => exact ⟨rfl, .inr (.inr (by decide : 7 < 8))⟩
  | untimed => exact absurd (.inl hpc) hwindow
  | peeked next =>
      dsimp only
      split
      · exact ⟨rfl, .inr (.inr (by decide : 6 < 7))⟩
      · exact ⟨rfl, .inr (.inr (by decide : 5 < 7))⟩
  | timed next now => exact ⟨rfl, .inr (.inr (by decide : 5 < 6))⟩
  | due =>
      dsimp only
      split
      · exact ⟨rfl, .inr (.inr (by decide : 0 < 5))⟩
      · exact ⟨rfl, .inr (.inr (by decide : 4 < 5))⟩
  | popped record => exact ⟨rfl, .inr (.inr (by decide : 3 < 4))⟩
  | sending record =>
      dsimp only
      split
      · exact ⟨rfl, .inr (.inr (by decide : 2 < 3))⟩
      · exact ⟨rfl, .inr (.inr (by decide : 0 < 3))⟩
  | waiting timeout notified =>
      dsimp only
      split
      case isTrue => exact ⟨rfl, .inr (.inr (by decide : 4 < 5))⟩
      case isFalse hearly =>
        rw [Bool.or_eq_true_iff, not_or, Bool.not_eq_true] at hearly
        obtain ⟨rfl, hearly⟩ := hearly
        cases timeout with
        | none => exact absurd hpc hheard
        | some t =>
            refine ⟨by rw [hpc]; rfl, .inr (.inl ⟨t, rfl, ?_⟩)⟩
            simpa using hearly
  | woken =>
      rw [hpc] at hlock
      rw [hlock rfl]
      dsimp only
      split
      · exact ⟨rfl, .inr (.inr (by decide : 0 < 4))⟩
      · exact ⟨rfl, .inr (.inr (by decide : 3 < 4))⟩
  | reacquired => exact ⟨rfl, .inr (.inr (by decide : 2 < 3))⟩
  | returned => exact ⟨by rw [hpc]; rfl, .inl rfl⟩
  | panicked => exact ⟨by rw [hpc]; rfl, .inl rfl⟩

theorem Heard.workerStep (h : s.Heard) (hinv : s.Inv H) : (s.workerStep H).Heard := by
  constructor
  · rw [workerStep_client, workerStep_running]
    exact h.stopped
  · rw [workerStep_client]
    intro hjoin
    obtain ⟨hwindow, hheard⟩ := h.heard hjoin
    have hstopped := h.stopped (by rw [hjoin]; rfl)
    exact not_inWindow_of_settled
      (hinv.worker_settles (by rw [hjoin]; rfl) hstopped hwindow hheard).1

theorem notifyOne_running : s.notifyOne.running = s.running := by
  unfold notifyOne
  split <;> rfl

/-- A notification to a worker that is not about to wait. -/
theorem heard_notifyOne (hwindow : ¬ s.InWindow) :
    ¬ (s.notifyOne).InWindow ∧ s.notifyOne.worker ≠ .waiting none false := by
  unfold notifyOne
  cases hpc : s.worker with
  | waiting timeout notified => exact not_inWindow_of_settled (by cases timeout <;> rfl)
  | _ => exact ⟨hwindow, by simp [hpc]⟩

/-- A client that has not cleared the flag. -/
theorem heard_of_not_stopped (h : s.client.stopped = false) : s.Heard := by
  constructor
  · rw [h]
    exact nofun
  · intro hjoin
    rw [hjoin] at h
    cases h

theorem Heard.clientStep (h : s.Heard) (hin : s.NotifiesInTime .client) : (s.clientStep maxInstant).Heard := by
  unfold System.clientStep
  cases hpc : s.client with
  | locked duration convoId =>
      dsimp only
      split <;> exact heard_of_not_stopped rfl
  | computed expiry convoId => exact heard_of_not_stopped rfl
  | pushed => exact heard_of_not_stopped rfl
  | notified => exact heard_of_not_stopped rfl
  | dropping => exact ⟨fun _ ↦ rfl, fun hjoin ↦ by cases hjoin⟩
  | stored =>
      refine ⟨fun _ ↦ ?_, fun _ ↦ heard_notifyOne (hin hpc)⟩
      show s.notifyOne.running = false
      rw [notifyOne_running]
      exact h.stopped (by rw [hpc]; rfl)
  | joining =>
      dsimp only
      split
      · exact ⟨fun _ ↦ h.stopped (by rw [hpc]; rfl), fun hjoin ↦ by cases hjoin⟩
      · exact h
  | idle => exact h
  | panicked => exact h
  | dropped => exact h

theorem Heard.step (h : s.Heard) (hinv : s.Inv H) {e : Event} (hin : s.NotifiesInTime e) :
    (s.step maxInstant H e).Heard := by
  cases e with
  | tick duration => exact ⟨h.stopped, h.heard⟩
  | register duration convoId =>
      rw [System.step, System.register]
      split
      · split <;> exact heard_of_not_stopped rfl
      · exact h
  | drop =>
      rw [System.step]
      split
      · exact heard_of_not_stopped rfl
      · exact heard_of_not_stopped rfl
      · exact h
  | client => exact h.clientStep hin
  | worker => exact h.workerStep hinv
  | spurious =>
      rw [System.step]
      split
      · exact ⟨h.stopped, fun _ ↦ not_inWindow_of_settled rfl⟩
      · exact h
  | disconnect => exact ⟨h.stopped, h.heard⟩

/-! ## The join returns -/

/-- A worker that has heard of the drop ends, without a spurious wakeup. -/
theorem Heard.finishes (h : s.Heard) (hinv : s.Inv H) (hjoin : s.client = .joining) :
    ∃ more, .spurious ∉ more ∧ (run (System.step maxInstant H) s more).client = .dropped := by
  induction hrank : s.worker.rank using Nat.strong_induction_on generalizing s with
  | _ rank ih =>
      obtain ⟨hwindow, hheard⟩ := h.heard hjoin
      have hfree : s.client.holdsLock = false := by rw [hjoin]; rfl
      have hstopped : s.running = false := h.stopped (by rw [hjoin]; rfl)
      obtain ⟨-, hended | ⟨t, hpc, hearly⟩ | hless⟩ := hinv.worker_settles hfree hstopped hwindow hheard
      · refine ⟨[.client], by simp, ?_⟩
        show (s.clientStep maxInstant).client = _
        unfold System.clientStep
        rw [hjoin]
        dsimp only
        rw [if_pos hended]
      · -- time passes until the wait ends
        have hlater : (s.step maxInstant H (.tick t.deadline)).Heard := h.step hinv trivial
        have hinv' : (s.step maxInstant H (.tick t.deadline)).Inv H := hinv.step _
        obtain ⟨-, hended | ⟨t', hpc', hearly'⟩ | hless⟩ := hinv'.worker_settles hfree hstopped hwindow hheard
        · rw [show (s.step maxInstant H (.tick t.deadline)).worker = _ from hpc] at hended
          cases hended
        · rw [show (s.step maxInstant H (.tick t.deadline)).worker = _ from hpc] at hpc'
          cases hpc'
          exact absurd hearly' (not_lt.mpr (Nat.le_add_left _ _))
        · obtain ⟨more, hmore, hdropped⟩ := ih _ (hrank ▸ hless) (hlater.workerStep hinv') hinv'.workerStep
            (workerStep_client.trans hjoin) rfl
          exact ⟨.tick t.deadline :: .worker :: more, by simp [hmore], hdropped⟩
      · obtain ⟨more, hmore, hdropped⟩ := ih _ (hrank ▸ hless) (h.workerStep hinv) hinv.workerStep
          (workerStep_client.trans hjoin) rfl
        refine ⟨.worker :: more, by simp [hmore], hdropped⟩

/-! ## A drop that is not heard -/

theorem Stuck.step (h : s.Stuck) {e : Event} (he : e ≠ .spurious) : (s.step maxInstant H e).Stuck := by
  obtain ⟨hjoin, hpc⟩ := h
  cases e with
  | tick duration => exact ⟨hjoin, hpc⟩
  | register duration convoId =>
      rw [System.step, System.register, hjoin]
      exact ⟨hjoin, hpc⟩
  | drop =>
      rw [System.step, hjoin]
      exact ⟨hjoin, hpc⟩
  | client =>
      rw [System.step, clientStep, hjoin, hpc]
      exact ⟨hjoin, hpc⟩
  | worker =>
      rw [System.step, workerStep, hpc]
      exact ⟨hjoin, hpc⟩
  | spurious => exact absurd rfl he
  | disconnect => exact ⟨hjoin, hpc⟩

theorem Stuck.run (h : s.Stuck) {events : List Event} (hspurious : .spurious ∉ events) :
    (run (System.step maxInstant H) s events).Stuck := by
  induction events generalizing s with
  | nil => exact h
  | cons e events ih =>
      rw [List.mem_cons, not_or] at hspurious
      exact ih (h.step (Ne.symm hspurious.1)) hspurious.2

theorem notifyOne_of_holdsLock (h : s.worker.holdsLock) : s.notifyOne = s := by
  unfold notifyOne
  cases hpc : s.worker with
  | waiting timeout notified =>
      rw [hpc] at h
      cases h
  | _ => rfl

theorem clientStep_stored (hpc : s.client = .stored) (hlock : s.worker.holdsLock) :
    s.clientStep maxInstant = { s with client := .joining } := by
  rw [clientStep, hpc]
  dsimp only
  rw [notifyOne_of_holdsLock hlock]

/-- A worker that is about to wait when the drop joins goes on to wait. -/
theorem stuck_of_untimed (hjoin : s.client = .joining) (hpc : s.worker = .untimed) : (s.workerStep H).Stuck := by
  rw [workerStep, hpc]
  exact ⟨hjoin, rfl⟩

theorem workerStep_checked (hpc : s.worker = .checked) (hempty : s.pending = []) :
    s.workerStep H = { s with worker := .untimed } := by
  have hpeek : H.peek s.pending = none := by
    rw [Option.eq_none_iff_forall_ne_some, hempty]
    intro record htop
    exact List.not_mem_nil (H.peek_mem [] record htop)
  rw [workerStep, hpc]
  dsimp only
  rw [hpeek]

theorem stuck_of_inWindow (hpc : s.client = .stored) (hwindow : s.InWindow) :
    ∃ more, .spurious ∉ more ∧ (Reasoning.run (System.step maxInstant H) s (.client :: more)).Stuck := by
  obtain hworker | ⟨hworker, hempty⟩ := hwindow
  · refine ⟨[.worker], by simp, ?_⟩
    show ((s.clientStep maxInstant).workerStep H).Stuck
    rw [clientStep_stored hpc (by rw [hworker]; rfl)]
    exact stuck_of_untimed rfl hworker
  · refine ⟨[.worker, .worker], by simp, ?_⟩
    show (((s.clientStep maxInstant).workerStep H).workerStep H).Stuck
    rw [clientStep_stored hpc (by rw [hworker]; rfl), @workerStep_checked H { s with client := .joining } hworker hempty]
    exact stuck_of_untimed rfl rfl

end System

/-- In a schedule whose drop does not notify while the worker is about to wait, the drop is never stuck and
can always go on to its end without a spurious wakeup.  Where it does notify then, it can become stuck, and
nothing but a spurious wakeup ends that. -/
theorem drop_ends_iff (maxInstant : Nat) (H : Heap) (clock : Nat) (events : List Event) :
    (Along (System.step maxInstant H) System.NotifiesInTime { clock := clock } events →
      (∀ n, ¬ (run (System.step maxInstant H) { clock := clock } (events.take n)).Stuck) ∧
      ((run (System.step maxInstant H) { clock := clock } events).client = .joining →
        ∃ more, .spurious ∉ more ∧
          (run (System.step maxInstant H) { clock := clock } (events ++ more)).client = .dropped)) ∧
    (∀ before after, events = before ++ .client :: after →
      ¬ (run (System.step maxInstant H) { clock := clock } before).NotifiesInTime .client →
      ∃ more, .spurious ∉ more ∧ ∀ rest, .spurious ∉ rest →
        (run (System.step maxInstant H) { clock := clock } (before ++ .client :: more ++ rest)).Stuck) := by
  have hstep (s : System) (e : Event) (hs : s.Inv H ∧ s.Heard) (he : s.NotifiesInTime e) :
      (s.step maxInstant H e).Inv H ∧ (s.step maxInstant H e).Heard := ⟨hs.1.step e, hs.2.step hs.1 he⟩
  have hstart : System.Inv H { clock := clock } ∧ System.Heard { clock := clock } :=
    ⟨System.inv_start clock, System.heard_of_not_stopped rfl⟩
  refine ⟨fun halong ↦ ⟨fun n hstuck ↦ ?_, fun hjoin ↦ ?_⟩, fun before after hevents hnot ↦ ?_⟩
  · rw [← List.take_append_drop n events] at halong
    have h := (along_append.mp halong).1.invariant hstep hstart
    exact (h.2.heard hstuck.1).2 hstuck.2
  · have h := halong.invariant hstep hstart
    obtain ⟨more, hmore, hdropped⟩ : ∃ more, .spurious ∉ more ∧
        (run (System.step maxInstant H) _ more).client = .dropped := h.2.finishes h.1 hjoin
    exact ⟨more, hmore, by rw [run_append]; exact hdropped⟩
  · obtain ⟨hpc, hwindow⟩ := Classical.not_imp.mp hnot
    obtain ⟨more, hmore, hstuck⟩ : ∃ more, .spurious ∉ more ∧
        (run (System.step maxInstant H) _ (.client :: more)).Stuck :=
      System.stuck_of_inWindow hpc (not_not.mp hwindow)
    refine ⟨more, hmore, fun rest hrest ↦ ?_⟩
    rw [run_append, run_append]
    exact hstuck.run hrest

/-- The service is dropped right after it was made: the worker has seen the flag set and nothing pending, the
drop clears the flag and notifies, and only then does the worker wait. -/
def dropInWindow : List Event := [.worker, .worker, .worker, .drop, .client, .client, .worker]

theorem drop_in_window_stuck :
    (run (System.step 1000 .list) { clock := 0 } dropInWindow).Stuck ∧
      (run (System.step 1000 .list) { clock := 0 } dropInWindow).running = false := by
  exact ⟨⟨by decide, by decide⟩, by decide⟩

end LogosChat.Components
