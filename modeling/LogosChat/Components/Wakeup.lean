import LogosChat.Reasoning.Run
import Mathlib.Algebra.Order.Group.Nat
import Mathlib.Data.List.MinMax
import Mathlib.Data.List.Nodup
import Mathlib.Data.List.Range

/-!
# The wakeup service

A thread that registers wakeups and a worker that sleeps until the nearest of them, over a mutex and a
condition variable.  Each step is one operation of one thread on what they share, or time that passes.
-/

namespace LogosChat.Components

open Reasoning

/-- A registered wakeup.  The ticket is its number, which the code does not keep. -/
structure WakeupRecord where
  expiry : Nat
  convoId : String
  ticket : Nat
deriving DecidableEq

/-- `BinaryHeap<Reverse<WakeupRecord>>`, as a bag of records of which one with the least expiry is on top.
Which one, when there are several, is up to the heap. -/
structure Heap where
  peek : List WakeupRecord → Option WakeupRecord
  peek_eq_none : ∀ records, peek records = none → records = []
  peek_mem : ∀ records record, peek records = some record → record ∈ records
  peek_le : ∀ records record, peek records = some record → ∀ other ∈ records, record.expiry ≤ other.expiry

/-- A heap that keeps its records in the order in which they came. -/
def Heap.list : Heap where
  peek := List.argmin WakeupRecord.expiry
  peek_eq_none _ h := List.argmin_eq_none.mp h
  peek_mem _ _ h := List.argmin_mem h
  peek_le _ _ h _ hmem := List.le_of_mem_argmin hmem h

inductive Thread where
  | client
  | worker
deriving DecidableEq

/-- The thread that owns the service: what it does next. -/
inductive ClientPc where
  | idle
  -- in `wakeup_in`, with the lock
  | locked (duration : Nat) (convoId : String)
  | computed (expiry : Nat) (convoId : String)
  | pushed
  | notified
  | panicked
  -- in `drop`
  | dropping
  | stored
  | joining
  | dropped
deriving DecidableEq

/-- When a timed wait ends, and how long after the clock was read it began. -/
structure Timeout where
  deadline : Nat
  late : Nat
deriving DecidableEq

/-- The worker: what it does next. -/
inductive WorkerPc where
  | unlocked
  -- with the lock
  | locked
  | checked
  | untimed
  | peeked (next : WakeupRecord)
  | timed (next : WakeupRecord) (now : Nat)
  | due
  | popped (record : WakeupRecord)
  -- without it
  | sending (record : WakeupRecord)
  | waiting (timeout : Option Timeout) (notified : Bool)
  | woken
  -- with the lock again, which it lets go
  | reacquired
  | returned
  | panicked
deriving DecidableEq

namespace ClientPc

def holdsLock : ClientPc → Bool
  | .locked _ _ => true
  | .computed _ _ => true
  | .pushed => true
  | .notified => true
  | _ => false

/-- Its next step is a notification. -/
def notifies : ClientPc → Bool
  | .pushed => true
  | .stored => true
  | _ => false

end ClientPc

namespace WorkerPc

def holdsLock : WorkerPc → Bool
  | .locked => true
  | .checked => true
  | .untimed => true
  | .peeked _ => true
  | .timed _ _ => true
  | .due => true
  | .popped _ => true
  | .reacquired => true
  | _ => false

/-- The wakeup it has taken and not yet sent. -/
def hand : WorkerPc → List WakeupRecord
  | .popped record => [record]
  | .sending record => [record]
  | _ => []

def ended : WorkerPc → Bool
  | .returned => true
  | .panicked => true
  | _ => false

end WorkerPc

/-- A wakeup that was taken, with what was pending then. -/
structure Taken where
  record : WakeupRecord
  among : List WakeupRecord

/-- What the threads share and where they are; and, beside it, what was registered, taken, emitted (and
when), and refused by a receiver that was gone. -/
structure System where
  clock : Nat
  lock : Option Thread := none
  poisoned : Bool := false
  pending : List WakeupRecord := []
  running : Bool := true
  receiver : Bool := true
  client : ClientPc := .idle
  worker : WorkerPc := .unlocked
  registered : List WakeupRecord := []
  taken : List Taken := []
  emitted : List (WakeupRecord × Nat) := []
  refused : List WakeupRecord := []

inductive Event where
  -- time passes
  | tick (duration : Nat)
  -- `wakeup_in` is called
  | register (duration : Nat) (convoId : String)
  -- the service is dropped
  | drop
  -- the next step of the thread that is in one of the two
  | client
  | worker
  -- a wait ends without a notification
  | spurious
  -- the receiver of the events is dropped
  | disconnect
deriving DecidableEq

namespace System

/-- `notify_one`: of no effect unless the worker is waiting. -/
def notifyOne (s : System) : System :=
  match s.worker with
  | .waiting timeout _ => { s with worker := .waiting timeout true }
  | _ => s

/-- `lock().unwrap()` in `wakeup_in`. -/
def register (s : System) (duration : Nat) (convoId : String) : System :=
  match s.client, s.lock with
  | .idle, none =>
      if s.poisoned then { s with client := .panicked }
      else { s with lock := some .client, client := .locked duration convoId }
  | _, _ => s

variable (maxInstant : Nat) (H : Heap)

def clientStep (s : System) : System :=
  match s.client with
  | .locked duration convoId =>
      -- the sum panics when it is no `Instant`, which poisons the mutex
      if s.clock + duration ≤ maxInstant then { s with client := .computed (s.clock + duration) convoId }
      else { s with lock := none, poisoned := true, client := .panicked }
  | .computed expiry convoId =>
      { s with
        pending := s.pending ++ [⟨expiry, convoId, s.registered.length⟩]
        registered := s.registered ++ [⟨expiry, convoId, s.registered.length⟩]
        client := .pushed }
  | .pushed => { s.notifyOne with client := .notified }
  | .notified => { s with lock := none, client := .idle }
  | .dropping => { s with running := false, client := .stored }
  | .stored => { s.notifyOne with client := .joining }
  | .joining => if s.worker.ended then { s with client := .dropped } else s
  | .idle => s
  | .panicked => s
  | .dropped => s

def workerStep (s : System) : System :=
  match s.worker with
  | .unlocked =>
      match s.lock with
      | some _ => s
      | none =>
          if s.poisoned then { s with worker := .panicked }
          else { s with lock := some .worker, worker := .locked }
  | .locked =>
      if s.running then { s with worker := .checked } else { s with lock := none, worker := .returned }
  | .checked =>
      match H.peek s.pending with
      | none => { s with worker := .untimed }
      | some next => { s with worker := .peeked next }
  | .untimed => { s with lock := none, worker := .waiting none false }
  | .peeked next =>
      if s.clock < next.expiry then { s with worker := .timed next s.clock } else { s with worker := .due }
  | .timed next now =>
      -- the timeout runs from when the wait begins
      { s with
        lock := none
        worker := .waiting (some ⟨s.clock + (next.expiry - now), s.clock - now⟩) false }
  | .due =>
      match H.peek s.pending with
      | none => { s with lock := none, poisoned := true, worker := .panicked }
      | some record =>
          { s with
            pending := s.pending.erase record
            taken := s.taken ++ [⟨record, s.pending⟩]
            worker := .popped record }
  | .popped record => { s with lock := none, worker := .sending record }
  | .sending record =>
      if s.receiver then { s with emitted := s.emitted ++ [(record, s.clock)], worker := .unlocked }
      else { s with refused := s.refused ++ [record], worker := .returned }
  | .waiting timeout notified =>
      if notified || timeout.any fun t ↦ t.deadline ≤ s.clock then { s with worker := .woken } else s
  | .woken =>
      match s.lock with
      | some _ => s
      | none =>
          if s.poisoned then { s with worker := .panicked }
          else { s with lock := some .worker, worker := .reacquired }
  | .reacquired => { s with lock := none, worker := .unlocked }
  | .returned => s
  | .panicked => s

def step (s : System) : Event → System
  | .tick duration => { s with clock := s.clock + duration }
  | .register duration convoId => s.register duration convoId
  | .drop =>
      match s.client with
      | .idle => { s with client := .dropping }
      -- while the panic unwinds
      | .panicked => { s with client := .dropping }
      | _ => s
  | .client => s.clientStep maxInstant
  | .worker => s.workerStep H
  | .spurious =>
      match s.worker with
      | .waiting _ _ => { s with worker := .woken }
      | _ => s
  | .disconnect => { s with receiver := false }

/-! ## What every schedule keeps -/

/-- A wait that covers these wakeups ends by the earliest of them, but for the time by which it began
late. -/
def Covers : Option Timeout → List WakeupRecord → Prop
  | none, pending => pending = []
  | some t, pending => ∀ record ∈ pending, t.deadline ≤ record.expiry + t.late

/-- What the worker knows where it is. -/
def At (H : Heap) (clock : Nat) (pending : List WakeupRecord) (client : ClientPc) : WorkerPc → Prop
  | .untimed => pending = []
  | .peeked next => H.peek pending = some next
  | .timed next now => H.peek pending = some next ∧ now ≤ clock ∧ now < next.expiry
  | .due => ∃ next, H.peek pending = some next ∧ next.expiry ≤ clock
  | .popped record => record.expiry ≤ clock
  | .sending record => record.expiry ≤ clock
  | .waiting timeout false => client.notifies ∨ Covers timeout pending
  | _ => True

structure Inv (H : Heap) (s : System) : Prop where
  lock_client : s.lock = some .client ↔ s.client.holdsLock
  lock_worker : s.lock = some .worker ↔ s.worker.holdsLock
  at_worker : At H s.clock s.pending s.client s.worker
  places : s.registered.Perm (s.pending ++ (s.worker.hand ++ (s.emitted.map Prod.fst ++ s.refused)))
  tickets : s.registered.map WakeupRecord.ticket = List.range s.registered.length
  receiver : s.receiver → s.refused = []
  on_time : ∀ e ∈ s.emitted, e.1.expiry ≤ e.2
  least : ∀ t ∈ s.taken, t.record ∈ t.among ∧ ∀ other ∈ t.among, t.record.expiry ≤ other.expiry

variable {maxInstant H} {s : System}

theorem inv_start (clock : Nat) : Inv H { clock := clock } where
  lock_client := by simp [ClientPc.holdsLock]
  lock_worker := by simp [WorkerPc.holdsLock]
  at_worker := trivial
  places := .nil
  tickets := rfl
  receiver _ := rfl
  on_time := by simp
  least := by simp

theorem Inv.client_free (h : s.Inv H) (hlock : s.lock ≠ some .client) : s.client.holdsLock = false :=
  Bool.eq_false_iff.mpr fun hholds ↦ hlock (h.lock_client.mpr hholds)

theorem Inv.worker_free (h : s.Inv H) (hlock : s.lock ≠ some .worker) : s.worker.holdsLock = false :=
  Bool.eq_false_iff.mpr fun hholds ↦ hlock (h.lock_worker.mpr hholds)

/-! ### The worker -/

section Worker

variable {pc worker : WorkerPc} {record : WakeupRecord}

/-- The worker goes on, with the lock as it was. -/
theorem Inv.goto (h : s.Inv H) (hpc : s.worker = pc) (hlock : worker.holdsLock = pc.holdsLock)
    (hhand : worker.hand = pc.hand) (hat : At H s.clock s.pending s.client worker) :
    Inv H { s with worker := worker } :=
  { h with
    lock_worker := by rw [h.lock_worker, hpc, hlock]
    at_worker := hat
    places := by rw [hhand, ← hpc]; exact h.places }

/-- The worker takes the lock. -/
theorem Inv.acquire (h : s.Inv H) (hpc : s.worker = pc) (hfree : s.lock = none)
    (hlock : worker.holdsLock = true) (hhand : worker.hand = pc.hand)
    (hat : At H s.clock s.pending s.client worker) :
    Inv H { s with lock := some .worker, worker := worker } :=
  { h with
    lock_client := by
      have hclient := h.client_free (by simp [hfree])
      simp [hclient]
    lock_worker := by simp [hlock]
    at_worker := hat
    places := by rw [hhand, ← hpc]; exact h.places }

/-- The worker lets the lock go. -/
theorem Inv.release (h : s.Inv H) (hpc : s.worker = pc) (hheld : pc.holdsLock = true)
    (hlock : worker.holdsLock = false) (hhand : worker.hand = pc.hand)
    (hat : At H s.clock s.pending s.client worker) : Inv H { s with lock := none, worker := worker } :=
  { h with
    lock_client := by
      have hclient := h.client_free (by simp [h.lock_worker.mpr (hpc ▸ hheld)])
      simp [hclient]
    lock_worker := by simp [hlock]
    at_worker := hat
    places := by rw [hhand, ← hpc]; exact h.places }

/-- The worker takes the earliest wakeup. -/
theorem Inv.pop (h : s.Inv H) (hpc : s.worker = .due) (hpeek : H.peek s.pending = some record)
    (hdue : record.expiry ≤ s.clock) :
    Inv H
      { s with
        pending := s.pending.erase record
        taken := s.taken ++ [⟨record, s.pending⟩]
        worker := .popped record } :=
  { h with
    lock_worker := by
      rw [h.lock_worker, hpc]
      rfl
    at_worker := hdue
    places := by
      have hplaces := h.places
      rw [hpc] at hplaces
      have htop : s.pending.Perm (record :: s.pending.erase record) :=
        List.perm_cons_erase (H.peek_mem _ _ hpeek)
      exact hplaces.trans ((htop.append_right _).trans List.perm_middle.symm)
    least := by
      intro t ht
      obtain hold | hnew := List.mem_append.mp ht
      · exact h.least t hold
      · rw [List.mem_singleton.mp hnew]
        exact ⟨H.peek_mem _ _ hpeek, H.peek_le _ _ hpeek⟩ }

/-- The wakeup that the worker has taken is emitted. -/
theorem Inv.emit (h : s.Inv H) (hpc : s.worker = .sending record) :
    Inv H { s with emitted := s.emitted ++ [(record, s.clock)], worker := .unlocked } :=
  { h with
    lock_worker := by
      rw [h.lock_worker, hpc]
      rfl
    at_worker := trivial
    places := by
      have hplaces := h.places
      rw [hpc] at hplaces
      refine hplaces.trans (List.Perm.append_left _ ?_)
      show (record :: (s.emitted.map Prod.fst ++ s.refused)).Perm
        ((s.emitted ++ [(record, s.clock)]).map Prod.fst ++ s.refused)
      rw [List.map_append, List.append_assoc]
      exact List.perm_middle.symm
    on_time := by
      have hat := h.at_worker
      rw [hpc] at hat
      intro e he
      obtain hold | hnew := List.mem_append.mp he
      · exact h.on_time e hold
      · rw [List.mem_singleton.mp hnew]
        exact hat }

/-- There is no receiver for the wakeup that the worker has taken. -/
theorem Inv.refuse (h : s.Inv H) (hpc : s.worker = .sending record) (hgone : ¬ s.receiver) :
    Inv H { s with refused := s.refused ++ [record], worker := .returned } :=
  { h with
    lock_worker := by
      rw [h.lock_worker, hpc]
      rfl
    at_worker := trivial
    places := by
      have hplaces := h.places
      rw [hpc] at hplaces
      refine hplaces.trans (List.Perm.append_left _ ?_)
      show (record :: (s.emitted.map Prod.fst ++ s.refused)).Perm
        (s.emitted.map Prod.fst ++ (s.refused ++ [record]))
      rw [← List.append_assoc]
      exact (List.perm_append_singleton record _).symm
    receiver := fun hreceiver ↦ absurd hreceiver hgone }

theorem Inv.workerStep (h : s.Inv H) : Inv H (s.workerStep H) := by
  have hat := h.at_worker
  unfold System.workerStep
  cases hpc : s.worker with
  | unlocked =>
      dsimp only
      split
      case h_1 => exact h
      case h_2 hlock =>
        split
        · exact h.goto hpc rfl rfl trivial
        · exact h.acquire hpc hlock rfl rfl trivial
  | locked =>
      dsimp only
      split
      · exact h.goto hpc rfl rfl trivial
      · exact h.release hpc rfl rfl rfl trivial
  | checked =>
      dsimp only
      split
      case h_1 hpeek => exact h.goto hpc rfl rfl (H.peek_eq_none _ hpeek)
      case h_2 next hpeek => exact h.goto hpc rfl rfl hpeek
  | untimed =>
      rw [hpc] at hat
      exact h.release hpc rfl rfl rfl (.inr hat)
  | peeked next =>
      rw [hpc] at hat
      dsimp only
      split
      case isTrue hearly => exact h.goto hpc rfl rfl ⟨hat, le_rfl, hearly⟩
      case isFalse hdue => exact h.goto hpc rfl rfl ⟨next, hat, not_lt.mp hdue⟩
  | timed next now =>
      rw [hpc] at hat
      obtain ⟨hpeek, hnow, hearly⟩ := hat
      refine h.release hpc rfl rfl rfl (.inr fun record hrecord ↦ ?_)
      have hle := H.peek_le _ _ hpeek record hrecord
      show s.clock + (next.expiry - now) ≤ record.expiry + (s.clock - now)
      omega
  | due =>
      rw [hpc] at hat
      obtain ⟨next, hpeek, hdue⟩ := hat
      dsimp only
      rw [hpeek]
      exact h.pop hpc hpeek hdue
  | popped record =>
      rw [hpc] at hat
      exact h.release hpc rfl rfl rfl hat
  | sending record =>
      dsimp only
      split
      case isTrue => exact h.emit hpc
      case isFalse hgone => exact h.refuse hpc hgone
  | waiting timeout notified =>
      dsimp only
      split
      · exact h.goto hpc rfl rfl trivial
      · exact h
  | woken =>
      dsimp only
      split
      case h_1 => exact h
      case h_2 hlock =>
        split
        · exact h.goto hpc rfl rfl trivial
        · exact h.acquire hpc hlock rfl rfl trivial
  | reacquired => exact h.release hpc rfl rfl rfl trivial
  | returned => exact h
  | panicked => exact h

end Worker

/-! ### The client -/

section Client

variable {pc client : ClientPc}

/-- What the worker knows, it still knows when more is about to be notified. -/
theorem At.mono {clock clock' : Nat} {pending : List WakeupRecord} {worker : WorkerPc}
    (h : At H clock pending pc worker) (hclock : clock ≤ clock') (hnotifies : pc.notifies → client.notifies) :
    At H clock' pending client worker := by
  cases worker with
  | timed next now => exact ⟨h.1, h.2.1.trans hclock, h.2.2⟩
  | due =>
      obtain ⟨next, hpeek, hdue⟩ := h
      exact ⟨next, hpeek, hdue.trans hclock⟩
  | popped record => exact le_trans (α := Nat) h hclock
  | sending record => exact le_trans (α := Nat) h hclock
  | waiting timeout notified =>
      cases notified with
      | true => trivial
      | false => exact h.imp_left hnotifies
  | untimed => exact h
  | peeked next => exact h
  | _ => trivial

/-- The client goes on, with the lock as it was. -/
theorem Inv.gotoClient (h : s.Inv H) (hpc : s.client = pc) (hlock : client.holdsLock = pc.holdsLock)
    (hnotifies : pc.notifies → client.notifies) : Inv H { s with client := client } :=
  { h with
    lock_client := by rw [h.lock_client, hpc, hlock]
    at_worker := by
      have hat := h.at_worker
      rw [hpc] at hat
      exact hat.mono le_rfl hnotifies }

/-- The client takes the lock. -/
theorem Inv.acquireClient (h : s.Inv H) (hpc : s.client = pc) (hfree : s.lock = none)
    (hlock : client.holdsLock = true) (hnotifies : pc.notifies → client.notifies) :
    Inv H { s with lock := some .client, client := client } :=
  { h with
    lock_client := by simp [hlock]
    lock_worker := by
      have hworker := h.worker_free (by simp [hfree])
      simp [hworker]
    at_worker := by
      have hat := h.at_worker
      rw [hpc] at hat
      exact hat.mono le_rfl hnotifies }

/-- The client lets the lock go, in a panic or not. -/
theorem Inv.releaseClient (h : s.Inv H) (hpc : s.client = pc) (hheld : pc.holdsLock = true) (poisoned : Bool)
    (hlock : client.holdsLock = false) (hnotifies : pc.notifies → client.notifies) :
    Inv H { s with lock := none, poisoned := poisoned, client := client } :=
  { h with
    lock_client := by simp [hlock]
    lock_worker := by
      have hworker := h.worker_free (by simp [h.lock_client.mpr (hpc ▸ hheld)])
      simp [hworker]
    at_worker := by
      have hat := h.at_worker
      rw [hpc] at hat
      exact hat.mono le_rfl hnotifies }

/-- A wakeup is registered.  The worker is not under the lock, and will be notified if it waits. -/
theorem Inv.push (h : s.Inv H) {expiry : Nat} {convoId : String} (hpc : s.client = .computed expiry convoId) :
    Inv H
      { s with
        pending := s.pending ++ [⟨expiry, convoId, s.registered.length⟩]
        registered := s.registered ++ [⟨expiry, convoId, s.registered.length⟩]
        client := .pushed } :=
  { h with
    lock_client := by
      rw [h.lock_client, hpc]
      rfl
    at_worker := by
      have hlock : s.lock = some .client := h.lock_client.mpr (hpc ▸ rfl)
      have hfree := h.worker_free (by simp [hlock])
      have hat := h.at_worker
      cases hw : s.worker with
      | waiting timeout notified =>
          cases notified with
          | true => trivial
          | false => exact .inl rfl
      | sending record =>
          rw [hw] at hat
          exact hat
      | unlocked => trivial
      | woken => trivial
      | returned => trivial
      | panicked => trivial
      | _ =>
          rw [hw] at hfree
          cases hfree
    places := by
      show (s.registered ++ [_]).Perm (s.pending ++ [_] ++ _)
      rw [List.append_assoc]
      refine (List.perm_append_singleton _ _).trans ?_
      exact (h.places.cons _).trans List.perm_middle.symm
    tickets := by
      rw [List.map_append, h.tickets, List.length_append]
      exact List.range_succ.symm }

/-- A notification is given, and reaches the worker if it waits. -/
theorem Inv.notify (h : s.Inv H) (hpc : s.client = pc) (hlock : client.holdsLock = pc.holdsLock) :
    Inv H { s.notifyOne with client := client } := by
  have hat := h.at_worker
  unfold notifyOne
  cases hw : s.worker with
  | waiting timeout notified =>
      have hclient : Inv H { s with client := s.client, worker := .waiting timeout true } :=
        h.goto hw rfl rfl trivial
      exact
        { hclient with
          lock_client := by rw [h.lock_client, hpc, hlock]
          at_worker := trivial }
  | _ =>
      rw [hw] at hat
      exact
        { h with
          lock_client := by rw [h.lock_client, hpc, hlock]
          at_worker := by
            rw [hw]
            exact hat }

theorem Inv.clientStep (h : s.Inv H) : Inv H (s.clientStep maxInstant) := by
  unfold System.clientStep
  cases hpc : s.client with
  | locked duration convoId =>
      dsimp only
      split
      · exact h.gotoClient hpc rfl nofun
      · exact h.releaseClient hpc rfl true rfl nofun
  | computed expiry convoId => exact h.push hpc
  | pushed => exact h.notify hpc rfl
  | notified => exact h.releaseClient hpc rfl s.poisoned rfl nofun
  | dropping =>
      have hstored : Inv H { s with client := .stored } := h.gotoClient hpc rfl nofun
      exact { hstored with }
  | stored => exact h.notify hpc rfl
  | joining =>
      dsimp only
      split
      · exact h.gotoClient hpc rfl nofun
      · exact h
  | idle => exact h
  | panicked => exact h
  | dropped => exact h

theorem Inv.register (h : s.Inv H) (duration : Nat) (convoId : String) :
    Inv H (s.register duration convoId) := by
  unfold System.register
  split
  case h_1 hpc hlock =>
    split
    · exact h.gotoClient hpc rfl nofun
    · exact h.acquireClient hpc hlock rfl nofun
  case h_2 => exact h

end Client

theorem Inv.step (h : s.Inv H) (e : Event) : Inv H (s.step maxInstant H e) := by
  cases e with
  | tick duration =>
      exact { h with at_worker := h.at_worker.mono (Nat.le_add_right s.clock duration) id }
  | register duration convoId => exact h.register duration convoId
  | drop =>
      rw [System.step]
      split
      case h_1 hpc => exact h.gotoClient hpc rfl nofun
      case h_2 hpc => exact h.gotoClient hpc rfl nofun
      case h_3 => exact h
  | client => exact h.clientStep
  | worker => exact h.workerStep
  | spurious =>
      rw [System.step]
      split
      case h_1 hpc => exact h.goto hpc rfl rfl trivial
      case h_2 => exact h
  | disconnect => exact { h with receiver := nofun }

/-- What the service owes those who registered. -/
structure Sound (s : System) : Prop where
  -- each registered wakeup is in one place: pending, taken, emitted, or refused by a receiver that is gone
  places : s.registered.Perm (s.pending ++ (s.worker.hand ++ (s.emitted.map Prod.fst ++ s.refused)))
  distinct : (s.registered.map WakeupRecord.ticket).Nodup
  receiver : s.receiver → s.refused = []
  emitted_once : (s.emitted.map fun e ↦ e.1.ticket).Nodup
  on_time : ∀ e ∈ s.emitted, e.1.expiry ≤ e.2
  least : ∀ t ∈ s.taken, t.record ∈ t.among ∧ ∀ other ∈ t.among, t.record.expiry ≤ other.expiry
  -- a wait that no notification is on its way to
  covered : ∀ timeout, s.worker = .waiting timeout false → ¬ s.client.notifies → s.pending = [] ∨
    ∃ t, timeout = some t ∧ ∀ record ∈ s.pending, t.deadline ≤ record.expiry + t.late

theorem Inv.sound (h : s.Inv H) : s.Sound := by
  have hdistinct : (s.registered.map WakeupRecord.ticket).Nodup := by
    rw [h.tickets]
    exact List.nodup_range
  constructor
  case places => exact h.places
  case distinct => exact hdistinct
  case receiver => exact h.receiver
  case emitted_once =>
    have htickets := (h.places.map WakeupRecord.ticket).nodup_iff.mp hdistinct
    have hsublist : (s.emitted.map Prod.fst).Sublist
        (s.pending ++ (s.worker.hand ++ (s.emitted.map Prod.fst ++ s.refused))) := by
      apply List.sublist_append_of_sublist_right
      apply List.sublist_append_of_sublist_right
      exact List.sublist_append_left _ _
    have honce := htickets.sublist (hsublist.map WakeupRecord.ticket)
    rw [List.map_map] at honce
    exact honce
  case on_time => exact h.on_time
  case least => exact h.least
  case covered =>
    intro timeout hpc hquiet
    have hat := h.at_worker
    rw [hpc] at hat
    obtain hnotifies | hcovers := hat
    · exact absurd hnotifies hquiet
    · cases timeout with
      | none => exact .inl hcovers
      | some t => exact .inr ⟨t, rfl, hcovers⟩

end System

/-- In every schedule of the two threads, whatever heap the wakeups are kept in. -/
theorem wakeups_sound (maxInstant : Nat) (H : Heap) (clock : Nat) (events : List Event) :
    (run (System.step maxInstant H) { clock := clock } events).Sound := by
  have hstep (s : System) (e : Event) (hs : s.Inv H) : (s.step maxInstant H e).Inv H := hs.step e
  exact (run_invariant hstep (System.inv_start clock) events).sound

/-- The worker reads the clock, and is late to wait. -/
def lateToWait : List Event :=
  [.register 10 "saro-raya", .client, .client, .client, .client, .worker, .worker, .worker, .worker, .tick 5,
    .worker]

/-- The wakeup expires at 10, and the worker waits until 15 unless it is notified. -/
theorem late_wait_oversleeps :
    (∃ t, (run (System.step 1000 .list) { clock := 0 } lateToWait).worker = .waiting (some t) false ∧
      ∃ record ∈ (run (System.step 1000 .list) { clock := 0 } lateToWait).pending, record.expiry < t.deadline) ∧
      (run (System.step 1000 .list) { clock := 0 } lateToWait).client = .idle :=
  ⟨⟨⟨15, 5⟩, by decide, ⟨10, "saro-raya", 0⟩, by decide, by decide⟩, by decide⟩

end LogosChat.Components
