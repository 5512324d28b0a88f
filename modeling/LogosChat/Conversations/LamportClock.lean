import LogosChat.Conversations.CausalHistory

/-!
# The Lamport clock of a store

A send steps the clock of its conversation and a reception takes the maximum with the timestamp it
reads, which is any 32-bit number its sender wrote.  The clock is compared here with one that has no
bound: the two agree as long as no send finds the largest number on the clock.
-/

namespace LogosChat.Conversations

open Reasoning

/-! ## What a call does to the clock -/

namespace Reception

variable (c : String) (sender other : SignerKey) (id : String) (f : Frontier) (r : Reception)

@[simp] theorem acknowledge_lamportClock :
    (r.acknowledge c sender other id).state.lamportClock = r.state.lamportClock := by
  unfold acknowledge
  split <;> rfl

@[simp] theorem detect_lamportClock : (r.detect c f).state.lamportClock = r.state.lamportClock := by
  unfold detect
  split <;> rfl

theorem entry_lamportClock (e : HistoryEntry) :
    (entry c sender r e).state.lamportClock = r.state.lamportClock := by
  unfold entry
  split
  · rfl
  · simp

theorem run_entry_lamportClock (history : List HistoryEntry) :
    (run (entry c sender) r history).state.lamportClock = r.state.lamportClock := by
  induction history generalizing r with
  | nil => rfl
  | cons e history ih => rw [run_cons, ih, entry_lamportClock]

end Reception

@[simp] theorem ConvoState.recordSeen_lamportClock (state : ConvoState) (info : Frontier) :
    (state.recordSeen info).lamportClock = state.lamportClock := by
  unfold recordSeen
  split <;> rfl

namespace CausalHistoryStore

variable {B : Build} {store store' : CausalHistoryStore} {c : String}

/-- The timestamp of a conversation's next message, less one. -/
def clock (store : CausalHistoryStore) (c : String) : Int32 := (store.convos c).lamportClock

theorem onSend_clock {sender : SignerKey} {content : Bytes} {payload : ReliablePayload}
    (h : store.onSend B c sender content = .ok (payload, store')) :
    tick B (store.clock c) = .ok payload.lamportTimestamp ∧
      store'.clock = Function.update store.clock c payload.lamportTimestamp := by
  rcases Result.bind_eq_ok.mp h with ⟨lamport, htick, h⟩
  cases h
  refine ⟨htick, funext fun c' ↦ ?_⟩
  by_cases hc : c' = c
  · subst hc
    simp [clock]
  · simp [clock, hc]

theorem onSend_of_tick (sender : SignerKey) (content : Bytes) {lamport : Int32}
    (h : tick B (store.clock c) = .ok lamport) :
    ∃ payload store', store.onSend B c sender content = .ok (payload, store') := by
  exact ⟨_, _, Result.bind_eq_ok.mpr ⟨lamport, h, rfl⟩⟩

theorem onReceive_clock {payload : ReliablePayload} {sender : SignerKey}
    (h : SignerKey.tryFrom payload.senderId = .ok sender) :
    (store.onReceive c payload).2.clock =
      Function.update store.clock c (max (store.clock c) payload.lamportTimestamp) := by
  unfold onReceive
  rw [h]
  funext c'
  by_cases hc : c' = c
  · subst hc
    simp [clock, Reception.run_entry_lamportClock]
  · simp [clock, hc]

theorem onReceive_unparseable {payload : ReliablePayload} {e : SignerError}
    (h : SignerKey.tryFrom payload.senderId = .error e) : store.onReceive c payload = ([], store) := by
  unfold onReceive
  rw [h]

end CausalHistoryStore

/-! ## Machine arithmetic -/

theorem toInt_le_maxValue (x : Int32) : x.toInt ≤ Int32.maxValue.toInt := by
  have h : x.toInt < 2 ^ 31 := x.toInt_lt
  have hmax : Int32.maxValue.toInt = 2 ^ 31 - 1 := by decide
  omega

theorem toInt_add_one {x : Int32} (h : x.toInt < Int32.maxValue.toInt) :
    (x + 1).toInt = x.toInt + 1 := by
  have hmax : Int32.maxValue.toInt = 2 ^ 31 - 1 := by decide
  have hlow : -2 ^ 31 ≤ x.toInt := x.le_toInt
  have hone : (1 : Int32).toInt = 1 := by decide
  rw [Int32.toInt_add, hone]
  apply Int.bmod_eq_of_le <;> omega

theorem toInt_max (x y : Int32) : (max x y).toInt = max x.toInt y.toInt := by
  rw [show max x y = if x ≤ y then y else x from rfl]
  by_cases h : x ≤ y
  · rw [if_pos h, max_eq_right (Int32.le_iff_toInt_le.mp h)]
  · rw [if_neg h, max_eq_left]
    have hle := mt Int32.le_iff_toInt_le.mpr h
    omega

/-- Below the largest number a tick is one more, in every build. -/
theorem tick_of_lt (B : Build) {clock : Int32} (h : clock.toInt < Int32.maxValue.toInt) :
    tick B clock = .ok (clock + 1) := by
  have hne : clock ≠ Int32.maxValue := by
    intro heq
    rw [heq] at h
    omega
  simp [tick, hne]

/-! ## Runs of one store -/

inductive StoreCall where
  | send (conversationId : String) (sender : SignerKey) (content : Bytes)
  | receive (conversationId : String) (payload : ReliablePayload)

/-- A store, with the timestamps of the messages it sent and received in each conversation and the
clock that counts the same calls without a bound. -/
structure ClockedStore where
  store : CausalHistoryStore := {}
  stamps : String → List Int32 := fun _ ↦ []
  unbounded : String → Int := fun _ ↦ 0

namespace ClockedStore

def call (B : Build) (s : ClockedStore) : StoreCall → ClockedStore
  | .send c sender content =>
      let unbounded := Function.update s.unbounded c (s.unbounded c + 1)
      match s.store.onSend B c sender content with
      | .ok (payload, store) =>
          { store := store
            stamps := Function.update s.stamps c (payload.lamportTimestamp :: s.stamps c)
            unbounded := unbounded }
      -- the addition panics before the conversation is written
      | .panic => { s with unbounded := unbounded }
  | .receive c payload =>
      match SignerKey.tryFrom payload.senderId with
      | .ok _ =>
          { store := (s.store.onReceive c payload).2
            stamps := Function.update s.stamps c (payload.lamportTimestamp :: s.stamps c)
            unbounded := Function.update s.unbounded c
              (max (s.unbounded c) payload.lamportTimestamp.toInt) }
      | .error _ => { s with store := (s.store.onReceive c payload).2 }

/-- A send returns a timestamp greater than every one before it in its conversation, and the step of
the clock is the integer one. -/
def SendsAhead (B : Build) (s : ClockedStore) : StoreCall → Prop
  | .send c sender content =>
      ∃ payload store', s.store.onSend B c sender content = .ok (payload, store') ∧
        (∀ t ∈ s.stamps c, t < payload.lamportTimestamp) ∧
        payload.lamportTimestamp.toInt = (s.store.clock c).toInt + 1
  | .receive _ _ => True

/-- The clock without a bound has not reached `i32::MAX` where a send steps it. -/
def HasRoom (s : ClockedStore) : StoreCall → Prop
  | .send c _ _ => s.unbounded c < Int32.maxValue.toInt
  | .receive _ _ => True

/-- The machine clock is the unbounded one, and no message is ahead of it. -/
structure Tracks (s : ClockedStore) : Prop where
  clock : ∀ c, (s.store.clock c).toInt = s.unbounded c
  stamps : ∀ c, ∀ t ∈ s.stamps c, t.toInt ≤ s.unbounded c

theorem tracks_init : Tracks {} := ⟨fun _ ↦ rfl, nofun⟩

-- a clock moved to `lamport`, with a message that carries it or an older one
theorem Tracks.moved {s : ClockedStore} (h : s.Tracks) {store' : CausalHistoryStore} {c : String}
    {lamport stamp : Int32} {n : Int} (hclock : store'.clock = Function.update s.store.clock c lamport)
    (hn : lamport.toInt = n) (hahead : s.unbounded c ≤ n) (hstamp : stamp.toInt ≤ n) :
    Tracks
      { store := store'
        stamps := Function.update s.stamps c (stamp :: s.stamps c)
        unbounded := Function.update s.unbounded c n } := by
  refine ⟨fun c' ↦ ?_, fun c' t ht ↦ ?_⟩
  · show (store'.clock c').toInt = Function.update s.unbounded c n c'
    rw [hclock]
    by_cases hc : c' = c
    · subst hc
      rw [Function.update_self, Function.update_self, hn]
    · rw [Function.update_of_ne hc, Function.update_of_ne hc, h.clock]
  · show t.toInt ≤ Function.update s.unbounded c n c'
    replace ht : t ∈ Function.update s.stamps c (stamp :: s.stamps c) c' := ht
    by_cases hc : c' = c
    · subst hc
      rw [Function.update_self] at ht ⊢
      rcases List.mem_cons.mp ht with heq | hold
      · rw [heq]
        exact hstamp
      · exact (h.stamps c' t hold).trans hahead
    · rw [Function.update_of_ne hc] at ht ⊢
      exact h.stamps c' t ht

theorem Tracks.call {B : Build} {s : ClockedStore} (h : s.Tracks) {e : StoreCall}
    (hahead : SendsAhead B s e) : (s.call B e).Tracks := by
  cases e with
  | send c sender content =>
      rcases hahead with ⟨payload, store', hsend, -, hstep⟩
      rw [h.clock] at hstep
      rw [ClockedStore.call, hsend]
      exact h.moved (CausalHistoryStore.onSend_clock hsend).2 hstep (by omega) (by omega)
  | receive c payload =>
      rw [ClockedStore.call]
      cases hsender : SignerKey.tryFrom payload.senderId with
      | ok sender =>
          apply h.moved (CausalHistoryStore.onReceive_clock hsender)
          · rw [toInt_max, h.clock]
          · exact le_max_left _ _
          · exact le_max_right _ _
      | error e =>
          rw [CausalHistoryStore.onReceive_unparseable hsender]
          exact h

theorem Tracks.sendsAhead_iff {B : Build} {s : ClockedStore} (h : s.Tracks) (e : StoreCall) :
    SendsAhead B s e ↔ HasRoom s e := by
  cases e with
  | send c sender content =>
      show _ ↔ s.unbounded c < Int32.maxValue.toInt
      rw [← h.clock]
      refine ⟨fun hahead ↦ ?_, fun hroom ↦ ?_⟩
      · rcases hahead with ⟨payload, store', -, -, hstep⟩
        have hmax := toInt_le_maxValue payload.lamportTimestamp
        omega
      · have htick := tick_of_lt B hroom
        rcases CausalHistoryStore.onSend_of_tick sender content htick with ⟨payload, store', hsend⟩
        have hstamp : payload.lamportTimestamp = s.store.clock c + 1 := by
          have htick' := (CausalHistoryStore.onSend_clock hsend).1
          rw [htick] at htick'
          exact (Result.ok.inj htick').symm
        have hstep := toInt_add_one hroom
        rw [← hstamp] at hstep
        refine ⟨payload, store', hsend, fun t ht ↦ ?_, hstep⟩
        have hold := h.stamps c t ht
        rw [← h.clock] at hold
        rw [Int32.lt_iff_toInt_lt]
        omega
  | receive c payload => exact Iff.rfl

end ClockedStore

/-- Over the runs of a store, every send is ahead of all it has seen exactly when no send finds the
unbounded clock at `i32::MAX`. -/
theorem sends_are_ahead_iff (B : Build) (calls : List StoreCall) :
    Along (ClockedStore.call B) (ClockedStore.SendsAhead B) {} calls ↔
      Along (ClockedStore.call B) ClockedStore.HasRoom {} calls :=
  along_congr (fun _ _ h hahead ↦ h.call hahead) (fun _ e h ↦ h.sendsAhead_iff e)
    ClockedStore.tracks_init calls

def maximalTimestamp : ReliablePayload :=
  { messageId := "m"
    senderId := "aa"
    channelId := "c"
    lamportTimestamp := Int32.maxValue
    causalHistory := []
    bloomFilter := []
    content := [] }

-- the reception takes the clock to its end
theorem not_sendsAhead_after_maximalTimestamp (B : Build) :
    ¬ Along (ClockedStore.call B) (ClockedStore.SendsAhead B) {}
      [.receive "c" maximalTimestamp, .send "c" ⟨[0xbb]⟩ []] := by
  intro h
  have hclock := (ClockedStore.tracks_init.call h.1).clock "c"
  have hunbounded :
      (ClockedStore.call B {} (.receive "c" maximalTimestamp)).unbounded "c" =
        Int32.maxValue.toInt := rfl
  rcases h.2.1 with ⟨payload, store', -, -, hstep⟩
  have hmax := toInt_le_maxValue payload.lamportTimestamp
  rw [hclock, hunbounded] at hstep
  omega

/-- After one received message no send is ahead: with overflow checks it panics, and without them it
is stamped with the least number there is. -/
theorem send_after_maximal_timestamp :
    ¬ Along (ClockedStore.call ⟨fun _ ↦ [], true⟩) (ClockedStore.SendsAhead ⟨fun _ ↦ [], true⟩) {}
        [.receive "c" maximalTimestamp, .send "c" ⟨[0xbb]⟩ []] ∧
      ¬ Along (ClockedStore.call ⟨fun _ ↦ [], false⟩) (ClockedStore.SendsAhead ⟨fun _ ↦ [], false⟩) {}
        [.receive "c" maximalTimestamp, .send "c" ⟨[0xbb]⟩ []] :=
  ⟨not_sendsAhead_after_maximalTimestamp _, not_sendsAhead_after_maximalTimestamp _⟩

end LogosChat.Conversations
