import Mathlib.Data.Finset.Basic
import Mathlib.Data.List.Basic

/-!
# Logs with removal by position

Each operation of an append-only log either fills its own position (`none`) or removes an earlier
one (`some target`).  Replaying the log keeps the set of live positions; a removal of a position
that is not live at that moment has no meaning.  A boolean mask over the positions holds the same
information, which is what `MaskOf` says.
-/

namespace LogosChat.Reasoning

/-- One operation at `position`. -/
def replayStep (position : Nat) (live : Finset Nat) : Option Nat → Option (Finset Nat)
  | none => some (insert position live)
  | some target => if target ∈ live then some (live.erase target) else none

def replayFrom : List (Option Nat) → Nat → Finset Nat → Option (Finset Nat)
  | [], _, live => some live
  | op :: ops, position, live =>
      match replayStep position live op with
      | some live => replayFrom ops (position + 1) live
      | none => none

/-- The live positions after the whole log, when every removal was of a live position. -/
def replay (ops : List (Option Nat)) : Option (Finset Nat) :=
  replayFrom ops 0 ∅

/-! ## Growing a log -/

theorem replayFrom_concat (ops : List (Option Nat)) (op : Option Nat) (position : Nat)
    (live : Finset Nat) :
    replayFrom (ops ++ [op]) position live =
      (replayFrom ops position live).bind fun live ↦ replayStep (position + ops.length) live op := by
  induction ops generalizing position live with
  | nil =>
      show (match replayStep position live op with
        | some live => some live
        | none => none) = replayStep position live op
      cases replayStep position live op <;> rfl
  | cons first ops ih =>
      rw [List.cons_append, replayFrom, replayFrom, List.length_cons]
      cases replayStep position live first with
      | none => rfl
      | some next =>
          dsimp only
          rw [ih, Nat.add_assoc, Nat.add_comm 1]

theorem replay_concat (ops : List (Option Nat)) (op : Option Nat) :
    replay (ops ++ [op]) = (replay ops).bind fun live ↦ replayStep ops.length live op := by
  rw [replay, replayFrom_concat, Nat.zero_add]
  rfl

/-- What a log has to satisfy for its live positions to be `live`: removals point backwards, and a
position is live when it was filled and nothing removes it. -/
structure LiveSet (ops : List (Option Nat)) (live : Finset Nat) : Prop where
  backwards : ∀ target, some target ∈ ops → target < ops.length
  mem_iff : ∀ p, p ∈ live ↔ ops[p]? = some none ∧ some p ∉ ops

namespace LiveSet

variable {ops : List (Option Nat)} {live : Finset Nat}

theorem fill (h : LiveSet ops live) : LiveSet (ops ++ [none]) (insert ops.length live) where
  backwards := by
    intro target htarget
    have hold : some target ∈ ops := by simpa using htarget
    have hlt := h.backwards target hold
    rw [List.length_append, List.length_singleton]
    omega
  mem_iff := by
    intro p
    rw [Finset.mem_insert, h.mem_iff p]
    by_cases hp : p = ops.length
    · -- nothing in the log can have pointed at its end
      subst hp
      have hfresh : some ops.length ∉ ops := fun hin ↦ Nat.lt_irrefl _ (h.backwards _ hin)
      simp [hfresh]
    · have hget : (ops ++ [none])[p]? = some none ↔ ops[p]? = some none := by
        rw [List.getElem?_append]
        by_cases hlt : p < ops.length
        · rw [if_pos hlt]
        · rw [if_neg hlt, List.getElem?_eq_none (by simp; omega), List.getElem?_eq_none (by omega)]
      rw [hget]
      simp [hp]

theorem remove (h : LiveSet ops live) {target : Nat} (htarget : target ∈ live) :
    LiveSet (ops ++ [some target]) (live.erase target) where
  backwards := by
    intro other hother
    have hlt : target < ops.length := (List.getElem?_eq_some_iff.mp ((h.mem_iff _).mp htarget).1).1
    rw [List.length_append, List.length_singleton]
    rcases List.mem_append.mp hother with hold | hnew
    · have hlt' := h.backwards other hold
      omega
    · cases List.mem_singleton.mp hnew
      omega
  mem_iff := by
    intro p
    have hget : (ops ++ [some target])[p]? = some none ↔ ops[p]? = some none := by
      rw [List.getElem?_append]
      by_cases hlt : p < ops.length
      · rw [if_pos hlt]
      · rw [if_neg hlt, List.getElem?_eq_none (show ops.length ≤ p by omega)]
        cases p - ops.length <;> simp
    rw [Finset.mem_erase, h.mem_iff p, hget, List.mem_append, List.mem_singleton,
      Option.some.injEq, not_or]
    exact ⟨fun hp ↦ ⟨hp.2.1, hp.2.2, hp.1⟩, fun hp ↦ ⟨hp.2.2, hp.1, hp.2.1⟩⟩

end LiveSet

/-- The replay in closed form. -/
theorem liveSet_of_replay (ops : List (Option Nat)) :
    ∀ {live : Finset Nat}, replay ops = some live → LiveSet ops live := by
  induction ops using List.reverseRecOn with
  | nil =>
      intro live h
      cases h
      exact ⟨nofun, by simp⟩
  | append_singleton ops op ih =>
      intro live h
      rw [replay_concat, Option.bind_eq_some_iff] at h
      rcases h with ⟨before, hbefore, hstep⟩
      have hold := ih hbefore
      cases op with
      | none =>
          cases hstep
          exact hold.fill
      | some target =>
          rw [replayStep] at hstep
          by_cases htarget : target ∈ before
          · rw [if_pos htarget] at hstep
            cases hstep
            exact hold.remove htarget
          · rw [if_neg htarget] at hstep
            cases hstep

/-- What comes before the end of a log that replays, replays. -/
theorem replay_isSome_of_front {ops more : List (Option Nat)} (hfront : ops <+: more)
    (h : (replay more).isSome = true) : (replay ops).isSome = true := by
  rcases hfront with ⟨rest, hrest⟩
  subst hrest
  induction rest using List.reverseRecOn with
  | nil => simpa using h
  | append_singleton rest op ih =>
      apply ih
      rw [← List.append_assoc, replay_concat] at h
      cases hreplay : replay (ops ++ rest) with
      | none => simp [hreplay] at h
      | some live => rfl

/-! ## Masks -/

/-- `removed` marks the tombstones among the first `k` operations and nothing else. -/
structure MaskOf (ops : List (Option Nat)) (k : Nat) (removed : List Bool) (live : Finset Nat) :
    Prop where
  length : removed.length = ops.length
  mem_iff : ∀ p, p ∈ live ↔ p < k ∧ ops[p]? = some none ∧ removed[p]? = some false
  fresh : ∀ p, k ≤ p → p < ops.length → removed[p]? = some false

namespace MaskOf

variable {ops : List (Option Nat)} {k : Nat} {removed : List Bool} {live : Finset Nat}

theorem init (ops : List (Option Nat)) : MaskOf ops 0 (List.replicate ops.length false) ∅ where
  length := by simp
  mem_iff := by simp
  fresh := by
    intro p _ hp
    rw [List.getElem?_replicate_of_lt hp]

theorem add (h : MaskOf ops k removed live) (hop : ops[k]? = some none) :
    MaskOf ops (k + 1) removed (insert k live) where
  length := h.length
  mem_iff := by
    intro p
    have hk : k < ops.length := (List.getElem?_eq_some_iff.mp hop).1
    rw [Finset.mem_insert, h.mem_iff p]
    by_cases hp : p = k
    · subst hp
      simp [hop, h.fresh p (by omega) hk]
    · simp only [hp, false_or, show p < k + 1 ↔ p < k by omega]
  fresh := fun p hkp hp => h.fresh p (by omega) hp

theorem remove (h : MaskOf ops k removed live) {target : Nat} (hop : ops[k]? = some (some target))
    (htarget : target ∈ live) :
    MaskOf ops (k + 1) (removed.set target true) (live.erase target) where
  length := by rw [List.length_set, h.length]
  mem_iff := by
    intro p
    have hlt : target < k := ((h.mem_iff target).mp htarget).1
    rw [Finset.mem_erase, h.mem_iff p]
    by_cases hp : p = target
    · subst hp
      simp [List.getElem?_set]
    · rw [List.getElem?_set_ne (Ne.symm hp)]
      by_cases hk : p = k
      · -- a removal does not fill its own position
        subst hk
        simp [hop]
      · simp only [ne_eq, hp, not_false_iff, true_and, show p < k + 1 ↔ p < k by omega]
  fresh := by
    intro p hkp hp
    have hlt : target < k := ((h.mem_iff target).mp htarget).1
    rw [List.getElem?_set_ne (by omega)]
    exact h.fresh p (by omega) hp

end MaskOf

end LogosChat.Reasoning
