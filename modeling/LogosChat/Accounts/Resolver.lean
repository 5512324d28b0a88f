import LogosChat.Accounts.Record
import LogosChat.Reasoning.Run
import Mathlib.Logic.Function.Basic

/-!
# Resolving accounts

The consumer side: one record for each address, fed by whatever an untrusted provider serves.  A
call takes the held record out of the map before it knows the outcome, so every way out has to put
it back.
-/

namespace LogosChat.Accounts

open Reasoning Crypto

inductive AccountError where
  | log (error : AccountLogError)
  | provider (error : String)
  | forked
deriving DecidableEq

/-- The answer to one `fetch`: the provider's error as text, nothing, or some signed log. -/
abbrev Fetched := Except String (Option SignedAccountLog)

structure AccountResolver (E : Ed25519) where
  known : AccountAddr E → Option (AccountRecord E)

namespace AccountResolver

variable {E : Ed25519}

def new : AccountResolver E := ⟨fun _ ↦ none⟩

/-- The record held for `addr`, without fetching. -/
def get (R : AccountResolver E) (addr : AccountAddr E) : Option (AccountRecord E) :=
  R.known addr

-- the two writes to the map
def remove (R : AccountResolver E) (addr : AccountAddr E) : AccountResolver E :=
  ⟨Function.update R.known addr none⟩

def insert (R : AccountResolver E) (addr : AccountAddr E) (record : AccountRecord E) :
    AccountResolver E :=
  ⟨Function.update R.known addr (some record)⟩

/-- Why an outcome is refused.  Identical or behind is a replica doing nothing wrong. -/
def refusal : Outcome → Option AccountError
  | .unchanged .diverged => some .forked
  | .signatureInvalid => some (.log .signatureInvalid)
  | .malformed error => some (.log error)
  | .updated => none
  | .unchanged _ => none

/-- The record to keep and the refusal, if any, given what was taken out of the map. -/
def consider (addr : AccountAddr E) (candidate : SignedAccountLog) :
    Option (AccountRecord E) → Result AccountError (AccountRecord E × Option AccountError)
  | none => do
      let record ← (AccountRecord.new addr candidate).mapErr .log
      .ok (record, none)
  | some held => do
      let update ← (held.update candidate).lift
      .ok (update.record, refusal update.outcome)

/-- Fetch the log under `addr` and adopt it if it extends what is held.  The second component is
the resolver after the call. -/
def resolve (R : AccountResolver E) (addr : AccountAddr E) (fetched : Fetched) :
    Result AccountError (Option (AccountRecord E)) × AccountResolver E :=
  match fetched with
  | .error e => (.err (.provider e), R)
  -- a provider that has lost the log does not take with it what was verified
  | .ok none => (.ok (R.known addr), R)
  | .ok (some candidate) =>
      let removed := R.remove addr
      match consider addr candidate (R.known addr) with
      | .panic => (.panic, removed)
      | .err e => (.err e, removed)
      | .ok (record, refused) =>
          let kept := removed.insert addr record
          match refused with
          | some error => (.err error, kept)
          | none => (.ok (kept.known addr), kept)

@[simp] theorem insert_known_self (R : AccountResolver E) (addr : AccountAddr E)
    (record : AccountRecord E) : (R.insert addr record).known addr = some record := by
  simp [insert]

theorem insert_known_of_ne (R : AccountResolver E) {addr other : AccountAddr E}
    (record : AccountRecord E) (h : other ≠ addr) :
    (R.insert addr record).known other = R.known other := by
  simp [insert, Function.update_of_ne h]

theorem insert_remove (R : AccountResolver E) (addr : AccountAddr E) (record : AccountRecord E) :
    (R.remove addr).insert addr record = R.insert addr record := by
  simp [remove, insert]

theorem remove_of_none {R : AccountResolver E} {addr : AccountAddr E} (h : R.known addr = none) :
    R.remove addr = R := by
  rw [remove, ← h, Function.update_eq_self]

theorem insert_of_some {R : AccountResolver E} {addr : AccountAddr E} {record : AccountRecord E}
    (h : R.known addr = some record) : R.insert addr record = R := by
  rw [insert, ← h, Function.update_eq_self]

/-! ## What one call can do -/

/-- Either the map is as it was, or the record of `addr` is of what was fetched: a first one, or a strict
extension. -/
inductive Resolved (R : AccountResolver E) (addr : AccountAddr E) (fetched : Fetched) :
    Result AccountError (Option (AccountRecord E)) → AccountResolver E → Prop where
  | kept (res) : res ≠ .panic → Resolved R addr fetched res R
  | first (record) : R.known addr = none → record.Holds addr → fetched = .ok (some record.signedLog) →
      Resolved R addr fetched (.ok (some record)) (R.insert addr record)
  | extended (held record) : R.known addr = some held → record.Holds addr →
      fetched = .ok (some record.signedLog) →
      StrictExtends record.signedLog.payload.bytes held.signedLog.payload.bytes →
      Resolved R addr fetched (.ok (some record)) (R.insert addr record)

-- the invariant of a map: what is held under an address is a record of that address
def Sound (R : AccountResolver E) : Prop :=
  ∀ addr record, R.known addr = some record → record.Holds addr

theorem resolve_first {R : AccountResolver E} {addr : AccountAddr E} {candidate : SignedAccountLog}
    (hnone : R.known addr = none) :
    (∃ record, record.Holds addr ∧ record.signedLog = candidate ∧
      R.resolve addr (.ok (some candidate)) = (.ok (some record), R.insert addr record)) ∨
    ∃ e, R.resolve addr (.ok (some candidate)) = (.err (.log e), R) := by
  unfold resolve
  simp only [hnone, consider]
  cases hnew : AccountRecord.new addr candidate with
  | ok record =>
      obtain ⟨hsigned, hholds⟩ := AccountRecord.holds_of_new hnew
      refine .inl ⟨record, hholds, hsigned, ?_⟩
      simp [Result.mapErr, insert_remove]
  | err e =>
      refine .inr ⟨e, ?_⟩
      simp [Result.mapErr, remove_of_none hnone]
  | panic =>
      cases hL : candidate.verify addr with
      | ok L => simp [AccountRecord.new, hL] at hnew
      | err e => simp [AccountRecord.new, hL] at hnew
      | panic => exact absurd hL (candidate.verify_failsIn addr).ne_panic

theorem resolve_held {R : AccountResolver E} {addr : AccountAddr E} {held : AccountRecord E}
    (hheld : R.known addr = some held) {candidate : SignedAccountLog}
    {u : AccountRecordUpdate E} (hu : held.update candidate = .ok u) :
    R.resolve addr (.ok (some candidate)) =
      (match refusal u.outcome with
        | some error => .err error
        | none => .ok (some u.record), R.insert addr u.record) := by
  unfold resolve
  simp only [hheld, consider, hu, Result.lift, Result.ok_bind, insert_remove]
  cases refusal u.outcome with
  | some error => rfl
  | none => simp

theorem resolve_cases {R : AccountResolver E} (hR : R.Sound) (addr : AccountAddr E)
    (fetched : Fetched) :
    Resolved R addr fetched (R.resolve addr fetched).1 (R.resolve addr fetched).2 := by
  rcases fetched with e | candidate
  · exact .kept _ nofun
  rcases candidate with _ | candidate
  · exact .kept _ nofun
  cases hknown : R.known addr with
  | none =>
      rcases @resolve_first E R addr candidate hknown with ⟨record, hholds, rfl, h⟩ | ⟨e, h⟩
      · rw [h]
        exact .first record hknown hholds rfl
      · rw [h]
        exact .kept _ nofun
  | some held =>
      have hholds := hR addr held hknown
      rcases AccountRecord.update_spec held candidate with ⟨u, hu, hspec⟩
      rw [resolve_held hknown hu]
      by_cases hupdated : u.outcome = .updated
      · have hchanged := hspec.updated_iff.mp hupdated
        rcases hspec.kept_or_extended with hkept | ⟨hcandidate, hext⟩
        · rw [hkept] at hchanged
          exact absurd rfl hchanged
        · rw [hupdated, ← hcandidate]
          exact .extended held u.record hknown (hholds.update hu) rfl hext
      · -- every other outcome returns the record that was held
        have hkept : u.record = held := by
          rcases hspec.kept_or_extended with hkept | ⟨_, hext⟩
          · exact hkept
          · exact absurd (hspec.updated_iff.mpr hext.2) hupdated
        rw [hkept, insert_of_some hknown]
        apply Resolved.kept
        cases refusal u.outcome <;> simp

/-! ## The fork alarm -/

theorem refusal_eq_forked_iff {outcome : Outcome} :
    refusal outcome = some .forked ↔ outcome = .unchanged .diverged := by
  cases outcome with
  | unchanged freshness => cases freshness <;> simp [refusal]
  | _ => simp [refusal]

-- only a held record can be forked from: a first log has nothing to compare against
theorem resolve_forked_iff {R : AccountResolver E} (hR : R.Sound) (addr : AccountAddr E)
    (fetched : Fetched) :
    (R.resolve addr fetched).1 = .err .forked ↔
      ∃ candidate held, fetched = .ok (some candidate) ∧ R.get addr = some held ∧
        candidate.Authentic addr ∧ (∃ L, candidate.payload.decode E = .ok L) ∧
        ¬ held.signedLog.payload.bytes <+: candidate.payload.bytes ∧
        ¬ candidate.payload.bytes <+: held.signedLog.payload.bytes := by
  unfold get
  rcases fetched with e | candidate
  · simp [resolve]
  rcases candidate with _ | candidate
  · simp [resolve]
  cases hknown : R.known addr with
  | none =>
      rcases @resolve_first E R addr candidate hknown with ⟨record, _, _, h⟩ | ⟨e, h⟩
      · simp [h]
      · simp [h]
  | some held =>
      rcases AccountRecord.update_spec held candidate with ⟨u, hu, hspec⟩
      have houtcome := hspec.unchanged_iff .diverged
      rw [compare_eq_diverged_iff, (hR addr held hknown).addr_eq] at houtcome
      have hforked : (R.resolve addr (.ok (some candidate))).1 = .err .forked ↔
          refusal u.outcome = some .forked := by
        rw [resolve_held hknown hu]
        cases refusal u.outcome <;> simp
      rw [hforked, refusal_eq_forked_iff, houtcome]
      simp

/-! ## Whole runs -/

def step (R : AccountResolver E) (call : AccountAddr E × Fetched) : AccountResolver E :=
  (R.resolve call.1 call.2).2

/-- The resolver after a sequence of calls, each with what the provider answered. -/
def after (calls : List (AccountAddr E × Fetched)) : AccountResolver E :=
  run step new calls

theorem Sound.insert {R : AccountResolver E} (hR : R.Sound) {addr : AccountAddr E}
    {record : AccountRecord E} (h : record.Holds addr) : (R.insert addr record).Sound := by
  intro other held hheld
  by_cases hother : other = addr
  · subst hother
    rw [insert_known_self] at hheld
    cases hheld
    exact h
  · rw [insert_known_of_ne R record hother] at hheld
    exact hR other held hheld

theorem Resolved.sound {R R' : AccountResolver E} {addr : AccountAddr E}
    {fetched : Fetched} {res : Result AccountError (Option (AccountRecord E))}
    (h : Resolved R addr fetched res R') (hR : R.Sound) : R'.Sound := by
  cases h with
  | kept _ => exact hR
  | first record _ hholds => exact hR.insert hholds
  | extended held record _ hholds => exact hR.insert hholds

theorem Sound.step {R : AccountResolver E} (hR : R.Sound) (call : AccountAddr E × Fetched) :
    (R.step call).Sound :=
  (resolve_cases hR call.1 call.2).sound hR

theorem after_sound (calls : List (AccountAddr E × Fetched)) : (after calls).Sound := by
  apply run_invariant
  · intro R call hR
    exact hR.step call
  · intro addr record h
    cases h

/-- Every record held before is held after: whole, or with a payload that strictly extends it and
that the address signed. -/
def Keeps (R R' : AccountResolver E) : Prop :=
  ∀ addr record, R.get addr = some record → ∃ record', R'.get addr = some record' ∧
    (record' = record ∨ record'.Holds addr ∧
      StrictExtends record'.signedLog.payload.bytes record.signedLog.payload.bytes)

theorem Keeps.refl (R : AccountResolver E) : R.Keeps R :=
  fun _ record h ↦ ⟨record, h, .inl rfl⟩

theorem Keeps.trans (R S T : AccountResolver E) (hRS : R.Keeps S) (hST : S.Keeps T) :
    R.Keeps T := by
  intro addr record h
  rcases hRS addr record h with ⟨mid, hmid, hfirst⟩
  rcases hST addr mid hmid with ⟨last, hlast, hsecond⟩
  refine ⟨last, hlast, ?_⟩
  rcases hsecond with heq | ⟨hholds, hext⟩
  · subst heq
    exact hfirst
  · rcases hfirst with heq | ⟨_, hext'⟩
    · subst heq
      exact .inr ⟨hholds, hext⟩
    · exact .inr ⟨hholds, hext.trans hext'⟩

section Resolved

variable {R R' : AccountResolver E} {addr : AccountAddr E} {fetched : Fetched}
  {res : Result AccountError (Option (AccountRecord E))}

theorem Resolved.ne_panic (h : Resolved R addr fetched res R') : res ≠ .panic := by
  cases h with
  | kept _ hres => exact hres
  | first record => exact nofun
  | extended held record => exact nofun

theorem Resolved.eq_of_err (h : Resolved R addr fetched res R') {e : AccountError} (herr : res = .err e) :
    R' = R := by
  cases h with
  | kept _ => rfl
  | first record => cases herr
  | extended held record => cases herr

theorem Resolved.get_of_ne (h : Resolved R addr fetched res R') {other : AccountAddr E}
    (hother : other ≠ addr) : R'.get other = R.get other := by
  cases h with
  | kept _ => rfl
  | first record => exact insert_known_of_ne R record hother
  | extended held record => exact insert_known_of_ne R record hother

theorem Resolved.keeps (h : Resolved R addr fetched res R') : R.Keeps R' := by
  intro other record hrecord
  by_cases hother : other = addr
  · subst hother
    cases h with
    | kept _ => exact ⟨record, hrecord, .inl rfl⟩
    | first new hnone =>
        -- there was nothing to lose
        rw [get, hnone] at hrecord
        cases hrecord
    | extended held new hheld hholds _ hext =>
        rw [get, hheld] at hrecord
        cases hrecord
        exact ⟨new, insert_known_self R other new, .inr ⟨hholds, hext⟩⟩
  · exact ⟨record, (h.get_of_ne hother).trans hrecord, .inl rfl⟩

/-- A record that was not held is of what was fetched. -/
theorem Resolved.of_fetched (h : Resolved R addr fetched res R') {record : AccountRecord E}
    (hrecord : R'.get addr = some record) :
    R.get addr = some record ∨ record.Holds addr ∧ fetched = .ok (some record.signedLog) := by
  cases h with
  | kept _ => exact .inl hrecord
  | first new _ hholds hfetched =>
      rw [get, insert_known_self] at hrecord
      cases hrecord
      exact .inr ⟨hholds, hfetched⟩
  | extended held new _ hholds hfetched =>
      rw [get, insert_known_self] at hrecord
      cases hrecord
      exact .inr ⟨hholds, hfetched⟩

/-- A readable log of the account is adopted, if it is the first or extends the one held. -/
theorem resolve_adopts {candidate : SignedAccountLog} {L : AccountLog E}
    (hverify : candidate.verify addr = .ok L)
    (hextends : ∀ held, R.get addr = some held →
      held.addr = addr ∧ StrictExtends candidate.payload.bytes held.signedLog.payload.bytes) :
    R.resolve addr (.ok (some candidate)) =
      (.ok (some ⟨addr, candidate, L⟩), R.insert addr ⟨addr, candidate, L⟩) := by
  cases hknown : R.known addr with
  | none =>
      have hnew : AccountRecord.new addr candidate = .ok ⟨addr, candidate, L⟩ := by
        rw [AccountRecord.new, hverify]
        rfl
      simp [resolve, hknown, consider, hnew, Result.mapErr, insert_remove]
  | some held =>
      obtain ⟨haddr, hext⟩ := hextends held hknown
      have hupdate : held.update candidate = .ok ⟨.updated, ⟨addr, candidate, L⟩⟩ := by
        rw [AccountRecord.update, haddr, hverify]
        dsimp only
        rw [(AccountRecord.newer_iff_strictExtends _ _).mpr hext]
      rw [resolve_held hknown hupdate]
      rfl

end Resolved

/-- What a call may do to the resolver and how it may end. -/
structure ResolveSpec (R : AccountResolver E) (addr : AccountAddr E) (fetched : Fetched)
    (res : Result AccountError (Option (AccountRecord E))) (R' : AccountResolver E) : Prop where
  no_panic : res ≠ .panic
  keeps : R.Keeps R'
  err_changes_nothing : ∀ e, res = .err e → ∀ other, R'.get other = R.get other
  others_untouched : ∀ other, other ≠ addr → R'.get other = R.get other
  adopts : ∀ candidate L, fetched = .ok (some candidate) → candidate.verify addr = .ok L →
    (∀ held, R.get addr = some held →
      StrictExtends candidate.payload.bytes held.signedLog.payload.bytes) →
    res = .ok (some ⟨addr, candidate, L⟩) ∧ R'.get addr = some ⟨addr, candidate, L⟩
  only_fetched : ∀ record, R'.get addr = some record →
    R.get addr = some record ∨ record.Holds addr ∧ fetched = .ok (some record.signedLog)
  forked_iff : res = .err .forked ↔
    ∃ candidate held, fetched = .ok (some candidate) ∧ R.get addr = some held ∧
      candidate.Authentic addr ∧ (∃ L, candidate.payload.decode E = .ok L) ∧
      ¬ held.signedLog.payload.bytes <+: candidate.payload.bytes ∧
      ¬ candidate.payload.bytes <+: held.signedLog.payload.bytes

theorem resolve_spec {R : AccountResolver E} (hR : R.Sound) (addr : AccountAddr E) (fetched : Fetched) :
    ResolveSpec R addr fetched (R.resolve addr fetched).1 (R.resolve addr fetched).2 := by
  have hcases := resolve_cases hR addr fetched
  refine ⟨hcases.ne_panic, hcases.keeps, fun e herr other ↦ by rw [hcases.eq_of_err herr],
    fun _ hother ↦ hcases.get_of_ne hother, fun candidate L hfetched hverify hextends ↦ ?_,
    fun _ hrecord ↦ hcases.of_fetched hrecord, resolve_forked_iff hR addr fetched⟩
  subst hfetched
  rw [resolve_adopts hverify fun held hheld ↦ ⟨(hR addr held hheld).addr_eq, hextends held hheld⟩]
  exact ⟨rfl, insert_known_self R addr _⟩

/-- Against any provider: no call loses or rewrites a record, a failed call changes nothing, no call
touches another address, a first log and a longer one are adopted and nothing else is, and the fork alarm
goes off exactly for a second history. -/
theorem resolver_keeps_histories (E : Ed25519) (calls : List (AccountAddr E × Fetched)) :
    (∀ addr fetched, ResolveSpec (after calls) addr fetched
      ((after calls).resolve addr fetched).1 ((after calls).resolve addr fetched).2) ∧
    ∀ more, (after calls).Keeps (after (calls ++ more)) := by
  have hsound := after_sound calls
  refine ⟨resolve_spec hsound, fun more ↦ ?_⟩
  have hafter : after (calls ++ more) = run step (after calls) more := run_append _ _ _
  rw [hafter]
  refine run_relates Keeps.refl Keeps.trans ?_ ?_ hsound more
  · intro R call hR
    exact hR.step call
  · intro R call hR
    exact (resolve_cases hR call.1 call.2).keeps

end AccountResolver

end LogosChat.Accounts
