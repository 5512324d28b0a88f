import LogosChat.Accounts.Authoring
import LogosChat.Accounts.Resolver

/-!
# Publishing from many devices

`AccountUpdate::publish` is a read-modify-write without a lock: it fetches the published log, decodes
it into a draft, pushes the entries, encodes, signs and publishes.  The devices of one account run it
against one provider in any interleaving; the provider stores an append-only payload.
-/

namespace LogosChat.Accounts

open Reasoning Crypto

variable {E : Ed25519}

/-- `Account::addr`. -/
def accountAddr (key : E.SigningKey) : AccountAddr E := ⟨E.verifyingKey key⟩

/-- `Account::draft`, on what the provider answered. -/
def accountDraft (key : E.SigningKey) : Fetched → Result AccountError (AccountLogDraft E)
  | .error e => .err (.provider e)
  -- the provider is untrusted; a log this account did not sign is not its own
  | .ok (some signed) => do
      let log ← (signed.verify (accountAddr key)).mapErr .log
      (AccountLogDraft.fromLog log).mapErr .log
  | .ok none => .ok AccountLogDraft.new

/-- The part of `publish` between the fetch and the write: the signed log it hands over. -/
def prepare (key : E.SigningKey) (fetched : Fetched) (entries : List AccountEntry) :
    Result AccountError SignedAccountLog := do
  let draft ← accountDraft key fetched
  let draft ← (draft.pushAll entries).mapErr .log
  let payload ← draft.log.encode.mapErr .log
  .ok (SignedAccountLog.sign E key payload)

/-! ## The payload a run hands over -/

/-- The bytes a draft of this base starts from: the domain tag alone when nothing was published. -/
def baseBytes : Option SignedAccountLog → Bytes
  | none => accountLogDomain
  | some signed => signed.payload.bytes

theorem accountDraft_payload {key : E.SigningKey} {base : Option SignedAccountLog}
    {draft : AccountLogDraft E} (h : accountDraft key (.ok base) = .ok draft) :
    baseBytes base = accountLogDomain ++ entryCodec.encodeAll draft.log.entries := by
  cases base with
  | none =>
      cases h
      exact (List.append_nil _).symm
  | some signed =>
      rcases Result.bind_eq_ok.mp h with ⟨log, hlog, hdraft⟩
      rw [Result.mapErr_eq_ok] at hlog hdraft
      rw [AccountLogDraft.fromLog_eq_ok hdraft]
      exact (decode_eq_ok_iff.mp (SignedAccountLog.verify_eq_ok_iff.mp hlog).2).1

/-- Re-encoding a base this device only partly authored gives back its bytes. -/
theorem prepare_payload {key : E.SigningKey} {base : Option SignedAccountLog}
    {entries : List AccountEntry} {signed : SignedAccountLog}
    (h : prepare key (.ok base) entries = .ok signed) :
    signed.payload.bytes = baseBytes base ++ entryCodec.encodeAll entries := by
  rcases Result.bind_eq_ok.mp h with ⟨draft, hdraft, h⟩
  rcases Result.bind_eq_ok.mp h with ⟨draft', hpush, h⟩
  rcases Result.bind_eq_ok.mp h with ⟨payload, hencode, h⟩
  rw [Result.mapErr_eq_ok] at hpush hencode
  cases h
  show payload.bytes = _
  rw [encode_eq_ok_iff.mp hencode, AccountLogDraft.pushAll_eq_ok hpush, accountDraft_payload hdraft,
    FrameCodec.encodeAll_append, List.append_assoc]

theorem accountDraft_failsIn (key : E.SigningKey) (fetched : Fetched) :
    (accountDraft key fetched).FailsIn fun _ ↦ True := by
  rcases fetched with e | base
  · trivial
  cases base with
  | none => trivial
  | some signed =>
      apply ((signed.verify_failsIn (accountAddr key)).mapErr fun _ _ ↦ trivial).bind
      intro log _
      unfold AccountLogDraft.fromLog
      cases log.firstUnreadable <;> trivial

theorem prepare_failsIn (key : E.SigningKey) (fetched : Fetched) (entries : List AccountEntry) :
    (prepare key fetched entries).FailsIn fun _ ↦ True := by
  apply (accountDraft_failsIn key fetched).bind
  intro draft _
  apply ((draft.pushAll_failsIn entries).mapErr fun _ _ ↦ trivial).bind
  intro draft' _
  apply ((encode_failsIn draft'.log).mapErr fun _ _ ↦ trivial).bind
  intro payload _
  trivial

/-! ## What an account reads back of its own log -/

/-- The entries the account finds in its slot; nothing published is a log without entries. -/
def Logged (key : E.SigningKey) : Option SignedAccountLog → List AccountEntry → Prop
  | none, entries => entries = []
  | some signed, entries => ∃ L, signed.verify (accountAddr key) = .ok L ∧ L.entries = entries

/-- The log in the slot cannot be read. -/
def Garbled (key : E.SigningKey) (stored : Option SignedAccountLog) : Prop :=
  ∀ entries, ¬ Logged key stored entries

section Logged

variable {key : E.SigningKey} {stored : Option SignedAccountLog} {entries more : List AccountEntry}
  {entry : AccountEntry} {signed : SignedAccountLog}

theorem Logged.unique (h : Logged key stored entries) (h' : Logged key stored more) :
    entries = more := by
  cases stored with
  | none => exact h.trans h'.symm
  | some signed =>
      obtain ⟨L, hL, rfl⟩ := h
      obtain ⟨M, hM, rfl⟩ := h'
      rw [hL] at hM
      cases hM
      rfl

theorem Logged.wellFramed (h : Logged key stored entries) : ∀ entry ∈ entries, entry.WellFramed := by
  cases stored with
  | none =>
      cases h
      exact List.forall_mem_nil _
  | some signed =>
      obtain ⟨L, hL, rfl⟩ := h
      exact (decode_eq_ok_iff.mp (SignedAccountLog.verify_eq_ok_iff.mp hL).2).2

theorem Logged.length_lt (h : Logged key stored entries) : entries.length < 2 ^ 32 := by
  cases stored with
  | none =>
      cases h
      decide
  | some signed =>
      obtain ⟨L, hL, rfl⟩ := h
      exact length_lt_of_decode (SignedAccountLog.verify_eq_ok_iff.mp hL).2

/-- A draft is made of the log the account reads. -/
theorem logged_of_accountDraft {draft : AccountLogDraft E}
    (h : accountDraft key (.ok stored) = .ok draft) : Logged key stored draft.log.entries := by
  cases stored with
  | none =>
      cases h
      rfl
  | some signed =>
      obtain ⟨log, hlog, hdraft⟩ := Result.bind_eq_ok.mp h
      rw [Result.mapErr_eq_ok] at hlog hdraft
      rw [AccountLogDraft.fromLog_eq_ok hdraft]
      exact ⟨log, hlog, rfl⟩

theorem readable_of_accountDraft {draft : AccountLogDraft E}
    (h : accountDraft key (.ok stored) = .ok draft) :
    ∀ entry ∈ draft.log.entries, entry.isUnreadable = false := by
  cases stored with
  | none =>
      cases h
      exact List.forall_mem_nil _
  | some signed =>
      obtain ⟨log, -, hdraft⟩ := Result.bind_eq_ok.mp h
      rw [Result.mapErr_eq_ok] at hdraft
      rw [AccountLogDraft.fromLog_eq_ok hdraft]
      exact AccountLogDraft.readable_of_fromLog hdraft

/-- A log that the account reads, and this build all entries of, is drafted. -/
theorem accountDraft_of_logged (h : Logged key stored entries)
    (hread : ∀ entry ∈ entries, entry.isUnreadable = false) :
    ∃ draft, accountDraft key (.ok stored) = .ok draft ∧ draft.log.entries = entries := by
  cases stored with
  | none => exact ⟨.new, rfl, h.symm⟩
  | some signed =>
      obtain ⟨L, hL, rfl⟩ := h
      refine ⟨⟨L⟩, ?_, rfl⟩
      rw [accountDraft, hL]
      show (AccountLogDraft.fromLog L).mapErr _ = _
      rw [AccountLogDraft.fromLog_of_readable hread]
      rfl

/-- A call gets as far as the provider exactly when it reads the log it fetched, each of its entries can
be pushed on it, and the whole is within the size cap. -/
theorem exists_prepare_iff :
    (∃ signed, prepare key (.ok stored) more = .ok signed) ↔
      ∃ old, Logged key stored old ∧ (∀ entry ∈ old, entry.isUnreadable = false) ∧
        AccountLogDraft.Pushable E old more ∧ encodedLength (old ++ more) ≤ maxPayloadBytes := by
  constructor
  · rintro ⟨signed, h⟩
    obtain ⟨draft, hdraft, h⟩ := Result.bind_eq_ok.mp h
    obtain ⟨draft', hpush, h⟩ := Result.bind_eq_ok.mp h
    obtain ⟨payload, hencode, -⟩ := Result.bind_eq_ok.mp h
    rw [Result.mapErr_eq_ok] at hpush hencode
    have hsize := exists_encode_iff.mp ⟨payload, hencode⟩
    rw [AccountLogDraft.pushAll_eq_ok hpush] at hsize
    have hlen := length_lt_of_encodedLength hsize
    exact ⟨draft.log.entries, logged_of_accountDraft hdraft, readable_of_accountDraft hdraft,
      (AccountLogDraft.exists_pushAll_iff hlen.le).mp ⟨draft', hpush⟩, hsize⟩
  · rintro ⟨old, hlogged, hread, hpushable, hsize⟩
    obtain ⟨draft, hdraft, rfl⟩ := accountDraft_of_logged hlogged hread
    have hlen := length_lt_of_encodedLength hsize
    obtain ⟨draft', hpush⟩ := (AccountLogDraft.exists_pushAll_iff hlen.le).mpr hpushable
    rw [← AccountLogDraft.pushAll_eq_ok hpush] at hsize
    obtain ⟨payload, hencode⟩ := exists_encode_iff.mpr hsize
    refine ⟨SignedAccountLog.sign E key payload, ?_⟩
    rw [prepare, hdraft, Result.ok_bind, hpush, Result.mapErr, Result.ok_bind, hencode]
    rfl

/-- What a publish of one entry hands over: the account's signature over the log it read and the entry,
which together are a valid log. -/
structure OneMore (key : E.SigningKey) (entries : List AccountEntry) (entry : AccountEntry)
    (signed : SignedAccountLog) : Prop where
  signs : signed = SignedAccountLog.sign E key signed.payload
  encodes : signed.payload.bytes = accountLogDomain ++ entryCodec.encodeAll (entries ++ [entry])
  readable : entry.isUnreadable = false
  valid : ∃ L : AccountLog E, L.entries = entries ++ [entry]

theorem oneMore_of_prepare (h : prepare key (.ok stored) [entry] = .ok signed) :
    ∃ entries, Logged key stored entries ∧ OneMore key entries entry signed := by
  obtain ⟨draft, hdraft, h⟩ := Result.bind_eq_ok.mp h
  obtain ⟨draft', hpush, h⟩ := Result.bind_eq_ok.mp h
  obtain ⟨payload, hencode, h⟩ := Result.bind_eq_ok.mp h
  rw [Result.mapErr_eq_ok] at hpush hencode
  obtain ⟨draft'', hone, hrest⟩ := Result.bind_eq_ok.mp hpush
  cases hrest
  cases h
  obtain ⟨hread, hentries⟩ := AccountLogDraft.push_eq_ok hone
  refine ⟨draft.log.entries, logged_of_accountDraft hdraft, rfl, ?_, hread, draft'.log, hentries⟩
  rw [← hentries]
  exact encode_eq_ok_iff.mp hencode

theorem OneMore.authentic (hE : E.VerifiesOwn) (h : OneMore key entries entry signed) :
    signed.Authentic (accountAddr key) := by
  rw [h.signs]
  exact hE key _

/-- A published entry whose text fits its frame is read back, after what was there. -/
theorem OneMore.logged (hE : E.VerifiesOwn) (h : OneMore key entries entry signed)
    (hbefore : Logged key stored entries) (hfits : entry.TextFits) :
    Logged key (some signed) (entries ++ [entry]) := by
  obtain ⟨L, hL⟩ := h.valid
  refine ⟨L, SignedAccountLog.verify_eq_ok_iff.mpr ⟨h.authentic hE, ?_⟩, hL⟩
  rw [decode_eq_ok_iff, hL]
  refine ⟨h.encodes, fun other hother ↦ ?_⟩
  obtain hold | hnew := List.mem_append.mp hother
  · exact hbefore.wellFramed other hold
  · cases List.mem_singleton.mp hnew
    exact wellFramed_of_textFits h.readable hfits

end Logged

/-! ## The devices and the provider -/

/-- One call of `publish`, by any device of the account. -/
inductive RunState where
  | idle
  | fetched (answer : Fetched) (entries : List AccountEntry)
  | done (result : Result AccountError SignedAccountLog)

/-- The provider's slot for the account, and every call of `publish`. -/
structure World (ι : Type) where
  stored : Option SignedAccountLog
  runs : ι → RunState

/-- A step of one call: its fetch, which the provider may fail, or the rest of it.  The texts are the
provider's own errors. -/
inductive Event (ι : Type) where
  | fetch (call : ι) (entries : List AccountEntry) (failure : Option String)
  | publish (call : ι) (refusal : String)

def Event.call {ι : Type} : Event ι → ι
  | .fetch call _ _ => call
  | .publish call _ => call

/-- The provider takes exactly the payloads that strictly extend the one it stores. -/
def Accepts (stored : Option SignedAccountLog) (candidate : SignedAccountLog) : Prop :=
  ∀ signed, stored = some signed → StrictExtends candidate.payload.bytes signed.payload.bytes

instance (stored : Option SignedAccountLog) (candidate : SignedAccountLog) :
    Decidable (Accepts stored candidate) :=
  match stored with
  | none => isTrue nofun
  | some signed =>
      decidable_of_iff (StrictExtends candidate.payload.bytes signed.payload.bytes)
        ⟨fun h _ heq ↦ Option.some.inj heq ▸ h, fun h ↦ h signed rfl⟩

/-- `fetch` on the provider's side. -/
def providerFetch (stored : Option SignedAccountLog) : Option String → Fetched
  | some failure => .error failure
  | none => .ok stored

/-- `publish` on the provider's side: the slot after the call, and how the call ends. -/
def providerPublish (stored : Option SignedAccountLog) (candidate : SignedAccountLog)
    (refusal : String) : Option SignedAccountLog × Result AccountError SignedAccountLog :=
  if Accepts stored candidate then (some candidate, .ok candidate)
  else (stored, .err (.provider refusal))

/-- A call from its fetched answer on. -/
def finish (key : E.SigningKey) (stored : Option SignedAccountLog) (answer : Fetched)
    (entries : List AccountEntry) (refusal : String) :
    Option SignedAccountLog × Result AccountError SignedAccountLog :=
  match prepare key answer entries with
  | .ok signed => providerPublish stored signed refusal
  | .err e => (stored, .err e)
  | .panic => (stored, .panic)

namespace World

variable {ι : Type} [DecidableEq ι]

def start (stored : Option SignedAccountLog) : World ι := ⟨stored, fun _ ↦ .idle⟩

def step (key : E.SigningKey) (w : World ι) : Event ι → World ι
  | .fetch call entries failure =>
      match w.runs call with
      | .idle =>
          let answer := providerFetch w.stored failure
          { w with runs := Function.update w.runs call (.fetched answer entries) }
      | _ => w
  | .publish call refusal =>
      match w.runs call with
      | .fetched answer entries =>
          let out := finish key w.stored answer entries refusal
          { stored := out.1, runs := Function.update w.runs call (.done out.2) }
      | _ => w

theorem step_fetch (key : E.SigningKey) {w : World ι} {call : ι} (h : w.runs call = .idle)
    (entries : List AccountEntry) (failure : Option String) :
    w.step key (.fetch call entries failure) =
      ⟨w.stored, Function.update w.runs call (.fetched (providerFetch w.stored failure) entries)⟩ := by
  simp only [step, h]

theorem step_publish (key : E.SigningKey) {w : World ι} {call : ι} {answer : Fetched}
    {entries : List AccountEntry} (h : w.runs call = .fetched answer entries) (refusal : String) :
    w.step key (.publish call refusal) =
      ⟨(finish key w.stored answer entries refusal).1,
        Function.update w.runs call (.done (finish key w.stored answer entries refusal).2)⟩ := by
  simp only [step, h]

/-- An event out of turn does nothing; the others move their own call. -/
theorem step_cases (key : E.SigningKey) (w : World ι) (e : Event ι) :
    w.step key e = w ∨
    (∃ answer entries, w.step key e =
      ⟨w.stored, Function.update w.runs e.call (.fetched answer entries)⟩) ∨
    ∃ answer entries refusal, w.step key e =
      ⟨(finish key w.stored answer entries refusal).1,
        Function.update w.runs e.call (.done (finish key w.stored answer entries refusal).2)⟩ := by
  cases e with
  | fetch call entries failure =>
      cases hrun : w.runs call with
      | idle => exact .inr (.inl ⟨_, _, step_fetch key hrun entries failure⟩)
      | _ => exact .inl (by simp only [step, hrun])
  | publish call refusal =>
      cases hrun : w.runs call with
      | fetched answer entries => exact .inr (.inr ⟨_, _, _, step_publish key hrun refusal⟩)
      | _ => exact .inl (by simp only [step, hrun])

theorem step_runs_of_ne {key : E.SigningKey} {w : World ι} {e : Event ι} {call : ι}
    (h : e.call ≠ call) : (w.step key e).runs call = w.runs call := by
  rcases step_cases key w e with heq | ⟨_, _, heq⟩ | ⟨_, _, _, heq⟩
  · rw [heq]
  · rw [heq]
    exact Function.update_of_ne (Ne.symm h) _ _
  · rw [heq]
    exact Function.update_of_ne (Ne.symm h) _ _

theorem run_runs_of_ne {key : E.SigningKey} {events : List (Event ι)} {call : ι}
    (h : ∀ e ∈ events, e.call ≠ call) (w : World ι) :
    (run (step key) w events).runs call = w.runs call := by
  induction events generalizing w with
  | nil => rfl
  | cons e events ih =>
      rw [run_cons, ih (fun x hx ↦ h x (by simp [hx])), step_runs_of_ne (h e (by simp))]

end World

/-! ## How a call ends -/

theorem finish_of_accepts {key : E.SigningKey} {stored : Option SignedAccountLog} {answer : Fetched}
    {entries : List AccountEntry} {refusal : String} {signed : SignedAccountLog}
    (hprepare : prepare key answer entries = .ok signed) (h : Accepts stored signed) :
    finish key stored answer entries refusal = (some signed, .ok signed) := by
  rw [finish, hprepare]
  exact if_pos h

theorem finish_of_refuses {key : E.SigningKey} {stored : Option SignedAccountLog} {answer : Fetched}
    {entries : List AccountEntry} {refusal : String} {signed : SignedAccountLog}
    (hprepare : prepare key answer entries = .ok signed) (h : ¬ Accepts stored signed) :
    finish key stored answer entries refusal = (stored, .err (.provider refusal)) := by
  rw [finish, hprepare]
  exact if_neg h

theorem finish_of_err {key : E.SigningKey} {stored : Option SignedAccountLog} {answer : Fetched}
    {entries : List AccountEntry} {refusal : String} {e : AccountError}
    (hprepare : prepare key answer entries = .err e) :
    finish key stored answer entries refusal = (stored, .err e) := by
  rw [finish, hprepare]

theorem finish_cases (key : E.SigningKey) (stored : Option SignedAccountLog) (answer : Fetched)
    (entries : List AccountEntry) (refusal : String) :
    (∃ signed, prepare key answer entries = .ok signed ∧ Accepts stored signed ∧
      finish key stored answer entries refusal = (some signed, .ok signed)) ∨
    ∃ e, finish key stored answer entries refusal = (stored, .err e) := by
  cases hprepare : prepare key answer entries with
  | ok signed =>
      by_cases haccept : Accepts stored signed
      · exact .inl ⟨signed, rfl, haccept, finish_of_accepts hprepare haccept⟩
      · exact .inr ⟨_, finish_of_refuses hprepare haccept⟩
  | err e => exact .inr ⟨e, finish_of_err hprepare⟩
  | panic => exact absurd hprepare (prepare_failsIn key answer entries).ne_panic

/-- The stored payload is never cut: an append-only register. -/
def Grows (stored stored' : Option SignedAccountLog) : Prop :=
  ∀ signed, stored = some signed →
    ∃ signed', stored' = some signed' ∧ signed.payload.bytes <+: signed'.payload.bytes

theorem Grows.refl (stored : Option SignedAccountLog) : Grows stored stored :=
  fun signed h ↦ ⟨signed, h, List.prefix_rfl⟩

theorem Grows.trans {a b c : Option SignedAccountLog} (hab : Grows a b) (hbc : Grows b c) :
    Grows a c := by
  intro signed h
  rcases hab signed h with ⟨mid, hmid, hpre⟩
  rcases hbc mid hmid with ⟨last, hlast, hpre'⟩
  exact ⟨last, hlast, hpre.trans hpre'⟩

theorem finish_grows (key : E.SigningKey) (stored : Option SignedAccountLog) (answer : Fetched)
    (entries : List AccountEntry) (refusal : String) :
    Grows stored (finish key stored answer entries refusal).1 := by
  rcases finish_cases key stored answer entries refusal with ⟨signed, _, haccept, h⟩ | ⟨e, h⟩
  · rw [h]
    intro old hold
    exact ⟨signed, rfl, (haccept old hold).1⟩
  · rw [h]
    exact Grows.refl stored

theorem World.run_grows {ι : Type} [DecidableEq ι] (key : E.SigningKey) (w : World ι)
    (events : List (Event ι)) : Grows w.stored (run (World.step key) w events).stored := by
  have hstep (v : World ι) (e : Event ι) (_ : True) : Grows v.stored (v.step key e).stored := by
    rcases World.step_cases key v e with heq | ⟨_, _, heq⟩ | ⟨answer, entries, refusal, heq⟩
    · rw [heq]
      exact Grows.refl v.stored
    · rw [heq]
      exact Grows.refl v.stored
    · rw [heq]
      exact finish_grows key v.stored answer entries refusal
  exact @run_relates _ _ (World.step key) (fun _ ↦ True) (fun v w ↦ Grows v.stored w.stored)
    (fun v ↦ Grows.refl v.stored) (fun _ _ _ ↦ Grows.trans) (fun _ _ _ ↦ trivial) hstep w trivial
    events

/-- How a call with these entries ends.  `answer` is what it fetched, `stored` and `stored'` the
provider's slot before and after its publish step. -/
structure PublishSpec (key : E.SigningKey) (answer : Fetched) (entries : List AccountEntry)
    (refusal : String) (stored stored' : Option SignedAccountLog)
    (result : Result AccountError SignedAccountLog) : Prop where
  no_panic : result ≠ .panic
  prepares_iff : (∃ signed, prepare key answer entries = .ok signed) ↔
    ∃ base old, answer = .ok base ∧ Logged key base old ∧
      (∀ entry ∈ old, entry.isUnreadable = false) ∧ AccountLogDraft.Pushable E old entries ∧
      encodedLength (old ++ entries) ≤ maxPayloadBytes
  hands_over : ∀ base signed, answer = .ok base → prepare key answer entries = .ok signed →
    signed.payload.bytes = baseBytes base ++ entryCodec.encodeAll entries
  accepted_if_current : ∀ base signed, answer = .ok base →
    prepare key answer entries = .ok signed → entries ≠ [] →
    stored.map (·.payload) = base.map (·.payload) → result = .ok signed ∧ stored' = some signed
  ok_leaves_entries : ∀ signed, result = .ok signed → ∃ base, answer = .ok base ∧
    stored' = some signed ∧ signed.payload.bytes = baseBytes base ++ entryCodec.encodeAll entries
  err_changes_nothing : ∀ e, result = .err e → stored' = stored
  unreadable_base : ∀ e, accountDraft key answer = .err e → result = .err e
  rejected_entry : ∀ draft front entry back draft' e, accountDraft key answer = .ok draft →
    entries = front ++ entry :: back → draft.pushAll front = .ok draft' →
    draft'.push entry = .err e → result = .err (.log e)
  refused_payload : ∀ signed, prepare key answer entries = .ok signed → ¬ Accepts stored signed →
    result = .err (.provider refusal)

theorem accepts_of_current {key : E.SigningKey} {base stored : Option SignedAccountLog}
    {entries : List AccountEntry} {signed : SignedAccountLog}
    (hprepare : prepare key (.ok base) entries = .ok signed) (hne : entries ≠ [])
    (hcurrent : stored.map (·.payload) = base.map (·.payload)) : Accepts stored signed := by
  intro old hold
  rw [hold] at hcurrent
  cases base with
  | none => cases hcurrent
  | some fetched =>
      have hpayload : old.payload = fetched.payload := Option.some.inj hcurrent
      have hbytes : old.payload.bytes = baseBytes (some fetched) := by
        rw [hpayload]
        rfl
      have hentries : entryCodec.encodeAll entries ≠ [] :=
        fun h ↦ hne (entryCodec.encodeAll_eq_nil.mp h)
      rw [prepare_payload hprepare, hbytes]
      exact ⟨List.prefix_append _ _, by simpa using hentries⟩

theorem prepare_of_unreadable {key : E.SigningKey} {answer : Fetched} {e : AccountError}
    (h : accountDraft key answer = .err e) (entries : List AccountEntry) :
    prepare key answer entries = .err e := by
  rw [prepare, h, Result.err_bind]

theorem prepare_of_rejected {key : E.SigningKey} {answer : Fetched} {draft draft' : AccountLogDraft E}
    {front back : List AccountEntry} {entry : AccountEntry} {e : AccountLogError}
    (hdraft : accountDraft key answer = .ok draft) (hfront : draft.pushAll front = .ok draft')
    (h : draft'.push entry = .err e) :
    prepare key answer (front ++ entry :: back) = .err (.log e) := by
  rw [prepare, hdraft, Result.ok_bind, AccountLogDraft.pushAll_append, hfront, Result.ok_bind,
    AccountLogDraft.pushAll, h]
  rfl

-- only an answered fetch gets as far as the publish step
theorem prepare_fetched {key : E.SigningKey} {answer : Fetched} {entries : List AccountEntry}
    {signed : SignedAccountLog} (h : prepare key answer entries = .ok signed) :
    ∃ base, answer = .ok base := by
  cases answer with
  | error e => cases h
  | ok base => exact ⟨base, rfl⟩

theorem finish_spec (key : E.SigningKey) (stored : Option SignedAccountLog) (answer : Fetched)
    (entries : List AccountEntry) (refusal : String) :
    PublishSpec key answer entries refusal stored (finish key stored answer entries refusal).1
      (finish key stored answer entries refusal).2 where
  no_panic := by
    rcases finish_cases key stored answer entries refusal with ⟨signed, _, _, h⟩ | ⟨e, h⟩
    · simp [h]
    · simp [h]
  prepares_iff := by
    cases answer with
    | error e =>
        constructor
        · rintro ⟨_, h⟩
          cases h
        · rintro ⟨_, _, h, -⟩
          cases h
    | ok base =>
        rw [exists_prepare_iff]
        refine ⟨fun ⟨old, h⟩ ↦ ⟨base, old, rfl, h⟩, fun ⟨base', old, hbase, h⟩ ↦ ⟨old, ?_⟩⟩
        cases hbase
        exact h
  hands_over := by
    intro base signed hbase hprepare
    subst hbase
    exact prepare_payload hprepare
  accepted_if_current := by
    intro base signed hbase hprepare hne hcurrent
    subst hbase
    rw [finish_of_accepts hprepare (accepts_of_current hprepare hne hcurrent)]
    exact ⟨rfl, rfl⟩
  ok_leaves_entries := by
    intro signed hok
    rcases finish_cases key stored answer entries refusal with ⟨signed', hprepare, _, h⟩ | ⟨e, h⟩
    · rw [h] at hok ⊢
      cases hok
      rcases prepare_fetched hprepare with ⟨base, hbase⟩
      subst hbase
      exact ⟨base, rfl, rfl, prepare_payload hprepare⟩
    · rw [h] at hok
      cases hok
  err_changes_nothing := by
    intro e herr
    rcases finish_cases key stored answer entries refusal with ⟨signed, _, _, h⟩ | ⟨e', h⟩
    · rw [h] at herr
      cases herr
    · rw [h]
  unreadable_base := by
    intro e h
    rw [finish_of_err (prepare_of_unreadable h entries)]
  rejected_entry := by
    intro draft front entry back draft' e hdraft hentries hfront hpush
    subst hentries
    rw [finish_of_err (prepare_of_rejected hdraft hfront hpush)]
  refused_payload := by
    intro signed hprepare hrefuse
    rw [finish_of_refuses hprepare hrefuse]

/-- Any number of calls, in any interleaving: a call that fetched while `before` had happened and
publishes after `mid` ends as `PublishSpec` says, and what it stored is never cut afterwards. -/
theorem publish_extends_fetched (E : Ed25519) (key : E.SigningKey) (ι : Type) [DecidableEq ι]
    (initial : Option SignedAccountLog) (before mid : List (Event ι)) (call : ι)
    (entries : List AccountEntry) (failure : Option String) (refusal : String)
    (hidle : (run (World.step key) (World.start initial) before).runs call = .idle)
    (hmid : ∀ e ∈ mid, e.call ≠ call) :
    let fetching := run (World.step key) (World.start initial) before
    let publishing := run (World.step key) (fetching.step key (.fetch call entries failure)) mid
    let published := publishing.step key (.publish call refusal)
    Grows fetching.stored publishing.stored ∧
    ∃ result, published.runs call = .done result ∧
      PublishSpec key (providerFetch fetching.stored failure) entries refusal publishing.stored
        published.stored result ∧
      ∀ later, Grows published.stored (run (World.step key) published later).stored := by
  intro fetching publishing published
  have hfetched : publishing.runs call =
      .fetched (providerFetch fetching.stored failure) entries := by
    rw [World.run_runs_of_ne hmid, World.step_fetch key hidle]
    exact Function.update_self _ _ _
  have hpublished := World.step_publish key hfetched refusal
  refine ⟨?_, (finish key publishing.stored (providerFetch fetching.stored failure) entries
    refusal).2, ?_, ?_, World.run_grows key published⟩
  · have hgrows := World.run_grows key (fetching.step key (.fetch call entries failure)) mid
    have hstored := congrArg World.stored (World.step_fetch key hidle entries failure)
    rw [hstored] at hgrows
    exact hgrows
  · show (publishing.step key (.publish call refusal)).runs call = _
    rw [hpublished]
    exact Function.update_self _ _ _
  · have hstored := congrArg World.stored hpublished
    show PublishSpec key _ entries refusal publishing.stored
      (publishing.step key (.publish call refusal)).stored _
    rw [hstored]
    exact finish_spec key publishing.stored _ entries refusal

def greeting : AccountEntry := .add (.literal "a.b" (by decide)) (.text "hi")

-- call 1 publishes between the fetch and the publish step of call 0
def race : List (Event Nat) :=
  [.fetch 0 [greeting] none, .fetch 1 [] none, .publish 1 "refused"]

theorem publish_extends_fetched_race :
    ∃ signed, prepare Ed25519.sampleKey (.ok none) [greeting] = .ok signed ∧
      (run (World.step Ed25519.sampleKey) (World.start none) (race ++ [.publish 0 "refused"])).runs 0 =
        .done (.ok signed) ∧
      PublishSpec Ed25519.sampleKey (.ok none) [greeting] "refused"
        (run (World.step Ed25519.sampleKey) (World.start none) race).stored
        (run (World.step Ed25519.sampleKey) (World.start none)
          (race ++ [.publish 0 "refused"])).stored (.ok signed) := by
  have hmid : ∀ e ∈ [Event.fetch 1 [] none, Event.publish 1 "refused"], e.call ≠ 0 := by
    intro e he
    rcases List.mem_pair.mp he with heq | heq
    · subst heq
      decide
    · subst heq
      decide
  rcases publish_extends_fetched Ed25519.sample Ed25519.sampleKey Nat none [] _ 0 [greeting] none
    "refused" rfl hmid with ⟨_, result, hdone, hspec, _⟩
  -- call 1 stored the empty log in between, which any other one extends
  obtain ⟨signed, hsigned⟩ : ∃ signed,
      prepare Ed25519.sampleKey (.ok none) [greeting] = .ok signed := ⟨_, rfl⟩
  have haccepts : Accepts (run (World.step Ed25519.sampleKey) (World.start none) race).stored signed := by
    intro stored hstored
    cases hstored
    rw [prepare_payload hsigned]
    decide
  have hfinish : RunState.done (finish Ed25519.sampleKey
      (run (World.step Ed25519.sampleKey) (World.start none) race).stored (.ok none) [greeting]
      "refused").2 = .done result := hdone
  rw [finish_of_accepts hsigned haccepts] at hfinish
  cases hfinish
  exact ⟨signed, hsigned, hdone, hspec⟩

end LogosChat.Accounts
