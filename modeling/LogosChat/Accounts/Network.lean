import LogosChat.Accounts.Profile
import LogosChat.Accounts.Publish

/-!
# Authors and readers of one account

The devices of an account publish to one provider, and any number of readers resolve the account
through replicas of it: a reader may be served any version that the provider ever stored, or nothing,
or an error, in any order.  One history comes out of it, and every reader holds a front of it.
-/

namespace LogosChat.Accounts

open Reasoning Crypto

variable {E : Ed25519}

/-! ## What a publish leaves for the readers -/

theorem AccountLogDraft.readable_of_pushAll {entries : List AccountEntry} {d d' : AccountLogDraft E}
    (h : d.pushAll entries = .ok d') : ∀ entry ∈ entries, entry.isUnreadable = false := by
  induction entries generalizing d with
  | nil => exact List.forall_mem_nil _
  | cons entry rest ih =>
      obtain ⟨mid, hpush, hrest⟩ := Result.bind_eq_ok.mp h
      exact List.forall_mem_cons.mpr ⟨(push_eq_ok hpush).1, ih hrest⟩

/-- What a call hands over is read back as the log it fetched with its entries behind it, if the texts
fit their frames. -/
theorem logged_of_prepare (hE : E.VerifiesOwn) {key : E.SigningKey} {base : Option SignedAccountLog}
    {entries : List AccountEntry} {signed : SignedAccountLog}
    (h : prepare key (.ok base) entries = .ok signed) (hfits : ∀ entry ∈ entries, entry.TextFits) :
    ∃ old, Logged key base old ∧ Logged key (some signed) (old ++ entries) := by
  obtain ⟨draft, hdraft, h⟩ := Result.bind_eq_ok.mp h
  obtain ⟨draft', hpush, h⟩ := Result.bind_eq_ok.mp h
  obtain ⟨payload, hencode, h⟩ := Result.bind_eq_ok.mp h
  rw [Result.mapErr_eq_ok] at hpush hencode
  cases h
  have hentries := AccountLogDraft.pushAll_eq_ok hpush
  have hbefore := logged_of_accountDraft hdraft
  refine ⟨draft.log.entries, hbefore, draft'.log, ?_, hentries⟩
  apply SignedAccountLog.verify_eq_ok_iff.mpr
  refine ⟨hE key _, decode_eq_ok_iff.mpr ⟨encode_eq_ok_iff.mp hencode, ?_⟩⟩
  intro entry hentry
  rw [hentries, List.mem_append] at hentry
  obtain hold | hnew := hentry
  · exact hbefore.wellFramed entry hold
  · exact wellFramed_of_textFits (AccountLogDraft.readable_of_pushAll hpush entry hnew)
      (hfits entry hnew)

namespace AccountResolver

variable {R : AccountResolver E} {addr : AccountAddr E}

/-- A readable version that belongs to the history of what is held is never refused, and the longer of
the two is kept. -/
theorem resolve_version (hR : R.Sound) {candidate : SignedAccountLog} {L : AccountLog E}
    (hverify : candidate.verify addr = .ok L)
    (hcomparable : ∀ held, R.get addr = some held →
      held.signedLog.payload.bytes <+: candidate.payload.bytes ∨
        candidate.payload.bytes <+: held.signedLog.payload.bytes) :
    ∃ record, R.resolve addr (.ok (some candidate)) = (.ok (some record), R.insert addr record) ∧
      record.Holds addr ∧ (record.signedLog = candidate ∨ R.get addr = some record) ∧
      candidate.payload.bytes <+: record.signedLog.payload.bytes := by
  cases hknown : R.known addr with
  | none =>
      have hadopts : R.resolve addr (.ok (some candidate)) =
          (.ok (some ⟨addr, candidate, L⟩), R.insert addr ⟨addr, candidate, L⟩) := by
        refine resolve_adopts hverify fun held hheld ↦ ?_
        rw [get, hknown] at hheld
        cases hheld
      exact ⟨_, hadopts, ⟨rfl, hverify, (SignedAccountLog.verify_eq_ok_iff.mp hverify).2⟩, .inl rfl,
        List.prefix_rfl⟩
  | some held =>
      have hholds := hR addr held hknown
      have hauthentic := SignedAccountLog.verify_eq_ok_iff.mp hverify
      obtain ⟨u, hu, hspec⟩ := AccountRecord.update_spec held candidate
      have hfails : refusal u.outcome = none := by
        cases houtcome : u.outcome with
        | updated => rfl
        | signatureInvalid =>
            have hforged := hspec.signatureInvalid_iff.mp houtcome
            rw [hholds.addr_eq] at hforged
            exact absurd hauthentic.1 hforged
        | malformed e =>
            have hgarbled := ((hspec.malformed_iff e).mp houtcome).2
            rw [hauthentic.2] at hgarbled
            cases hgarbled
        | unchanged freshness =>
            obtain ⟨-, -, hcompare, -⟩ := (hspec.unchanged_iff freshness).mp houtcome
            cases freshness with
            | diverged =>
                have hneither := (compare_eq_diverged_iff _ _).mp hcompare
                exact ((hcomparable held hknown).elim hneither.1 hneither.2).elim
            | _ => rfl
      refine ⟨u.record, ?_, hholds.update hu, ?_⟩
      · rw [resolve_held hknown hu, hfails]
      · rcases AccountRecord.record_of_update hu with ⟨hkept, hstale⟩ | ⟨_, -, hext, hrecord⟩
        · rw [hkept]
          refine ⟨.inr hknown, ?_⟩
          obtain hfront | hback := hcomparable held hknown
          · rw [hholds.addr_eq] at hstale
            have hsame := not_and_not_right.mp (hstale L hverify) hfront
            rw [hsame]
          · exact hback
        · rw [hrecord]
          exact ⟨.inl rfl, List.prefix_rfl⟩

end AccountResolver

/-! ## The network -/

/-- The devices and the provider, everything the provider has stored so far, and the readers. -/
structure Network (E : Ed25519) (ι ρ : Type) where
  world : World ι
  versions : List SignedAccountLog
  readers : ρ → AccountResolver E

namespace Network

variable {ι ρ : Type}

/-- What a replica answers when it is asked for the account. -/
inductive Answer where
  | failed (error : String)
  | lost
  | version (n : Nat)

/-- A step of an author; a reader resolving the account, or any other one. -/
inductive Step (E : Ed25519) (ι ρ : Type) where
  | author (event : Event ι)
  | resolve (reader : ρ) (answer : Answer)
  | elsewhere (reader : ρ) (addr : AccountAddr E) (fetched : Fetched)

/-- The texts that an author pushes fit their frames. -/
def Step.Fits : Step E ι ρ → Prop
  | .author (.fetch _ entries _) => ∀ entry ∈ entries, entry.TextFits
  | _ => True

def start : Network E ι ρ := ⟨World.start none, [], fun _ ↦ .new⟩

def served (n : Network E ι ρ) : Answer → Fetched
  | .failed error => .error error
  | .lost => .ok none
  | .version i => .ok n.versions[i]?

/-- Every version is readable, and a front of the current one; and readers hold versions. -/
structure OneHistory (key : E.SigningKey) (n : Network E ι ρ) : Prop where
  fits : ∀ call answer entries, n.world.runs call = .fetched answer entries →
    ∀ entry ∈ entries, entry.TextFits
  readable : ∀ signed ∈ n.versions, ∃ entries, Logged key (some signed) entries
  below : ∀ signed ∈ n.versions, ∃ current, n.world.stored = some current ∧
    signed.payload.bytes <+: current.payload.bytes
  current : ∀ signed, n.world.stored = some signed → signed ∈ n.versions
  sound : ∀ reader, (n.readers reader).Sound
  held : ∀ reader record, (n.readers reader).get (accountAddr key) = some record →
    record.signedLog ∈ n.versions

variable {key : E.SigningKey} {n : Network E ι ρ}

theorem oneHistory_start : (start : Network E ι ρ).OneHistory key where
  fits _ _ _ h := by cases h
  readable := List.forall_mem_nil _
  below := List.forall_mem_nil _
  current _ h := by cases h
  sound _ _ _ h := by cases h
  held _ _ h := by cases h

-- what a reader holds and what it is served are fronts of one log
theorem OneHistory.resolve (hn : n.OneHistory key) (reader : ρ) {candidate : SignedAccountLog}
    (hmem : candidate ∈ n.versions) :
    ∃ record, (n.readers reader).resolve (accountAddr key) (.ok (some candidate)) =
        (.ok (some record), (n.readers reader).insert (accountAddr key) record) ∧
      record.Holds (accountAddr key) ∧ record.signedLog ∈ n.versions ∧
      (record.signedLog = candidate ∨ (n.readers reader).get (accountAddr key) = some record) ∧
      candidate.payload.bytes <+: record.signedLog.payload.bytes := by
  obtain ⟨_, L, hverify, -⟩ := hn.readable candidate hmem
  obtain ⟨current, hstored, hfront⟩ := hn.below candidate hmem
  obtain ⟨record, hresolve, hholds, hsource, hlonger⟩ :=
    AccountResolver.resolve_version (hn.sound reader) hverify fun held hheld ↦ by
      obtain ⟨current', hstored', hfront'⟩ := hn.below _ (hn.held reader held hheld)
      rw [hstored] at hstored'
      cases hstored'
      exact List.prefix_or_prefix_of_prefix hfront' hfront
  refine ⟨record, hresolve, hholds, ?_, hsource, hlonger⟩
  obtain hnew | hold := hsource
  · rw [hnew]
    exact hmem
  · exact hn.held reader record hold

/-- Whoever is served a version holds the log of it, or one that goes on from it and that it held
already. -/
theorem OneHistory.resolve_entries (hn : n.OneHistory key) (reader : ρ) {candidate : SignedAccountLog}
    (hmem : candidate ∈ n.versions) {entries : List AccountEntry}
    (hlogged : Logged key (some candidate) entries) :
    ∃ later record, ((n.readers reader).resolve (accountAddr key) (.ok (some candidate))).1 =
        .ok (some record) ∧ record.Holds (accountAddr key) ∧ record.parsedLog.entries = entries ++ later ∧
      ((∀ held, (n.readers reader).get (accountAddr key) = some held →
        held.signedLog.payload.bytes <+: candidate.payload.bytes) → later = []) := by
  obtain ⟨L, hverify, rfl⟩ := hlogged
  have hdecodes := (SignedAccountLog.verify_eq_ok_iff.mp hverify).2
  obtain ⟨record, hresolve, hholds, -, hsource, hlonger⟩ := hn.resolve reader hmem
  obtain ⟨later, hlater⟩ := (payload_prefix_iff hdecodes hholds.decodes).mp hlonger
  refine ⟨later, record, congrArg Prod.fst hresolve, hholds, hlater.symm, fun hbehind ↦ ?_⟩
  have hback : record.signedLog.payload.bytes <+: candidate.payload.bytes := by
    obtain hnew | hheld := hsource
    · rw [hnew]
    · exact hbehind record hheld
  have hshort := ((payload_prefix_iff hholds.decodes hdecodes).mp hback).length_le
  rw [← hlater, List.length_append] at hshort
  exact List.eq_nil_of_length_eq_zero (by omega)

theorem served_cases (n : Network E ι ρ) (answer : Answer) :
    (∃ error, answer = .failed error ∧ n.served answer = .error error) ∨
    n.served answer = .ok none ∨ ∃ candidate ∈ n.versions, n.served answer = .ok (some candidate) := by
  cases answer with
  | failed error => exact .inl ⟨error, rfl, rfl⟩
  | lost => exact .inr (.inl rfl)
  | version i =>
      cases h : n.versions[i]? with
      | none => exact .inr (.inl (congrArg Except.ok h))
      | some candidate => exact .inr (.inr ⟨candidate, List.mem_of_getElem? h, congrArg Except.ok h⟩)

variable [DecidableEq ρ]

theorem OneHistory.update_reader (hn : n.OneHistory key) (reader : ρ) {R : AccountResolver E}
    (hR : R.Sound) (hheld : ∀ record, R.get (accountAddr key) = some record →
      record.signedLog ∈ n.versions) :
    OneHistory key { n with readers := Function.update n.readers reader R } := by
  refine ⟨hn.fits, hn.readable, hn.below, hn.current, fun other ↦ ?_, fun other record h ↦ ?_⟩
  · by_cases heq : other = reader
    · subst heq
      dsimp only
      rwa [Function.update_self]
    · dsimp only
      rw [Function.update_of_ne heq]
      exact hn.sound other
  · by_cases heq : other = reader
    · subst heq
      dsimp only at h
      rw [Function.update_self] at h
      exact hheld record h
    · dsimp only at h
      rw [Function.update_of_ne heq] at h
      exact hn.held other record h

variable [DecidableEq ι]

def step (key : E.SigningKey) (n : Network E ι ρ) : Step E ι ρ → Network E ι ρ
  | .author event =>
      let world := n.world.step key event
      { n with world := world, versions := n.versions ++ world.stored.toList }
  | .resolve reader answer =>
      let resolver := (n.readers reader).step (accountAddr key, n.served answer)
      { n with readers := Function.update n.readers reader resolver }
  | .elsewhere reader addr fetched =>
      if addr = accountAddr key then n
      else { n with readers := Function.update n.readers reader ((n.readers reader).step (addr, fetched)) }

omit [DecidableEq ρ] in
/-- What the provider stores after a step of an author. -/
theorem author_cases (hn : n.OneHistory key) {event : Event ι}
    (hfits : (Step.author event : Step E ι ρ).Fits) :
    (∀ call answer entries, (n.world.step key event).runs call = .fetched answer entries →
      ∀ entry ∈ entries, entry.TextFits) ∧
    ((n.world.step key event).stored = n.world.stored ∨
      ∃ base entries signed, prepare key (.ok base) entries = .ok signed ∧
        (∀ entry ∈ entries, entry.TextFits) ∧ Accepts n.world.stored signed ∧
        (n.world.step key event).stored = some signed) := by
  cases event with
  | fetch call entries failure =>
      cases hrun : n.world.runs call with
      | idle =>
          rw [World.step_fetch key hrun]
          refine ⟨fun other answer more hother ↦ ?_, .inl rfl⟩
          by_cases heq : other = call
          · subst heq
            dsimp only at hother
            rw [Function.update_self] at hother
            cases hother
            exact hfits
          · exact hn.fits other answer more ((Function.update_of_ne heq _ _).symm.trans hother)
      | _ =>
          have hsame : n.world.step key (.fetch call entries failure) = n.world := by
            simp only [World.step, hrun]
          rw [hsame]
          exact ⟨hn.fits, .inl rfl⟩
  | publish call refusal =>
      cases hrun : n.world.runs call with
      | fetched answer entries =>
          rw [World.step_publish key hrun]
          refine ⟨fun other answer' more hother ↦ ?_, ?_⟩
          · by_cases heq : other = call
            · subst heq
              dsimp only at hother
              rw [Function.update_self] at hother
              cases hother
            · exact hn.fits other answer' more ((Function.update_of_ne heq _ _).symm.trans hother)
          · obtain ⟨signed, hprepare, haccepts, hfinish⟩ | ⟨e, hfinish⟩ :=
              finish_cases key n.world.stored answer entries refusal
            · obtain ⟨base, rfl⟩ := prepare_fetched hprepare
              refine .inr ⟨base, entries, signed, hprepare, hn.fits call _ entries hrun, haccepts, ?_⟩
              rw [hfinish]
            · refine .inl ?_
              rw [hfinish]
      | _ =>
          have hsame : n.world.step key (.publish call refusal) = n.world := by
            simp only [World.step, hrun]
          rw [hsame]
          exact ⟨hn.fits, .inl rfl⟩

theorem OneHistory.author (hE : E.VerifiesOwn) (hn : n.OneHistory key) {event : Event ι}
    (hfits : (Step.author event : Step E ι ρ).Fits) : (n.step key (.author event)).OneHistory key := by
  obtain ⟨hruns, hstored⟩ := author_cases hn hfits
  have hmem {signed : SignedAccountLog} (h : signed ∈ (n.step key (.author event)).versions) :
      signed ∈ n.versions ∨ (n.world.step key event).stored = some signed := by
    obtain h | h := List.mem_append.mp h
    · exact .inl h
    · exact .inr (Option.mem_toList.mp h)
  have hcurrent (signed : SignedAccountLog) (h : (n.world.step key event).stored = some signed) :
      signed ∈ (n.step key (.author event)).versions :=
    List.mem_append_right _ (Option.mem_toList.mpr h)
  have hheld (reader : ρ) (record : AccountRecord E)
      (h : (n.readers reader).get (accountAddr key) = some record) :
      record.signedLog ∈ (n.step key (.author event)).versions :=
    List.mem_append_left _ (hn.held reader record h)
  obtain hsame | ⟨base, entries, new, hprepare, hentries, haccepts, hnew⟩ := hstored
  · refine ⟨hruns, fun signed h ↦ ?_, fun signed h ↦ ?_, hcurrent, hn.sound, hheld⟩
    · obtain h | h := hmem h
      · exact hn.readable signed h
      · exact hn.readable signed (hn.current signed (hsame ▸ h))
    · show ∃ current, (n.world.step key event).stored = some current ∧ _
      obtain h | h := hmem h
      · rw [hsame]
        exact hn.below signed h
      · exact ⟨signed, h, List.prefix_rfl⟩
  · -- the new version extends the current one, which every version is a front of
    refine ⟨hruns, fun signed h ↦ ?_, fun signed h ↦ ⟨new, hnew, ?_⟩, hcurrent, hn.sound, hheld⟩
    · obtain h | h := hmem h
      · exact hn.readable signed h
      · rw [hnew] at h
        cases h
        obtain ⟨old, -, hlogged⟩ := logged_of_prepare hE hprepare hentries
        exact ⟨old ++ entries, hlogged⟩
    · obtain h | h := hmem h
      · obtain ⟨current, hstored, hfront⟩ := hn.below signed h
        exact hfront.trans (haccepts current hstored).1
      · rw [hnew] at h
        cases h
        exact List.prefix_rfl

theorem OneHistory.step (hE : E.VerifiesOwn) (hn : n.OneHistory key) {e : Step E ι ρ} (hfits : e.Fits) :
    (n.step key e).OneHistory key := by
  cases e with
  | author event => exact hn.author hE hfits
  | resolve reader answer =>
      refine hn.update_reader reader ((hn.sound reader).step _) fun record h ↦ ?_
      obtain ⟨_, -, hserved⟩ | hserved | ⟨candidate, hmem, hserved⟩ := n.served_cases answer
      · rw [AccountResolver.step, hserved] at h
        exact hn.held reader record h
      · rw [AccountResolver.step, hserved] at h
        exact hn.held reader record h
      · obtain ⟨kept, hresolve, -, hversion, -, -⟩ := hn.resolve reader hmem
        rw [AccountResolver.step, hserved, hresolve, AccountResolver.get,
          AccountResolver.insert_known_self] at h
        cases h
        exact hversion
  | elsewhere reader addr fetched =>
      by_cases haddr : addr = accountAddr key
      · rw [Network.step, if_pos haddr]
        exact hn
      · rw [Network.step, if_neg haddr]
        refine hn.update_reader reader ((hn.sound reader).step _) fun record h ↦ ?_
        rw [AccountResolver.step, (AccountResolver.resolve_cases (hn.sound reader) addr fetched).get_of_ne
          fun heq ↦ haddr heq.symm] at h
        exact hn.held reader record h

theorem OneHistory.run (hE : E.VerifiesOwn) (hn : n.OneHistory key) {steps : List (Step E ι ρ)}
    (hfits : ∀ e ∈ steps, e.Fits) : (run (Network.step key) n steps).OneHistory key := by
  have hstep (n : Network E ι ρ) (e : Step E ι ρ) (hn : n.OneHistory key) (he : e.Fits) :
      (n.step key e).OneHistory key := hn.step hE he
  exact (Along.of_forall hfits n).invariant hstep hn

theorem versions_run (key : E.SigningKey) (n : Network E ι ρ) (steps : List (Step E ι ρ)) :
    n.versions ⊆ (run (step key) n steps).versions := by
  induction steps generalizing n with
  | nil => exact List.Subset.refl _
  | cons e steps ih =>
      refine List.Subset.trans ?_ (ih (n.step key e))
      cases e with
      | author event => exact List.subset_append_left _ _
      | resolve reader answer => exact List.Subset.refl _
      | elsewhere reader addr fetched =>
          unfold step
          dsimp only
          split
          · exact List.Subset.refl _
          · exact List.Subset.refl _

/-- Whatever the devices publish and whichever versions the replicas serve: no reader ever meets a
fork or an unreadable log, only the failures of the provider; what a reader holds is a front of what
is published; and a reader that is served the current version holds it. -/
theorem readers_share_one_history (hE : E.VerifiesOwn) (key : E.SigningKey)
    (steps : List (Step E ι ρ)) (hfits : ∀ e ∈ steps, e.Fits) :
    let n := run (step key) start steps
    ∀ reader,
      (∀ answer e, ((n.readers reader).resolve (accountAddr key) (n.served answer)).1 = .err e →
        ∃ error, answer = .failed error ∧ e = .provider error) ∧
      (∀ record, (n.readers reader).get (accountAddr key) = some record →
        ∃ current, n.world.stored = some current ∧
          record.signedLog.payload.bytes <+: current.payload.bytes) ∧
      ∀ current, n.world.stored = some current →
        ∃ record, ((n.readers reader).resolve (accountAddr key) (.ok (some current))).1 =
            .ok (some record) ∧ record.signedLog.payload.bytes = current.payload.bytes := by
  intro n reader
  have hn : n.OneHistory key := oneHistory_start.run hE hfits
  refine ⟨fun answer e he ↦ ?_, fun record h ↦ hn.below _ (hn.held reader record h),
    fun current hstored ↦ ?_⟩
  · obtain ⟨error, hanswer, hserved⟩ | hserved | ⟨candidate, hmem, hserved⟩ := n.served_cases answer
    · rw [hserved] at he
      cases he
      exact ⟨error, hanswer, rfl⟩
    · rw [hserved] at he
      cases he
    · obtain ⟨record, hresolve, -⟩ := hn.resolve reader hmem
      rw [hserved, hresolve] at he
      cases he
  · obtain ⟨record, hresolve, -, hversion, -, hlonger⟩ :=
      hn.resolve reader (hn.current current hstored)
    refine ⟨record, congrArg Prod.fst hresolve, ?_⟩
    -- both ways: a version is a front of the current one
    obtain ⟨current', hstored', hfront⟩ := hn.below _ hversion
    rw [hstored] at hstored'
    cases hstored'
    exact hfront.eq_of_length_le hlonger.length_le

/-- A device sets a name, and a reader is served the log and later nothing. -/
def rename (name : String) : List (Step Ed25519.sample Nat Nat) :=
  [.author (.fetch 0 [setDisplayName name] none), .author (.publish 0 "refused"),
    .resolve 0 (.version 0), .resolve 0 .lost]

theorem fits_rename {name : String} (h : (setDisplayName name).TextFits) :
    ∀ e ∈ rename name, e.Fits := by
  intro e he
  simp only [rename, List.mem_cons, List.not_mem_nil, or_false] at he
  obtain rfl | rfl | rfl | rfl := he
  · intro entry hentry
    cases List.mem_singleton.mp hentry
    exact h
  all_goals exact trivial

theorem textFits_ann : (setDisplayName "ann").TextFits := by
  show 2 + _ + _ < 2 ^ 16
  decide

/-- The reader holds what it was served. -/
theorem get_rename {name : String} (h : (setDisplayName name).TextFits) {signed : SignedAccountLog}
    (hsigned : prepare Ed25519.sampleKey (.ok none) [setDisplayName name] = .ok signed) :
    ∃ record, ((run (step Ed25519.sampleKey) start (rename name)).readers 0).get
      (accountAddr Ed25519.sampleKey) = some record := by
  have hn : (run (step Ed25519.sampleKey) start ((rename name).take 2)).OneHistory Ed25519.sampleKey :=
    oneHistory_start.run Ed25519.sample_verify_sign fun e he ↦ fits_rename h e (List.mem_of_mem_take he)
  have hversions : (run (step Ed25519.sampleKey) start ((rename name).take 2)).versions = [signed] := by
    show (finish Ed25519.sampleKey none (.ok none) [setDisplayName name] "refused").1.toList = _
    rw [finish, hsigned]
    rfl
  obtain ⟨record, hresolve, -⟩ := hn.resolve 0 (hversions ▸ List.mem_singleton_self signed)
  refine ⟨record, ?_⟩
  -- the lost answer leaves the reader as it is
  show (((run (step Ed25519.sampleKey) start ((rename name).take 2)).readers 0).resolve
    (accountAddr Ed25519.sampleKey) (.ok (run (step Ed25519.sampleKey) start
      ((rename name).take 2)).versions[0]?)).2.get (accountAddr Ed25519.sampleKey) = some record
  rw [hversions, List.getElem?_cons_zero, hresolve, AccountResolver.get, AccountResolver.insert_known_self]

theorem readers_share_one_history_renamed :
    (∀ e ∈ rename "ann", e.Fits) ∧
      ∃ record current, ((run (step Ed25519.sampleKey) start (rename "ann")).readers 0).get
          (accountAddr Ed25519.sampleKey) = some record ∧
        (run (step Ed25519.sampleKey) start (rename "ann")).world.stored = some current ∧
        record.signedLog.payload.bytes <+: current.payload.bytes := by
  obtain ⟨signed, hsigned⟩ : ∃ signed,
      prepare Ed25519.sampleKey (.ok none) [setDisplayName "ann"] = .ok signed := ⟨_, rfl⟩
  obtain ⟨record, hrecord⟩ := get_rename textFits_ann hsigned
  obtain ⟨current, hstored, hfront⟩ := (readers_share_one_history Ed25519.sample_verify_sign
    Ed25519.sampleKey (rename "ann") (fits_rename textFits_ann) 0).2.1 record hrecord
  exact ⟨fits_rename textFits_ann, record, current, hrecord, hstored, hfront⟩

/-! ## What the readers show -/

/-- The log that a call published well is a version, and is read back as what the call fetched with its
entries behind it. -/
theorem OneHistory.published (hE : E.VerifiesOwn) (hn : n.OneHistory key) {call : ι} {answer : Fetched}
    {entries : List AccountEntry} {refusal : String} {signed : SignedAccountLog}
    (hfetched : n.world.runs call = .fetched answer entries)
    (hdone : (n.step key (.author (.publish call refusal))).world.runs call = .done (.ok signed)) :
    signed ∈ (n.step key (.author (.publish call refusal))).versions ∧
      ∃ base old, answer = .ok base ∧ Logged key base old ∧ Logged key (some signed) (old ++ entries) := by
  have hpublished : (n.step key (.author (.publish call refusal))).world =
      ⟨(finish key n.world.stored answer entries refusal).1, _⟩ := World.step_publish key hfetched refusal
  rw [hpublished] at hdone
  dsimp only at hdone
  rw [Function.update_self] at hdone
  obtain ⟨signed', hprepare, -, hfinish⟩ | ⟨e, hfinish⟩ :=
    finish_cases key n.world.stored answer entries refusal
  · rw [hfinish] at hdone hpublished
    cases hdone
    obtain ⟨base, rfl⟩ := prepare_fetched hprepare
    obtain ⟨old, hold, hlogged⟩ := logged_of_prepare hE hprepare (hn.fits call _ _ hfetched)
    have hstored : (n.step key (.author (.publish call refusal))).world.stored = some signed := by
      rw [hpublished]
    have hafter : (n.step key (.author (.publish call refusal))).OneHistory key := hn.author hE trivial
    exact ⟨hafter.current signed hstored, base, old, rfl, hold, hlogged⟩
  · rw [hfinish] at hdone
    cases hdone

/-- A name at the end of a log is shown as long as nothing behind it sets or strikes a name, with what
stood before it as the aliases. -/
theorem shown_of_entries {record : AccountRecord E} (hholds : record.Holds (accountAddr key))
    {entries later : List AccountEntry} {name : String}
    (hentries : record.parsedLog.entries = entries ++ [setDisplayName name] ++ later)
    (hlater : ∀ entry ∈ later, Spares (AccountEntry.textUnder profileDisplayname)
      (standing (AccountEntry.textUnder profileDisplayname) (entries ++ [setDisplayName name])) entry) :
    record.displayName = .ok (some name) ∧
      record.previousAliases =
        .ok ((standing (AccountEntry.textUnder profileDisplayname) entries).map Prod.snd) := by
  have hstanding : standing (AccountEntry.textUnder profileDisplayname) record.parsedLog.entries =
      standing (AccountEntry.textUnder profileDisplayname) entries ++ [(entries.length, name)] := by
    rw [hentries, standing_append_of_spares hlater, standing_concat, standStep_put _ _ rfl]
    simp [AccountEntry.textUnder, setDisplayName, AccountEntry.isFor, AccountEntry.text?]
  rw [AccountRecord.displayName_eq hholds, AccountRecord.previousAliases_eq hholds, hstanding]
  simp

/-- Once a publish that ends with a name has succeeded, whoever is served its log, then or at any time
later, shows that name, and as aliases what stood in the log it was published on with the entries before
it; unless the reader holds a log that goes on from it and sets or strikes a name there. -/
theorem published_name_is_shown (hE : E.VerifiesOwn) (key : E.SigningKey)
    (steps more : List (Step E ι ρ)) (hfits : ∀ e ∈ steps, e.Fits) (hmore : ∀ e ∈ more, e.Fits)
    (call : ι) (answer : Fetched) (entries : List AccountEntry) (name refusal : String)
    (signed : SignedAccountLog)
    (hfetched : (run (step key) start steps).world.runs call =
      .fetched answer (entries ++ [setDisplayName name]))
    (hdone : ((run (step key) start steps).step key (.author (.publish call refusal))).world.runs call =
      .done (.ok signed)) (reader : ρ) :
    let n := run (step key) start (steps ++ .author (.publish call refusal) :: more)
    ∃ base old later record, answer = .ok base ∧ Logged key base old ∧
      ((n.readers reader).resolve (accountAddr key) (.ok (some signed))).1 = .ok (some record) ∧
      record.parsedLog.entries = old ++ entries ++ [setDisplayName name] ++ later ∧
      ((∀ held, (n.readers reader).get (accountAddr key) = some held →
        held.signedLog.payload.bytes <+: signed.payload.bytes) → later = []) ∧
      ((∀ entry ∈ later, Spares (AccountEntry.textUnder profileDisplayname)
          (standing (AccountEntry.textUnder profileDisplayname)
            (old ++ entries ++ [setDisplayName name])) entry) →
        record.displayName = .ok (some name) ∧
        record.previousAliases =
          .ok ((standing (AccountEntry.textUnder profileDisplayname) (old ++ entries)).map Prod.snd)) := by
  intro n
  have hbefore : (run (step key) start steps).OneHistory key := oneHistory_start.run hE hfits
  obtain ⟨hversion, base, old, hbase, hold, hlogged⟩ := hbefore.published hE hfetched hdone
  have hn : n = run (step key) ((run (step key) start steps).step key (.author (.publish call refusal)))
      more := run_append start steps _
  have hafter : ((run (step key) start steps).step key (.author (.publish call refusal))).OneHistory
      key := hbefore.author hE trivial
  have hhistory : n.OneHistory key := by
    rw [hn]
    exact hafter.run hE hmore
  have hmem : signed ∈ n.versions := by
    rw [hn]
    exact versions_run key _ more hversion
  rw [← List.append_assoc] at hlogged
  obtain ⟨later, record, hresolve, hholds, hentries, hbehind⟩ :=
    hhistory.resolve_entries reader hmem hlogged
  exact ⟨base, old, later, record, hbase, hold, hresolve, hentries, hbehind,
    shown_of_entries hholds hentries⟩

theorem published_name_is_shown_first :
    ∃ (signed : SignedAccountLog) (record : AccountRecord Ed25519.sample),
      (((run (step Ed25519.sampleKey) start (rename "ann")).readers 1).resolve
        (accountAddr Ed25519.sampleKey) (.ok (some signed))).1 = .ok (some record) ∧
      record.displayName = .ok (some "ann") ∧ record.previousAliases = .ok [] := by
  have hfits := fits_rename textFits_ann
  obtain ⟨signed, hsigned⟩ : ∃ signed,
      prepare Ed25519.sampleKey (.ok none) [setDisplayName "ann"] = .ok signed := ⟨_, rfl⟩
  have hdone : ((run (step Ed25519.sampleKey) start ((rename "ann").take 1)).step Ed25519.sampleKey
      (.author (.publish 0 "refused"))).world.runs 0 = .done (.ok signed) := by
    show RunState.done (finish Ed25519.sampleKey none (.ok none) [setDisplayName "ann"] "refused").2 = _
    rw [finish, hsigned]
    rfl
  obtain ⟨base, old, later, record, hbase, hold, hresolve, -, hbehind, hshown⟩ :=
    published_name_is_shown Ed25519.sample_verify_sign Ed25519.sampleKey ((rename "ann").take 1)
      ((rename "ann").drop 2) (fun e he ↦ hfits e (List.mem_of_mem_take he))
      (fun e he ↦ hfits e (List.mem_of_mem_drop he)) 0 (.ok none) [] "ann" "refused" signed rfl hdone 1
  cases hbase
  cases hold
  -- the reader has resolved nothing so far
  have hlater : later = [] := hbehind fun held hheld ↦ by cases hheld
  subst hlater
  obtain ⟨hname, haliases⟩ := hshown (List.forall_mem_nil _)
  exact ⟨signed, record, hresolve, hname, haliases⟩

end Network

end LogosChat.Accounts
