import LogosChat.Components.KeyVaultDisk
import LogosChat.Reasoning.Run

/-!
# Installing after a failure

Runs of `install` for one account, each step of which may fail.  A call decides from the files what was done
before it: one that fails between the account's key and its display name leaves an account that no later call
names, and one that fails between an endorsement and its key leaves an endorsement of nothing.
-/

namespace LogosChat.Components

open Reasoning Crypto Accounts Conversations

variable {E : Ed25519}

/-! ## Runs of calls -/

/-- A call for one account: its alias, when it is one, names no other. -/
structure CallFor (E : Ed25519) (name : String) extends InstallCall E where
  same : ∀ other number, parseAlias text = .ok (other, number) → other = name

section Runs

variable (S : E.Seeds) (dir : String) {name : String}

/-- What a call returns, the disk it leaves, and the disks between its steps. -/
def answer (d : Disk E) (c : CallFor E name) : Result KeyVaultError (InstallationKey E) :=
  (install S dir c.toInstallCall ⟨d, []⟩).1

def step (d : Disk E) (c : CallFor E name) : Disk E := (install S dir c.toInstallCall ⟨d, []⟩).2.disk

def moments (d : Disk E) (c : CallFor E name) : List (Disk E) :=
  (install S dir c.toInstallCall ⟨d, []⟩).2.left

def after (calls : List (CallFor E name)) : Disk E := run (step S dir) Disk.start calls

/-- The published log of the account lists this entry among its live ones. -/
def Carries (d : Disk E) (addr : AccountAddr E) (entry : AccountEntry) : Prop :=
  ∃ signed L val, d.logs addr = some signed ∧ signed.verify addr = .ok L ∧ L.Lists val ∧ val.entry = entry

/-- Every installation key on disk is endorsed on the account's log. -/
def Endorsed (name : String) (d : Disk E) : Prop :=
  ∀ number bytes, d.files (.installation name number) = some bytes →
    ∃ account key, d.files (.account name) = some (S.seed account).toList ∧
      bytes = (S.seed key).toList ∧ Carries d (accountAddr account) (chatSigner key)

/-- A call that makes the account gets its display name published. -/
def CallFor.NamesNew (d : Disk E) (c : CallFor E name) : Prop :=
  (∃ number, parseAlias c.text = .ok (name, number)) → c.Creates name d → c.Names name

variable {S dir} {d : Disk E} {account : E.SigningKey} {entries : List AccountEntry}
  {entry : AccountEntry}

/-- Without removes, the entries of the log are the live ones. -/
theorem Held.carries_iff (h : Held S name d account entries) :
    Carries d (accountAddr account) entry ↔ entry ∈ entries := by
  have hlog := h.log
  have hlen := hlog.length_lt
  constructor
  · intro ⟨signed, L, val, hstored, hverify, ⟨vals, hvals, hval⟩, hentry⟩
    rw [hstored] at hlog
    obtain ⟨L', hverify', rfl⟩ := hlog
    cases hverify.symm.trans hverify'
    have hlive : LiveIn L.entries val := (AccountLog.lists_iff hlen.le).mp ⟨vals, hvals, hval⟩
    rw [← hentry]
    exact List.mem_of_getElem? hlive.entry
  · intro hmem
    cases hstored : d.logs (accountAddr account) with
    | none =>
        rw [hstored] at hlog
        cases (show entries = [] from hlog)
        cases hmem
    | some signed =>
        rw [hstored] at hlog
        obtain ⟨L, hverify, rfl⟩ := hlog
        obtain ⟨p, hp, hget⟩ := List.getElem_of_mem hmem
        refine ⟨signed, L, ⟨UInt32.ofNat p, entry⟩, hstored, hverify, ?_, rfl⟩
        refine (AccountLog.lists_iff hlen.le).mpr ⟨?_, h.kept entry hmem, fun hremove ↦ ?_⟩
        · show L.entries[(UInt32.ofNat p).toNat]? = some entry
          rw [toNat_ofNat_u32 (by omega), List.getElem?_eq_getElem hp, hget]
        · cases h.kept _ hremove

theorem Sound.endorsed (h : Sound S name d) : Endorsed S name d := by
  intro number bytes hbytes
  cases h with
  | fresh _ empty => cases (empty number).symm.trans hbytes
  | spoilt hspoilt => cases (hspoilt.empty number).symm.trans hbytes
  | @held account entries hheld =>
      obtain ⟨key, hseed, hmem⟩ := hheld.endorsed number bytes hbytes
      exact ⟨account, key, hheld.file, hseed, hheld.carries_iff.mpr hmem⟩

/-- What does not name an account changes nothing. -/
theorem install_of_invalid (S : E.Seeds) (dir : String) {c : CallFor E name} (d : Disk E)
    (h : ¬ ∃ number, parseAlias c.text = .ok (name, number)) :
    step S dir d c = d ∧ moments S dir d c = [] ∧ ∀ key, answer S dir d c ≠ .ok key := by
  have hinstall : (install S dir c.toInstallCall ⟨d, []⟩).2 = ⟨d, []⟩ ∧
      ∀ key, (install S dir c.toInstallCall ⟨d, []⟩).1 ≠ .ok key := by
    unfold install
    cases hparse : parseAlias c.text with
    | ok parsed =>
        obtain ⟨other, number⟩ := parsed
        rw [c.same other number hparse] at hparse
        exact absurd ⟨number, hparse⟩ h
    | err e => exact ⟨rfl, fun key hkey ↦ by cases hkey⟩
    | panic => exact ⟨rfl, fun key hkey ↦ by cases hkey⟩
  refine ⟨?_, ?_, hinstall.2⟩
  · rw [step, hinstall.1]
  · rw [moments, hinstall.1]

section Step

variable (dir) (hE : E.VerifiesOwn) (hS : S.RoundTrip) (hd : Sound S name d) (c : CallFor E name)

theorem Session.always_start {P : Disk E → Prop} (h : P d) : Session.Always P ⟨d, []⟩ := by
  intro other hother
  rw [List.mem_singleton.mp hother]
  exact h

include hE hS hd in
theorem install_always {number : UInt32} (hparse : parseAlias c.text = .ok (name, number)) :
    (install S dir c.toInstallCall ⟨d, []⟩).2.Always (Sound S name) := by
  have hstart : Session.Always (Sound S name) ⟨d, []⟩ := Session.always_start hd
  have hplain := plain_of_parseAlias hparse
  have houtcome := @install_outcome _ S dir _ _ _ hparse ⟨d, []⟩
  generalize install S dir c.toInstallCall ⟨d, []⟩ = out at houtcome
  cases houtcome with
  | noAccount ha => exact (outcome_of_account ha).always hE hplain hstart
  | noInstallation ha hi =>
      have ha := outcome_of_account ha
      exact hi.always hE hS (ha.file hS hd) (ha.always hE hplain hstart)
  | done ha hi =>
      have ha := outcome_of_account ha
      exact hi.always hE hS (ha.file hS hd) (ha.always hE hplain hstart)

include hE hS hd in
/-- One call keeps the disk sound, at every moment. -/
theorem Sound.step : Sound S name (step S dir d c) ∧ ∀ m ∈ moments S dir d c, Sound S name m := by
  by_cases hparse : ∃ number, parseAlias c.text = .ok (name, number)
  · obtain ⟨number, hparse⟩ := hparse
    have halways := install_always dir hE hS hd c hparse
    exact ⟨halways _ List.mem_cons_self, fun m hm ↦ halways m (List.mem_cons_of_mem _ hm)⟩
  · obtain ⟨hstep, hmoments, -⟩ := install_of_invalid S dir d hparse
    rw [hstep, hmoments]
    exact ⟨hd, List.forall_mem_nil _⟩

include hE hS hd in
theorem named_step_iff :
    Named S name (Components.step S dir d c) ↔ Named S name d ∧ c.NamesNew d := by
  by_cases hparse : ∃ number, parseAlias c.text = .ok (name, number)
  · have hcondition : c.NamesNew d ↔ (c.Creates name d → c.Names name) :=
      ⟨fun h ↦ h hparse, fun h _ ↦ h⟩
    obtain ⟨number, hparse⟩ := hparse
    have hplain := plain_of_parseAlias hparse
    have hfirst {s' : Session E} {r : Result KeyVaultError E.SigningKey}
        (ha : AccountOutcome S c.toInstallCall name ⟨d, []⟩ (r, s')) :
        Sound S name s'.disk :=
      ha.always hE hplain (Session.always_start hd) _ List.mem_cons_self
    rw [hcondition, Components.step]
    have houtcome := @install_outcome _ S dir _ _ _ hparse ⟨d, []⟩
    generalize install S dir c.toInstallCall ⟨d, []⟩ = out at houtcome
    cases houtcome with
    | noAccount ha => exact (outcome_of_account ha).named_iff hE hS hplain hd
    | noInstallation ha hi =>
        have ha := outcome_of_account ha
        exact (hi.named_iff hE hS (ha.file hS hd) (hfirst ha)).trans (ha.named_iff hE hS hplain hd)
    | done ha hi =>
        have ha := outcome_of_account ha
        exact (hi.named_iff hE hS (ha.file hS hd) (hfirst ha)).trans (ha.named_iff hE hS hplain hd)
  · rw [(install_of_invalid S dir d hparse).1]
    exact ⟨fun h ↦ ⟨h, fun hvalid ↦ absurd hvalid hparse⟩, fun h ↦ h.1⟩

end Step

section Run

variable (hE : E.VerifiesOwn) (hS : S.RoundTrip) (calls : List (CallFor E name))

theorem sound_start : Sound S name (Disk.start : Disk E) :=
  .fresh rfl (fun _ ↦ rfl) fun _ ↦ rfl

include hE hS in
theorem after_sound : Sound S name (after S dir calls) :=
  run_invariant (fun _ c hd ↦ (hd.step dir hE hS c).1) sound_start calls

include hE hS in
theorem after_named_iff :
    Named S name (after S dir calls) ↔ Along (step S dir) (fun d c ↦ c.NamesNew d) Disk.start calls := by
  have hiff := run_iff_along (fun _ c hd ↦ (hd.step dir hE hS c).1)
    (fun d c hd ↦ named_step_iff dir hE hS hd c) sound_start calls
  exact hiff.trans (and_iff_right (named_of_no_account rfl))

theorem after_append (more : List (CallFor E name)) :
    after S dir (calls ++ more) = run (step S dir) (after S dir calls) more :=
  run_append _ _ _

end Run

/-- What a call that returns leaves behind. -/
structure Returns (S : E.Seeds) (d : Disk E) (name : String) (number : UInt32)
    (key : InstallationKey E) : Prop where
  account : ∃ account entries, Held S name d account entries ∧ key.account = accountAddr account ∧
    chatSigner key.signingKey ∈ entries
  file : d.files (.installation name number) = some (S.seed key.signingKey).toList

theorem returns_of_answer (hE : E.VerifiesOwn) (hS : S.RoundTrip) (hd : Sound S name d)
    {c : CallFor E name} {key : InstallationKey E} (h : answer S dir d c = .ok key) :
    ∃ number, parseAlias c.text = .ok (name, number) ∧ Returns S (step S dir d c) name number key := by
  by_cases hparse : ∃ number, parseAlias c.text = .ok (name, number)
  · obtain ⟨number, hparse⟩ := hparse
    refine ⟨number, hparse, ?_⟩
    have houtcome := @install_outcome _ S dir _ _ _ hparse ⟨d, []⟩
    unfold answer at h
    unfold step
    generalize install S dir c.toInstallCall ⟨d, []⟩ = out at h houtcome
    cases houtcome with
    | noAccount => cases h
    | noInstallation => cases h
    | done ha hi =>
        cases h
        have ha := outcome_of_account ha
        have hmid := ha.always hE (plain_of_parseAlias hparse) (Session.always_start hd)
        obtain ⟨hfile, entries, hheld, hmem⟩ :=
          hi.returned hE hS (ha.file hS hd) (hmid _ List.mem_cons_self)
        exact ⟨⟨_, entries, hheld, rfl, hmem⟩, hfile⟩
  · exact absurd h ((install_of_invalid S dir d hparse).2.2 key)

theorem extends_step (d : Disk E) (c : CallFor E name) : d.Extends (step S dir d c) := by
  by_cases hparse : ∃ number, parseAlias c.text = .ok (name, number)
  · obtain ⟨number, hparse⟩ := hparse
    have houtcome := @install_outcome _ S dir _ _ _ hparse ⟨d, []⟩
    unfold step
    generalize install S dir c.toInstallCall ⟨d, []⟩ = out at houtcome
    cases houtcome with
    | noAccount ha => exact (outcome_of_account ha).extends
    | noInstallation ha hi =>
        exact fun path bytes h ↦ hi.extends path bytes ((outcome_of_account ha).extends path bytes h)
    | done ha hi =>
        exact fun path bytes h ↦ hi.extends path bytes ((outcome_of_account ha).extends path bytes h)
  · rw [(install_of_invalid S dir d hparse).1]
    exact fun _ _ h ↦ h

theorem extends_run (d : Disk E) (calls : List (CallFor E name)) :
    d.Extends (run (step S dir) d calls) :=
  @run_relates _ _ (step S dir) (fun _ ↦ True) Disk.Extends (fun _ _ _ h ↦ h)
    (fun _ _ _ hab hbc path bytes h ↦ hbc path bytes (hab path bytes h)) (fun _ _ _ ↦ trivial)
    (fun d c _ ↦ extends_step d c) d trivial calls

/-- What a call has returned, a later one returns. -/
theorem Returns.unique (hS : S.RoundTrip) {d d' : Disk E} {number number' : UInt32}
    {key key' : InstallationKey E} (h : Returns S d name number key)
    (h' : Returns S d' name number' key') (hext : d.Extends d') :
    key'.account = key.account ∧ (number' = number → key'.signingKey = key.signingKey) := by
  obtain ⟨account, entries, hheld, hkey, -⟩ := h.account
  obtain ⟨account', entries', hheld', hkey', -⟩ := h'.account
  constructor
  · rw [hkey, hkey', key_of_seed hS (hheld'.file.symm.trans (hext _ _ hheld.file))]
  · intro hnumber
    subst hnumber
    exact key_of_seed hS (h'.file.symm.trans (hext _ _ h.file))

/-! ## Uninterrupted calls -/

/-- Nothing goes wrong in the call. -/
structure InstallCall.Uninterrupted (c : InstallCall E) : Prop where
  readAccount : c.readAccount = none
  writeAccount : c.writeAccount = none
  publishName : c.publishName.Up
  readInstallation : c.readInstallation = none
  publishSigner : c.publishSigner.Up
  writeInstallation : c.writeInstallation = none

variable (S dir) in
/-- The call comes to its endorsement, and publishes it: it has the account, finds no key for the
installation, and the publish goes through. -/
structure CallFor.Endorses (d : Disk E) (c : CallFor E name) (number : UInt32) (key : E.SigningKey)
    (s : Session E) : Prop where
  parse : parseAlias c.text = .ok (name, number)
  account : Components.account S dir name c.toInstallCall ⟨d, []⟩ = (.ok key, s)
  read : c.readInstallation = none
  empty : s.disk.files (.installation name number) = none
  up : c.publishSigner.Up
  prepare : ∃ signed, Accounts.prepare key (.ok (s.disk.logs (accountAddr key)))
    [chatSigner c.installationKey] = .ok signed

variable (S dir) in
/-- No key is endorsed that then does not reach the disk. -/
def CallFor.KeepsKey (d : Disk E) (c : CallFor E name) : Prop :=
  ∀ number key s, c.Endorses S dir d number key s → c.writeInstallation = none

/-- The disk is where uninterrupted calls leave it. -/
def Reached (S : E.Seeds) (dir name : String) (d : Disk E) : Prop :=
  ∃ clean : List (CallFor E name), after S dir clean = d ∧
    Along (step S dir) (fun d c ↦ c.Uninterrupted ∧ ∃ key, answer S dir d c = .ok key) Disk.start clean

/-- The disk is where an uninterrupted `account` leaves it, for a new account. -/
def HalfWay (S : E.Seeds) (dir name : String) (d : Disk E) : Prop :=
  ∃ c : InstallCall E, c.readAccount = none ∧ c.writeAccount = none ∧ c.publishName.Up ∧
    ∃ s, Components.account S dir name c ⟨Disk.start, []⟩ = (.ok c.accountKey, s) ∧ s.disk = d

section Reached

variable {c : CallFor E name} {number : UInt32}

/-- The call with nothing going wrong in it, for a given account key. -/
def CallFor.resumed (c : CallFor E name) (c' : InstallCall E) : CallFor E name where
  toInstallCall :=
    { c.toInstallCall with
      accountKey := c'.accountKey
      readAccount := none
      writeAccount := none
      publishName := c'.publishName
      readInstallation := none
      writeInstallation := none }
  same := c.same

theorem CallFor.resumed_uninterrupted {c' : InstallCall E} (hname : c'.publishName.Up)
    (hsigner : c.publishSigner.Up) : (c.resumed c').Uninterrupted :=
  ⟨rfl, rfl, hname, rfl, hsigner, rfl⟩

/-- Without an account key, nothing has happened yet. -/
theorem eq_start_of_none (hE : E.VerifiesOwn) (hS : S.RoundTrip)
    (h : Reached S dir name d ∨ HalfWay S dir name d) (hfile : d.files (.account name) = none) :
    d = Disk.start := by
  obtain ⟨clean, rfl, hclean⟩ | ⟨c, -, -, -, s, haccount, rfl⟩ := h
  · cases clean with
    | nil => rfl
    | cons first rest =>
        obtain ⟨⟨-, key, hkey⟩, -⟩ := hclean
        obtain ⟨number, -, hreturns⟩ := returns_of_answer hE hS sound_start hkey
        obtain ⟨account, entries, hheld, -⟩ := hreturns.account
        cases hfile.symm.trans (extends_run (step S dir Disk.start first) rest _ _ hheld.file)
  · cases hfile.symm.trans ((outcome_of_account haccount).file hS sound_start)

theorem Reached.append (h : Reached S dir name d) (hc : c.Uninterrupted) {key : InstallationKey E}
    (hkey : answer S dir d c = .ok key) : Reached S dir name (step S dir d c) := by
  obtain ⟨calls, rfl, halong⟩ := h
  refine ⟨calls ++ [c], ?_, along_append.mpr ⟨halong, ⟨hc, key, hkey⟩, trivial⟩⟩
  rw [after_append]
  rfl

theorem reached_of_install {c' : CallFor E name} {key : InstallationKey E} {s : Session E}
    (h : Reached S dir name d) (hc : c'.Uninterrupted)
    (hinstall : install S dir c'.toInstallCall ⟨d, []⟩ = (.ok key, s)) : Reached S dir name s.disk := by
  have hanswer : answer S dir d c' = .ok key := congrArg Prod.fst hinstall
  have hstep : step S dir d c' = s.disk := congrArg (fun out ↦ out.2.disk) hinstall
  rw [← hstep]
  exact h.append hc hanswer

theorem reached_start : Reached S dir name (Disk.start : Disk E) := ⟨[], rfl, trivial⟩

/-- A new installation, where the account is there already: had the call made it, the account would be the
same. -/
theorem reached_of_written (hS : S.RoundTrip)
    (h : Reached S dir name d ∨ HalfWay S dir name d)
    (hparse : parseAlias c.text = .ok (name, number)) {seed : KeyBytes}
    (hfile : d.files (.account name) = some seed.toList)
    (hempty : d.files (.installation name number) = none) (hup : c.publishSigner.Up)
    {signed : SignedAccountLog}
    (hprepare : prepare (S.fromSeed seed) (.ok (d.logs (accountAddr (S.fromSeed seed))))
      [chatSigner c.installationKey] = .ok signed) :
    Reached S dir name ((d.publish (accountAddr (S.fromSeed seed)) signed).write
      (.installation name number) (S.seed c.installationKey).toList) := by
  -- the rest of the call, from any session on this disk
  have hrest (c' : InstallCall E) (s : Session E) (hs : s.disk = d) :
      installation S dir name number (S.fromSeed seed) (c.resumed c').toInstallCall s =
        (.ok c.installationKey, (s.change (Disk.publish (accountAddr (S.fromSeed seed)) signed)).change
          (Disk.write (.installation name number) (S.seed c.installationKey).toList)) := by
    subst hs
    exact installation_of_up rfl hempty hup hprepare rfl
  obtain hreached | ⟨c', hread, hwrite, hname, s, haccount, hs⟩ := h
  · let quiet : InstallCall E := { c.toInstallCall with publishName := ⟨none, none, ""⟩ }
    have hclean : (c.resumed quiet).Uninterrupted := CallFor.resumed_uninterrupted ⟨rfl, rfl⟩ hup
    have haccount : Components.account S dir name (c.resumed quiet).toInstallCall ⟨d, []⟩ =
        (.ok (S.fromSeed seed), ⟨d, []⟩) := account_of_seed rfl hfile
    exact reached_of_install hreached hclean (install_of_ok hparse haccount (hrest quiet _ rfl))
  · have hkey : S.fromSeed seed = c'.accountKey := by
      have hseed := ((outcome_of_account haccount).file hS sound_start).symm.trans (hs ▸ hfile)
      rw [← Vector.toList_inj.mp (Option.some.inj hseed), hS]
    have hresumed : Components.account S dir name (c.resumed c').toInstallCall ⟨Disk.start, []⟩ =
        (.ok (S.fromSeed seed), s) := by
      rw [hkey, ← haccount]
      unfold Components.account
      rw [hread, hwrite]
      rfl
    have hclean : (c.resumed c').Uninterrupted := CallFor.resumed_uninterrupted hname hup
    rw [← hs]
    exact reached_of_install reached_start hclean (install_of_ok hparse hresumed (hrest c' s hs))

/-- A call that names a new account and keeps the key it endorses leaves the disk where uninterrupted
calls would, or would on the way. -/
theorem reached_step (hE : E.VerifiesOwn) (hS : S.RoundTrip) (hd : Sound S name d)
    (h : Reached S dir name d ∨ HalfWay S dir name d) (hnames : c.NamesNew d)
    (hkeeps : c.KeepsKey S dir d) :
    Reached S dir name (step S dir d c) ∨ HalfWay S dir name (step S dir d c) := by
  by_cases hparse : ∃ number, parseAlias c.text = .ok (name, number)
  · obtain ⟨number, hparse⟩ := hparse
    have hcreate (hnew : c.Creates name d) : d = Disk.start := eq_start_of_none hE hS h hnew.2.1
    have houtcome := @install_outcome _ S dir _ _ _ hparse ⟨d, []⟩
    unfold step
    generalize hinstall : install S dir c.toInstallCall ⟨d, []⟩ = out at houtcome
    cases houtcome with
    | noAccount ha =>
        cases outcome_of_account ha with
        | failed => exact h
        | unnamed hnew hnot =>
            have hname := hnames ⟨number, hparse⟩ hnew
            obtain ⟨signed, hprepare⟩ := prepare_name_iff.mpr hname.2
            rw [(hd.fresh_of_none hnew.2.1).2] at hnot
            exact absurd hprepare (hnot hname.1 signed)
    | noInstallation ha hi =>
        cases hi with
        | unwritten hread hempty hup hprepare hwrite =>
            exact absurd (hkeeps number _ _ ⟨hparse, ha, hread, hempty, hup, _, hprepare⟩) hwrite
        | failed =>
            cases outcome_of_account ha with
            | held => exact h
            | named hnew hup hprepare =>
                cases hcreate hnew
                exact .inr ⟨c.toInstallCall, hnew.1, hnew.2.2, hup, _, ha, rfl⟩
    | done ha hi =>
        have ha := outcome_of_account ha
        have hkept := ha.installation_files number
        cases ha with
        | held hfile =>
            cases hi with
            | held => exact h
            | written _ hempty hup hprepare =>
                exact .inl (reached_of_written hS h hparse hfile hempty hup hprepare)
        | named hnew hup hprepare =>
            cases hi with
            | held hfile =>
                have hempty := (hd.fresh_of_none hnew.2.1).1 number
                cases (hkept.trans hempty).symm.trans hfile
            | written hread hempty hsigner _ hwrite =>
                cases hcreate hnew
                have hclean : c.Uninterrupted := ⟨hnew.1, hnew.2.2, hup, hread, hsigner, hwrite⟩
                exact .inl (reached_of_install reached_start hclean hinstall)
  · rw [(install_of_invalid S dir d hparse).1]
    exact h

theorem HalfWay.installation_files (h : HalfWay S dir name d) (number : UInt32) :
    d.files (.installation name number) = none := by
  obtain ⟨c, -, -, -, s, haccount, rfl⟩ := h
  exact (outcome_of_account haccount).installation_files number

end Reached

/-! ## What holds of every run -/

/-- A call that returned after these ones. -/
structure ReturnSpec (S : E.Seeds) (dir : String) (calls : List (CallFor E name)) (c : CallFor E name)
    (key : InstallationKey E) : Prop where
  signer : Carries (after S dir (calls ++ [c])) key.account (chatSigner key.signingKey)
  named_iff : Carries (after S dir (calls ++ [c])) key.account (displayName name) ↔
    Along (step S dir) (fun d c ↦ c.NamesNew d) Disk.start (calls ++ [c])
  again : ∀ (later : List (CallFor E name)) (c' : CallFor E name) key',
    answer S dir (after S dir (calls ++ c :: later)) c' = .ok key' →
      key'.account = key.account ∧
        (parseAlias c'.text = parseAlias c.text → key'.signingKey = key.signingKey)
  restored : Along (step S dir) (fun d c ↦ c.NamesNew d ∧ c.KeepsKey S dir d) Disk.start (calls ++ [c]) →
    Reached S dir name (after S dir (calls ++ [c]))

/-- These calls, and one more. -/
structure InstallSpec (S : E.Seeds) (dir : String) (calls : List (CallFor E name)) : Prop where
  endorsed : ∀ c : CallFor E name, ∀ d ∈ after S dir calls :: moments S dir (after S dir calls) c,
    Endorsed S name d
  returns : ∀ c key, answer S dir (after S dir calls) c = .ok key → ReturnSpec S dir calls c key

section Spec

variable (hE : E.VerifiesOwn) (hS : S.RoundTrip)

include hE hS in
theorem reached_after {calls : List (CallFor E name)}
    (h : Along (step S dir) (fun d c ↦ c.NamesNew d ∧ c.KeepsKey S dir d) Disk.start calls) :
    Reached S dir name (after S dir calls) ∨ HalfWay S dir name (after S dir calls) := by
  let Inv (d : Disk E) : Prop := Sound S name d ∧ (Reached S dir name d ∨ HalfWay S dir name d)
  have hstep (d : Disk E) (c : CallFor E name) (hd : Inv d) (hc : c.NamesNew d ∧ c.KeepsKey S dir d) :
      Inv (step S dir d c) :=
    ⟨(hd.1.step dir hE hS c).1, reached_step hE hS hd.1 hd.2 hc.1 hc.2⟩
  have hstart : Inv Disk.start := ⟨sound_start, .inl reached_start⟩
  exact (Along.invariant hstep hstart h).2

include hE hS in
theorem returnSpec {calls : List (CallFor E name)} {c : CallFor E name} {key : InstallationKey E}
    (h : answer S dir (after S dir calls) c = .ok key) : ReturnSpec S dir calls c key := by
  have hlast : after S dir (calls ++ [c]) = step S dir (after S dir calls) c := after_append calls [c]
  obtain ⟨number, hparse, hreturns⟩ := returns_of_answer hE hS (after_sound hE hS calls) h
  rw [← hlast] at hreturns
  obtain ⟨account, entries, hheld, haccount, hmem⟩ := hreturns.account
  refine ⟨?_, ?_, fun later c' key' hkey' ↦ ?_, fun halong ↦ ?_⟩
  · rw [haccount]
    exact hheld.carries_iff.mpr hmem
  · rw [haccount, hheld.carries_iff, ← hheld.named_iff hS]
    exact after_named_iff hE hS (calls ++ [c])
  · obtain ⟨number', hparse', hreturns'⟩ :=
      returns_of_answer hE hS (after_sound hE hS (calls ++ c :: later)) hkey'
    have hlater : after S dir (calls ++ c :: later) =
        run (step S dir) (after S dir (calls ++ [c])) later := by
      rw [← after_append, List.append_assoc, List.singleton_append]
    have hext : (after S dir (calls ++ [c])).Extends
        (step S dir (after S dir (calls ++ c :: later)) c') := by
      intro path bytes hbytes
      rw [hlater]
      exact extends_step _ c' path bytes (extends_run _ later path bytes hbytes)
    obtain ⟨hsame, hsigner⟩ := hreturns.unique hS hreturns' hext
    refine ⟨hsame, fun hparses ↦ hsigner ?_⟩
    rw [hparse, hparse'] at hparses
    cases hparses
    rfl
  · obtain hreached | hhalf := reached_after hE hS halong
    · exact hreached
    · cases (hhalf.installation_files number).symm.trans hreturns.file

end Spec

end Runs

/-- Calls of `install` for one account, any step of which may fail.  At every moment each installation key
on disk is endorsed on the account's log; what a call has returned, later ones return; and the log carries
the display name exactly when no call has made the account and then failed to publish its name. -/
theorem installs_for_one_account (E : Ed25519) (hE : E.VerifiesOwn) (S : E.Seeds) (hS : S.RoundTrip)
    (dir name : String) (calls : List (CallFor E name)) : InstallSpec S dir calls := by
  refine ⟨fun c d hd ↦ ?_, fun c key h ↦ returnSpec hE hS h⟩
  have hsound : Sound S name (after S dir calls) := after_sound hE hS calls
  obtain rfl | hd := List.mem_cons.mp hd
  · exact hsound.endorsed
  · exact ((hsound.step dir hE hS c).2 d hd).endorsed

/-! ## A name that is lost -/

namespace Sample

/-- A signing key of the sample backend is its own seed. -/
def seeds : Ed25519.sample.Seeds := ⟨id, id⟩

theorem seeds_roundTrip : seeds.RoundTrip := fun _ ↦ rfl

theorem parse_saro : parseAlias "saro" = .ok ("saro", 1) := by decide +kernel

theorem saro_same (other : String) (number : UInt32) (h : parseAlias "saro" = .ok (other, number)) :
    other = "saro" := by
  cases parse_saro.symm.trans h
  rfl

/-- A call for `saro` in which nothing goes wrong but what happens to the display name. -/
def saro (publishName : Network) : CallFor Ed25519.sample "saro" where
  text := "saro"
  accountKey := Ed25519.sampleKey
  installationKey := (Vector.replicate 32 9 : KeyBytes)
  readAccount := none
  writeAccount := none
  publishName := publishName
  readInstallation := none
  publishSigner := ⟨none, none, ""⟩
  writeInstallation := none
  same := saro_same

def up : Network := ⟨none, none, ""⟩
def offline : Network := ⟨some "offline", none, ""⟩

/-- The directory after these calls, in a vault of the sample backend. -/
def vault (calls : List (CallFor Ed25519.sample "saro")) : Disk Ed25519.sample := after seeds "vault" calls

theorem saro_returns :
    (answer seeds "vault" (vault [saro offline]) (saro up)).isOk = true := by decide +kernel

end Sample

open Sample in
theorem saro_installs : Ed25519.sample.VerifiesOwn ∧ seeds.RoundTrip ∧
    (answer seeds "vault" (vault [saro offline]) (saro up)).isOk = true ∧
    InstallSpec seeds "vault" [saro offline] := by
  refine ⟨Ed25519.sample_verify_sign, seeds_roundTrip, saro_returns, ?_⟩
  exact installs_for_one_account Ed25519.sample Ed25519.sample_verify_sign seeds seeds_roundTrip "vault"
    "saro" [saro offline]

open Sample in
/-- The first call writes the account's key and cannot reach the directory.  The next one finds the key,
returns, and leaves the account without its name. -/
theorem saro_stays_unnamed : ∃ key,
    answer seeds "vault" (vault [saro offline]) (saro up) = .ok key ∧
      ¬ Carries (vault [saro offline, saro up]) key.account (displayName "saro") := by
  obtain ⟨key, hanswer⟩ := Result.isOk_iff.mp saro_returns
  refine ⟨key, hanswer, fun hcarries ↦ ?_⟩
  have hspec := returnSpec Ed25519.sample_verify_sign seeds_roundTrip hanswer
  have hfirst : (saro offline).NamesNew Disk.start := (hspec.named_iff.mp hcarries).1
  obtain ⟨⟨hfetch, -⟩, -⟩ := hfirst ⟨1, parse_saro⟩ ⟨rfl, rfl, rfl⟩
  cases hfetch

end LogosChat.Components
