import LogosChat.Components.KeyVault

/-!
# The disk of a key vault

What holds of the files and the published logs between any two steps of `install`.  The endorsement of an
installation's key precedes the key on disk, so every key there is endorsed; the display name follows the
account's key, and is there only if that publish goes through.
-/

namespace LogosChat.Components

open Reasoning Crypto Accounts Conversations

variable {E : Ed25519}

/-! ## Account names -/

theorem isNameChar_range {c : Char} (h : isNameChar c = true) : 0x2d ≤ c.toNat ∧ c.toNat ≤ 0x7a := by
  -- the classes as they are defined, and then as ranges of codes
  change (decide ('A'.val ≤ c.val ∧ c.val ≤ 'Z'.val) || (decide ('a'.val ≤ c.val) && decide (c.val ≤ 'z'.val)) ||
    (decide ('0'.val ≤ c.val) && decide (c.val ≤ '9'.val)) || c == '-' || c == '_' || c == '.') = true at h
  simp only [Bool.or_eq_true, Bool.and_eq_true, decide_eq_true_eq, beq_iff_eq,
    UInt32.le_iff_toNat_le] at h
  change (((((0x41 ≤ c.toNat ∧ c.toNat ≤ 0x5a) ∨ 0x61 ≤ c.toNat ∧ c.toNat ≤ 0x7a) ∨
    0x30 ≤ c.toNat ∧ c.toNat ≤ 0x39) ∨ c = '-') ∨ c = '_') ∨ c = '.' at h
  obtain ((h | h) | h) | h := h
  · omega
  · subst h
    decide
  · subst h
    decide
  · subst h
    decide

theorem opcodeMask_of_printable : ∀ n < 0x80, 0x10 ≤ n → UInt8.ofNat n &&& opcodeMask ≠ 0 := by
  decide

theorem plain_of_parseAlias {text name : String} {number : UInt32}
    (h : parseAlias text = .ok (name, number)) : ∀ b ∈ utf8 name, b &&& opcodeMask ≠ 0 := by
  have hchars := List.all_eq_true.mp (parseAlias_eq_ok h).2.1
  have hascii : ∀ c ∈ name.toList, c.toNat < 0x80 := by
    intro c hc
    have hrange := isNameChar_range (hchars c hc)
    omega
  have hbytes : utf8 name = name.toList.map fun c ↦ UInt8.ofNat c.toNat := by
    rw [← utf8_ofList_of_ascii hascii, String.ofList_toList]
  intro b hb
  rw [hbytes] at hb
  obtain ⟨c, hc, rfl⟩ := List.mem_map.mp hb
  have hrange := isNameChar_range (hchars c hc)
  exact opcodeMask_of_printable c.toNat (hascii c hc) (by omega)

/-! ## The disk between two steps -/

section Disks

variable (S : E.Seeds) (name : String)

/-- The account has its key, and these are the entries of its log.  They remove nothing, and endorse every
installation key there is. -/
structure Held (d : Disk E) (account : E.SigningKey) (entries : List AccountEntry) : Prop where
  file : d.files (.account name) = some (S.seed account).toList
  log : Logged account (d.logs (accountAddr account)) entries
  kept : ∀ entry ∈ entries, entry.isRemove = false
  endorsed : ∀ number bytes, d.files (.installation name number) = some bytes →
    ∃ key, bytes = (S.seed key).toList ∧ chatSigner key ∈ entries

/-- A name too long for its frame spoils the log; no installation follows. -/
structure Spoilt (d : Disk E) (account : E.SigningKey) : Prop where
  file : d.files (.account name) = some (S.seed account).toList
  log : Garbled account (d.logs (accountAddr account))
  empty : ∀ number, d.files (.installation name number) = none

inductive Sound (d : Disk E) : Prop where
  | fresh (file : d.files (.account name) = none)
      (empty : ∀ number, d.files (.installation name number) = none) (logs : ∀ addr, d.logs addr = none)
  | held {account : E.SigningKey} {entries : List AccountEntry} (h : Held S name d account entries)
  | spoilt {account : E.SigningKey} (h : Spoilt S name d account)

/-- An account whose log can be read has its display name there. -/
def Named (d : Disk E) : Prop :=
  ∀ account entries, Held S name d account entries → displayName name ∈ entries

variable {S name} {d : Disk E} {account : E.SigningKey} {entries : List AccountEntry}

theorem key_of_seed (hS : S.RoundTrip) {key key' : E.SigningKey}
    (h : some (S.seed key).toList = some (S.seed key').toList) : key = key' := by
  have hseed : S.seed key = S.seed key' := Vector.toList_inj.mp (Option.some.inj h)
  rw [← hS key, hseed, hS]

theorem Held.unique (hS : S.RoundTrip) (h : Held S name d account entries) {account' : E.SigningKey}
    {entries' : List AccountEntry} (h' : Held S name d account' entries') : entries = entries' := by
  cases key_of_seed hS (h.file.symm.trans h'.file)
  exact h.log.unique h'.log

theorem Held.named_iff (hS : S.RoundTrip) (h : Held S name d account entries) :
    Named S name d ↔ displayName name ∈ entries := by
  refine ⟨fun hnamed ↦ hnamed account entries h, fun hmem account' entries' h' ↦ ?_⟩
  rw [← h.unique hS h']
  exact hmem

theorem Spoilt.named (hS : S.RoundTrip) (h : Spoilt S name d account) : Named S name d := by
  intro account' entries h'
  cases key_of_seed hS (h.file.symm.trans h'.file)
  exact absurd h'.log (h.log entries)

theorem named_of_no_account (h : d.files (.account name) = none) : Named S name d := by
  intro account entries hheld
  cases h.symm.trans hheld.file

/-- With an account key on disk whose log some entries can be read from, the account is held. -/
theorem Sound.held_of_logged (hS : S.RoundTrip) (h : Sound S name d)
    (hfile : d.files (.account name) = some (S.seed account).toList)
    (hlog : Logged account (d.logs (accountAddr account)) entries) : Held S name d account entries := by
  cases h with
  | fresh file => cases file.symm.trans hfile
  | spoilt hspoilt =>
      cases key_of_seed hS (hfile.symm.trans hspoilt.file)
      exact absurd hlog (hspoilt.log entries)
  | held hheld =>
      cases key_of_seed hS (hfile.symm.trans hheld.file)
      cases hheld.log.unique hlog
      exact hheld

theorem Sound.fresh_of_none (h : Sound S name d) (hfile : d.files (.account name) = none) :
    (∀ number, d.files (.installation name number) = none) ∧ ∀ addr, d.logs addr = none := by
  cases h with
  | fresh _ empty logs => exact ⟨empty, logs⟩
  | held hheld => cases hfile.symm.trans hheld.file
  | spoilt hspoilt => cases hfile.symm.trans hspoilt.file

end Disks

/-! ## The four effects -/

section Effects

variable {S : E.Seeds} {name : String} {d : Disk E} {account key : E.SigningKey}
  {entries : List AccountEntry} {signed : SignedAccountLog}

theorem installation_ne_account (number : UInt32) :
    KeyPath.installation name number ≠ KeyPath.account name := by
  intro h
  cases h

theorem Sound.create (h : Sound S name d) (hfile : d.files (.account name) = none)
    (account : E.SigningKey) :
    Held S name (d.write (.account name) (S.seed account).toList) account [] := by
  obtain ⟨hempty, hlogs⟩ := h.fresh_of_none hfile
  refine ⟨Disk.write_self .., ?_, List.forall_mem_nil _, fun number bytes hbytes ↦ ?_⟩
  · rw [Disk.write_logs, hlogs]
    rfl
  · rw [Disk.write_of_ne _ _ (installation_ne_account number), hempty] at hbytes
    cases hbytes

theorem Held.publish_name (hE : E.VerifiesOwn) (hplain : ∀ b ∈ utf8 name, b &&& opcodeMask ≠ 0)
    (h : Held S name d account [])
    (hprepare : prepare account (.ok (d.logs (accountAddr account))) [displayName name] = .ok signed) :
    Held S name (d.publish (accountAddr account) signed) account [displayName name] ∨
      Spoilt S name (d.publish (accountAddr account) signed) account := by
  obtain ⟨entries, hlog, hmore⟩ := oneMore_of_prepare hprepare
  cases h.log.unique hlog
  have hempty (number : UInt32) : d.files (.installation name number) = none := by
    apply Option.eq_none_iff_forall_not_mem.mpr
    intro bytes hbytes
    obtain ⟨key, -, hmem⟩ := h.endorsed number bytes hbytes
    cases hmem
  by_cases hfits : (displayName name).TextFits
  · refine .inl ⟨h.file, ?_, ?_, fun number bytes hbytes ↦ ?_⟩
    · rw [Disk.publish_self]
      exact hmore.logged hE hlog hfits
    · intro entry hentry
      rw [List.mem_singleton.mp hentry]
      rfl
    · cases (hempty number).symm.trans hbytes
  · refine .inr ⟨h.file, ?_, hempty⟩
    rw [Disk.publish_self]
    intro entries' hlogged
    obtain ⟨L, hverify, -⟩ := hlogged
    have hdecode := (SignedAccountLog.verify_eq_ok_iff.mp hverify).2
    have hbytes : signed.payload.bytes = accountLogDomain ++ encodeEntry (displayName name) := by
      rw [hmore.encodes, List.nil_append, FrameCodec.encodeAll_cons, FrameCodec.encodeAll_nil,
        List.append_nil]
      rfl
    exact decode_ne_ok_of_wrapped_text hbytes hfits hplain L hdecode

theorem Held.endorse (hE : E.VerifiesOwn) (h : Held S name d account entries)
    (hprepare : prepare account (.ok (d.logs (accountAddr account))) [chatSigner key] = .ok signed) :
    Held S name (d.publish (accountAddr account) signed) account (entries ++ [chatSigner key]) := by
  obtain ⟨entries', hlog, hmore⟩ := oneMore_of_prepare hprepare
  cases h.log.unique hlog
  refine ⟨h.file, ?_, fun entry hentry ↦ ?_, fun number bytes hbytes ↦ ?_⟩
  · rw [Disk.publish_self]
    exact hmore.logged hE hlog trivial
  · obtain hold | hnew := List.mem_append.mp hentry
    · exact h.kept entry hold
    · rw [List.mem_singleton.mp hnew]
      rfl
  · obtain ⟨key', hseed, hmem⟩ := h.endorsed number bytes hbytes
    exact ⟨key', hseed, List.mem_append_left _ hmem⟩

theorem Held.write_installation (h : Held S name d account entries) (hmem : chatSigner key ∈ entries)
    (number : UInt32) :
    Held S name (d.write (.installation name number) (S.seed key).toList) account entries := by
  refine ⟨?_, h.log, h.kept, fun other bytes hbytes ↦ ?_⟩
  · rw [Disk.write_of_ne _ _ (installation_ne_account number).symm]
    exact h.file
  · by_cases hother : KeyPath.installation name other = .installation name number
    · rw [hother, Disk.write_self] at hbytes
      exact ⟨key, (Option.some.inj hbytes).symm, hmem⟩
    · rw [Disk.write_of_ne _ _ hother] at hbytes
      exact h.endorsed other bytes hbytes

/-- Without a published log, the display name goes through when it fits a payload. -/
theorem prepare_name_iff :
    (∃ signed, prepare account (.ok none) [displayName name] = .ok signed) ↔
      encodedLength [displayName name] ≤ maxPayloadBytes := by
  constructor
  · intro ⟨signed, h⟩
    have hbytes := prepare_payload h
    rw [encodedLength_eq, ← show baseBytes none = accountLogDomain from rfl, ← hbytes]
    exact signed.payload.size
  · intro hsize
    obtain ⟨draft, hpush, hentries⟩ := push_text E _ name
    rw [← show draft.log.entries = [displayName name] from hentries] at hsize
    obtain ⟨payload, hencode⟩ := exists_encode_iff.mpr hsize
    have hall : (AccountLogDraft.new : AccountLogDraft E).pushAll [displayName name] = .ok draft := by
      rw [AccountLogDraft.pushAll, show AccountLogDraft.new.push (displayName name) = .ok draft from hpush]
      rfl
    refine ⟨SignedAccountLog.sign E account payload, ?_⟩
    show (accountDraft account (.ok none) >>= _) = _
    rw [accountDraft, Result.ok_bind, hall]
    show (draft.log.encode.mapErr AccountError.log >>= _) = _
    rw [hencode]
    rfl

end Effects

/-! ## One call -/

/-- The property holds of the disk, and of the disks the call has left behind. -/
def Session.Always (P : Disk E → Prop) (s : Session E) : Prop := ∀ d ∈ s.disk :: s.left, P d

theorem Session.Always.change {P : Disk E → Prop} {s : Session E} {f : Disk E → Disk E}
    (h : s.Always P) (hnew : P (f s.disk)) : (s.change f).Always P := by
  intro d hd
  cases hd with
  | head => exact hnew
  | tail _ hd => exact h d hd

/-- Files are only added. -/
def Disk.Extends (d d' : Disk E) : Prop :=
  ∀ path bytes, d.files path = some bytes → d'.files path = some bytes

theorem Disk.extends_write {d : Disk E} {path : KeyPath} (h : d.files path = none) (bytes : Bytes) :
    d.Extends (d.write path bytes) := by
  intro other held hheld
  by_cases hother : other = path
  · rw [hother, h] at hheld
    cases hheld
  · rw [Disk.write_of_ne _ _ hother]
    exact hheld

section Outcomes

variable {S : E.Seeds} {dir name : String} {number : UInt32} {c : InstallCall E} {s s' : Session E}
  {account : E.SigningKey} {r : Result KeyVaultError E.SigningKey}

theorem AccountOutcome.extends (h : AccountOutcome S c name s (r, s')) : s.disk.Extends s'.disk := by
  cases h with
  | failed => exact fun _ _ h ↦ h
  | held => exact fun _ _ h ↦ h
  | unnamed hnew => exact Disk.extends_write hnew.2.1 _
  | named hnew => exact Disk.extends_write hnew.2.1 _

theorem InstallationOutcome.extends (h : InstallationOutcome S c name number account s (r, s')) :
    s.disk.Extends s'.disk := by
  cases h with
  | failed => exact fun _ _ h ↦ h
  | held => exact fun _ _ h ↦ h
  | unwritten => exact fun _ _ h ↦ h
  | written _ hfile => exact Disk.extends_write hfile _

theorem AccountOutcome.installation_files (h : AccountOutcome S c name s (r, s')) (number : UInt32) :
    s'.disk.files (.installation name number) = s.disk.files (.installation name number) := by
  have hne : KeyPath.installation name number ≠ .account name := installation_ne_account number
  cases h with
  | failed => rfl
  | held => rfl
  | unnamed => exact Disk.write_of_ne s.disk (S.seed c.accountKey).toList hne
  | named => exact Disk.write_of_ne s.disk (S.seed c.accountKey).toList hne

/-- The account whose key is on disk is the one that is returned. -/
theorem AccountOutcome.file (hS : S.RoundTrip) (hs : Sound S name s.disk)
    (h : AccountOutcome S c name s (.ok account, s')) :
    s'.disk.files (.account name) = some (S.seed account).toList := by
  cases h with
  | named => exact Disk.write_self ..
  | @held seed hfile =>
      have hback {key : E.SigningKey} (hkey : s.disk.files (.account name) = some (S.seed key).toList) :
          seed = S.seed key := Vector.toList_inj.mp (Option.some.inj (hfile.symm.trans hkey))
      cases hs with
      | fresh file => cases file.symm.trans hfile
      | held hheld => rw [hback hheld.file, hS, hheld.file]
      | spoilt hspoilt => rw [hback hspoilt.file, hS, hspoilt.file]

variable (hE : E.VerifiesOwn) (hS : S.RoundTrip)

section Account

variable (hplain : ∀ b ∈ utf8 name, b &&& opcodeMask ≠ 0)

include hE hplain in
theorem AccountOutcome.always (hs : s.Always (Sound S name)) (h : AccountOutcome S c name s (r, s')) :
    s'.Always (Sound S name) := by
  have hsound : Sound S name s.disk := hs s.disk List.mem_cons_self
  cases h with
  | failed => exact hs
  | held => exact hs
  | unnamed hnew => exact hs.change (.held (hsound.create hnew.2.1 c.accountKey))
  | named hnew hup hprepare =>
      have hcreated := hsound.create hnew.2.1 c.accountKey
      refine (hs.change (.held hcreated)).change ?_
      exact (hcreated.publish_name hE hplain hprepare).elim .held .spoilt

include hE hS hplain in
/-- A new account is named exactly when its display name goes through. -/
theorem AccountOutcome.named_iff (hs : Sound S name s.disk) (h : AccountOutcome S c name s (r, s')) :
    Named S name s'.disk ↔ Named S name s.disk ∧ (c.Creates name s.disk → c.Names name) := by
  cases h with
  | failed hnot => exact ⟨fun h ↦ ⟨h, fun hnew ↦ absurd hnew hnot⟩, fun h ↦ h.1⟩
  | held hfile =>
      refine ⟨fun h ↦ ⟨h, fun hnew ↦ ?_⟩, fun h ↦ h.1⟩
      cases hnew.2.1.symm.trans hfile
  | unnamed hnew hnot =>
      have hcreated := hs.create hnew.2.1 c.accountKey
      refine ⟨fun h ↦ ?_, fun h ↦ ?_⟩
      · cases (hcreated.named_iff hS).mp h
      · have hnames := h.2 hnew
        obtain ⟨signed, hprepare⟩ := prepare_name_iff.mpr hnames.2
        rw [(hs.fresh_of_none hnew.2.1).2] at hnot
        exact absurd hprepare (hnot hnames.1 signed)
  | named hnew hup hprepare =>
      have hnamed := (hs.create hnew.2.1 c.accountKey).publish_name hE hplain hprepare
      refine iff_of_true ?_ ⟨named_of_no_account hnew.2.1, fun _ ↦ ⟨hup, ?_⟩⟩
      · obtain hheld | hspoilt := hnamed
        · exact (hheld.named_iff hS).mpr (List.mem_singleton.mpr rfl)
        · exact hspoilt.named hS
      · rw [(hs.fresh_of_none hnew.2.1).2] at hprepare
        exact prepare_name_iff.mp ⟨_, hprepare⟩

end Account

section Installation

variable (hfile : s.disk.files (.account name) = some (S.seed account).toList)

include hE hS hfile in
/-- The endorsement is on the log before the key is on disk. -/
theorem InstallationOutcome.always (hs : s.Always (Sound S name))
    (h : InstallationOutcome S c name number account s (r, s')) : s'.Always (Sound S name) := by
  have hsound : Sound S name s.disk := hs s.disk List.mem_cons_self
  cases h with
  | failed => exact hs
  | held => exact hs
  | unwritten _ _ _ hprepare =>
      obtain ⟨entries, hlog, -⟩ := oneMore_of_prepare hprepare
      exact hs.change (.held ((hsound.held_of_logged hS hfile hlog).endorse hE hprepare))
  | written _ _ _ hprepare =>
      obtain ⟨entries, hlog, -⟩ := oneMore_of_prepare hprepare
      have hendorsed := (hsound.held_of_logged hS hfile hlog).endorse hE hprepare
      refine (hs.change (.held hendorsed)).change (.held (hendorsed.write_installation ?_ number))
      exact List.mem_append_right _ (List.mem_singleton.mpr rfl)

-- an endorsement is not a display name
theorem displayName_mem_append_iff {entries : List AccountEntry} {key : E.SigningKey} :
    displayName name ∈ entries ++ [chatSigner key] ↔ displayName name ∈ entries := by
  have hne : displayName name ≠ chatSigner key := by
    intro h
    cases h
  rw [List.mem_append, List.mem_singleton, or_iff_left hne]

include hE hS hfile in
theorem InstallationOutcome.named_iff (hs : Sound S name s.disk)
    (h : InstallationOutcome S c name number account s (r, s')) :
    Named S name s'.disk ↔ Named S name s.disk := by
  cases h with
  | failed => exact Iff.rfl
  | held => exact Iff.rfl
  | unwritten _ _ _ hprepare =>
      obtain ⟨entries, hlog, -⟩ := oneMore_of_prepare hprepare
      have hheld := hs.held_of_logged hS hfile hlog
      have hendorsed := hheld.endorse hE hprepare
      rw [hheld.named_iff hS]
      exact (hendorsed.named_iff hS).trans displayName_mem_append_iff
  | written _ _ _ hprepare =>
      obtain ⟨entries, hlog, -⟩ := oneMore_of_prepare hprepare
      have hheld := hs.held_of_logged hS hfile hlog
      have hendorsed := hheld.endorse hE hprepare
      have hwritten := hendorsed.write_installation
        (List.mem_append_right _ (List.mem_singleton.mpr rfl)) number
      rw [hheld.named_iff hS]
      exact (hwritten.named_iff hS).trans displayName_mem_append_iff

include hE hS hfile in
/-- The key that is returned is on disk, and endorsed. -/
theorem InstallationOutcome.returned {key : E.SigningKey} (hs : Sound S name s.disk)
    (h : InstallationOutcome S c name number account s (.ok key, s')) :
    s'.disk.files (.installation name number) = some (S.seed key).toList ∧
      ∃ entries, Held S name s'.disk account entries ∧ chatSigner key ∈ entries := by
  cases h with
  | @held seed hinstallation =>
      cases hs with
      | fresh file => cases file.symm.trans hfile
      | spoilt hspoilt => cases (hspoilt.empty number).symm.trans hinstallation
      | @held account' entries hheld =>
          cases key_of_seed hS (hfile.symm.trans hheld.file)
          obtain ⟨key, hseed, hmem⟩ := hheld.endorsed number _ hinstallation
          cases Vector.toList_inj.mp hseed
          rw [hS]
          exact ⟨hinstallation, entries, hheld, hmem⟩
  | written _ _ _ hprepare =>
      obtain ⟨entries, hlog, -⟩ := oneMore_of_prepare hprepare
      have hendorsed := (hs.held_of_logged hS hfile hlog).endorse hE hprepare
      have hmem : chatSigner c.installationKey ∈ entries ++ [chatSigner c.installationKey] :=
        List.mem_append_right _ (List.mem_singleton.mpr rfl)
      exact ⟨Disk.write_self .., _, hendorsed.write_installation hmem number, hmem⟩

end Installation

end Outcomes

/-- How `install` ends, for an alias that is one. -/
inductive InstallOutcome (S : E.Seeds) (dir : String) (c : InstallCall E) (name : String)
    (number : UInt32) (s : Session E) : Result KeyVaultError (InstallationKey E) × Session E → Prop where
  | noAccount {e : KeyVaultError} {s' : Session E} (ha : account S dir name c s = (.err e, s')) :
      InstallOutcome S dir c name number s (.err e, s')
  | noInstallation {key : E.SigningKey} {e : KeyVaultError} {mid s' : Session E}
      (ha : account S dir name c s = (.ok key, mid))
      (hi : InstallationOutcome S c name number key mid (.err e, s')) :
      InstallOutcome S dir c name number s (.err e, s')
  | done {key key' : E.SigningKey} {mid s' : Session E}
      (ha : account S dir name c s = (.ok key, mid))
      (hi : InstallationOutcome S c name number key mid (.ok key', s')) :
      InstallOutcome S dir c name number s (.ok ⟨accountAddr key, key'⟩, s')

section Install

variable {S : E.Seeds} {dir name : String} {number : UInt32} {c : InstallCall E}

theorem install_of_parse (h : parseAlias c.text = .ok (name, number)) (s : Session E) :
    install S dir c s = (account S dir name c >>= fun account ↦
      installation S dir name number account c >>= fun key ↦ pure ⟨accountAddr account, key⟩) s := by
  unfold install
  rw [h, Call.ofResult_ok_bind]

theorem install_of_ok {account key : E.SigningKey} {s mid s' : Session E}
    (h : parseAlias c.text = .ok (name, number))
    (ha : Components.account S dir name c s = (.ok account, mid))
    (hi : installation S dir name number account c mid = (.ok key, s')) :
    install S dir c s = (.ok ⟨accountAddr account, key⟩, s') := by
  rw [install_of_parse h, Call.bind_of_ok ha, Call.bind_of_ok hi]
  rfl

theorem install_outcome (h : parseAlias c.text = .ok (name, number)) (s : Session E) :
    InstallOutcome S dir c name number s (install S dir c s) := by
  rw [install_of_parse h]
  cases haccount : account S dir name c s with
  | mk r mid =>
      cases r with
      | panic => cases outcome_of_account haccount
      | err e =>
          rw [Call.bind_of_err haccount]
          exact .noAccount haccount
      | ok account =>
          rw [Call.bind_of_ok haccount]
          have hi : InstallationOutcome S c name number account mid
              (installation S dir name number account c mid) := installation_outcome S dir c account mid
          cases hinstallation : installation S dir name number account c mid with
          | mk r s' =>
              rw [hinstallation] at hi
              cases r with
              | panic => cases hi
              | err e =>
                  rw [Call.bind_of_err hinstallation]
                  exact .noInstallation haccount hi
              | ok key =>
                  rw [Call.bind_of_ok hinstallation]
                  exact .done haccount hi

end Install

end LogosChat.Components
