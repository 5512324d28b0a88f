import LogosChat.Accounts.Live
import LogosChat.Accounts.Publish
import LogosChat.Conversations.HttpAuth
import LogosChat.Reasoning.Call
import LogosChat.Reasoning.Paths
import LogosChat.Reasoning.Utf8

/-!
# Key files

One folder for each account, with the account's key and one key for each installation.  `install` makes
whatever is missing: the account's key, its display name on the published log, the endorsement of the
installation's key, and that key.  What was done before it finds out from the files alone.
-/

namespace LogosChat.Components

open Reasoning Crypto Accounts Conversations

/-! ## Aliases -/

/-- The errors of `install`. -/
inductive KeyVaultError where
  | invalidAlias (reason : String)
  | publish (error : AccountError)
  | storage (detail : String)
deriving DecidableEq

/-- `str::split_once`. -/
def splitOnce (sep : Char) : List Char → Option (List Char × List Char)
  | [] => none
  | c :: rest =>
      if c = sep then some ([], rest) else (splitOnce sep rest).map fun (front, back) ↦ (c :: front, back)

/-- `str::parse::<u32>`. -/
def parseU32 (text : List Char) : Option UInt32 :=
  let digits := match text with
    | '+' :: rest => rest
    | _ => text
  if digits = [] ∨ digits.any (!·.isDigit) then none else
  let value := digits.foldl (fun n c ↦ 10 * n + (c.toNat - '0'.toNat)) 0
  if value < UInt32.size then some (UInt32.ofNat value) else none

def isNameChar (c : Char) : Bool := c.isAlphanum || c == '-' || c == '_' || c == '.'

/-- The two parts of an alias; a bare name is installation 1. -/
def splitAlias (text : List Char) : Result KeyVaultError (List Char × UInt32) :=
  match splitOnce ':' text with
  | none => .ok (text, 1)
  | some (account, number) =>
      match parseU32 number with
      | some n => .ok (account, n)
      | none => .err (.invalidAlias ("'" ++ String.ofList number ++ "' is not an installation number"))

/-- Splits `alice:2` into its account and installation number. -/
def parseAlias (text : String) : Result KeyVaultError (String × UInt32) := do
  let (account, number) ← splitAlias text.toList
  if account = [] then .err (.invalidAlias "an alias needs an account name")
  else if !account.all isNameChar then
    .err (.invalidAlias ("'" ++ String.ofList account ++
      "' is not a name: use letters, digits, '-', '_' or '.'"))
  else if number = 0 then .err (.invalidAlias "installations are numbered from 1")
  else .ok (String.ofList account, number)

theorem parseAlias_eq_ok {text name : String} {number : UInt32}
    (h : parseAlias text = .ok (name, number)) :
    name.toList ≠ [] ∧ name.toList.all isNameChar = true ∧ number ≠ 0 := by
  obtain ⟨⟨account, n⟩, -, h⟩ := Result.bind_eq_ok.mp h
  dsimp only at h
  by_cases hempty : account = []
  · rw [if_pos hempty] at h
    cases h
  rw [if_neg hempty] at h
  by_cases hall : account.all isNameChar = true
  · rw [hall, Bool.not_true, if_neg Bool.false_ne_true] at h
    by_cases hzero : n = 0
    · rw [if_pos hzero] at h
      cases h
    · rw [if_neg hzero] at h
      cases h
      rw [String.toList_ofList]
      exact ⟨hempty, hall, hzero⟩
  · rw [if_pos (by simpa using hall)] at h
    cases h

/-! ## Files and logs -/

/-- A key file of the vault. -/
inductive KeyPath where
  | account (name : String)
  | installation (name : String) (number : UInt32)
deriving DecidableEq

def accountFile : String := "account.key"
def installationsDir : String := "installations"
def keyExt : String := "key"
def seedLen : Nat := 32

/-- Everything belonging to one account: its key, and its installations. -/
def accountDir (dir name : String) : String := FsPath.join dir name

def accountPath (dir name : String) : String := FsPath.join (accountDir dir name) accountFile

-- `format!("{number}.{KEY_EXT}")`
def keyFileName (number : UInt32) : String := toString number ++ "." ++ keyExt

/-- Where an installation is kept. -/
def installationPath (dir name : String) (number : UInt32) : String :=
  FsPath.join (FsPath.join (accountDir dir name) installationsDir) (keyFileName number)

def KeyPath.display (dir : String) : KeyPath → String
  | .account name => accountPath dir name
  | .installation name number => installationPath dir name number

variable {E : Ed25519}

/-- What outlives a call: the files, and what the provider publishes for each account. -/
structure Disk (E : Ed25519) where
  files : KeyPath → Option Bytes
  logs : AccountAddr E → Option SignedAccountLog

namespace Disk

def start : Disk E := ⟨fun _ ↦ none, fun _ ↦ none⟩

def write (path : KeyPath) (bytes : Bytes) (d : Disk E) : Disk E :=
  { d with files := Function.update d.files path (some bytes) }

def publish (addr : AccountAddr E) (signed : SignedAccountLog) (d : Disk E) : Disk E :=
  { d with logs := Function.update d.logs addr (some signed) }

section Lemmas

variable (d : Disk E) (path : KeyPath) (bytes : Bytes) (addr : AccountAddr E) (signed : SignedAccountLog)

@[simp] theorem write_logs : (d.write path bytes).logs = d.logs := rfl
@[simp] theorem publish_files : (d.publish addr signed).files = d.files := rfl

@[simp] theorem write_self : (d.write path bytes).files path = some bytes := Function.update_self ..
@[simp] theorem publish_self : (d.publish addr signed).logs addr = some signed := Function.update_self ..

variable {path} in
theorem write_of_ne {other : KeyPath} (h : other ≠ path) :
    (d.write path bytes).files other = d.files other :=
  Function.update_of_ne h _ _

end Lemmas

end Disk

/-- A call in progress: the disk, and the disks it has left behind, newest first. -/
structure Session (E : Ed25519) where
  disk : Disk E
  left : List (Disk E)

def Session.change (f : Disk E → Disk E) (s : Session E) : Session E := ⟨f s.disk, s.disk :: s.left⟩

/-! ## The calls -/

/-- What goes wrong in a publish: an error of the fetch, an error of the write.  A refusal of the provider
comes with a text of its own. -/
structure Network where
  fetch : Option String
  publish : Option String
  refusal : String

def Network.Up (net : Network) : Prop := net.fetch = none ∧ net.publish = none

/-- One call of `install`: its argument, the keys it would generate, and what goes wrong in its steps. -/
structure InstallCall (E : Ed25519) where
  text : String
  accountKey : E.SigningKey
  installationKey : E.SigningKey
  readAccount : Option String
  writeAccount : Option String
  publishName : Network
  readInstallation : Option String
  publishSigner : Network
  writeInstallation : Option String

/-- An installation's key, paired with the account that endorsed it. -/
structure InstallationKey (E : Ed25519) where
  account : AccountAddr E
  signingKey : E.SigningKey

/-- The entry of `set_display_name`. -/
def displayName (name : String) : AccountEntry :=
  .add (.literal "profile.displayname" Context.displayName_isOk) (.text name)

/-- The entry of `endorse_chat_signer`. -/
def chatSigner (key : E.SigningKey) : AccountEntry :=
  .add chatSignerContext (.ed25519Key (E.keyBytes (E.verifyingKey key)))

/-- The seed a file holds, or `none` if there is no file yet. -/
def seedAt (dir : String) (path : KeyPath) :
    Option String → Call (Session E) KeyVaultError (Option KeyBytes)
  | some fault => Call.fail (.storage fault)
  | none => do
      match ← Call.read fun s ↦ s.disk.files path with
      | none => pure none
      | some bytes =>
          match tryIntoArray seedLen bytes with
          | some seed => pure (some seed)
          | none =>
              Call.fail (.storage
                (path.display dir ++ " holds " ++ toString bytes.length ++ " bytes, not a key"))

def writeNew (path : KeyPath) (bytes : Bytes) : Option String → Call (Session E) KeyVaultError Unit
  | some fault => Call.fail (.storage fault)
  | none => Call.modify (Session.change (Disk.write path bytes))

/-- `AccountUpdate::publish`, as one step. -/
def publishUpdate (key : E.SigningKey) (entries : List AccountEntry) (net : Network) :
    Call (Session E) AccountError SignedAccountLog := do
  let stored ← Call.read fun s ↦ s.disk.logs (accountAddr key)
  let signed ← Call.ofResult (prepare key (providerFetch stored net.fetch) entries)
  match net.publish with
  | some fault => Call.fail (.provider fault)
  | none =>
      if Accepts stored signed then
        Call.modify (Session.change (Disk.publish (accountAddr key) signed))
        pure signed
      else Call.fail (.provider net.refusal)

section Calls

variable (S : E.Seeds) (dir : String)

/-- The account `name` stands for, generated and written on first use. -/
def account (name : String) (c : InstallCall E) : Call (Session E) KeyVaultError E.SigningKey := do
  match ← seedAt dir (.account name) c.readAccount with
  | some seed => pure (S.fromSeed seed)
  | none =>
      let key := c.accountKey
      writeNew (.account name) (S.seed key).toList c.writeAccount
      let _ ← (publishUpdate key [displayName name] c.publishName).mapErr .publish
      pure key

/-- The part of `install` that follows `account`. -/
def installation (name : String) (number : UInt32) (account : E.SigningKey) (c : InstallCall E) :
    Call (Session E) KeyVaultError E.SigningKey := do
  match ← seedAt dir (.installation name number) c.readInstallation with
  | some seed => pure (S.fromSeed seed)
  | none =>
      let key := c.installationKey
      -- endorsed before the key reaches the disk
      let _ ← (publishUpdate account [chatSigner key] c.publishSigner).mapErr .publish
      writeNew (.installation name number) (S.seed key).toList c.writeInstallation
      pure key

/-- The installation the alias names, creating whatever part of it is missing. -/
def install (c : InstallCall E) : Call (Session E) KeyVaultError (InstallationKey E) := do
  let (name, number) ← Call.ofResult (parseAlias c.text)
  let account ← account S dir name c
  let signingKey ← installation S dir name number account c
  pure ⟨accountAddr account, signingKey⟩

end Calls

/-! ## What each step does -/

section Steps

variable {dir : String} {path : KeyPath} {bytes : Bytes} {fault : Option String} {key : E.SigningKey}
  {entries : List AccountEntry} {net : Network} (s : Session E)

variable {s} in
theorem seedAt_of_seed {seed : KeyBytes} (h : s.disk.files path = some seed.toList) :
    seedAt dir path none s = (.ok (some seed), s) := by
  have harray : tryIntoArray seedLen seed.toList = some seed := tryIntoArray_toList seed
  rw [seedAt, Call.read_bind, h]
  dsimp only
  rw [harray]
  rfl

variable {s} in
theorem seedAt_of_none (h : s.disk.files path = none) :
    seedAt dir path none s = (.ok none, s) := by
  rw [seedAt, Call.read_bind, h]
  rfl

/-- A read finds a key, or no file, or fails. -/
theorem seedAt_cases (dir : String) (path : KeyPath) (fault : Option String) :
    (∃ seed, seedAt dir path fault s = (.ok (some seed), s) ∧ fault = none ∧
      s.disk.files path = some seed.toList) ∨
    (seedAt dir path fault s = (.ok none, s) ∧ fault = none ∧ s.disk.files path = none) ∨
    ∃ e, seedAt dir path fault s = (.err e, s) ∧ (fault = none → s.disk.files path ≠ none) := by
  cases fault with
  | some fault => exact .inr (.inr ⟨_, rfl, fun h ↦ absurd h (Option.some_ne_none fault)⟩)
  | none =>
      cases hfile : s.disk.files path with
      | none => exact .inr (.inl ⟨seedAt_of_none hfile, rfl, rfl⟩)
      | some bytes =>
          cases hseed : tryIntoArray seedLen bytes with
          | some seed =>
              have hbytes : seed.toList = bytes := tryIntoArray_eq_some_iff.mp hseed
              rw [← hbytes] at hfile ⊢
              exact .inl ⟨seed, seedAt_of_seed hfile, rfl, rfl⟩
          | none =>
              have hfails : ∃ e, seedAt dir path none s = (.err e, s) := by
                rw [seedAt, Call.read_bind, hfile]
                dsimp only
                rw [hseed]
                exact ⟨_, rfl⟩
              exact .inr (.inr (hfails.imp fun e he ↦ ⟨he, fun _ ↦ Option.some_ne_none bytes⟩))

/-- The provider has no reason to refuse a log that extends the one it was asked for. -/
theorem publishUpdate_of_up {signed : SignedAccountLog} (hup : net.Up) (hne : entries ≠ [])
    (hprepare : prepare key (.ok (s.disk.logs (accountAddr key))) entries = .ok signed) :
    publishUpdate key entries net s =
      (.ok signed, s.change (Disk.publish (accountAddr key) signed)) := by
  have haccepts : Accepts (s.disk.logs (accountAddr key)) signed := accepts_of_current hprepare hne rfl
  unfold publishUpdate
  rw [Call.read_bind, hup.1, providerFetch, hprepare, Call.ofResult_ok_bind, hup.2]
  dsimp only
  rw [if_pos haccepts]
  rfl

theorem publishUpdate_cases (key : E.SigningKey) (net : Network) (hne : entries ≠ []) :
    (∃ signed, publishUpdate key entries net s =
        (.ok signed, s.change (Disk.publish (accountAddr key) signed)) ∧ net.Up ∧
      prepare key (.ok (s.disk.logs (accountAddr key))) entries = .ok signed) ∨
    ∃ e, publishUpdate key entries net s = (.err e, s) ∧ (net.Up → ∀ signed,
      prepare key (.ok (s.disk.logs (accountAddr key))) entries ≠ .ok signed) := by
  by_cases hgood : net.Up ∧ ∃ signed,
      prepare key (.ok (s.disk.logs (accountAddr key))) entries = .ok signed
  · obtain ⟨hup, signed, hprepare⟩ := hgood
    exact .inl ⟨signed, publishUpdate_of_up s hup hne hprepare, hup, hprepare⟩
  · refine .inr ?_
    have hbad : net.Up → ∀ signed,
        prepare key (.ok (s.disk.logs (accountAddr key))) entries ≠ .ok signed :=
      fun hup signed h ↦ hgood ⟨hup, signed, h⟩
    unfold publishUpdate
    rw [Call.read_bind]
    cases hresult : prepare key (providerFetch (s.disk.logs (accountAddr key)) net.fetch) entries with
    | panic => exact absurd hresult (prepare_failsIn _ _ _).ne_panic
    | err e => exact ⟨e, rfl, hbad⟩
    | ok signed =>
        rw [Call.ofResult_ok_bind]
        cases hput : net.publish with
        | some fault => exact ⟨_, rfl, hbad⟩
        | none =>
            -- the fetch went through, so this would have been a publish
            cases hfetch : net.fetch with
            | some fault =>
                rw [hfetch] at hresult
                cases hresult
            | none =>
                rw [hfetch] at hresult
                exact absurd hresult (hbad ⟨hfetch, hput⟩ signed)

end Steps

/-! ## What a call does -/

namespace InstallCall

variable (c : InstallCall E) (name : String) (d : Disk E)

/-- The call finds no account key, and its own reaches the disk. -/
def Creates : Prop :=
  c.readAccount = none ∧ d.files (.account name) = none ∧ c.writeAccount = none

/-- The display name of a new account goes through. -/
def Names : Prop :=
  c.publishName.Up ∧ encodedLength [displayName name] ≤ maxPayloadBytes

end InstallCall

section Outcomes

variable (S : E.Seeds) (dir : String) {name : String} {number : UInt32} (c : InstallCall E)

/-- How `account` ends. -/
inductive AccountOutcome (name : String) (s : Session E) :
    Result KeyVaultError E.SigningKey × Session E → Prop where
  | failed {e : KeyVaultError} (hnot : ¬ c.Creates name s.disk) : AccountOutcome name s (.err e, s)
  | held {seed : KeyBytes} (hfile : s.disk.files (.account name) = some seed.toList) :
      AccountOutcome name s (.ok (S.fromSeed seed), s)
  | unnamed {e : KeyVaultError} (hnew : c.Creates name s.disk)
      (hnot : c.publishName.Up → ∀ signed, prepare c.accountKey
        (.ok (s.disk.logs (accountAddr c.accountKey))) [displayName name] ≠ .ok signed) :
      AccountOutcome name s
        (.err e, s.change (Disk.write (.account name) (S.seed c.accountKey).toList))
  | named {signed : SignedAccountLog} (hnew : c.Creates name s.disk) (hup : c.publishName.Up)
      (hprepare : prepare c.accountKey
        (.ok (s.disk.logs (accountAddr c.accountKey))) [displayName name] = .ok signed) :
      AccountOutcome name s (.ok c.accountKey,
        (s.change (Disk.write (.account name) (S.seed c.accountKey).toList)).change
          (Disk.publish (accountAddr c.accountKey) signed))

theorem account_outcome (s : Session E) : AccountOutcome S c name s (account S dir name c s) := by
  unfold account
  obtain ⟨seed, hread, -, hfile⟩ | ⟨hread, hfault, hfile⟩ | ⟨e, hread, hfile⟩ :=
    seedAt_cases s dir (.account name) c.readAccount
  · rw [Call.bind_of_ok hread]
    exact .held hfile
  · rw [Call.bind_of_ok hread]
    dsimp only
    cases hwrite : c.writeAccount with
    | some fault =>
        exact .failed fun hnew ↦ absurd (hwrite.symm.trans hnew.2.2) (Option.some_ne_none fault)
    | none =>
        have hnew : c.Creates name s.disk := ⟨hfault, hfile, hwrite⟩
        rw [Call.bind_of_ok (show writeNew _ _ none s = (.ok (), _) from rfl)]
        obtain ⟨signed, hpublish, hup, hprepare⟩ | ⟨e, hpublish, hnot⟩ := publishUpdate_cases
          (s.change (Disk.write (.account name) (S.seed c.accountKey).toList)) c.accountKey c.publishName
          (List.cons_ne_nil (displayName name) [])
        · rw [Call.bind_of_ok (Call.mapErr_of_ok hpublish)]
          exact .named hnew hup hprepare
        · rw [Call.bind_of_err (Call.mapErr_of_err hpublish)]
          exact .unnamed hnew hnot
  · rw [Call.bind_of_err hread]
    exact .failed fun hnew ↦ hfile hnew.1 hnew.2.1

variable {S dir c} in
theorem outcome_of_account {s : Session E} {out : Result KeyVaultError E.SigningKey × Session E}
    (h : account S dir name c s = out) : AccountOutcome S c name s out := by
  rw [← h]
  exact account_outcome S dir c s

/-- How the rest of `install` ends. -/
inductive InstallationOutcome (name : String) (number : UInt32) (account : E.SigningKey)
    (s : Session E) : Result KeyVaultError E.SigningKey × Session E → Prop where
  | failed {e : KeyVaultError} : InstallationOutcome name number account s (.err e, s)
  | held {seed : KeyBytes} (hfile : s.disk.files (.installation name number) = some seed.toList) :
      InstallationOutcome name number account s (.ok (S.fromSeed seed), s)
  | unwritten {e : KeyVaultError} {signed : SignedAccountLog} (hread : c.readInstallation = none)
      (hfile : s.disk.files (.installation name number) = none) (hup : c.publishSigner.Up)
      (hprepare : prepare account (.ok (s.disk.logs (accountAddr account)))
        [chatSigner c.installationKey] = .ok signed) (hwrite : c.writeInstallation ≠ none) :
      InstallationOutcome name number account s
        (.err e, s.change (Disk.publish (accountAddr account) signed))
  | written {signed : SignedAccountLog} (hread : c.readInstallation = none)
      (hfile : s.disk.files (.installation name number) = none) (hup : c.publishSigner.Up)
      (hprepare : prepare account (.ok (s.disk.logs (accountAddr account)))
        [chatSigner c.installationKey] = .ok signed) (hwrite : c.writeInstallation = none) :
      InstallationOutcome name number account s (.ok c.installationKey,
        (s.change (Disk.publish (accountAddr account) signed)).change
          (Disk.write (.installation name number) (S.seed c.installationKey).toList))

theorem installation_outcome (account : E.SigningKey) (s : Session E) :
    InstallationOutcome S c name number account s (installation S dir name number account c s) := by
  unfold installation
  obtain ⟨seed, hread, -, hfile⟩ | ⟨hread, hfault, hfile⟩ | ⟨e, hread, -⟩ :=
    seedAt_cases s dir (.installation name number) c.readInstallation
  · rw [Call.bind_of_ok hread]
    exact .held hfile
  · rw [Call.bind_of_ok hread]
    dsimp only
    obtain ⟨signed, hpublish, hup, hprepare⟩ | ⟨e, hpublish, -⟩ := publishUpdate_cases s account
      c.publishSigner (List.cons_ne_nil (chatSigner c.installationKey) [])
    · rw [Call.bind_of_ok (Call.mapErr_of_ok hpublish)]
      cases hwrite : c.writeInstallation with
      | some fault => exact .unwritten hfault hfile hup hprepare (hwrite ▸ Option.some_ne_none fault)
      | none => exact .written hfault hfile hup hprepare hwrite
    · rw [Call.bind_of_err (Call.mapErr_of_err hpublish)]
      exact .failed
  · rw [Call.bind_of_err hread]
    exact .failed

end Outcomes

/-! The ways through without a fault. -/

section Through

variable {S : E.Seeds} {dir name : String} {number : UInt32} {c : InstallCall E} {s : Session E}

theorem account_of_seed {seed : KeyBytes} (hread : c.readAccount = none)
    (hfile : s.disk.files (.account name) = some seed.toList) :
    account S dir name c s = (.ok (S.fromSeed seed), s) := by
  unfold account
  rw [hread, Call.bind_of_ok (seedAt_of_seed hfile)]
  rfl

theorem installation_of_up {account : E.SigningKey} {signed : SignedAccountLog}
    (hread : c.readInstallation = none)
    (hfile : s.disk.files (.installation name number) = none) (hup : c.publishSigner.Up)
    (hprepare : prepare account (.ok (s.disk.logs (accountAddr account)))
      [chatSigner c.installationKey] = .ok signed) (hwrite : c.writeInstallation = none) :
    installation S dir name number account c s = (.ok c.installationKey,
      (s.change (Disk.publish (accountAddr account) signed)).change
        (Disk.write (.installation name number) (S.seed c.installationKey).toList)) := by
  have hpublish := publishUpdate_of_up s hup (List.cons_ne_nil (chatSigner c.installationKey) []) hprepare
  unfold installation
  rw [hread, Call.bind_of_ok (seedAt_of_none hfile)]
  dsimp only
  rw [Call.bind_of_ok (Call.mapErr_of_ok hpublish), hwrite]
  rfl

end Through

end LogosChat.Components
