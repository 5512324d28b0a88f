import LogosChat.Accounts.Resolver
import LogosChat.Conversations.Services
import LogosChat.Reasoning.Run
import LogosChat.Reasoning.Sql
import LogosChat.Storage.Substrate

/-!
# The installation a store belongs to

A store holds one record, which says as what installation the client runs.  An open reuses it, and mints
and saves one only where there is none; a record that cannot be read is an error and not an absent one.
-/

namespace LogosChat.Storage

open Reasoning Crypto Accounts Conversations

/-! ## The two stores -/

/-- An implementation of the trait.  A fault is what can go wrong in a call besides what the store holds. -/
structure IdentityStore where
  Store : Type
  Fault : Type
  loadInstallation : Option Fault → Store → Except StorageError (Option Bytes)
  saveInstallation : Option Fault → Bytes → Store → Except StorageError Unit × Store

def alreadyStored : StorageError := .invalidData "an installation is already stored"

/-- The store in memory, of which only the field `installation` is reached. -/
def memIdentityStore : IdentityStore where
  Store := Option Bytes
  Fault := Empty
  loadInstallation _ installation := .ok installation
  saveInstallation _ record installation :=
    match installation with
    | some held => (.error alreadyStored, some held)
    | none => (.ok (), some record)

/-- A row of `installation`. -/
structure InstallationRow where
  id : Int
  record : Bytes
  -- `CHECK (id = 1)`
  check : id = 1

/-- `id = 1`. -/
def InstallationRow.isFirst (row : InstallationRow) : Truth := (SqlValue.integer row.id).eq (.integer 1)

abbrev InstallationTable := Table InstallationRow Int InstallationRow.id

/-- `INSERT INTO installation (id, record) VALUES (1, ?1)`.  A violated constraint has a meaning here. -/
def insertInstallation (table : InstallationTable) (record : Bytes) :
    Except StorageError Unit × InstallationTable :=
  match table.insert ⟨1, record, rfl⟩ with
  | some table => (.ok (), table)
  | none => (.error alreadyStored, table)

/-- The store over SQLite.  A fault is any other error of a statement, which then has no effect. -/
def sqliteIdentityStore : IdentityStore where
  Store := InstallationTable
  Fault := String
  loadInstallation fault table :=
    match fault with
    | some detail => .error (.database detail)
    | none => .ok ((table.select InstallationRow.isFirst).head?.map InstallationRow.record)
  saveInstallation fault record table :=
    match fault with
    | some detail => (.error (.database detail), table)
    | none => insertInstallation table record

inductive IdentityBackend where
  | mem
  | sqlite

def IdentityBackend.store : IdentityBackend → IdentityStore
  | .mem => memIdentityStore
  | .sqlite => sqliteIdentityStore

/-! ## What the stores have in common -/

/-- The record in a store, as a load that meets no fault returns it. -/
def IdentityStore.held (K : IdentityStore) (store : K.Store) : Option Bytes :=
  match K.loadInstallation none store with
  | .ok record => record
  | .error _ => none

/-- A store that takes a record once.  A call that fails changes nothing. -/
structure IdentityStore.InsertsOnce (K : IdentityStore) : Prop where
  load : ∀ fault store, K.loadInstallation fault store = .ok (K.held store) ∨
    fault ≠ none ∧ ∃ e, K.loadInstallation fault store = .error e
  save : ∀ fault record store,
    (∃ store', K.saveInstallation fault record store = (.ok (), store') ∧
      K.held store = none ∧ K.held store' = some record) ∨
    ∃ e, K.saveInstallation fault record store = (.error e, store)

theorem memIdentityStore_insertsOnce : memIdentityStore.InsertsOnce where
  load _ _ := .inl rfl
  save _ record
    | none => .inl ⟨some record, rfl, rfl, rfl⟩
    | some _ => .inr ⟨alreadyStored, rfl⟩

theorem held_sqlite (table : InstallationTable) :
    sqliteIdentityStore.held table = table.rows.head?.map InstallationRow.record := by
  -- the check leaves no other row
  have hall : table.select InstallationRow.isFirst = table.rows := by
    apply List.filter_eq_self.mpr
    intro row _
    simp [InstallationRow.isFirst, row.check]
  show (table.select InstallationRow.isFirst).head?.map _ = _
  rw [hall]

theorem insertInstallation_cases (table : InstallationTable) (record : Bytes) :
    (∃ table', insertInstallation table record = (.ok (), table') ∧
      sqliteIdentityStore.held table = none ∧ sqliteIdentityStore.held table' = some record) ∨
    insertInstallation table record = (.error alreadyStored, table) := by
  unfold insertInstallation
  cases hinsert : table.insert ⟨1, record, rfl⟩ with
  | none => exact .inr rfl
  | some table' =>
      obtain ⟨hfresh, hrows⟩ := Table.insert_eq_some hinsert
      have hempty : table.rows = [] := by
        apply List.eq_nil_iff_forall_not_mem.mpr
        intro row hrow
        exact hfresh row hrow row.check
      refine .inl ⟨table', rfl, ?_, ?_⟩
      · rw [held_sqlite, hempty]
        rfl
      · rw [held_sqlite, hrows, hempty]
        rfl

theorem sqliteIdentityStore_insertsOnce : sqliteIdentityStore.InsertsOnce where
  load
    | none, _ => .inl rfl
    | some detail, _ => .inr ⟨Option.some_ne_none detail, .database detail, rfl⟩
  save
    | some detail, _, _ => .inr ⟨.database detail, rfl⟩
    | none, record, table => (insertInstallation_cases table record).imp_right fun h ↦ ⟨alreadyStored, h⟩

theorem IdentityBackend.insertsOnce (backend : IdentityBackend) : backend.store.InsertsOnce := by
  cases backend with
  | mem => exact memIdentityStore_insertsOnce
  | sqlite => exact sqliteIdentityStore_insertsOnce

/-! ## Installations -/

inductive ClientError where
  | chat (error : ChatError)
  | account (error : AccountError)
  | storage (error : StorageError)
  | transport (text : String)
  | invalidAccountAddress (text : String)
  | notEndorsed (text : String)
  | malformedInstallationRecord (what : String)

/-- Where an installation came from. -/
inductive Origin where
  | minted
  | stored
deriving DecidableEq

variable {E : Ed25519}

/-- `SignerKey::from` a verifying key. -/
def signerOf (key : E.VerifyingKey) : SignerKey := ⟨(E.keyBytes key).toList⟩

variable (E) in
/-- An installation paired with its account.  No constructor gives it another signer than the public half
of its key. -/
structure Installation where
  signingKey : E.SigningKey
  signer : SignerKey
  account : AccountAddr E
  origin : Origin
  signer_eq : signer = signerOf (E.verifyingKey signingKey)

namespace Installation

def recordV1 : UInt8 := 1

variable (S : E.Seeds)

/-- `version ‖ seed ‖ account`. -/
def encode (installation : Installation E) : Bytes :=
  recordV1 :: (S.seed installation.signingKey).toList ++ installation.account.toBytes

/-- `Display` of an `AccountAddrError`. -/
def addrErrorText : AccountAddrError → String
  | .invalidAddress => "not a valid account address"

def decode (bytes : Bytes) : Result ClientError (Installation E) :=
  match bytes with
  | [] => notARecord
  | version :: rest =>
      if version ≠ recordV1 then notARecord
      else if rest.length ≠ 32 + 32 then malformed "wrong length for a version 1 record"
      else
        match tryIntoArray 32 (rest.take 32) with
        -- "split at SEED_LEN"
        | none => .panic
        | some seed => do
            let signingKey := S.fromSeed seed
            let account ← (AccountAddr.tryFrom E (rest.drop 32)).mapErr fun e ↦
              .malformedInstallationRecord ("account: " ++ addrErrorText e)
            .ok ⟨signingKey, signerOf (E.verifyingKey signingKey), account, .stored, rfl⟩
where
  malformed (what : String) : Result ClientError (Installation E) := .err (.malformedInstallationRecord what)
  notARecord : Result ClientError (Installation E) :=
    malformed "not a record this build writes; the store was written by another version"

variable (K : IdentityStore)

def load (fault : Option K.Fault) (store : K.Store) : Result ClientError (Option (Installation E)) :=
  match K.loadInstallation fault store with
  | .error e => .err (.storage e)
  | .ok none => .ok none
  | .ok (some record) => do
      let installation ← decode S record
      .ok (some installation)

def save (installation : Installation E) (fault : Option K.Fault) (store : K.Store) :
    Result ClientError Unit × K.Store :=
  match K.saveInstallation fault (installation.encode S) store with
  | (.error e, store) => (.err (.storage e), store)
  | (.ok (), store) => (.ok (), store)

end Installation

/-- One call of `load_or_create`: what goes wrong in it, and what `mint` returns if it is run. -/
structure OpenCall (K : IdentityStore) (E : Ed25519) where
  loadFault : Option K.Fault
  mint : Result ClientError (Installation E)
  saveFault : Option K.Fault

/-- What the call returned, whether it ran `mint`, and what it left. -/
structure Opened (K : IdentityStore) (E : Ed25519) where
  result : Result ClientError (Installation E)
  minted : Bool
  store : K.Store

variable (S : E.Seeds) (K : IdentityStore)

def loadOrCreate (store : K.Store) (call : OpenCall K E) : Opened K E :=
  match Installation.load S K call.loadFault store with
  | .err e => ⟨.err e, false, store⟩
  | .panic => ⟨.panic, false, store⟩
  | .ok (some installation) => ⟨.ok installation, false, store⟩
  | .ok none =>
      match call.mint with
      | .err e => ⟨.err e, true, store⟩
      | .panic => ⟨.panic, true, store⟩
      | .ok installation =>
          match installation.save S K call.saveFault store with
          | (.err e, store) => ⟨.err e, true, store⟩
          | (.panic, store) => ⟨.panic, true, store⟩
          | (.ok (), store) => ⟨.ok installation, true, store⟩

/-! ## The record -/

namespace Installation

variable {S}

/-- The same signing seed, signer and account. -/
def Same (S : E.Seeds) (i j : Installation E) : Prop :=
  S.seed i.signingKey = S.seed j.signingKey ∧ i.signer = j.signer ∧ i.account = j.account

theorem Same.symm {i j : Installation E} (h : Same S i j) : Same S j i :=
  ⟨h.1.symm, h.2.1.symm, h.2.2.symm⟩

theorem Same.trans {i j k : Installation E} (h : Same S i j) (h' : Same S j k) : Same S i k :=
  ⟨h.1.trans h'.1, h.2.1.trans h'.2.1, h.2.2.trans h'.2.2⟩

theorem decode_v1 (S : E.Seeds) (seed : KeyBytes) {account : Bytes} (h : account.length = 32) :
    decode S (recordV1 :: seed.toList ++ account) = (do
      let account ← (AccountAddr.tryFrom E account).mapErr fun e ↦
        .malformedInstallationRecord ("account: " ++ addrErrorText e)
      .ok ⟨S.fromSeed seed, signerOf (E.verifyingKey (S.fromSeed seed)), account, .stored, rfl⟩) := by
  have hseed : seed.toList.length = 32 := Vector.length_toList
  have hlength : ¬ (seed.toList ++ account).length ≠ 32 + 32 := by
    rw [List.length_append, hseed, h]
    decide
  have htake : (seed.toList ++ account).take 32 = seed.toList := List.take_left' hseed
  have hdrop : (seed.toList ++ account).drop 32 = account := List.drop_left' hseed
  rw [List.cons_append, decode, if_neg (not_not.mpr rfl), if_neg hlength, htake, hdrop, tryIntoArray_toList]

/-- What is saved is read back. -/
theorem decode_encode (hseeds : S.RoundTrip) (hkeys : E.ReadsBack) (i : Installation E) :
    ∃ j, decode S (i.encode S) = .ok j ∧ Same S i j := by
  have hlength : i.account.toBytes.length = 32 := Vector.length_toList
  rw [encode, decode_v1 S (S.seed i.signingKey) hlength, AccountAddr.tryFrom_toBytes hkeys]
  refine ⟨_, rfl, ?_, ?_, rfl⟩
  · rw [hseeds]
  · rw [i.signer_eq, hseeds]

/-- A record is read or refused. -/
theorem decode_failsIn (S : E.Seeds) (bytes : Bytes) : (decode S bytes).FailsIn fun _ ↦ True := by
  unfold decode
  split
  case h_1 => trivial
  case h_2 version rest =>
    by_cases hversion : version = recordV1
    · rw [if_neg (not_not.mpr hversion)]
      by_cases hlength : rest.length = 32 + 32
      · have hseed : (rest.take 32).length = 32 := by
          rw [List.length_take, hlength]
          decide
        rw [if_neg (not_not.mpr hlength), tryIntoArray, dif_pos hseed]
        apply Result.FailsIn.bind
        · exact (AccountAddr.tryFrom_failsIn _).mapErr fun _ _ ↦ trivial
        · exact fun _ _ ↦ trivial
      · rw [if_pos hlength]
        trivial
    · rw [if_pos hversion]
      trivial

end Installation

/-! ## One call -/

section OneCall

variable {S K} {store : K.Store} {call : OpenCall K E}

theorem loadOrCreate_of_held (hK : K.InsertsOnce) {record : Bytes} (h : K.held store = some record)
    (call : OpenCall K E) :
    ∃ result, loadOrCreate S K store call = ⟨result, false, store⟩ ∧
      (result = Installation.decode S record ∨ call.loadFault ≠ none ∧ ∃ e, result = .err e) := by
  obtain hload | ⟨hfault, e, hload⟩ := hK.load call.loadFault store
  · rw [h] at hload
    rw [loadOrCreate, Installation.load, hload]
    dsimp only
    refine ⟨Installation.decode S record, ?_, .inl rfl⟩
    cases Installation.decode S record <;> rfl
  · rw [loadOrCreate, Installation.load, hload]
    exact ⟨_, rfl, .inr ⟨hfault, _, rfl⟩⟩

theorem loadOrCreate_of_none (hK : K.InsertsOnce) (h : K.held store = none) (call : OpenCall K E) :
    (∃ e, loadOrCreate S K store call = ⟨.err e, false, store⟩) ∨
    (∃ result, loadOrCreate S K store call = ⟨result, true, store⟩ ∧ ∀ i, result ≠ .ok i) ∨
    ∃ i store', loadOrCreate S K store call = ⟨.ok i, true, store'⟩ ∧
      K.held store' = some (i.encode S) := by
  obtain hload | ⟨-, e, hload⟩ := hK.load call.loadFault store
  · right
    rw [h] at hload
    rw [loadOrCreate, Installation.load, hload]
    dsimp only
    cases hmint : call.mint with
    | err e => exact .inl ⟨_, rfl, nofun⟩
    | panic => exact .inl ⟨_, rfl, nofun⟩
    | ok i =>
        dsimp only
        obtain ⟨store', hsave, -, hheld⟩ | ⟨e, hsave⟩ := hK.save call.saveFault (i.encode S) store
        · rw [Installation.save, hsave]
          exact .inr ⟨i, store', rfl, hheld⟩
        · rw [Installation.save, hsave]
          exact .inl ⟨_, rfl, nofun⟩
  · rw [loadOrCreate, Installation.load, hload]
    exact .inl ⟨_, rfl⟩

end OneCall

/-! ## Sequences of calls -/

/-- A store, with the installations that the calls on it returned. -/
structure Opening (K : IdentityStore) (E : Ed25519) where
  store : K.Store
  returned : List (Installation E) := []

namespace Opening

def step (s : Opening K E) (call : OpenCall K E) : Opening K E :=
  { store := (loadOrCreate S K s.store call).store
    returned :=
      match (loadOrCreate S K s.store call).result with
      | .ok installation => s.returned ++ [installation]
      | _ => s.returned }

variable {S K} {s : Opening K E}

/-- All that was returned is what the record says. -/
def Inv (S : E.Seeds) (s : Opening K E) : Prop :=
  s.returned ≠ [] → ∃ record i, K.held s.store = some record ∧ Installation.decode S record = .ok i ∧
    ∀ j ∈ s.returned, Installation.Same S i j

theorem step_of_held (hK : K.InsertsOnce) {record : Bytes} (h : K.held s.store = some record)
    (call : OpenCall K E) :
    (s.step S K call).store = s.store ∧
      ((s.step S K call).returned = s.returned ∨
        ∃ i, Installation.decode S record = .ok i ∧ (s.step S K call).returned = s.returned ++ [i]) := by
  obtain ⟨result, hopened, hresult⟩ := loadOrCreate_of_held hK h call
  unfold step
  rw [hopened]
  refine ⟨rfl, ?_⟩
  cases result with
  | err e => exact .inl rfl
  | panic => exact .inl rfl
  | ok i =>
      obtain hdecode | ⟨-, e, herr⟩ := hresult
      · exact .inr ⟨i, hdecode.symm, rfl⟩
      · cases herr

theorem Inv.step (hK : K.InsertsOnce) (hseeds : S.RoundTrip) (hkeys : E.ReadsBack) (h : s.Inv S)
    (call : OpenCall K E) : (s.step S K call).Inv S := by
  cases hheld : K.held s.store with
  | some record =>
      obtain ⟨hstore, hsame | ⟨i, hdecode, hreturned⟩⟩ := step_of_held hK hheld call
      · unfold Inv
        rw [hstore, hsame]
        exact h
      · intro _
        refine ⟨record, i, hstore ▸ hheld, hdecode, fun j hj ↦ ?_⟩
        rw [hreturned] at hj
        obtain hold | hnew := List.mem_append.mp hj
        · obtain ⟨record', i', hheld', hdecode', hall⟩ := h (List.ne_nil_of_mem hold)
          rw [hheld] at hheld'
          cases hheld'
          rw [hdecode] at hdecode'
          cases hdecode'
          exact hall j hold
        · rw [List.mem_singleton.mp hnew]
          exact ⟨rfl, rfl, rfl⟩
  | none =>
      have hnothing : s.returned = [] := by
        by_contra hne
        obtain ⟨record, -, hrecord, -⟩ := h hne
        rw [hheld] at hrecord
        cases hrecord
      obtain ⟨e, hopened⟩ | ⟨result, hopened, hfailed⟩ | ⟨i, store', hopened, hstored⟩ :=
        loadOrCreate_of_none hK hheld call
      · unfold Inv Opening.step
        rw [hopened]
        exact fun hne ↦ absurd hnothing hne
      · unfold Inv Opening.step
        rw [hopened]
        cases result with
        | ok i => exact absurd rfl (hfailed i)
        | err e => exact fun hne ↦ absurd hnothing hne
        | panic => exact fun hne ↦ absurd hnothing hne
      · unfold Inv Opening.step
        rw [hopened, hnothing]
        intro _
        obtain ⟨j, hdecode, hsame⟩ := Installation.decode_encode hseeds hkeys i
        refine ⟨i.encode S, j, hstored, hdecode, fun k hk ↦ ?_⟩
        rw [List.mem_singleton.mp hk]
        exact hsame.symm

theorem held_run (hK : K.InsertsOnce) {record : Bytes} (h : K.held s.store = some record)
    (calls : List (OpenCall K E)) : K.held (run (step S K) s calls).store = some record := by
  have hstep (s : Opening K E) (call : OpenCall K E) (hs : K.held s.store = some record) :
      K.held (s.step S K call).store = some record := by
    rw [(step_of_held hK hs call).1]
    exact hs
  exact run_invariant hstep h calls

end Opening

/-- What a sequence of calls leaves. -/
def openings (S : E.Seeds) (K : IdentityStore) (store : K.Store) (calls : List (OpenCall K E)) : Opening K E :=
  run (Opening.step S K) { store := store } calls

/-- What one call keeps to. -/
structure KeepsRecord (S : E.Seeds) (K : IdentityStore) (store : K.Store) (call : OpenCall K E) : Prop where
  mints : (loadOrCreate S K store call).minted → K.held store = none
  failed : (loadOrCreate S K store call).minted → (∀ i, (loadOrCreate S K store call).result ≠ .ok i) →
    K.held (loadOrCreate S K store call).store = none
  unreadable : ∀ record, K.held store = some record → (∀ i, Installation.decode S record ≠ .ok i) →
    (∃ e, (loadOrCreate S K store call).result = .err e) ∧ (loadOrCreate S K store call).minted = false
  kept : ∀ record, K.held store = some record → K.held (loadOrCreate S K store call).store = some record

theorem keepsRecord {K : IdentityStore} (hK : K.InsertsOnce) (store : K.Store) (call : OpenCall K E) :
    KeepsRecord S K store call := by
  cases hheld : K.held store with
  | some record =>
      obtain ⟨result, hopened, hresult⟩ := loadOrCreate_of_held hK hheld call
      constructor
      case mints =>
        rw [hopened]
        exact nofun
      case failed =>
        rw [hopened]
        exact nofun
      case unreadable =>
        intro record' hrecord hfails
        rw [hheld] at hrecord
        cases hrecord
        rw [hopened]
        refine ⟨?_, rfl⟩
        obtain rfl | ⟨-, herr⟩ := hresult
        · have hpanic := (Installation.decode_failsIn S record).ne_panic
          cases hdecode : Installation.decode S record with
          | ok i => exact absurd hdecode (hfails i)
          | err e => exact ⟨e, rfl⟩
          | panic => exact absurd hdecode hpanic
        · exact herr
      case kept =>
        rw [hopened]
        exact fun _ hrecord ↦ hrecord
  | none =>
      constructor
      case mints => exact fun _ ↦ hheld
      case unreadable =>
        intro record hrecord
        rw [hheld] at hrecord
        cases hrecord
      case kept =>
        intro record hrecord
        rw [hheld] at hrecord
        cases hrecord
      case failed =>
        obtain ⟨e, hopened⟩ | ⟨result, hopened, -⟩ | ⟨i, store', hopened, -⟩ :=
          loadOrCreate_of_none hK hheld call
        · rw [hopened]
          exact nofun
        · rw [hopened]
          exact fun _ _ ↦ hheld
        · rw [hopened]
          exact fun _ hfailed ↦ absurd rfl (hfailed i)

/-- Whatever the store holds at first and whatever fails, each call keeps to the record, the calls that
succeed all return the same installation, and once one has succeeded a later one fails only where its load
does. -/
theorem installation_kept (S : E.Seeds) (hseeds : S.RoundTrip) (hkeys : E.ReadsBack) (backend : IdentityBackend)
    (store : backend.store.Store) (calls : List (OpenCall backend.store E)) :
    (∀ before call after, calls = before ++ call :: after →
      KeepsRecord S backend.store (openings S backend.store store before).store call ∧
      ((openings S backend.store store before).returned ≠ [] → call.loadFault = none →
        ∃ i, (loadOrCreate S backend.store (openings S backend.store store before).store call).result = .ok i)) ∧
    (∀ record, backend.store.held store = some record →
      backend.store.held (openings S backend.store store calls).store = some record) ∧
    ∀ i ∈ (openings S backend.store store calls).returned,
      ∀ j ∈ (openings S backend.store store calls).returned, Installation.Same S i j := by
  have hK := backend.insertsOnce
  have hstep (s : Opening backend.store E) (call : OpenCall backend.store E) (hs : s.Inv S) :
      (s.step S backend.store call).Inv S := hs.step hK hseeds hkeys call
  have hstart : Opening.Inv S (E := E) { store := store } := fun hne ↦ absurd rfl hne
  have hinv (calls : List (OpenCall backend.store E)) : (openings S backend.store store calls).Inv S :=
    run_invariant hstep hstart calls
  refine ⟨fun before call after _ ↦ ⟨keepsRecord S hK _ call, fun hne hfault ↦ ?_⟩, fun record h ↦ ?_,
    fun i hi j hj ↦ ?_⟩
  · obtain ⟨record, i, hheld, hdecode, -⟩ := hinv before hne
    obtain ⟨result, hopened, hresult | ⟨hfault', -⟩⟩ := loadOrCreate_of_held hK hheld call
    · rw [hopened]
      exact ⟨i, hresult.trans hdecode⟩
    · exact absurd hfault hfault'
  · exact Opening.held_run hK h calls
  · obtain ⟨record, k, -, -, hall⟩ := hinv calls (List.ne_nil_of_mem hi)
    exact (hall i hi).symm.trans (hall j hj)

/-! ## A sequence to run -/

namespace Sample

/-- The sample backend, with every key usable. -/
def curve : Ed25519 := { Ed25519.sample with parseKey := fun key ↦ .ok key }

def seeds : curve.Seeds := ⟨fun seed ↦ seed, fun key ↦ key⟩

def installation (seed : UInt8) : Installation curve where
  signingKey := (Vector.replicate 32 seed : KeyBytes)
  signer := ⟨List.replicate 32 seed⟩
  account := ⟨(Vector.replicate 32 9 : KeyBytes)⟩
  origin := .minted
  signer_eq := by
    show SignerKey.mk _ = ⟨(Vector.replicate 32 seed : KeyBytes).toList⟩
    rw [Vector.toList_replicate]

/-- The first call cannot publish, the second cannot save, the third does both, and the fourth finds a
record whatever it would mint. -/
def calls : List (OpenCall sqliteIdentityStore curve) :=
  [⟨none, .err (.transport "unreachable"), none⟩, ⟨none, .ok (installation 6), some "disk I/O error"⟩,
    ⟨none, .ok (installation 7), none⟩, ⟨none, .ok (installation 8), none⟩]

end Sample

theorem sample_installation_kept :
    (Sample.seeds.RoundTrip ∧ Sample.curve.ReadsBack) ∧
      (openings Sample.seeds sqliteIdentityStore .empty Sample.calls).returned.length = 2 ∧
      ∀ i ∈ (openings Sample.seeds sqliteIdentityStore .empty Sample.calls).returned,
        ∀ j ∈ (openings Sample.seeds sqliteIdentityStore .empty Sample.calls).returned,
          Installation.Same Sample.seeds i j := by
  have hseeds : Sample.seeds.RoundTrip := fun _ ↦ rfl
  have hkeys : Sample.curve.ReadsBack := fun _ ↦ rfl
  refine ⟨⟨hseeds, hkeys⟩, by decide +kernel, ?_⟩
  exact (installation_kept Sample.seeds hseeds hkeys .sqlite .empty Sample.calls).2.2

end LogosChat.Storage
