import LogosChat.Accounts.Network
import LogosChat.Conversations.HttpAuth
import LogosChat.Storage.Installation

/-!
# Opening a client

An open on the Logos stack runs as the installation its store holds; a store that holds none gets one
minted, endorsed on the log of a fresh account and only then saved.  Any number of opens, on any number of
stores, run against one directory of account logs; requests and answers get lost, saves fail, and an open
may stop at any point and never go on.
-/

namespace LogosChat.Client

open Reasoning Crypto Accounts Conversations Storage

variable {E : Ed25519}

/-! ## Minting -/

/-- `PendingInstallation::complete`. -/
def complete (pending : E.SigningKey) (account : AccountAddr E) : Installation E :=
  ⟨pending, Storage.signerOf (E.verifyingKey pending), account, .minted, rfl⟩

/-- What `endorse_chat_signer` pushes. -/
def endorseChatSigner (key : E.VerifyingKey) : AccountEntry :=
  .add chatSignerContext (.ed25519Key (E.keyBytes key))

/-- The key that `register_account` endorses, read from the bytes of the request. -/
def requestedKey (pending : E.SigningKey) : Result AccountError E.VerifyingKey :=
  (E.fromCanonicalSlice (E.keyBytes (E.verifyingKey pending)).toList).mapErr fun e ↦
    .log (.ofEd25519 e)

/-! ## The directory -/

/-- Whether a directory takes a log for an account, given what it holds for it. -/
abbrev Admission := Option SignedAccountLog → SignedAccountLog → Bool

/-- What it takes begins with what it holds. -/
def Admission.KeepsFront (takes : Admission) : Prop :=
  ∀ stored candidate, takes stored candidate = true → Grows stored (some candidate)

/-- What becomes of a publish: the directory answers it, or the request gets lost, or the answer. -/
inductive Reply where
  | answered (refusal : String)
  | requestLost (error : String)
  | answerLost (error : String)

/-- The slot after a publish, and what the publish returns. -/
def Admission.publish (takes : Admission) (stored : Option SignedAccountLog) (candidate : SignedAccountLog) :
    Reply → Option SignedAccountLog × Result AccountError SignedAccountLog
  | .answered refusal =>
      if takes stored candidate then (some candidate, .ok candidate)
      else (stored, .err (.provider refusal))
  | .requestLost error => (stored, .err (.provider error))
  | .answerLost error =>
      (if takes stored candidate then some candidate else stored, .err (.provider error))

/-- `AccountUpdate::publish` from its fetched answer on. -/
def publishOver (takes : Admission) (key : E.SigningKey) (stored : Option SignedAccountLog)
    (answer : Fetched) (entries : List AccountEntry) (reply : Reply) :
    Option SignedAccountLog × Result AccountError SignedAccountLog :=
  match prepare key answer entries with
  | .ok signed => takes.publish stored signed reply
  | .err e => (stored, .err e)
  | .panic => (stored, .panic)

/-! ## The opens -/

/-- A call of `register_account`: the keys it generated, and the store that is to get the installation;
an ephemeral open has none. -/
structure Minting (E : Ed25519) (κ : Type) where
  store : Option κ
  pending : E.SigningKey
  account : E.SigningKey
  key : E.VerifyingKey

/-- How far an `open_installation` is. -/
inductive Phase (E : Ed25519) (κ : Type) where
  | idle
  | minting (m : Minting E κ)
  | fetched (m : Minting E κ) (answer : Fetched)
  -- the endorsement is published, and the record is not saved
  | endorsed (store : κ) (installation : Installation E)
  | done (store : Option κ) (result : Result Storage.ClientError (Installation E))

/-- The account that an open acts for. -/
def Phase.ActsFor {κ : Type} (addr : AccountAddr E) : Phase E κ → Prop
  | .minting m => accountAddr m.account = addr
  | .fetched m _ => accountAddr m.account = addr
  | .endorsed _ installation => installation.account = addr
  | .done _ (.ok installation) => installation.account = addr
  | _ => False

structure Deployment (K : IdentityStore) (E : Ed25519) (κ ι : Type) where
  stores : κ → K.Store
  -- what the directory holds for an account
  logs : AccountAddr E → Option SignedAccountLog
  opens : ι → Phase E κ

namespace Deployment

variable {K : IdentityStore} {κ ι : Type}

inductive Step (K : IdentityStore) (E : Ed25519) (κ ι : Type) where
  -- the load of an open on this store, with the keys it will generate
  | load (call : ι) (store : κ) (fault : Option K.Fault) (pending account : E.SigningKey)
  | ephemeral (call : ι) (pending account : E.SigningKey)
  | fetch (call : ι) (failure : Option String)
  | publish (call : ι) (reply : Reply)
  | save (call : ι) (fault : Option K.Fault)
  -- whatever is published for another account
  | elsewhere (addr : AccountAddr E) (log : Option SignedAccountLog)

/-- The start of `register_account`. -/
def register (store : Option κ) (pending account : E.SigningKey) : Phase E κ :=
  match requestedKey pending with
  | .ok key => .minting ⟨store, pending, account, key⟩
  | .err e => .done store (.err (.account e))
  | .panic => .done store .panic

/-- Its end. -/
def registered (m : Minting E κ) : Result AccountError SignedAccountLog → Phase E κ
  | .ok _ =>
      match m.store with
      | none => .done none (.ok (complete m.pending (accountAddr m.account)))
      | some store => .endorsed store (complete m.pending (accountAddr m.account))
  | .err e => .done m.store (.err (.account e))
  | .panic => .done m.store .panic

/-- What a load makes of an open: `load_or_create` mints where there is no record. -/
def loaded (store : κ) (pending account : E.SigningKey) :
    Result Storage.ClientError (Option (Installation E)) → Phase E κ
  | .ok none => register (some store) pending account
  | .ok (some installation) => .done (some store) (.ok installation)
  | .err e => .done (some store) (.err e)
  | .panic => .done (some store) .panic

section Run

variable [DecidableEq ι]

def put (w : Deployment K E κ ι) (call : ι) (phase : Phase E κ) : Deployment K E κ ι :=
  { w with opens := Function.update w.opens call phase }

variable (takes : Admission) (S : E.Seeds) [DecidableEq κ]

/-- A step out of turn does nothing. -/
def step (w : Deployment K E κ ι) : Step K E κ ι → Deployment K E κ ι
  | .load call store fault pending account =>
      match w.opens call with
      | .idle => w.put call (loaded store pending account (Installation.load S K fault (w.stores store)))
      | _ => w
  | .ephemeral call pending account =>
      match w.opens call with
      | .idle => w.put call (register none pending account)
      | _ => w
  | .fetch call failure =>
      match w.opens call with
      | .minting m => w.put call (.fetched m (providerFetch (w.logs (accountAddr m.account)) failure))
      | _ => w
  | .publish call reply =>
      match w.opens call with
      | .fetched m answer =>
          let addr := accountAddr m.account
          let out := publishOver takes m.account (w.logs addr) answer [endorseChatSigner m.key] reply
          { w.put call (registered m out.2) with logs := Function.update w.logs addr out.1 }
      | _ => w
  | .save call fault =>
      match w.opens call with
      | .endorsed store installation =>
          let saved := installation.save S K fault (w.stores store)
          { w.put call (.done (some store) (saved.1 >>= fun _ ↦ .ok installation)) with
            stores := Function.update w.stores store saved.2 }
      | _ => w
  | .elsewhere addr log => { w with logs := Function.update w.logs addr log }

/-- Nobody else holds the key of an account that an open generated. -/
def Fits (w : Deployment K E κ ι) : Step K E κ ι → Prop
  | .elsewhere addr _ => ∀ call, ¬ (w.opens call).ActsFor addr
  | _ => True

end Run

/-! ## What stays published -/

/-- The log in a slot has grown, and nothing in it was removed. -/
structure Appends (addr : AccountAddr E) (stored stored' : Option SignedAccountLog) : Prop where
  grows : Grows stored stored'
  keeps : ∀ key entries, accountAddr key = addr → Logged (E := E) key stored entries →
    ∃ added, Logged key stored' (entries ++ added) ∧ ∀ index, .remove index ∉ added

theorem Appends.refl (addr : AccountAddr E) (stored : Option SignedAccountLog) : Appends addr stored stored :=
  ⟨Grows.refl stored, fun _ entries _ h ↦ ⟨[], (List.append_nil entries).symm ▸ h, nofun⟩⟩

theorem logged_congr {key key' : E.SigningKey} (h : accountAddr key = accountAddr key')
    (stored : Option SignedAccountLog) (entries : List AccountEntry) :
    Logged key stored entries ↔ Logged key' stored entries := by
  cases stored with
  | none => exact Iff.rfl
  | some signed =>
      show (∃ L, signed.verify (accountAddr key) = .ok L ∧ _) ↔ _
      rw [h]
      rfl

/-- The entries of a front of the stored payload are a front of the entries. -/
theorem logged_prefix {key : E.SigningKey} {a b : Option SignedAccountLog} {as bs : List AccountEntry}
    (hgrows : Grows a b) (ha : Logged key a as) (hb : Logged key b bs) : as <+: bs := by
  cases a with
  | none =>
      cases ha
      exact List.nil_prefix
  | some a =>
      obtain ⟨b, rfl, hfront⟩ := hgrows a rfl
      obtain ⟨L, hL, rfl⟩ := ha
      obtain ⟨M, hM, rfl⟩ := hb
      exact (payload_prefix_iff (SignedAccountLog.verify_eq_ok_iff.mp hL).2
        (SignedAccountLog.verify_eq_ok_iff.mp hM).2).mp hfront

section Publish

variable {takes : Admission} {key : E.SigningKey} {stored : Option SignedAccountLog} {answer : Fetched}
  {entry : AccountEntry}

/-- A publish puts what it prepared into the slot, if the directory takes it, or leaves the slot alone; and
only what is in the slot is returned. -/
theorem publishOver_cases (takes : Admission) (key : E.SigningKey) (stored : Option SignedAccountLog)
    (answer : Fetched) (entries : List AccountEntry) (reply : Reply) :
    (∃ signed, prepare key answer entries = .ok signed ∧ takes stored signed = true ∧
      (publishOver takes key stored answer entries reply).1 = some signed) ∨
    (publishOver takes key stored answer entries reply).1 = stored ∧
      ∀ signed, (publishOver takes key stored answer entries reply).2 ≠ .ok signed := by
  unfold publishOver
  cases hprepare : prepare key answer entries with
  | err e => exact .inr ⟨rfl, by simp⟩
  | panic => exact .inr ⟨rfl, by simp⟩
  | ok signed =>
      by_cases htakes : takes stored signed = true
      · cases reply with
        | requestLost error => exact .inr ⟨rfl, by simp [Admission.publish]⟩
        | answered refusal => exact .inl ⟨signed, rfl, htakes, by simp [Admission.publish, htakes]⟩
        | answerLost error => exact .inl ⟨signed, rfl, htakes, by simp [Admission.publish, htakes]⟩
      · right
        cases reply <;> simp [Admission.publish, htakes]

/-- The slot holds all of the log that a publish was drafted from, so an accepted one adds its entry and
nothing else. -/
theorem publishOver_appends (htakes : takes.KeepsFront) (hE : E.VerifiesOwn)
    (hbase : ∀ base, answer = .ok base → Grows base stored)
    (hfits : entry.TextFits) (hkind : entry.isRemove = false) (reply : Reply) :
    Appends (accountAddr key) stored (publishOver takes key stored answer [entry] reply).1 := by
  obtain ⟨signed, hprepare, htaken, hslot⟩ | ⟨hslot, -⟩ :=
    publishOver_cases takes key stored answer [entry] reply
  · rw [hslot]
    have hgrows : Grows stored (some signed) := htakes stored signed htaken
    refine ⟨hgrows, fun other entries haddr hlogged ↦ ?_⟩
    rw [logged_congr haddr] at hlogged
    obtain ⟨base, rfl⟩ := prepare_fetched hprepare
    obtain ⟨old, hold, hnew⟩ := logged_of_prepare hE hprepare (List.forall_mem_singleton.mpr hfits)
    -- `old <+: entries <+: old ++ [entry]`
    obtain ⟨front, rfl⟩ := logged_prefix (hbase base rfl) hold hlogged
    obtain ⟨added, hadded⟩ := logged_prefix hgrows hlogged hnew
    rw [List.append_assoc] at hadded
    have hrest : front ++ added = [entry] := List.append_cancel_left hadded
    refine ⟨added, ?_, fun index hmem ↦ ?_⟩
    · rw [logged_congr haddr, List.append_assoc, hadded]
      exact hnew
    · have hin : AccountEntry.remove index ∈ front ++ added := List.mem_append_right front hmem
      rw [hrest, List.mem_singleton] at hin
      rw [← hin] at hkind
      cases hkind
  · rw [hslot]
    exact Appends.refl _ stored

theorem exists_log_of_logged {entries : List AccountEntry} (h : Logged key stored entries) :
    ∃ L : AccountLog E, L.entries = entries := by
  cases stored with
  | none =>
      cases h
      exact ⟨AccountLogDraft.new.log, rfl⟩
  | some signed =>
      obtain ⟨L, -, rfl⟩ := h
      exact ⟨L, rfl⟩

/-- A publish that returns has its entry live on the log in the slot. -/
theorem publishOver_eq_ok (hE : E.VerifiesOwn) (hfits : entry.TextFits) (hkind : entry.isRemove = false)
    {reply : Reply} {signed : SignedAccountLog}
    (h : (publishOver takes key stored answer [entry] reply).2 = .ok signed) :
    ∃ entries val, Logged key (publishOver takes key stored answer [entry] reply).1 entries ∧
      LiveIn entries val ∧ val.entry = entry := by
  obtain ⟨signed', hprepare, -, hslot⟩ | ⟨-, hfails⟩ :=
    publishOver_cases takes key stored answer [entry] reply
  · obtain ⟨base, rfl⟩ := prepare_fetched hprepare
    obtain ⟨old, hold, hnew⟩ := logged_of_prepare hE hprepare (List.forall_mem_singleton.mpr hfits)
    obtain ⟨L, rfl⟩ := exists_log_of_logged hold
    rw [hslot]
    exact ⟨_, _, hnew, (liveIn_concat_iff hkind hold.length_lt).mpr (.inr rfl), rfl⟩
  · exact absurd h (hfails signed)

end Publish

/-- The directory's log of the account has a live endorsement of the installation's signer. -/
def Endorses (logs : AccountAddr E → Option SignedAccountLog) (i : Installation E) : Prop :=
  ∃ key entries val, accountAddr key = i.account ∧ Logged key (logs i.account) entries ∧
    LiveIn entries val ∧ HttpAuthClient.EndorsesSigner val.entry i.signer

theorem Endorses.appends {logs logs' : AccountAddr E → Option SignedAccountLog} {i : Installation E}
    (h : Endorses logs i) (happends : Appends i.account (logs i.account) (logs' i.account)) :
    Endorses logs' i := by
  obtain ⟨key, entries, val, haddr, hlogged, hlive, hsigner⟩ := h
  obtain ⟨added, hlogged', hkept⟩ := happends.keeps key entries haddr hlogged
  exact ⟨key, _, val, haddr, hlogged', (liveIn_append_iff hlive.index_lt).mpr ⟨hlive, hkept _⟩, hsigner⟩

theorem Endorses.same {S : E.Seeds} {logs : AccountAddr E → Option SignedAccountLog} {i j : Installation E}
    (h : Endorses logs i) (hsame : Installation.Same S i j) : Endorses logs j := by
  obtain ⟨-, hsigner, haccount⟩ := hsame
  unfold Endorses
  rw [← hsigner, ← haccount]
  exact h

/-- The store holds this installation. -/
def Keeps (S : E.Seeds) (stores : κ → K.Store) (i : Installation E) (store : κ) : Prop :=
  ∃ record j, K.held (stores store) = some record ∧ Installation.decode S record = .ok j ∧
    Installation.Same S i j

/-- What is true of an open at each point of it. -/
def PhaseOk (S : E.Seeds) (stores : κ → K.Store) (logs : AccountAddr E → Option SignedAccountLog) :
    Phase E κ → Prop
  | .minting m => requestedKey m.pending = .ok m.key
  | .fetched m answer => requestedKey m.pending = .ok m.key ∧
      ∀ base, answer = .ok base → Grows base (logs (accountAddr m.account))
  | .endorsed _ i => Endorses logs i
  | .done store (.ok i) => Endorses logs i ∧ ∀ s, store = some s → Keeps S stores i s
  | _ => True

structure Sound (S : E.Seeds) (w : Deployment K E κ ι) : Prop where
  opens : ∀ call, PhaseOk S w.stores w.logs (w.opens call)
  held : ∀ store record, K.held (w.stores store) = some record →
    ∃ i : Installation E, record = i.encode S ∧ ∃ call, w.opens call = .done (some store) (.ok i)

section Steps

variable {S : E.Seeds} {stores stores' : κ → K.Store} {logs logs' : AccountAddr E → Option SignedAccountLog}
  {w : Deployment K E κ ι}

theorem PhaseOk.appends {phase : Phase E κ} (h : PhaseOk S stores logs phase)
    (happends : ∀ addr, phase.ActsFor addr → Appends addr (logs addr) (logs' addr)) :
    PhaseOk S stores logs' phase := by
  match phase with
  | .idle => trivial
  | .minting _ => exact h
  | .fetched m _ => exact ⟨h.1, fun base hbase ↦ (h.2 base hbase).trans (happends _ rfl).grows⟩
  | .endorsed _ _ => exact Endorses.appends h (happends _ rfl)
  | .done _ (.ok _) => exact ⟨h.1.appends (happends _ rfl), h.2⟩
  | .done _ (.err _) => trivial
  | .done _ .panic => trivial

theorem PhaseOk.saved {phase : Phase E κ} (h : PhaseOk S stores logs phase)
    (hkept : ∀ store record, K.held (stores store) = some record → K.held (stores' store) = some record) :
    PhaseOk S stores' logs phase := by
  match phase with
  | .done _ (.ok _) =>
      refine ⟨h.1, fun store hstore ↦ ?_⟩
      obtain ⟨record, j, hheld, hdecode⟩ := h.2 store hstore
      exact ⟨record, j, hkept store record hheld, hdecode⟩
  | .idle => trivial
  | .minting _ => exact h
  | .fetched _ _ => exact h
  | .endorsed _ _ => exact h
  | .done _ (.err _) => trivial
  | .done _ .panic => trivial

/-- An open that had not returned goes on. -/
theorem Sound.put [DecidableEq ι] (h : Sound S w) {call : ι} {phase : Phase E κ}
    (hphase : PhaseOk S w.stores w.logs phase) (hopen : ∀ store r, w.opens call ≠ .done store r) :
    Sound S (w.put call phase) := by
  refine ⟨fun other ↦ ?_, fun store record hheld ↦ ?_⟩
  · show PhaseOk S w.stores w.logs (Function.update w.opens call phase other)
    by_cases heq : other = call
    · rw [heq, Function.update_self]
      exact hphase
    · rw [Function.update_of_ne heq]
      exact h.opens other
  · obtain ⟨i, hrecord, other, hdone⟩ := h.held store record hheld
    have hne : other ≠ call := fun heq ↦ hopen _ _ (heq ▸ hdone)
    exact ⟨i, hrecord, other, (Function.update_of_ne hne _ _).trans hdone⟩

theorem phaseOk_register (store : Option κ) (pending account : E.SigningKey) :
    PhaseOk S stores logs (register store pending account) := by
  unfold register
  split
  · assumption
  · trivial
  · trivial

/-- A load returns what the store holds, as the open that saved it was given it. -/
theorem Sound.loaded (hK : K.InsertsOnce) (hseeds : S.RoundTrip) (hkeys : E.ReadsBack) (h : Sound S w)
    (store : κ) (fault : Option K.Fault) (pending account : E.SigningKey) :
    PhaseOk S w.stores w.logs
      (loaded store pending account (Installation.load S K fault (w.stores store))) := by
  obtain hload | ⟨-, e, hload⟩ := hK.load fault (w.stores store)
  · cases hheld : K.held (w.stores store) with
    | none =>
        rw [Installation.load, hload, hheld]
        exact phaseOk_register (some store) pending account
    | some record =>
        obtain ⟨i, rfl, call, hdone⟩ := h.held store record hheld
        obtain ⟨j, hdecode, hsame⟩ := Installation.decode_encode hseeds hkeys i
        have hok := h.opens call
        rw [hdone] at hok
        rw [Installation.load, hload, hheld]
        dsimp only
        rw [hdecode]
        refine ⟨hok.1.same hsame, fun s hs ↦ ?_⟩
        cases hs
        exact ⟨_, j, hheld, hdecode, rfl, rfl, rfl⟩
  · rw [Installation.load, hload]
    trivial

theorem keyBytes_of_requestedKey (hbytes : E.KeepsBytes) {pending : E.SigningKey} {key : E.VerifyingKey}
    (h : requestedKey pending = .ok key) : E.keyBytes key = E.keyBytes (E.verifyingKey pending) := by
  obtain ⟨array, harray, hkey⟩ := Ed25519.fromCanonicalSlice_eq_ok_iff.mp (Result.mapErr_eq_ok.mp h)
  rw [hbytes array key (Ed25519.fromCanonicalBytes_eq_ok_iff.mp hkey), Vector.toList_inj.mp harray]

variable {takes : Admission} [DecidableEq ι] [DecidableEq κ]

theorem Sound.publish (htakes : takes.KeepsFront) (hE : E.VerifiesOwn) (hbytes : E.KeepsBytes)
    (h : Sound S w) {call : ι} {m : Minting E κ} {answer : Fetched}
    (hopen : w.opens call = .fetched m answer) (reply : Reply) :
    Sound S (w.step takes S (.publish call reply)) := by
  have hok := h.opens call
  rw [hopen] at hok
  obtain ⟨hkey, hbase⟩ := hok
  generalize hout : publishOver takes m.account (w.logs (accountAddr m.account)) answer
    [endorseChatSigner m.key] reply = out
  have hstep : w.step takes S (.publish call reply) =
      { w.put call (registered m out.2) with
        logs := Function.update w.logs (accountAddr m.account) out.1 } := by
    simp only [step, hopen, hout]
  have hfits : (endorseChatSigner m.key).TextFits := trivial
  have happends (addr : AccountAddr E) :
      Appends addr (w.logs addr) (Function.update w.logs (accountAddr m.account) out.1 addr) := by
    by_cases haddr : addr = accountAddr m.account
    · rw [haddr, Function.update_self, ← hout]
      exact publishOver_appends htakes hE hbase hfits rfl reply
    · rw [Function.update_of_ne haddr]
      exact Appends.refl addr _
  have hendorses (hr : ∃ signed, out.2 = .ok signed) :
      Endorses (Function.update w.logs (accountAddr m.account) out.1)
        (complete m.pending (accountAddr m.account)) := by
    obtain ⟨signed, hsigned⟩ := hr
    rw [← hout] at hsigned
    obtain ⟨entries, val, hlogged, hlive, hentry⟩ := publishOver_eq_ok hE hfits rfl hsigned
    refine ⟨m.account, entries, val, rfl, ?_, hlive, _, hentry, ?_⟩
    · show Logged m.account (Function.update w.logs (accountAddr m.account) out.1 (accountAddr m.account)) _
      rw [Function.update_self, ← hout]
      exact hlogged
    · rw [keyBytes_of_requestedKey hbytes hkey]
      rfl
  have hphase : PhaseOk S w.stores (Function.update w.logs (accountAddr m.account) out.1)
      (registered m out.2) := by
    unfold registered
    split
    case h_1 signed hr =>
      have hnew := hendorses ⟨signed, hr⟩
      split
      · exact ⟨hnew, nofun⟩
      · exact hnew
    case h_2 => trivial
    case h_3 => trivial
  have hgrown : Sound S { w with logs := Function.update w.logs (accountAddr m.account) out.1 } :=
    ⟨fun other ↦ (h.opens other).appends fun addr _ ↦ happends addr, h.held⟩
  rw [hstep]
  exact hgrown.put hphase (by simp [hopen])

theorem Sound.save (hK : K.InsertsOnce) (hseeds : S.RoundTrip) (hkeys : E.ReadsBack) (h : Sound S w)
    {call : ι} {store : κ} {i : Installation E} (hopen : w.opens call = .endorsed store i)
    (fault : Option K.Fault) : Sound S (w.step takes S (.save call fault)) := by
  have hnot : ∀ s r, w.opens call ≠ .done s r := by simp [hopen]
  have hok := h.opens call
  rw [hopen] at hok
  have hstep : w.step takes S (.save call fault) =
      { w.put call (.done (some store) ((i.save S K fault (w.stores store)).1 >>= fun _ ↦ .ok i)) with
        stores := Function.update w.stores store (i.save S K fault (w.stores store)).2 } := by
    simp only [step, hopen]
  rw [hstep]
  obtain ⟨after, hsave, hempty, hheld⟩ | ⟨e, hsave⟩ := hK.save fault (i.encode S) (w.stores store)
  · have hcall : i.save S K fault (w.stores store) = (.ok (), after) := by
      rw [Installation.save, hsave]
    rw [hcall]
    have hkept (s : κ) (record : Bytes) (hs : K.held (w.stores s) = some record) :
        K.held (Function.update w.stores store after s) = some record := by
      have hne : s ≠ store := by
        rintro rfl
        rw [hempty] at hs
        cases hs
      rw [Function.update_of_ne hne]
      exact hs
    obtain ⟨j, hdecode, hsame⟩ := Installation.decode_encode hseeds hkeys i
    have hdone : PhaseOk S (Function.update w.stores store after) w.logs (.done (some store) (.ok i)) := by
      refine ⟨hok, fun s hs ↦ ?_⟩
      cases hs
      refine ⟨_, j, ?_, hdecode, hsame⟩
      rw [Function.update_self]
      exact hheld
    refine ⟨fun other ↦ ?_, fun s record hs ↦ ?_⟩
    · show PhaseOk S _ w.logs (Function.update w.opens call _ other)
      by_cases heq : other = call
      · rw [heq, Function.update_self]
        exact hdone
      · rw [Function.update_of_ne heq]
        exact (h.opens other).saved hkept
    · change K.held (Function.update w.stores store after s) = some record at hs
      by_cases heq : s = store
      · subst heq
        rw [Function.update_self, hheld] at hs
        exact ⟨i, (Option.some.inj hs).symm, call, Function.update_self call _ _⟩
      · rw [Function.update_of_ne heq] at hs
        obtain ⟨j, hrecord, other, hother⟩ := h.held s record hs
        have hne : other ≠ call := fun heq ↦ hnot _ _ (heq ▸ hother)
        exact ⟨j, hrecord, other, (Function.update_of_ne hne _ _).trans hother⟩
  · have hcall : i.save S K fault (w.stores store) = (.err (.storage e), w.stores store) := by
      rw [Installation.save, hsave]
    rw [hcall, Function.update_eq_self]
    exact h.put trivial hnot

theorem Sound.step (htakes : takes.KeepsFront) (hK : K.InsertsOnce) (hseeds : S.RoundTrip)
    (hE : E.VerifiesOwn) (hkeys : E.ReadsBack) (hbytes : E.KeepsBytes) (h : Sound S w) (s : Step K E κ ι)
    (hfits : w.Fits s) : Sound S (w.step takes S s) := by
  cases s with
  | load call store fault pending account =>
      cases hopen : w.opens call with
      | idle =>
          simp only [Deployment.step, hopen]
          exact h.put (h.loaded hK hseeds hkeys store fault pending account) (by simp [hopen])
      | _ =>
          simp only [Deployment.step, hopen]
          exact h
  | ephemeral call pending account =>
      cases hopen : w.opens call with
      | idle =>
          simp only [Deployment.step, hopen]
          exact h.put (phaseOk_register none pending account) (by simp [hopen])
      | _ =>
          simp only [Deployment.step, hopen]
          exact h
  | fetch call failure =>
      cases hopen : w.opens call with
      | minting m =>
          have hok := h.opens call
          rw [hopen] at hok
          simp only [Deployment.step, hopen]
          refine h.put ⟨hok, fun base hbase ↦ ?_⟩ (by simp [hopen])
          cases failure with
          | none =>
              cases hbase
              exact Grows.refl _
          | some error => cases hbase
      | _ =>
          simp only [Deployment.step, hopen]
          exact h
  | publish call reply =>
      cases hopen : w.opens call with
      | fetched m answer => exact h.publish htakes hE hbytes hopen reply
      | _ =>
          simp only [Deployment.step, hopen]
          exact h
  | save call fault =>
      cases hopen : w.opens call with
      | endorsed store i => exact h.save hK hseeds hkeys hopen fault
      | _ =>
          simp only [Deployment.step, hopen]
          exact h
  | elsewhere addr log =>
      refine ⟨fun call ↦ (h.opens call).appends fun other hacts ↦ ?_, h.held⟩
      have hne : other ≠ addr := by
        rintro rfl
        exact hfits call hacts
      show Appends other (w.logs other) (Function.update w.logs addr log other)
      rw [Function.update_of_ne hne]
      exact Appends.refl other _

end Steps

/-! ## Who looks it up -/

/-- An answer to a lookup of a stored log, when there is one: the log, if it is not cut off. -/
def Answers (signed : SignedAccountLog) : Except String Response → Prop
  | .error _ => True
  | .ok resp => resp.shed = true ∨ resp.status = 200 ∧ resp.body <+: signed.toBytes ∧
      (resp.fault = none → resp.body = signed.toBytes)

/-- The client looks accounts up in this directory, over a network that may lose or delay anything. -/
def Serves (logs : AccountAddr E → Option SignedAccountLog) (client : HttpAuthClient E) : Prop :=
  ∀ addr signed, logs addr = some signed → ∀ attempt, Answers signed (client.answers addr attempt)

theorem retrying_of_forall {answers : Nat → Except String Response} {Q : Except String Response → Prop}
    (h : ∀ attempt, Q (answers attempt)) (left attempt : Nat) : Q (retrying answers left attempt) := by
  induction left generalizing attempt with
  | zero => exact h attempt
  | succ left ih =>
      have hfirst := h attempt
      unfold retrying
      split
      case h_1 error herror =>
        rw [herror] at hfirst
        exact hfirst
      case h_2 resp hresp =>
        split
        · exact ih (attempt + 1)
        · rw [hresp] at hfirst
          exact hfirst

section Lookup

variable {client : HttpAuthClient E} {addr : AccountAddr E} {signed : SignedAccountLog}

theorem fetch_of_answers (hdomain : accountLogDomain.length ≤ signed.payload.bytes.length)
    (h : ∀ attempt, Answers signed (client.answers addr attempt)) :
    client.fetch addr = .ok (some signed) ∨ ∃ e, client.fetch addr = .err e := by
  have hsize := signed.payload.size
  have hlen : signed.toBytes.length ≤ maxArtifactBytes := by
    rw [SignedAccountLog.toBytes, List.length_append, Vector.length_toList, maxArtifactBytes]
    omega
  have hlast := retrying_of_forall h lookupRetries 0
  unfold HttpAuthClient.fetch
  generalize retrying (client.answers addr) lookupRetries 0 = last at hlast ⊢
  cases last with
  | error error => exact .inr ⟨_, rfl⟩
  | ok resp =>
      obtain hshed | ⟨hstatus, hbody, hwhole⟩ := hlast
      · have hrange : (500 ≤ resp.status ∧ resp.status < 600) ∨ resp.status = 429 := by
          simpa [Response.shed] using hshed
        have hfailed : resp.success = .err (.server resp.status (resp.text.getD "")) :=
          if_neg (by omega)
        dsimp only
        rw [if_neg (by omega), hfailed]
        exact .inr ⟨_, rfl⟩
      · have hsuccess : resp.success = .ok resp := if_pos (by omega)
        dsimp only
        rw [if_neg (by omega), hsuccess, Result.ok_bind]
        cases hfault : resp.fault with
        | some error =>
            have hshort : resp.body.length < maxArtifactBytes + 1 := by
              have hle := hbody.length_le
              omega
            have hread : resp.read (maxArtifactBytes + 1) = .error error := by
              rw [Response.read, hfault]
              exact if_pos hshort
            rw [hread]
            exact .inr ⟨_, rfl⟩
        | none =>
            have hread : resp.read (maxArtifactBytes + 1) = .ok signed.toBytes := by
              rw [Response.read, hfault]
              dsimp only
              rw [hwhole hfault, List.take_of_length_le (by omega)]
            rw [hread]
            dsimp only
            rw [if_neg (by omega), SignedAccountLog.fromBytes_toBytes signed hdomain]
            exact .inl rfl

/-- Whoever looks up the account of an endorsed installation finds its signer valid, and among those to
invite, or gets no answer. -/
theorem Endorses.found (hkeys : E.ReadsBack) (hbytes : E.KeepsBytes)
    {logs : AccountAddr E → Option SignedAccountLog} {i : Installation E} (h : Endorses logs i)
    (hserves : Serves logs client) :
    (client.validateSigner i.signer ⟨i.account.toBytes⟩ = .ok .valid ∧
      ∃ signers, client.signersForParticipant ⟨i.account.toBytes⟩ = .ok signers ∧ i.signer ∈ signers) ∨
    ∃ e, client.validateSigner i.signer ⟨i.account.toBytes⟩ = .err e ∧
      client.signersForParticipant ⟨i.account.toBytes⟩ = .err e := by
  obtain ⟨key, entries, val, haddr, hlogged, hlive, hsigner⟩ := h
  have htry : AccountAddr.tryFrom E i.account.toBytes = .ok i.account := AccountAddr.tryFrom_toBytes hkeys _
  cases hstored : logs i.account with
  | none =>
      rw [hstored] at hlogged
      cases hlogged
      exact absurd hlive.index_lt (Nat.not_lt_zero _)
  | some signed =>
      rw [hstored] at hlogged
      obtain ⟨L, hL, rfl⟩ := hlogged
      rw [haddr] at hL
      have hdecode := (SignedAccountLog.verify_eq_ok_iff.mp hL).2
      have hdomain : accountLogDomain.length ≤ signed.payload.bytes.length := by
        rw [(decode_eq_ok_iff.mp hdecode).1, List.length_append]
        exact Nat.le_add_right _ _
      obtain hfetch | ⟨e, hfetch⟩ := fetch_of_answers hdomain (hserves _ _ hstored)
      · have haccount : client.getAccount i.account = .ok (some ⟨i.account, signed, L⟩) := by
          rw [HttpAuthClient.getAccount, hfetch, Result.ok_bind]
          dsimp only
          rw [AccountRecord.new, hL]
          rfl
        have hspec : HttpAuthClient.SignersSpec client ⟨i.account.toBytes⟩ L :=
          HttpAuthClient.signersSpec htry haccount hbytes
        have hvalid := (hspec.valid_iff i.signer).mpr ⟨val, hlive, hsigner⟩
        obtain ⟨signers, hsigners, hmem⟩ := hspec.signers_of_some ⟨i.signer, hvalid⟩
        exact .inl ⟨hvalid, signers, hsigners, (hmem i.signer).mpr hvalid⟩
      · have hfailed : client.getAccount i.account = .err e := by
          rw [HttpAuthClient.getAccount, hfetch]
          rfl
        have hparse : E.fromCanonicalSlice i.signer.bytes = .ok (E.verifyingKey i.signingKey) := by
          rw [i.signer_eq]
          exact Ed25519.fromCanonicalSlice_eq_ok_iff.mpr
            ⟨_, rfl, Ed25519.fromCanonicalBytes_eq_ok_iff.mpr (hkeys _)⟩
        refine .inr ⟨e, ?_, ?_⟩
        · rw [HttpAuthClient.validateSigner, htry]
          dsimp only
          rw [hparse]
          dsimp only
          rw [hfailed]
          rfl
        · rw [HttpAuthClient.signersForParticipant, htry]
          show (client.getAccount i.account >>= _) = _
          rw [hfailed]
          rfl

end Lookup

/-! ## The run -/

/-- `Debug` of a verdict. -/
def verdictText : AuthResult → String
  | .valid => "Valid"
  | .revoked => "Revoked"
  | .invalid => "Invalid"

/-- `Installation::validate`, on what the auth service answers: one that cannot decide is no reason to
refuse what was endorsed on an earlier run. -/
def validate {ε : Type} (text : ε → String) (i : Installation E) :
    Result ε AuthResult → Result Storage.ClientError Unit
  | .ok .valid => .ok ()
  | .ok verdict => .err (.notEndorsed (verdictText verdict))
  | .err e =>
      if i.origin = .stored then .ok ()
      else .err (.notEndorsed ("auth service could not decide: " ++ text e))
  | .panic => .panic

/-- A lookup finds the signer valid and among those to invite, or fails.  The check that a client makes of
itself passes, unless the lookup of a new installation fails. -/
structure Found (client : HttpAuthClient E) (i : Installation E) : Prop where
  lookup : (client.validateSigner i.signer ⟨i.account.toBytes⟩ = .ok .valid ∧
      ∃ signers, client.signersForParticipant ⟨i.account.toBytes⟩ = .ok signers ∧ i.signer ∈ signers) ∨
    ∃ e, client.validateSigner i.signer ⟨i.account.toBytes⟩ = .err e ∧
      client.signersForParticipant ⟨i.account.toBytes⟩ = .err e
  selfCheck : ∀ text, validate text i (client.validateSigner i.signer ⟨i.account.toBytes⟩) = .ok () ∨
    i.origin = .minted ∧ ∃ e, client.validateSigner i.signer ⟨i.account.toBytes⟩ = .err e

theorem Endorses.isFound (hkeys : E.ReadsBack) (hbytes : E.KeepsBytes) {client : HttpAuthClient E}
    {logs : AccountAddr E → Option SignedAccountLog} {i : Installation E} (h : Endorses logs i)
    (hserves : Serves logs client) : Found client i := by
  have hlookup := h.found hkeys hbytes hserves
  refine ⟨hlookup, fun text ↦ ?_⟩
  obtain ⟨hvalid, -⟩ | ⟨e, hfailed, -⟩ := hlookup
  · rw [hvalid]
    exact .inl rfl
  · rw [hfailed]
    cases horigin : i.origin with
    | minted => exact .inr ⟨rfl, e, rfl⟩
    | stored => exact .inl (if_pos horigin)

/-- Whatever gets lost, fails or stops on the way, an open that returns runs as an installation that its
store holds, if it has one, and what a store holds is endorsed: whoever looks up its account finds its
signer, unless the lookup fails.  The directory may take or refuse what it likes, but never takes a log that
does not begin with the one it holds. -/
theorem opened_is_endorsed [DecidableEq κ] [DecidableEq ι] (takes : Admission) (htakes : takes.KeepsFront)
    (S : E.Seeds) (hseeds : S.RoundTrip) (hE : E.VerifiesOwn) (hkeys : E.ReadsBack) (hbytes : E.KeepsBytes)
    (backend : IdentityBackend) {w : Deployment backend.store E κ ι}
    (hempty : ∀ store, backend.store.held (w.stores store) = none) (hidle : ∀ call, w.opens call = .idle)
    {steps : List (Step backend.store E κ ι)}
    (hfits : Along (step takes S) Fits w steps) {client : HttpAuthClient E}
    (hserves : Serves (run (step takes S) w steps).logs client) :
    (∀ call store i, (run (step takes S) w steps).opens call = .done store (.ok i) →
      Found client i ∧ ∀ s, store = some s → Keeps S (run (step takes S) w steps).stores i s) ∧
    ∀ store record, backend.store.held ((run (step takes S) w steps).stores store) = some record →
      ∃ i, Installation.decode S record = .ok i ∧ Found client i := by
  have hstart : Sound S w := by
    refine ⟨fun call ↦ ?_, fun store record hheld ↦ ?_⟩
    · rw [hidle call]
      trivial
    · rw [hempty store] at hheld
      cases hheld
  have hsound : Sound S (run (step takes S) w steps) :=
    hfits.invariant (fun _ s h ↦ h.step htakes backend.insertsOnce hseeds hE hkeys hbytes s) hstart
  have hopened (call : ι) (store : Option κ) (i : Installation E)
      (hdone : (run (step takes S) w steps).opens call = .done store (.ok i)) :
      Endorses (run (step takes S) w steps).logs i ∧
        ∀ s, store = some s → Keeps S (run (step takes S) w steps).stores i s := by
    have hok := hsound.opens call
    rw [hdone] at hok
    exact hok
  refine ⟨fun call store i hdone ↦ ?_, fun store record hheld ↦ ?_⟩
  · obtain ⟨hendorses, hkeeps⟩ := hopened call store i hdone
    exact ⟨hendorses.isFound hkeys hbytes hserves, hkeeps⟩
  · obtain ⟨i, rfl, call, hdone⟩ := hsound.held store record hheld
    obtain ⟨j, hdecode, hsame⟩ := Installation.decode_encode hseeds hkeys i
    exact ⟨j, hdecode, ((hopened call _ i hdone).1.same hsame).isFound hkeys hbytes hserves⟩

/-- The answers of the directory when nothing goes wrong. -/
def answering (logs : AccountAddr E → Option SignedAccountLog) : HttpAuthClient E where
  answers addr _ :=
    match logs addr with
    | some signed => .ok ⟨200, signed.toBytes, none, none⟩
    | none => .ok ⟨404, [], none, none⟩

theorem serves_answering (logs : AccountAddr E → Option SignedAccountLog) : Serves logs (answering logs) := by
  intro addr signed hstored attempt
  show Answers signed (match logs addr with | some signed => _ | none => _)
  rw [hstored]
  exact .inr ⟨rfl, List.prefix_rfl, fun _ ↦ rfl⟩

namespace Sample

/-- Only what extends the log it holds. -/
def takes : Admission := fun stored candidate ↦ Accepts stored candidate

theorem takes_keepsFront : takes.KeepsFront :=
  fun _ candidate h old hold ↦ ⟨candidate, rfl, (of_decide_eq_true h old hold).1⟩

def seeds : Ed25519.sampleCurve.Seeds := ⟨fun seed ↦ seed, fun key ↦ key⟩

def key (seed : UInt8) : Ed25519.sampleCurve.SigningKey := (Vector.replicate 32 seed : KeyBytes)

/-- One store, and nothing published. -/
def fresh : Deployment memIdentityStore Ed25519.sampleCurve Unit Nat :=
  { stores := fun _ ↦ none, logs := fun _ ↦ none, opens := fun _ ↦ .idle }

/-- The answer to the first open's publish gets lost; the second saves, and the third loads. -/
def steps : List (Step memIdentityStore Ed25519.sampleCurve Unit Nat) :=
  [.load 0 () none (key 1) (key 2), .fetch 0 none, .publish 0 (.answerLost "timed out"),
    .load 1 () none (key 3) (key 4), .fetch 1 none, .publish 1 (.answered "refused"), .save 1 none,
    .load 2 () none (key 5) (key 6)]

end Sample

set_option maxRecDepth 8000 in
/-- What the second open saved, the third runs as, and everybody finds. -/
theorem opened_is_endorsed_third :
    ∃ i, (run (step Sample.takes Sample.seeds) Sample.fresh Sample.steps).opens 2 = .done (some ()) (.ok i) ∧
      Found (answering (run (step Sample.takes Sample.seeds) Sample.fresh Sample.steps).logs) i := by
  have hfits : Along (step Sample.takes Sample.seeds) Fits Sample.fresh Sample.steps :=
    ⟨trivial, trivial, trivial, trivial, trivial, trivial, trivial, trivial, trivial⟩
  have hopened := (opened_is_endorsed Sample.takes Sample.takes_keepsFront Sample.seeds (fun _ ↦ rfl)
    Ed25519.sampleCurve_verifiesOwn Ed25519.sampleCurve_readsBack Ed25519.sampleCurve_keepsBytes .mem
    (fun _ ↦ rfl) (fun _ ↦ rfl) hfits (serves_answering _)).1
  exact ⟨_, rfl, (hopened 2 (some ()) _ rfl).1⟩

end Deployment

end LogosChat.Client
