import LogosChat.Reasoning.Bytes
import LogosChat.Reasoning.LittleEndian
import LogosChat.Reasoning.Result

/-!
# The Ed25519 boundary

Keys and signatures reach the account code through one wrapper around the curve implementation.
The implementation itself is a parameter: which 32-byte strings are usable keys and which signatures
verify are arbitrary functions, so every theorem over an `Ed25519` holds for any backend.
-/

namespace LogosChat.Crypto

open Reasoning

abbrev KeyBytes := Vector UInt8 32

/-- An Ed25519 signature, held as its 64 canonical bytes. -/
abbrev Ed25519Signature := Vector UInt8 64

/-- Why some bytes are not a key, or a signature not a valid one. -/
inductive Ed25519Error where
  | malformedKey (what : String)
  | signatureInvalid
deriving DecidableEq, Repr

/-! ## Canonical encodings -/

/-- `2^255 - 19`, little-endian: the field prime. -/
def fieldOrderLe : KeyBytes := ((Vector.replicate 32 0xff).set 0 0xed).set 31 0x7f

/-- `for i in (0..KEY_LEN).rev()`, with `n` bytes left to compare. -/
def belowFieldOrder (y : KeyBytes) : (n : Nat) → n ≤ 32 → Bool
  | 0, _ => false -- `y` is the prime itself
  | i + 1, h =>
      if y.get ⟨i, h⟩ ≠ fieldOrderLe.get ⟨i, h⟩ then y.get ⟨i, h⟩ < fieldOrderLe.get ⟨i, h⟩
      else belowFieldOrder y i (Nat.le_of_succ_le h)

/-- Whether the low 255 bits are less than the field prime. -/
def isCanonicalY (bytes : KeyBytes) : Bool :=
  let y := bytes.set 31 (bytes.get 31 &&& 0x7f) -- drop the sign bit
  belowFieldOrder y 32 le_rfl

theorem take_succ_toList (y : KeyBytes) {i : Nat} (h : i < 32) :
    y.toList.take (i + 1) = y.toList.take i ++ [y.get ⟨i, h⟩] := by
  rw [List.take_succ_eq_append_getElem (by simpa using h)]
  rfl

theorem belowFieldOrder_eq (y : KeyBytes) (n : Nat) (h : n ≤ 32) :
    belowFieldOrder y n h =
      decide (leNat (y.toList.take n) < leNat (fieldOrderLe.toList.take n)) := by
  induction n with
  | zero => rfl
  | succ i ih =>
      have hlength : (y.toList.take i).length = (fieldOrderLe.toList.take i).length := by simp
      rw [belowFieldOrder, ih, take_succ_toList y h, take_succ_toList fieldOrderLe h]
      simp only [leNat_concat_lt_iff hlength]
      by_cases heq : y.get ⟨i, h⟩ = fieldOrderLe.get ⟨i, h⟩
      · simp [heq]
      · simp [heq]

theorem leNat_fieldOrderLe : leNat fieldOrderLe.toList = 2 ^ 255 - 19 := by
  decide +kernel

/-- The mask leaves the low 255 bits. -/
theorem leNat_mask (bytes : KeyBytes) :
    leNat (bytes.set 31 (bytes.get 31 &&& 0x7f)).toList = leNat bytes.toList % 2 ^ 255 := by
  have hlength : (bytes.toList.take 31).length = 31 := by simp
  have hbytes : bytes.toList = bytes.toList.take 31 ++ [bytes.get 31] := by
    have htake := take_succ_toList bytes (i := 31) (by decide)
    rwa [List.take_of_length_le (by simp)] at htake
  have hset : (bytes.set 31 (bytes.get 31 &&& 0x7f)).toList =
      bytes.toList.take 31 ++ [bytes.get 31 &&& 0x7f] := by
    rw [Vector.toList_set, List.set_eq_take_append_cons_drop, if_pos (by simp),
      List.drop_of_length_le (by simp)]
  have hmask : (bytes.get 31 &&& 0x7f).toNat = (bytes.get 31).toNat % 128 := by
    rw [UInt8.toNat_and]
    exact Nat.and_two_pow_sub_one_eq_mod _ 7
  have hlow := leNat_lt (bytes.toList.take 31)
  have hvalue := congrArg leNat hbytes
  rw [leNat_concat, hlength] at hvalue
  rw [hset, leNat_concat, hlength, hmask]
  rw [hlength] at hlow
  omega

/-- The comparison, most significant byte first, is that of the two numbers. -/
theorem isCanonicalY_iff (bytes : KeyBytes) :
    isCanonicalY bytes = true ↔ leNat bytes.toList % 2 ^ 255 < 2 ^ 255 - 19 := by
  rw [isCanonicalY, belowFieldOrder_eq, List.take_of_length_le (by simp),
    List.take_of_length_le (by simp), leNat_mask, leNat_fieldOrderLe, decide_eq_true_eq]

/-! ## Keys and signatures -/

/-- The curve backend.  `parseKey` gives the key, or says what is wrong with the bytes. -/
structure Ed25519 where
  VerifyingKey : Type
  SigningKey : Type
  [decEqKey : DecidableEq VerifyingKey]
  parseKey : KeyBytes → Except String VerifyingKey
  keyBytes : VerifyingKey → KeyBytes
  verifyStrict : VerifyingKey → Bytes → Ed25519Signature → Bool
  verifyingKey : SigningKey → VerifyingKey
  sign : SigningKey → Bytes → Ed25519Signature

instance (E : Ed25519) : DecidableEq E.VerifyingKey := E.decEqKey
instance (E : Ed25519) : LawfulBEq E.VerifyingKey := inferInstance

namespace Ed25519

variable (E : Ed25519)

/-- `Ed25519VerifyingKey::from_canonical_bytes`. -/
def fromCanonicalBytes (bytes : KeyBytes) : Result Ed25519Error E.VerifyingKey :=
  match E.parseKey bytes with
  | .ok key => .ok key
  | .error what => .err (.malformedKey what)

/-- `Ed25519VerifyingKey::from_canonical_slice`. -/
def fromCanonicalSlice (bytes : Bytes) : Result Ed25519Error E.VerifyingKey :=
  match tryIntoArray 32 bytes with
  | some bytes => E.fromCanonicalBytes bytes
  | none => .err (.malformedKey "key is not 32 bytes")

/-- A key is held as the encoding it was parsed from. -/
def KeepsBytes : Prop :=
  ∀ bytes key, E.parseKey bytes = .ok key → E.keyBytes key = bytes

/-- Every key can be parsed from its own encoding: it is canonical, on the curve and not small-order. -/
def ReadsBack : Prop := ∀ key, E.parseKey (E.keyBytes key) = .ok key

/-- What a key signs, its verifying key accepts. -/
def VerifiesOwn : Prop := ∀ key msg, E.verifyStrict (E.verifyingKey key) msg (E.sign key msg) = true

/-- `Ed25519VerifyingKey::verify`: the only failure is an invalid signature. -/
def verify (key : E.VerifyingKey) (msg : Bytes) (sig : Ed25519Signature) :
    Result Ed25519Error Unit :=
  if E.verifyStrict key msg sig then .ok () else .err .signatureInvalid

theorem fromCanonicalBytes_failsIn (bytes : KeyBytes) :
    (E.fromCanonicalBytes bytes).FailsIn (· ≠ .signatureInvalid) := by
  unfold fromCanonicalBytes
  split <;> simp

variable {E} in
theorem fromCanonicalBytes_eq_ok_iff {bytes : KeyBytes} {key : E.VerifyingKey} :
    E.fromCanonicalBytes bytes = .ok key ↔ E.parseKey bytes = .ok key := by
  unfold fromCanonicalBytes
  split <;> simp_all

variable {E} in
theorem fromCanonicalSlice_eq_ok_iff {bytes : Bytes} {key : E.VerifyingKey} :
    E.fromCanonicalSlice bytes = .ok key ↔
      ∃ array : KeyBytes, array.toList = bytes ∧ E.fromCanonicalBytes array = .ok key := by
  unfold fromCanonicalSlice
  cases harray : tryIntoArray 32 bytes with
  | some array =>
      have htoList := tryIntoArray_eq_some_iff.mp harray
      refine ⟨fun h ↦ ⟨array, htoList, h⟩, fun h ↦ ?_⟩
      rcases h with ⟨other, hother, hkey⟩
      rw [tryIntoArray_eq_some_iff.mpr hother] at harray
      cases harray
      exact hkey
  | none =>
      refine ⟨nofun, fun h ↦ ?_⟩
      rcases h with ⟨other, hother, -⟩
      rw [tryIntoArray_eq_some_iff.mpr hother] at harray
      cases harray

/-- The seeds of a backend: any 32 bytes are one, and a signing key is made from its seed. -/
structure Seeds where
  fromSeed : KeyBytes → E.SigningKey
  seed : E.SigningKey → KeyBytes

variable {E} in
/-- A signing key is rebuilt from its seed. -/
def Seeds.RoundTrip (S : E.Seeds) : Prop := ∀ key, S.fromSeed (S.seed key) = key

/-- A backend small enough to evaluate: every key but the identity point is usable, and a signature
is the key with a checksum of the message. -/
def sample : Ed25519 where
  VerifyingKey := KeyBytes
  SigningKey := KeyBytes
  parseKey := fun key =>
    if key = Vector.replicate 32 0 then .error "key is a small-order Ed25519 point" else .ok key
  keyBytes := id
  verifyStrict := fun key msg sig => sig = (key ++ key).set 63 (msg.foldl (· + ·) 0)
  verifyingKey := id
  sign := fun key msg => (key ++ key).set 63 (msg.foldl (· + ·) 0)

def sampleKey : sample.SigningKey := (Vector.replicate 32 7 : KeyBytes)

theorem sample_verify_sign (key : sample.SigningKey) (msg : Bytes) :
    sample.verifyStrict (sample.verifyingKey key) msg (sample.sign key msg) = true :=
  decide_eq_true rfl

theorem sample_keepsBytes : sample.KeepsBytes := by
  intro bytes key h
  by_cases hzero : bytes = Vector.replicate 32 0
  · subst hzero
    cases h
  · have hparse : sample.parseKey bytes = .ok bytes := if_neg hzero
    rw [hparse] at h
    cases h
    rfl

/-- The same backend, with every key usable. -/
def sampleCurve : Ed25519 := { sample with parseKey := fun key ↦ .ok key }

theorem sampleCurve_verifiesOwn : sampleCurve.VerifiesOwn := fun _ _ ↦ decide_eq_true rfl

theorem sampleCurve_readsBack : sampleCurve.ReadsBack := fun _ ↦ rfl

theorem sampleCurve_keepsBytes : sampleCurve.KeepsBytes := by
  intro bytes key h
  cases h
  rfl

end Ed25519

end LogosChat.Crypto
