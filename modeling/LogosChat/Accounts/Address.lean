import LogosChat.Accounts.Record

/-!
# Account addresses as text

An address is written as the hex of its key, and only that spelling is read: an address that two
implementations hold is the same text in both.
-/

namespace LogosChat.Accounts

open Reasoning Crypto

namespace AccountAddr

variable {E : Ed25519}

/-- `FromStr`. -/
def fromStr (E : Ed25519) (s : String) : Result AccountAddrError (AccountAddr E) :=
  if (utf8 s).length ≠ 64 ∨ ¬ (utf8 s).all isLowerAlnum then .err .invalidAddress
  else
    match hexDecode s with
    -- the letters behind `f` pass the check above
    | none => .err .invalidAddress
    | some bytes => tryFrom E bytes

theorem tryFrom_eq_ok_iff (hbytes : E.KeepsBytes) (hreads : E.ReadsBack) {value : Bytes}
    {addr : AccountAddr E} : tryFrom E value = .ok addr ↔ value = addr.toBytes := by
  refine ⟨fun h ↦ ?_, fun h ↦ h ▸ tryFrom_toBytes hreads addr⟩
  unfold tryFrom at h
  split at h
  case h_1 => cases h
  case h_2 array harray =>
    obtain ⟨key, hkey, h⟩ := Result.bind_eq_ok.mp h
    cases h
    have hparse := Ed25519.fromCanonicalBytes_eq_ok_iff.mp (Result.mapErr_eq_ok.mp hkey)
    rw [toBytes, hbytes array key hparse]
    exact (tryIntoArray_eq_some_iff.mp harray).symm

theorem length_toBytes (addr : AccountAddr E) : addr.toBytes.length = 32 := by
  rw [toBytes, Vector.length_toList]

theorem fromStr_display (hreads : E.ReadsBack) (addr : AccountAddr E) :
    fromStr E addr.display = .ok addr := by
  have hlength : (utf8 addr.display).length = 64 := by
    rw [display, length_utf8_hexEncode, length_toBytes]
  have hlower : (utf8 addr.display).all isLowerAlnum = true := by
    rw [display, utf8_hexEncode, List.all_map, List.all_eq_true]
    exact fun c hc ↦ isLowerAlnum_of_mem_hexChars hc
  unfold fromStr
  rw [if_neg (by simp [hlength, hlower]), display, hexDecode_hexEncode]
  exact tryFrom_toBytes hreads addr

/-- The text that is read as an address is the one that the address is displayed as. -/
theorem fromStr_eq_ok_iff (hbytes : E.KeepsBytes) (hreads : E.ReadsBack) (s : String)
    (addr : AccountAddr E) : fromStr E s = .ok addr ↔ s = addr.display := by
  constructor
  · intro h
    unfold fromStr at h
    split at h
    case isTrue => cases h
    case isFalse hshape =>
      rw [not_or, not_not, not_not] at hshape
      cases hdecode : hexDecode s with
      | none =>
          rw [hdecode] at h
          cases h
      | some bytes =>
          rw [hdecode] at h
          rw [display, ← (tryFrom_eq_ok_iff hbytes hreads).mp h]
          exact (hexEncode_of_hexDecode hdecode hshape.2).symm
  · rintro rfl
    exact fromStr_display hreads addr

def spelled : AccountAddr Ed25519.sampleCurve := ⟨(Vector.replicate 32 171 : KeyBytes)⟩

theorem fromStr_eq_ok_iff_spelled :
    (Ed25519.sampleCurve.KeepsBytes ∧ Ed25519.sampleCurve.ReadsBack) ∧
      fromStr Ed25519.sampleCurve spelled.display = .ok spelled :=
  ⟨⟨Ed25519.sampleCurve_keepsBytes, Ed25519.sampleCurve_readsBack⟩,
    (fromStr_eq_ok_iff Ed25519.sampleCurve_keepsBytes Ed25519.sampleCurve_readsBack _ _).mpr rfl⟩

end AccountAddr

end LogosChat.Accounts
