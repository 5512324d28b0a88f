import LogosChat.Accounts.Codec

/-!
# One log, one byte string

A payload that decodes is the encoding of what it decodes to, so the encoding is canonical, and a
byte-prefix comparison of two payloads compares their entry lists.
-/

namespace LogosChat.Accounts

open Reasoning Crypto

theorem encode_of_decode {E : Ed25519} {p : EncodedAccountLog} {L : AccountLog E}
    (h : p.decode E = .ok L) : L.encode = .ok p :=
  encode_eq_ok_iff.mpr (decode_eq_ok_iff.mp h).1

/-- A payload within the size cap holds far fewer entries than a `u32` can count. -/
theorem length_lt_of_decode {E : Ed25519} {p : EncodedAccountLog} {L : AccountLog E}
    (h : p.decode E = .ok L) : L.entries.length < 2 ^ 32 := by
  have hsize := p.size
  have hentries := entryCodec.length_le_encodeAll_length L.entries
  rw [(decode_eq_ok_iff.mp h).1, List.length_append, maxPayloadBytes] at hsize
  omega

/-- Decoding then encoding gives back the very bytes, so no two byte strings mean the same log. -/
theorem decoding_is_canonical (E : Ed25519) (b : Bytes) (p : EncodedAccountLog) (L : AccountLog E)
    (hp : EncodedAccountLog.fromBytes b = .ok p) (hd : p.decode E = .ok L) :
    (∃ q, L.encode = .ok q ∧ q.bytes = b) ∧
      ∀ b' p', EncodedAccountLog.fromBytes b' = .ok p' → p'.decode E = .ok L → b' = b := by
  have hbytes := fromBytes_eq_ok_iff.mp hp
  refine ⟨⟨p, encode_of_decode hd, hbytes⟩, fun b' p' hp' hd' => ?_⟩
  have hsame : p' = p := by
    have henc := encode_of_decode hd'
    rw [encode_of_decode hd] at henc
    exact (Result.ok.inj henc).symm
  rw [← fromBytes_eq_ok_iff.mp hp', hsame, hbytes]

/-- The payload of an account that has endorsed nothing. -/
def freshPayload : EncodedAccountLog := ⟨accountLogDomain, by decide⟩

theorem decode_freshPayload (E : Ed25519) : freshPayload.decode E = .ok AccountLog.empty :=
  decode_eq_ok_iff.mpr ⟨rfl, nofun⟩

/-- An entry of an opcode no version defines yet, and its payload. -/
def unknownEntryLog : AccountLog Ed25519.sample :=
  ⟨[.unknown 0x03 [0xff]], ⟨[false], rfl⟩, rfl⟩

def unknownEntryPayload : EncodedAccountLog :=
  ⟨accountLogDomain ++ [0x03, 1, 0, 0xff], by decide⟩

theorem decode_unknownEntryPayload :
    unknownEntryPayload.decode Ed25519.sample = .ok unknownEntryLog :=
  decode_eq_ok_iff.mpr ⟨by decide, by
    intro entry hmem
    cases List.mem_singleton.mp hmem
    exact ⟨⟨by decide, by decide⟩, by decide, by decide⟩⟩

theorem decoding_is_canonical_unknown :
    (∃ q, unknownEntryLog.encode = .ok q ∧ q.bytes = accountLogDomain ++ [0x03, 1, 0, 0xff]) ∧
      ∀ b' p', EncodedAccountLog.fromBytes b' = .ok p' →
        p'.decode Ed25519.sample = .ok unknownEntryLog →
        b' = accountLogDomain ++ [0x03, 1, 0, 0xff] :=
  decoding_is_canonical Ed25519.sample (accountLogDomain ++ [0x03, 1, 0, 0xff])
    unknownEntryPayload unknownEntryLog (fromBytes_eq_ok_iff.mpr rfl) decode_unknownEntryPayload

/-! ## Freshness -/

theorem compare_eq_identical_iff (existing candidate : Bytes) :
    compareLogFreshness existing candidate = .identical ↔ candidate = existing := by
  unfold compareLogFreshness
  by_cases h : candidate = existing
  · simp [h]
  · simp only [if_neg h]
    split_ifs <;> simp [h]

theorem compare_eq_newer_iff (existing candidate : Bytes) :
    compareLogFreshness existing candidate = .newer ↔
      existing <+: candidate ∧ candidate ≠ existing := by
  unfold compareLogFreshness
  by_cases h : candidate = existing
  · simp [h]
  by_cases hpre : existing <+: candidate
  · have hlen : candidate.length > existing.length := by
      have hle := hpre.length_le
      rcases Nat.lt_or_ge existing.length candidate.length with hlt | hge
      · exact hlt
      · exact absurd (hpre.eq_of_length (by omega)).symm h
    simp [h, hpre, hlen]
  · simp only [if_neg h, hpre, false_and, if_false, iff_false]
    split_ifs <;> simp

theorem compare_eq_behind_iff (existing candidate : Bytes) :
    compareLogFreshness existing candidate = .behind ↔
      candidate <+: existing ∧ candidate ≠ existing := by
  unfold compareLogFreshness
  by_cases h : candidate = existing
  · simp [h]
  by_cases hback : candidate <+: existing
  · have hlen : ¬ (existing <+: candidate ∧ candidate.length > existing.length) := by
      have hle := hback.length_le
      intro hnew
      omega
    simp [h, hback, hlen]
  · simp only [if_neg h, hback, if_false, false_and, iff_false]
    split_ifs <;> simp

theorem compare_eq_diverged_iff (existing candidate : Bytes) :
    compareLogFreshness existing candidate = .diverged ↔
      ¬ existing <+: candidate ∧ ¬ candidate <+: existing := by
  have hid := compare_eq_identical_iff existing candidate
  have hnew := compare_eq_newer_iff existing candidate
  have hback := compare_eq_behind_iff existing candidate
  by_cases h : candidate = existing
  · rw [hid.mpr h, h]
    simp
  cases hc : compareLogFreshness existing candidate with
  | identical => exact absurd (hid.mp hc) h
  | newer => simp [(hnew.mp hc).1]
  | behind => simp [(hback.mp hc).1]
  | diverged =>
      simp only [hc, reduceCtorEq, false_iff, h, ne_eq, not_false_iff, and_true] at hnew hback
      simp [hnew, hback]

theorem payload_prefix_iff {E : Ed25519} {p q : EncodedAccountLog} {L M : AccountLog E}
    (hp : p.decode E = .ok L) (hq : q.decode E = .ok M) :
    p.bytes <+: q.bytes ↔ L.entries <+: M.entries := by
  rcases decode_eq_ok_iff.mp hp with ⟨hpb, hpf⟩
  rcases decode_eq_ok_iff.mp hq with ⟨hqb, hqf⟩
  rw [hpb, hqb, List.prefix_append_right_inj]
  exact entryCodec.encodeAll_prefix_iff hpf hqf

theorem payload_eq_iff {E : Ed25519} {p q : EncodedAccountLog} {L M : AccountLog E}
    (hp : p.decode E = .ok L) (hq : q.decode E = .ok M) :
    p.bytes = q.bytes ↔ L.entries = M.entries := by
  rcases decode_eq_ok_iff.mp hp with ⟨hpb, hpf⟩
  rcases decode_eq_ok_iff.mp hq with ⟨hqb, hqf⟩
  rw [hpb, hqb, List.append_cancel_left_eq]
  exact ⟨entryCodec.encodeAll_injective hpf hqf, fun h => by rw [h]⟩

/-- A store that compares payloads by byte prefix compares histories. -/
theorem freshness_compares_entries (E : Ed25519) (e c : EncodedAccountLog) (Le Lc : AccountLog E)
    (he : e.decode E = .ok Le) (hc : c.decode E = .ok Lc) :
    (compareLogFreshness e.bytes c.bytes = .identical ↔ Lc.entries = Le.entries) ∧
    (compareLogFreshness e.bytes c.bytes = .newer ↔
      Le.entries <+: Lc.entries ∧ Lc.entries ≠ Le.entries) ∧
    (compareLogFreshness e.bytes c.bytes = .behind ↔
      Lc.entries <+: Le.entries ∧ Lc.entries ≠ Le.entries) ∧
    (compareLogFreshness e.bytes c.bytes = .diverged ↔
      ¬ Le.entries <+: Lc.entries ∧ ¬ Lc.entries <+: Le.entries) := by
  rw [compare_eq_identical_iff, compare_eq_newer_iff, compare_eq_behind_iff,
    compare_eq_diverged_iff, payload_prefix_iff he hc, payload_prefix_iff hc he, ne_eq,
    payload_eq_iff hc he]
  exact ⟨Iff.rfl, Iff.rfl, Iff.rfl, Iff.rfl⟩

theorem freshness_compares_entries_unknown :
    compareLogFreshness freshPayload.bytes unknownEntryPayload.bytes = .newer ∧
      compareLogFreshness unknownEntryPayload.bytes freshPayload.bytes = .behind := by
  have hfresh := decode_freshPayload Ed25519.sample
  have hnewer := freshness_compares_entries _ _ _ _ _ hfresh decode_unknownEntryPayload
  have hbehind := freshness_compares_entries _ _ _ _ _ decode_unknownEntryPayload hfresh
  exact ⟨hnewer.2.1.mpr ⟨List.nil_prefix, by decide⟩,
    hbehind.2.2.1.mpr ⟨List.nil_prefix, by decide⟩⟩

end LogosChat.Accounts
