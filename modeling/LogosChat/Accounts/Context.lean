import LogosChat.Crypto

/-!
# Contexts

The label an `Add` entry carries saying what the endorsement is for, `<namespace>.<label>`.  The
validator works on a fixed buffer with explicit index loops; the loops are modelled with their
bounds, so that running off either buffer would show as a panic.
-/

namespace LogosChat.Accounts

open Reasoning Crypto

/-- Failures building, decoding, or verifying an account log. -/
inductive AccountLogError where
  | malformed (detail : String)
  | invalidContext (detail : String)
  | tooLarge (limit : Nat)
  | version (version : String)
  | signatureInvalid
deriving DecidableEq, Repr

/-- `From<Ed25519Error>`: a refused key is a malformed log, a refused signature stays one. -/
def AccountLogError.ofEd25519 : Ed25519Error → AccountLogError
  | .malformedKey what => .malformed what
  | .signatureInvalid => .signatureInvalid

/-- Longest namespace and label, in octets. -/
def maxNamespace : Nat := 16
def maxLabel : Nat := 64
def maxContext : Nat := maxNamespace + 1 + maxLabel

def isAsciiLowercase (b : UInt8) : Bool := 0x61 ≤ b && b ≤ 0x7a
def isAsciiDigit (b : UInt8) : Bool := 0x30 ≤ b && b ≤ 0x39
def hyphen : UInt8 := 0x2d
def fullStop : UInt8 := 0x2e

def namespaceOctet (b : UInt8) : Bool := isAsciiLowercase b || isAsciiDigit b || b == hyphen
def labelOctet (b : UInt8) : Bool := namespaceOctet b || b == fullStop

/-- The two private fields of a `Context`, before anything is known about them. -/
structure ContextBuf where
  buf : Vector UInt8 maxContext
  len : UInt8
deriving DecidableEq

/-! ## The loops -/

/-- The search for the first full stop; `none` is the `usize::MAX` sentinel.  The first argument
counts the iterations left. -/
def findFullStop (context : Bytes) : Nat → Nat → Result String (Option Nat)
  | 0, _ => .ok none
  | n + 1, i => do
      let b ← Result.index context i
      if b = fullStop then .ok (some i) else findFullStop context n (i + 1)

/-- The two charset loops. -/
def checkOctets (allowed : UInt8 → Bool) (detail : String) (octets : Bytes) :
    Nat → Nat → Result String Unit
  | 0, _ => .ok ()
  | n + 1, i => do
      let b ← Result.index octets i
      if !allowed b then .err detail else checkOctets allowed detail octets n (i + 1)

/-- `while i < context.len() { buf[i] = context[i]; i += 1 }`. -/
def copyInto (context : Bytes) :
    Nat → Nat → Vector UInt8 maxContext → Result String (Vector UInt8 maxContext)
  | 0, _, buf => .ok buf
  | n + 1, i, buf => do
      let b ← Result.index context i
      if h : i < maxContext then copyInto context n (i + 1) (buf.set i b h) else .panic

/-- The rule, shared by both constructors.  `Err` carries the detail. -/
def ContextBuf.checked (context : Bytes) : Result String ContextBuf := do
  match ← findFullStop context context.length 0 with
  | none => .err "must contain a '.' separating namespace from label"
  | some dot =>
      let (nspace, _) ← Result.splitAt context dot
      let (_, label) ← Result.splitAt context (dot + 1)
      if nspace.isEmpty || maxNamespace < nspace.length then
        .err "namespace must be 1-16 octets"
      else if label.isEmpty || maxLabel < label.length then
        .err "label must be 1-64 octets"
      else
        let n0 ← Result.index nspace 0
        if !isAsciiLowercase n0 then .err "namespace must begin with a-z" else
        let l0 ← Result.index label 0
        if !isAsciiLowercase l0 then .err "label must begin with a-z" else
        let _ ← checkOctets namespaceOctet "namespace must be a-z 0-9 - only" nspace nspace.length 0
        let _ ← checkOctets labelOctet "label must be a-z 0-9 - . only" label label.length 0
        let buf ← copyInto context context.length 0 (Vector.replicate maxContext 0)
        .ok { buf := buf, len := UInt8.ofNat context.length }

/-- `self.buf.split_at(self.len as usize).0`. -/
def ContextBuf.asBytes (c : ContextBuf) : Result Infallible Bytes := do
  let (bytes, _) ← Result.splitAt c.buf.toList c.len.toNat
  .ok bytes

/-! ## What the loops compute -/

theorem findFullStop_eq (context : Bytes) (n i : Nat) (h : i + n = context.length) :
    findFullStop context n i =
      .ok (((context.drop i).findIdx? (· == fullStop)).map (· + i)) := by
  induction n generalizing i with
  | zero => rw [List.drop_eq_nil_of_le (by omega)]; rfl
  | succ n ih =>
      have hi : i < context.length := by omega
      rw [findFullStop, Result.index_of_lt hi, Result.ok_bind, List.drop_eq_getElem_cons hi,
        List.findIdx?_cons]
      by_cases hstop : context[i] = fullStop
      · simp [hstop]
      · rw [if_neg hstop, ih (i + 1) (by omega), if_neg (by simpa using hstop), Option.map_map]
        congr 2
        funext k
        simp only [Function.comp_apply]
        omega

theorem checkOctets_eq (allowed : UInt8 → Bool) (detail : String) (octets : Bytes) (n i : Nat)
    (h : i + n = octets.length) :
    checkOctets allowed detail octets n i =
      if (octets.drop i).all allowed then .ok () else .err detail := by
  induction n generalizing i with
  | zero => rw [List.drop_eq_nil_of_le (by omega)]; rfl
  | succ n ih =>
      have hi : i < octets.length := by omega
      rw [checkOctets, Result.index_of_lt hi, Result.ok_bind, List.drop_eq_getElem_cons hi,
        List.all_cons]
      by_cases hb : allowed octets[i] = true
      · simp [hb, ih (i + 1) (by omega)]
      · simp [hb]

/-- The copy fills the buffer from the front and leaves the rest as it was. -/
theorem copyInto_eq (context : Bytes) (n i : Nat) (buf : Vector UInt8 maxContext)
    (h : i + n = context.length) (hfit : context.length ≤ maxContext) :
    ∃ out, copyInto context n i buf = .ok out ∧
      out.toList = buf.toList.take i ++ context.drop i ++ buf.toList.drop context.length := by
  induction n generalizing i buf with
  | zero =>
      refine ⟨buf, rfl, ?_⟩
      have hi : i = context.length := by omega
      rw [List.drop_eq_nil_of_le (by omega), List.append_nil, hi, List.take_append_drop]
  | succ n ih =>
      have hi : i < context.length := by omega
      have hbuf : i < maxContext := by omega
      rcases ih (i + 1) (buf.set i context[i] hbuf) (by omega) with ⟨out, hout, hlist⟩
      refine ⟨out, by rw [copyInto, Result.index_of_lt hi, Result.ok_bind, dif_pos hbuf, hout], ?_⟩
      have hlen : i < buf.toList.length := by simpa using hbuf
      have hmin : i - min i maxContext = 0 := by omega
      rw [hlist, Vector.toList_set, List.drop_set_of_lt (by omega), List.take_set,
        List.take_succ_eq_append_getElem hlen, List.set_append_right _ _ (List.length_take_le i _)]
      simp [hmin]

/-! ## The rule -/

/-- One of the two parts: neither empty nor too long, in its charset, and beginning with a letter. -/
structure IsPart (allowed : UInt8 → Bool) (limit : Nat) (octets : Bytes) : Prop where
  pos : 0 < octets.length
  le : octets.length ≤ limit
  letter : octets.head?.any isAsciiLowercase = true
  charset : octets.all allowed = true

/-- `<namespace>.<label>`, split at the first full stop. -/
def IsContext (context : Bytes) : Prop :=
  ∃ nspace label, context = nspace ++ fullStop :: label ∧ fullStop ∉ nspace ∧
    IsPart namespaceOctet maxNamespace nspace ∧ IsPart labelOctet maxLabel label

section Parts

variable {allowed : UInt8 → Bool} {limit : Nat} {octets : Bytes}

theorem IsPart.size_ok (h : IsPart allowed limit octets) :
    ¬ (octets.isEmpty || decide (limit < octets.length)) = true := by
  have hpos := h.pos
  have hle := h.le
  simp only [Bool.or_eq_true, List.isEmpty_iff_length_eq_zero, decide_eq_true_eq]
  omega

theorem IsPart.letter_ok (h : IsPart allowed limit octets) (hpos : 0 < octets.length) :
    ¬ (!isAsciiLowercase octets[0]) = true := by
  have hletter := h.letter
  rw [List.head?_eq_getElem?, List.getElem?_eq_getElem hpos, Option.any_some] at hletter
  simp [hletter]

/-- A part that passes the four checks of the code is one. -/
theorem IsPart.of_checks (hsize : ¬ (octets.isEmpty || decide (limit < octets.length)) = true)
    (hpos : 0 < octets.length) (hletter : ¬ (!isAsciiLowercase octets[0]) = true)
    (hall : octets.all allowed = true) : IsPart allowed limit octets := by
  simp only [Bool.or_eq_true, List.isEmpty_iff_length_eq_zero, decide_eq_true_eq, not_or] at hsize
  refine ⟨hpos, by omega, ?_, hall⟩
  rw [List.head?_eq_getElem?, List.getElem?_eq_getElem hpos, Option.any_some]
  simpa using hletter

end Parts

theorem not_isContext_of_findIdx_none {context : Bytes}
    (h : context.findIdx? (· == fullStop) = none) : ¬ IsContext context := by
  rintro ⟨nspace, label, rfl, -⟩
  have hstop := List.findIdx?_eq_none_iff.mp h fullStop (by simp)
  simp at hstop

/-- With the first full stop found, the parts are what stands before it and what stands after it. -/
theorem isContext_iff_of_findIdx {context : Bytes} {dot : Nat}
    (h : context.findIdx? (· == fullStop) = some dot) :
    IsContext context ↔ IsPart namespaceOctet maxNamespace (context.take dot) ∧
      IsPart labelOctet maxLabel (context.drop (dot + 1)) := by
  obtain ⟨hlt, hdot, hbefore⟩ := List.findIdx?_eq_some_iff_getElem.mp h
  have hstop : context[dot] = fullStop := by simpa using hdot
  constructor
  · rintro ⟨nspace, label, rfl, hfirst, hnspace, hlabel⟩
    have hlength : dot = nspace.length := by
      rcases Nat.lt_trichotomy dot nspace.length with hless | heq | hmore
      · rw [List.getElem_append_left hless] at hstop
        exact absurd (hstop ▸ List.getElem_mem hless) hfirst
      · exact heq
      · have hnot := hbefore nspace.length hmore
        simp at hnot
    subst hlength
    rw [List.take_left, List.drop_append, List.drop_of_length_le (by omega)]
    simpa using ⟨hnspace, hlabel⟩
  · rintro ⟨hnspace, hlabel⟩
    refine ⟨_, _, ?_, ?_, hnspace, hlabel⟩
    · rw [← hstop, List.getElem_cons_drop, List.take_append_drop]
    · intro hmem
      obtain ⟨i, hi, hget⟩ := List.mem_take_iff_getElem.mp hmem
      have hnot := hbefore i (by omega)
      simp [hget] at hnot

theorem IsContext.length {context : Bytes} (h : IsContext context) :
    0 < context.length ∧ context.length ≤ maxContext := by
  obtain ⟨nspace, label, rfl, -, hnspace, hlabel⟩ := h
  have hn := hnspace.le
  have hl := hlabel.le
  rw [List.length_append, List.length_cons]
  unfold maxContext
  omega

/-! ## The validator -/

/-- The buffer a context of these bytes is stored in. -/
def padded (context : Bytes) : Bytes :=
  context ++ List.replicate (maxContext - context.length) 0

/-- The validator never panics, it accepts what is a context, and stores that byte for byte. -/
theorem checked_cases (context : Bytes) :
    ((∃ detail, ContextBuf.checked context = .err detail) ∧ ¬ IsContext context) ∨
      IsContext context ∧ ∃ c, ContextBuf.checked context = .ok c ∧
        c.len = UInt8.ofNat context.length ∧ c.buf.toList = padded context := by
  unfold ContextBuf.checked
  rw [findFullStop_eq context _ _ (by omega), List.drop_zero, Result.ok_bind]
  cases hdot : context.findIdx? (· == fullStop) with
  | none => exact .inl ⟨⟨_, rfl⟩, not_isContext_of_findIdx_none hdot⟩
  | some dot =>
      have hlt : dot < context.length := (List.findIdx?_eq_some_iff_findIdx_eq.mp hdot).1
      simp only [Option.map_some, Nat.add_zero]
      rw [Result.splitAt_of_le (by omega), Result.ok_bind, Result.splitAt_of_le (by omega),
        Result.ok_bind, isContext_iff_of_findIdx hdot]
      dsimp only
      generalize hnspace : context.take dot = nspace
      generalize hlabel : context.drop (dot + 1) = label
      have hsum : context.length = nspace.length + (label.length + 1) := by
        rw [← hnspace, ← hlabel, List.length_take, List.length_drop]
        omega
      -- every rejected rule is an error; the branch left is the one that copies
      by_cases hns : (nspace.isEmpty || decide (maxNamespace < nspace.length)) = true
      · exact .inl ⟨⟨_, if_pos hns⟩, fun h ↦ h.1.size_ok hns⟩
      rw [if_neg hns]
      by_cases hls : (label.isEmpty || decide (maxLabel < label.length)) = true
      · exact .inl ⟨⟨_, if_pos hls⟩, fun h ↦ h.2.size_ok hls⟩
      rw [if_neg hls]
      have hnpos : 0 < nspace.length := by
        rw [List.length_pos_iff_ne_nil]
        rintro rfl
        exact hns rfl
      have hlpos : 0 < label.length := by
        rw [List.length_pos_iff_ne_nil]
        rintro rfl
        exact hls rfl
      rw [Result.index_of_lt hnpos, Result.ok_bind]
      by_cases hn0 : (!isAsciiLowercase nspace[0]) = true
      · exact .inl ⟨⟨_, if_pos hn0⟩, fun h ↦ h.1.letter_ok hnpos hn0⟩
      rw [if_neg hn0, Result.index_of_lt hlpos, Result.ok_bind]
      by_cases hl0 : (!isAsciiLowercase label[0]) = true
      · exact .inl ⟨⟨_, if_pos hl0⟩, fun h ↦ h.2.letter_ok hlpos hl0⟩
      rw [if_neg hl0, checkOctets_eq _ _ _ _ _ (by omega), checkOctets_eq _ _ _ _ _ (by omega),
        List.drop_zero, List.drop_zero]
      by_cases hna : nspace.all namespaceOctet = true
      · rw [if_pos hna, Result.ok_bind]
        by_cases hla : label.all labelOctet = true
        · rw [if_pos hla, Result.ok_bind]
          have hparts : IsPart namespaceOctet maxNamespace nspace ∧ IsPart labelOctet maxLabel label :=
            ⟨.of_checks hns hnpos hn0 hna, .of_checks hls hlpos hl0 hla⟩
          have hfit : context.length ≤ maxContext := by
            have hn := hparts.1.le
            have hl := hparts.2.le
            unfold maxContext
            omega
          obtain ⟨buf, hbuf, hlist⟩ :=
            copyInto_eq context context.length 0 (Vector.replicate maxContext 0) (by omega) hfit
          refine .inr ⟨hparts, _, by rw [hbuf, Result.ok_bind], rfl, ?_⟩
          rw [hlist]
          simp [padded]
        · exact .inl ⟨⟨_, by rw [if_neg hla, Result.err_bind]⟩, fun h ↦ hla h.2.charset⟩
      · exact .inl ⟨⟨_, by rw [if_neg hna, Result.err_bind]⟩, fun h ↦ hna h.1.charset⟩

theorem checked_ne_panic (context : Bytes) : ContextBuf.checked context ≠ .panic := by
  rcases checked_cases context with ⟨⟨_, h⟩, -⟩ | ⟨-, _, h, -⟩ <;> simp [h]

theorem checked_isOk_iff (context : Bytes) :
    (∃ c, ContextBuf.checked context = .ok c) ↔ IsContext context := by
  rcases checked_cases context with ⟨⟨_, h⟩, hnot⟩ | ⟨hcontext, c, h, -⟩
  · simp [h, hnot]
  · exact ⟨fun _ ↦ hcontext, fun _ ↦ ⟨c, h⟩⟩

theorem asBytes_of_checked {context : Bytes} {c : ContextBuf}
    (h : ContextBuf.checked context = .ok c) :
    c.asBytes = .ok context ∧ 0 < context.length ∧ context.length ≤ maxContext := by
  rcases checked_cases context with ⟨⟨_, herr⟩, -⟩ | ⟨hcontext, c', hok, hlen, hbuf⟩
  · rw [herr] at h
    cases h
  · rw [hok] at h
    cases h
    have hfit := hcontext.length.2
    refine ⟨?_, hcontext.length⟩
    have hnat : c.len.toNat = context.length := by
      rw [hlen, UInt8.toNat_ofNat']
      exact Nat.mod_eq_of_lt (Nat.lt_of_le_of_lt hfit (by decide))
    rw [ContextBuf.asBytes, hnat, Result.splitAt_of_le (by simpa using hfit), Result.ok_bind, hbuf]
    simp [padded]

/-- The bytes are read back from the fields, so equal fields come from equal bytes. -/
theorem checked_inj {context other : Bytes} {c d : ContextBuf}
    (hc : ContextBuf.checked context = .ok c) (hd : ContextBuf.checked other = .ok d) :
    c = d ↔ context = other := by
  constructor
  · rintro rfl
    have hbytes := (asBytes_of_checked hc).1.symm.trans (asBytes_of_checked hd).1
    exact Result.ok.inj hbytes
  · rintro rfl
    exact Result.ok.inj (hc.symm.trans hd)

/-- `checked` stays inside its buffers and accepts exactly the contexts; what it accepts reads back as it
was given, and is the same context only if it was the same bytes. -/
theorem checked_accepts_contexts (context : Bytes) :
    ContextBuf.checked context ≠ .panic ∧
    ((∃ c, ContextBuf.checked context = .ok c) ↔ IsContext context) ∧
    (∀ c, ContextBuf.checked context = .ok c → c.asBytes = .ok context) ∧
    (∀ other c d, ContextBuf.checked context = .ok c → ContextBuf.checked other = .ok d →
      (c = d ↔ context = other)) :=
  ⟨checked_ne_panic context, checked_isOk_iff context, fun _ h ↦ (asBytes_of_checked h).1,
    fun _ _ _ ↦ checked_inj⟩

/-! ## Validated contexts -/

/-- A validated context: the fields are private, so every one came out of `checked`. -/
structure Context where
  raw : ContextBuf
  built : ∃ bytes, ContextBuf.checked bytes = .ok raw

namespace Context

@[ext] theorem ext {c d : Context} (h : c.raw = d.raw) : c = d := by
  cases c
  cases d
  subst h
  rfl

instance : DecidableEq Context := fun c d =>
  decidable_of_iff (c.raw = d.raw) ⟨Context.ext, fun h => h ▸ rfl⟩

/-- `Context::from_bytes`. -/
def fromBytes (context : Bytes) : Result AccountLogError Context :=
  match h : ContextBuf.checked context with
  | .ok c => .ok ⟨c, context, h⟩
  | .err detail =>
      .err (.invalidContext ("context " ++ fromUtf8Lossy context ++ ": " ++ detail))
  | .panic => .panic

/-- `Context::literal`: a context known at compile time, where an invalid one fails the build. -/
def literal (text : String) (h : (ContextBuf.checked (utf8 text)).isOk = true) : Context :=
  match hc : ContextBuf.checked (utf8 text), h with
  | .ok c, _ => ⟨c, utf8 text, hc⟩

theorem chatSigner_isOk : (ContextBuf.checked (utf8 "chat.signer")).isOk = true := by decide

theorem displayName_isOk : (ContextBuf.checked (utf8 "profile.displayname")).isOk = true := by decide

theorem ab_isOk : (ContextBuf.checked (utf8 "a.b")).isOk = true := by decide

/-- The encoded form, at most `maxContext` bytes. -/
def asBytes (c : Context) : Bytes :=
  c.raw.buf.toList.take c.raw.len.toNat

/-- The split behind `as_bytes` stays inside the buffer. -/
theorem raw_asBytes (c : Context) : c.raw.asBytes = .ok c.asBytes := by
  rcases c.built with ⟨bytes, hbuilt⟩
  have h := (asBytes_of_checked hbuilt).1
  rw [ContextBuf.asBytes, Result.bind_eq_ok] at h
  rcases h with ⟨⟨front, back⟩, hsplit, -⟩
  unfold Result.splitAt at hsplit
  by_cases hle : c.raw.len.toNat ≤ c.raw.buf.toList.length
  · rw [ContextBuf.asBytes, Result.splitAt_of_le hle]
    rfl
  · rw [if_neg hle] at hsplit
    cases hsplit

theorem checked_asBytes (c : Context) : ContextBuf.checked c.asBytes = .ok c.raw := by
  rcases c.built with ⟨bytes, hbuilt⟩
  have h := (asBytes_of_checked hbuilt).1
  rw [c.raw_asBytes] at h
  cases h
  exact hbuilt

theorem asBytes_length (c : Context) : 0 < c.asBytes.length ∧ c.asBytes.length ≤ maxContext :=
  (asBytes_of_checked c.checked_asBytes).2

/-- A context is parsed from exactly the bytes it encodes to. -/
theorem fromBytes_eq_ok_iff {bytes : Bytes} {c : Context} :
    fromBytes bytes = .ok c ↔ c.asBytes = bytes := by
  have hback (h : c.asBytes = bytes) : ContextBuf.checked bytes = .ok c.raw := by
    rw [← h]
    exact c.checked_asBytes
  unfold fromBytes
  split
  · rename_i raw hraw
    rw [Result.ok.injEq]
    refine ⟨fun h => ?_, fun h => Context.ext ?_⟩
    · have hbytes := (asBytes_of_checked hraw).1
      subst h
      rw [Context.raw_asBytes ⟨raw, bytes, hraw⟩] at hbytes
      exact Result.ok.inj hbytes
    · rw [hback h] at hraw
      exact (Result.ok.inj hraw).symm
  · rename_i detail herr
    refine ⟨nofun, fun h => ?_⟩
    rw [hback h] at herr
    cases herr
  · rename_i hpanic
    exact absurd hpanic (checked_ne_panic bytes)

@[simp] theorem fromBytes_asBytes (c : Context) : fromBytes c.asBytes = .ok c :=
  fromBytes_eq_ok_iff.mpr rfl

theorem fromBytes_failsIn (bytes : Bytes) : (fromBytes bytes).FailsIn (· ≠ .signatureInvalid) := by
  unfold fromBytes
  split
  · simp
  · simp
  · rename_i hpanic
    exact absurd hpanic (checked_ne_panic bytes)

end Context

end LogosChat.Accounts
