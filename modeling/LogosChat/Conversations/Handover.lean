import LogosChat.Conversations.Frame
import LogosChat.Conversations.GroupV1Commits
import LogosChat.Conversations.GroupV2Invites

/-!
# What an add hands to MLS

An add asks the registry for each signer that is new, once and in order, and stops at the first one
it does not admit.  Only when all are admitted does it hand their packages on; and only then does it
publish anything.
-/

namespace LogosChat.Conversations

open Reasoning

variable {P : Platform}

section

variable {C : Type} {cx cx' : ServiceContext P} {kind : GroupKind} {signers : List SignerKey}
  {outstanding : SignerKey → Prop}

/-! ## What is on offer -/

/-- What a kind's own pipeline makes of a signer: the package it hands to MLS, and whose it is. -/
def GroupKind.offer (kind : GroupKind) (cx : ServiceContext P) (signer : SignerKey) :
    Result ChatError (Handed × Signer) :=
  match kind with
  | .v1 => do
      let keyPackage ← admitted GroupV1.missing (GroupV1.vet P) cx signer
      .ok (.keyPackage keyPackage, keyPackage.signer)
  | .v2 => do
      let m ← admitted noKeyPackage (GroupV2.vet P) cx signer
      .ok (GroupV2.handedMember m)
  | .v3 => do
      let keyPackage ← admitted noKeyPackage (GroupV3.vet P) cx signer
      .ok (.keyPackage keyPackage, keyPackage.signer)

/-- The signers and what they have on offer, one by one. -/
abbrev Offered (kind : GroupKind) (cx : ServiceContext P) :
    List SignerKey → List (Handed × Signer) → Prop :=
  List.Forall₂ fun signer item ↦ kind.offer cx signer = .ok item

/-- One of these signers has nothing on offer. -/
def Refuses (kind : GroupKind) (cx : ServiceContext P) (asked : List SignerKey) : Prop :=
  ∃ signer ∈ asked, ∀ item, kind.offer cx signer ≠ .ok item

theorem Offered.not_refuses {items : List (Handed × Signer)} (h : Offered kind cx signers items) :
    ¬ Refuses kind cx signers := by
  rintro ⟨signer, hmem, hnone⟩
  obtain ⟨item, -, hoffer⟩ := Call.exists_of_mem_left h hmem
  exact hnone item hoffer

theorem offered_map {β : Type} {missing : SignerKey → ChatError}
    {vet : AuthService → SignerKey → Bytes → Result ChatError β} {entry : β → Handed × Signer}
    {members : List β} (hoffer : ∀ signer, kind.offer cx signer =
      (admitted missing vet cx signer >>= fun m ↦ .ok (entry m)))
    (h : List.Forall₂ (fun signer m ↦ admitted missing vet cx signer = .ok m) signers members) :
    Offered kind cx signers (members.map entry) := by
  rw [Offered, List.forall₂_map_right_iff]
  apply h.imp
  intro signer m hm
  rw [hoffer, hm, Result.ok_bind]

theorem refuses_of_err {β : Type} {missing : SignerKey → ChatError}
    {vet : AuthService → SignerKey → Bytes → Result ChatError β} {entry : β → Handed × Signer}
    {before rest : List SignerKey} {signer : SignerKey} {e : ChatError}
    (hoffer : ∀ signer, kind.offer cx signer =
      (admitted missing vet cx signer >>= fun m ↦ .ok (entry m)))
    (h : admitted missing vet cx signer = .err e) (hsplit : signers = before ++ signer :: rest) :
    Refuses kind cx signers := by
  have hmem : signer ∈ signers := by
    rw [hsplit]
    exact List.mem_append_right _ List.mem_cons_self
  refine ⟨signer, hmem, fun item hitem ↦ ?_⟩
  rw [hoffer, h] at hitem
  cases hitem

/-- How a kind reads the bytes of a package. -/
def GroupKind.parse (M : OpenMls) : GroupKind → Bytes → Except String M.KeyPackageIn
  | .v1 => M.tlsDeserialize
  | .v2 => M.tlsDeserialize
  | .v3 => M.tlsDeserializeExact

/-- What a kind hands to MLS of a package it has read. -/
def GroupKind.package : GroupKind → Bytes → KeyPackage → Handed
  | .v1, _, keyPackage => .keyPackage keyPackage
  | .v2, bytes, _ => .encoded bytes
  | .v3, _, keyPackage => .keyPackage keyPackage

/-- What is on offer has been vetted; all kinds but one look at the length of its HPKE key. -/
theorem GroupKind.offer_vetted {signer : SignerKey} {item : Handed × Signer}
    (h : kind.offer cx signer = .ok item) :
    ∃ bytes keyPackage, Vetted (kind.parse P.mls) cx signer bytes keyPackage ∧
      item = (kind.package bytes keyPackage, keyPackage.signer) ∧
      (kind ≠ .v3 → keyPackage.hpkeInitKey.length = hpkePublicKeyLen) := by
  cases kind with
  | v1 =>
      obtain ⟨keyPackage, hadmitted, hitem⟩ := Result.bind_eq_ok.mp h
      obtain ⟨⟨bytes, hvetted⟩, hlength⟩ := GroupV1.vetted hadmitted
      cases hitem
      exact ⟨bytes, keyPackage, hvetted, rfl, fun _ ↦ hlength⟩
  | v2 =>
      obtain ⟨m, hadmitted, hitem⟩ := Result.bind_eq_ok.mp h
      obtain ⟨keyPackage, hvetted, hsigner, -, hlength⟩ := GroupV2.vetted hadmitted
      cases hitem
      exact ⟨m.keyPackage, keyPackage, hvetted, by rw [hsigner]; rfl, fun _ ↦ hlength⟩
  | v3 =>
      obtain ⟨keyPackage, hadmitted, hitem⟩ := Result.bind_eq_ok.mp h
      obtain ⟨bytes, hvetted⟩ := GroupV3.vetted hadmitted
      cases hitem
      exact ⟨bytes, keyPackage, hvetted, rfl, fun hkind ↦ absurd rfl hkind⟩

/-- An offer that is made is bound to its signer. -/
theorem GroupKind.offer_signer {signer : SignerKey} {item : Handed × Signer}
    (h : kind.offer cx signer = .ok item) : item.2.signer = signer := by
  obtain ⟨bytes, keyPackage, hvetted, rfl, -⟩ := GroupKind.offer_vetted h
  exact congrArg SignerKey.mk hvetted.bound

theorem Offered.keys {items : List (Handed × Signer)} (h : Offered kind cx signers items) :
    items.map (·.2.signer) = signers := by
  induction h with
  | nil => rfl
  | cons hoffer _ ih => rw [List.map_cons, GroupKind.offer_signer hoffer, ih]

theorem Offered.mem {items : List (Handed × Signer)} (h : Offered kind cx signers items)
    {item : Handed × Signer} (hmem : item ∈ items) : kind.offer cx item.2.signer = .ok item := by
  induction h with
  | nil => cases hmem
  | cons hoffer _ ih =>
      obtain rfl | hmem := List.mem_cons.mp hmem
      · rw [GroupKind.offer_signer hoffer, hoffer]
      · exact ih hmem

/-- Some of the offers are still the offers of their signers. -/
theorem Offered.sublist {items some : List (Handed × Signer)} (h : Offered kind cx signers items)
    (hsub : some.Sublist items) : Offered kind cx (some.map (·.2.signer)) some := by
  rw [Offered, List.forall₂_map_left_iff, List.forall₂_same]
  exact fun item hmem ↦ h.mem (hsub.subset hmem)

/-! ## Handing over -/

/-- From `cx` to `cx'` the registry was asked for `asked`, the packages of `kept` passed to MLS, and
invites were sent to those of `kept` or outstanding; when one of those asked for has nothing on
offer, nothing passed and nothing was sent. -/
structure Handover (kind : GroupKind) (signers : List SignerKey) (outstanding : SignerKey → Prop)
    (cx cx' : ServiceContext P) (asked kept : List SignerKey) (items : List (Handed × Signer)) :
    Prop where
  order : asked.Sublist (firstSeen signers)
  picked : kept.Sublist asked
  offered : Offered kind cx kept items
  publishes : Publishes (fun signer ↦ outstanding signer ∨ signer ∈ kept)
    ((cx.askedFor asked).handing items) cx'
  refused : Refuses kind cx asked → cx' = cx.askedFor asked

theorem handover_idle : Handover kind signers outstanding cx cx [] [] [] where
  order := List.nil_sublist _
  picked := List.nil_sublist _
  offered := .nil
  publishes := by
    rw [ServiceContext.askedFor_nil, ServiceContext.handing_nil]
    exact refl cx
  refused _ := by rw [ServiceContext.askedFor_nil]

/-- A fetch that ends at `signer`. -/
theorem handover_refused {fresh before after : List SignerKey} {signer : SignerKey}
    (hfresh : fresh.Sublist (firstSeen signers)) (hsplit : fresh = before ++ signer :: after) :
    Handover kind signers outstanding cx (cx.askedFor (before ++ [signer])) (before ++ [signer]) [] [] where
  order := by
    refine List.Sublist.trans ?_ hfresh
    rw [hsplit, List.append_cons before signer after]
    exact List.sublist_append_left _ _
  picked := List.nil_sublist _
  offered := .nil
  publishes := by
    rw [ServiceContext.handing_nil]
    exact refl _
  refused _ := rfl

/-- A fetch that succeeds, and what follows it. -/
theorem handover_fetched {fresh kept : List SignerKey} {all items : List (Handed × Signer)}
    (hfresh : fresh.Sublist (firstSeen signers)) (hall : Offered kind cx fresh all)
    (hkept : kept.Sublist fresh) (hitems : Offered kind cx kept items)
    (h : Publishes (fun signer ↦ outstanding signer ∨ signer ∈ kept)
      ((cx.askedFor fresh).handing items) cx') :
    Handover kind signers outstanding cx cx' fresh kept items where
  order := hfresh
  picked := hkept
  offered := hitems
  publishes := h
  refused hrefuses := absurd hrefuses hall.not_refuses

/-- An add on a conversation in which `seated` are seated: whoever it hands over is new to the
conversation, and a refused fetch leaves the conversation alone. -/
structure Invites (kind : GroupKind) (outstanding : C → SignerKey → Prop) (seated : List SignerKey)
    (signers : List SignerKey) (s : InSession P C) (after : Result ChatError Unit × InSession P C)
    (asked kept : List SignerKey) (items : List (Handed × Signer)) : Prop
    extends Handover kind signers (outstanding s.convo) s.cx after.2.cx asked kept items where
  still : ∀ signer, outstanding after.2.convo signer → outstanding s.convo signer ∨ signer ∈ kept
  fresh : ∀ signer ∈ kept, signer ∉ seated
  failed : Refuses kind s.cx asked → (∃ e, after.1 = .err e) ∧ after.2.convo = s.convo

/-- A call that ends before anything is fetched. -/
theorem invites_idle {outstanding : C → SignerKey → Prop} {seated : List SignerKey}
    {s : InSession P C} {r : Result ChatError Unit} :
    Invites kind outstanding seated signers s (r, s) [] [] [] where
  toHandover := handover_idle
  still _ h := .inl h
  fresh := nofun
  failed h := by
    obtain ⟨signer, hmem, -⟩ := h
    cases hmem

/-- A fetch that ends at `signer` ends the call. -/
theorem invites_refused {outstanding : C → SignerKey → Prop} {seated fresh before rest : List SignerKey}
    {signer : SignerKey} {s : InSession P C} {e : ChatError}
    (hfresh : fresh.Sublist (firstSeen signers)) (hsplit : fresh = before ++ signer :: rest) :
    Invites kind outstanding seated signers s
      (.err e, { s with cx := s.cx.askedFor (before ++ [signer]) }) (before ++ [signer]) [] [] where
  toHandover := handover_refused hfresh hsplit
  still _ h := .inl h
  fresh := nofun
  failed _ := ⟨⟨e, rfl⟩, rfl⟩

end

/-! ### GroupV1 -/

namespace GroupV1

theorem addSigner_invites (members : List SignerKey) (s : InSession P (GroupV1Convo P)) :
    ∃ asked kept items, Invites .v1 nobody (groupOf s).seated members s (addSigner members s)
      asked kept items := by
  by_cases hshort : 50 < members.length
  · rw [addSigner_of_long hshort]
    exact ⟨[], [], [], invites_idle⟩
  by_cases hempty : keepNew (groupOf s).seated members = []
  · rw [addSigner_of_nobody hshort hempty]
    exact ⟨[], [], [], invites_idle⟩
  have hsub := keepNew_sublist (groupOf s).seated members
  obtain ⟨keyPackages, hall, hfetch⟩ | ⟨before, signer, rest, e, hsplit, -, hfetch⟩ :=
    fetch_cases (keepNew (groupOf s).seated members) s.cx
  · rw [addSigner_of_fetched hshort hempty hfetch]
    have hoffered : Offered .v1 s.cx _ _ := offered_map (fun _ ↦ rfl) hall
    -- all that follows publishes welcomes to the new members only
    have hrest : Call.Keeps
        (Minds nobody fun signer ↦ False ∨ signer ∈ keepNew (groupOf s).seated members)
        ((onGroup (MlsGroup.addMembers P.mls keyPackages)).mapErr ChatError.generic >>=
          fun messages ↦ mergePendingCommit >>= fun _ ↦
            announce (keepNew (groupOf s).seated members) messages.1 messages.2) := by
      refine (minds_onGroup _).mapErr.bind fun messages ↦ ?_
      refine (minds_onGroup _).mapErr.bind fun _ ↦ ?_
      exact minds_announce (fun _ hmem ↦ .inr hmem) _ _
    obtain ⟨-, hpublishes⟩ := hrest ⟨s.convo, _⟩ nofun
    refine ⟨_, _, _, handover_fetched hsub hoffered (.refl _) hoffered hpublishes, nofun, ?_, ?_⟩
    · exact fun signer hmem ↦ (mem_keepNew.mp hmem).2
    · exact fun hrefuses ↦ absurd hrefuses hoffered.not_refuses
  · rw [addSigner_of_refused hshort hempty hfetch]
    exact ⟨_, _, _, invites_refused hsub hsplit⟩

end GroupV1

/-! ### GroupV3 -/

namespace GroupV3

abbrev groupOf (s : InSession P (GroupV3Convo P)) : MlsGroup P.mls.Secrets := s.convo.mlsGroup

theorem signers_eq_ok {convo : GroupV3Convo P} {existing : List Signer}
    (h : signers convo = .ok existing) : existing.map (·.signer) = convo.mlsGroup.seated := by
  unfold signers at h
  unfold MlsGroup.seated
  generalize convo.mlsGroup.members = members at h ⊢
  induction members generalizing existing with
  | nil =>
      cases h
      rfl
  | cons member members ih =>
      rw [List.mapM_cons] at h
      cases hmember : Signer.fromMember member with
      | error e =>
          rw [hmember] at h
          cases h
      | ok signer =>
          cases hrest : members.mapM Signer.fromMember with
          | error e =>
              rw [hmember, hrest] at h
              cases h
          | ok rest =>
              rw [hmember, hrest] at h
              cases h
              rw [List.map_cons, List.map_cons, ih hrest, Signer.fromMember_eq_ok hmember]
              rfl

/-- Deduplicated and without those seated, as in GroupV1. -/
theorem keepNew_memberDiff (members : List SignerKey) (existing : List Signer) :
    keepNew [] (unique (memberDiff members existing)) = keepNew (existing.map (·.signer)) members := by
  rw [unique, memberDiff, keepNew_filter, List.nil_append]
  exact keepNew_of_nodup (nodup_keepNew _ _) fun _ _ ↦ List.not_mem_nil

section Add

variable {s : InSession P (GroupV3Convo P)} {members : List SignerKey}

theorem addSigner_of_unreadable {e : TypeConversionError} (h : signers s.convo = .error e) :
    addSigner members s = (.err (.conversionError e), s) := by
  unfold addSigner
  rw [Call.read_bind, h]
  rfl

variable {existing : List Signer} (hsigners : signers s.convo = .ok existing)

include hsigners

theorem addSigner_of_refused {e : ChatError} {cx : ServiceContext P}
    (hfetch : fetchKeyPackages P (unique (memberDiff members existing)) s.cx = (.err e, cx)) :
    addSigner members s = (.err e, { s with cx := cx }) := by
  unfold addSigner
  rw [Call.read_bind, hsigners, orErr, Call.ofResult_ok_bind]
  exact Call.bind_of_err (Call.on_of_eq hfetch)

theorem addSigner_of_nobody {cx : ServiceContext P}
    (hfetch : fetchKeyPackages P (unique (memberDiff members existing)) s.cx = (.ok [], cx)) :
    addSigner members s = (.ok (), { s with cx := cx }) := by
  unfold addSigner
  rw [Call.read_bind, hsigners, orErr, Call.ofResult_ok_bind]
  exact Call.bind_of_ok (Call.on_of_eq hfetch)

/-- What follows the fetch. -/
theorem addSigner_of_fetched {keyPackages : List KeyPackage} (hsome : keyPackages ≠ [])
    {cx : ServiceContext P}
    (hfetch : fetchKeyPackages P (unique (memberDiff members existing)) s.cx = (.ok keyPackages, cx)) :
    addSigner members s = (addMembers keyPackages >>= fun messages ↦
      (createInvites keyPackages messages.2).mapErr ChatError.sendError >>= fun invites ↦
        sendPendingCommit messages.1 invites) { s with cx := cx } := by
  unfold addSigner
  rw [Call.read_bind, hsigners, orErr, Call.ofResult_ok_bind]
  have hfetched : InSession.onCx (fetchKeyPackages P (unique (memberDiff members existing))) s =
      (.ok keyPackages, { s with cx := cx }) := Call.on_of_eq hfetch
  rw [Call.bind_of_ok hfetched, if_neg (by simpa using hsome)]

end Add

/-- The invites are for those whose packages were handed over. -/
theorem createInvites_eq_ok {keyPackages : List KeyPackage} {welcome : P.mls.MlsMessageOut}
    {s t : InSession P (GroupV3Convo P)} {invites : List AddressedEnvelope}
    (h : createInvites keyPackages welcome s = (.ok invites, t)) :
    InvitesOnly P (· ∈ keyPackages.map (·.signer.signer)) invites := by
  have hall := Call.collect_eq_ok h
  clear h
  induction hall with
  | nil => exact invitesOnly_nil
  | @cons keyPackage invite keyPackages invites hinvite _ ih =>
      obtain ⟨_, _, hinvite⟩ := hinvite
      obtain ⟨welcomeBytes, -, hinvite⟩ := Result.bind_eq_ok.mp (congrArg Prod.fst hinvite)
      cases hinvite
      rw [List.map_cons]
      apply (invitesOnly_invite List.mem_cons_self _).append
      exact ih.mono fun signer hmem ↦ List.mem_cons_of_mem _ hmem

/-- The fetch gets through: the roster can be read, and every new signer has a package on offer. -/
def Fetches (s : InSession P (GroupV3Convo P)) (members : List SignerKey) : Prop :=
  (∃ existing, signers s.convo = .ok existing) ∧
    ¬ Refuses .v3 s.cx (keepNew (groupOf s).seated members)

theorem minds_seat {allowed : SignerKey → Prop} {keyPackages : List KeyPackage}
    (h : ∀ signer ∈ keyPackages.map (·.signer.signer), allowed signer) :
    Call.Keeps (Minds (P := P) nobody allowed)
      ((onGroup (MlsGroup.addMembers P.mls keyPackages)).mapErr ChatError.generic >>= fun messages ↦
        (createInvites keyPackages messages.2).mapErr ChatError.sendError >>= fun invites ↦
          sendPendingCommit messages.1 invites) := by
  refine (minds_onGroup _).mapErr.bind fun messages ↦ ?_
  have hkeeps : (createInvites keyPackages messages.2).Keeps (Minds (P := P) nobody allowed) :=
    Call.Keeps.collect (fun _ ↦ Call.keeps_ofResult _) _
  refine Call.Keeps.bind_of_ok hkeeps.mapErr fun s invites t hinvites ↦ ?_
  have honly := createInvites_eq_ok (Call.eq_ok_of_mapErr hinvites)
  exact minds_sendPendingCommit (honly.mono h) _ t

theorem addSigner_invites (members : List SignerKey) (s : InSession P (GroupV3Convo P)) :
    ∃ asked kept items, Invites .v3 nobody (groupOf s).seated members s (addSigner members s)
      asked kept items ∧ (Fetches s members → kept = keepNew (groupOf s).seated members) ∧
      (¬ Fetches s members → kept = []) := by
  cases hsigners : signers s.convo with
  | error e =>
      rw [addSigner_of_unreadable hsigners]
      refine ⟨[], [], [], invites_idle, fun ⟨⟨existing, hok⟩, _⟩ ↦ ?_, fun _ ↦ rfl⟩
      rw [hsigners] at hok
      cases hok
  | ok existing =>
      have hsub := keepNew_sublist (groupOf s).seated members
      have hcases := fetch_cases (unique (memberDiff members existing)) s.cx
      rw [keepNew_memberDiff, signers_eq_ok hsigners] at hcases
      obtain ⟨keyPackages, hall, hfetch⟩ | ⟨before, signer, rest, e, hsplit, hadmitted, hfetch⟩ :=
        hcases
      · have hoffered : Offered .v3 s.cx _ _ := offered_map (fun _ ↦ rfl) hall
        have hpublishes : Publishes
            (fun signer ↦ False ∨ signer ∈ keepNew (groupOf s).seated members)
            ((s.cx.askedFor (keepNew (groupOf s).seated members)).handing
              (keyPackages.map fun k ↦ (.keyPackage k, k.signer))) (addSigner members s).2.cx := by
          by_cases hempty : keyPackages = []
          · rw [hempty] at hfetch ⊢
            rw [addSigner_of_nobody hsigners hfetch, List.map_nil, ServiceContext.handing_nil]
            exact refl _
          · rw [addSigner_of_fetched hsigners hempty hfetch]
            have hkeys : ∀ signer ∈ keyPackages.map (·.signer.signer),
                False ∨ signer ∈ keepNew (groupOf s).seated members := by
              intro signer hmem
              rw [← hoffered.keys, List.map_map]
              exact .inr hmem
            exact (minds_seat hkeys ⟨s.convo, _⟩ nofun).2
        refine ⟨_, _, _, ⟨handover_fetched hsub hoffered (.refl _) hoffered hpublishes, nofun, ?_, ?_⟩,
          fun _ ↦ rfl, fun hnot ↦ absurd ⟨⟨existing, hsigners⟩, hoffered.not_refuses⟩ hnot⟩
        · exact fun signer hmem ↦ (mem_keepNew.mp hmem).2
        · exact fun hrefuses ↦ absurd hrefuses hoffered.not_refuses
      · rw [addSigner_of_refused hsigners hfetch]
        have hrefuses : Refuses .v3 s.cx _ := refuses_of_err (fun _ ↦ rfl) hadmitted hsplit
        exact ⟨_, _, _, invites_refused hsub hsplit, fun hfetches ↦ absurd hrefuses hfetches.2,
          fun _ ↦ rfl⟩

end GroupV3

/-! ### GroupV2 -/

namespace GroupV2

theorem Outstanding.of_entered {convo : GroupV2Convo P} {joiner : Bytes} {credential : Option Bytes}
    {signer : SignerKey} (h : Outstanding (setPending joiner credential convo) signer) :
    Outstanding convo signer ∨ signer = ⟨joiner⟩ := by
  by_cases hsame : signer.bytes = joiner
  · exact .inr (congrArg SignerKey.mk hsame)
  · have hsome : (Function.update convo.pendingInvites joiner credential signer.bytes).isSome := h
    rw [Function.update_of_ne hsame] at hsome
    exact .inl hsome

/-- The loop of an add hands over the members that are not seated, up to one that de-mls refuses; only
their invites become outstanding. -/
structure Tries (existing : List Bytes) (members : List FetchedMember)
    (s t : InSession P (GroupV2Convo P)) (tried : List FetchedMember) : Prop where
  picked : tried.Sublist members
  fresh : ∀ m ∈ tried, m.signatureKey ∉ existing
  cx : t.cx = s.cx.handing (tried.map handedMember)
  still : ∀ signer, Outstanding t.convo signer →
    Outstanding s.convo signer ∨ signer ∈ (tried.map handedMember).map (·.2.signer)

section Loop

variable {s t : InSession P (GroupV2Convo P)} {existing : List Bytes} {m : FetchedMember}
  {members tried : List FetchedMember} {turn : Turn P.demls.Core}

theorem tries_nil (s : InSession P (GroupV2Convo P)) (members : List FetchedMember) :
    Tries existing members s s [] where
  picked := List.nil_sublist _
  fresh := nofun
  cx := by rw [List.map_nil, ServiceContext.handing_nil]
  still _ h := .inl h

theorem Tries.skip (h : Tries existing members s t tried) : Tries existing (m :: members) s t tried :=
  { h with picked := h.picked.cons m }

/-- One more member is handed over, in a step to `s'` that has no other effect. -/
theorem Tries.cons {s' : InSession P (GroupV2Convo P)} (hseat : m.signatureKey ∉ existing)
    (hcx : s'.cx = s.cx.handing [handedMember m])
    (hstill : ∀ signer, Outstanding s'.convo signer →
      Outstanding s.convo signer ∨ signer = ⟨m.signatureKey⟩)
    (h : Tries existing members s' t tried) : Tries existing (m :: members) s t (m :: tried) where
  picked := h.picked.cons_cons m
  fresh m' hm' := by
    obtain rfl | hm' := List.mem_cons.mp hm'
    · exact hseat
    · exact h.fresh m' hm'
  cx := by
    rw [h.cx, hcx, ServiceContext.handing_handing]
    rfl
  still signer hsigner := by
    obtain hbefore | hmem := h.still signer hsigner
    · obtain hbefore | rfl := hstill signer hbefore
      · exact .inl hbefore
      · exact .inr List.mem_cons_self
    · exact .inr (List.mem_cons_of_mem _ hmem)

theorem proposed_still (signer : SignerKey) (h : Outstanding (proposed m turn s).convo signer) :
    Outstanding s.convo signer ∨ signer = ⟨m.signatureKey⟩ :=
  Outstanding.of_entered h

theorem withdrawn_still (signer : SignerKey)
    (h : Outstanding (withdrawn m (proposed m turn s)).convo signer) :
    Outstanding s.convo signer ∨ signer = ⟨m.signatureKey⟩ :=
  proposed_still signer (Outstanding.of_withdrawn h)

theorem proposeAll_tries (existing : List Bytes) (members : List FetchedMember)
    (s : InSession P (GroupV2Convo P)) :
    ∃ result added t tried, proposeAll existing members s = (.ok (result, added), t) ∧
      Tries existing members s t tried := by
  induction members generalizing s with
  | nil => exact ⟨.ok (), false, s, [], rfl, tries_nil s []⟩
  | cons m members ih =>
      by_cases hseat : m.signatureKey ∈ existing
      · obtain ⟨result, added, t, tried, hcall, htries⟩ := ih s
        exact ⟨result, added, t, tried, by rw [proposeAll_of_seated hseat, hcall], htries.skip⟩
      rcases hadd : P.demls.addMember s.convo.conversation.core m.keyPackage with ⟨answer, turn⟩
      cases answer with
      | ok _ =>
          obtain ⟨result, added, t, tried, hcall, htries⟩ := ih (proposed m turn s)
          refine ⟨result, true, t, _, ?_, htries.cons hseat rfl proposed_still⟩
          rw [proposeAll_of_ok hseat hadd, Call.bind_of_ok hcall]
          rfl
      | error e =>
          by_cases halready : e = .alreadyMember
          · rw [halready] at hadd
            obtain ⟨result, added, t, tried, hcall, htries⟩ := ih (withdrawn m (proposed m turn s))
            refine ⟨result, added, t, _, ?_, htries.cons hseat rfl withdrawn_still⟩
            rw [proposeAll_of_alreadyMember hseat hadd, hcall]
          · refine ⟨_, _, _, [m], proposeAll_of_error hseat hadd halready, ?_⟩
            exact (tries_nil _ members).cons hseat rfl withdrawn_still

end Loop

/-- What follows the loop. -/
def conclude (result : Except ChatError Unit) (added : Bool) :
    Call (InSession P (GroupV2Convo P)) ChatError Unit :=
  (if added then do
    onConversation Conversation.poll
    pure result
  else pure result) >>= andFlush

theorem minds_conclude {allowed : SignerKey → Prop} (result : Except ChatError Unit) (added : Bool) :
    (conclude result added).Keeps (Minds (P := P) Outstanding allowed) := by
  refine Call.Keeps.bind (R := Minds Outstanding allowed) ?_ fun result ↦ minds_andFlush result
  split
  · exact (minds_onConversation _).bind fun _ ↦ Call.keeps_pure result
  · exact Call.keeps_pure result

/-- The signature keys in the tree. -/
abbrev seated (convo : GroupV2Convo P) : List SignerKey :=
  convo.conversation.membersView.map fun m ↦ ⟨m.signatureKey⟩

theorem addSigner_invites (members : List SignerKey) (s : InSession P (GroupV2Convo P)) :
    ∃ asked kept items, Invites .v2 Outstanding (seated s.convo) members s (addSigner members s)
      asked kept items := by
  have hsub := keepNew_sublist [] members
  obtain ⟨fetched, hall, hfetch⟩ | ⟨before, signer, rest, e, hsplit, -, hfetch⟩ :=
    fetch_cases members s.cx
  · have hfetched : InSession.onCx (fetchKeyPackages P members) s = _ := Call.on_of_eq hfetch
    obtain ⟨result, added, t, tried, hcall, htries⟩ := proposeAll_tries
      (s.convo.conversation.membersView.map (·.signatureKey)) fetched
      { s with cx := s.cx.askedFor (keepNew [] members) }
    have hadd : addSigner members s = conclude result added t :=
      Call.bind_of_eq ((Call.bind_of_ok hfetched).trans
        ((Call.read_bind _ _ _).trans (Call.bind_of_ok hcall)))
    have hoffered : Offered .v2 s.cx _ _ := offered_map (fun _ ↦ rfl) hall
    have hpicked := htries.picked.map handedMember
    have hkept := hpicked.map (·.2.signer)
    rw [hoffered.keys] at hkept
    obtain ⟨hstill, hpublishes⟩ := minds_conclude result added t htries.still
    rw [htries.cx] at hpublishes
    rw [hadd]
    refine ⟨_, _, _, handover_fetched hsub hoffered hkept (hoffered.sublist hpicked) hpublishes,
      hstill, fun signer hmem hseated ↦ ?_, fun hrefuses ↦ absurd hrefuses hoffered.not_refuses⟩
    obtain ⟨m, hm, rfl⟩ := List.mem_map.mp (List.map_map ▸ hmem)
    obtain ⟨leaf, hleaf, hkey⟩ := List.mem_map.mp hseated
    apply htries.fresh m hm
    exact List.mem_map.mpr ⟨leaf, hleaf, congrArg SignerKey.bytes hkey⟩
  · have hfetched : InSession.onCx (fetchKeyPackages P members) s = _ := Call.on_of_eq hfetch
    have hadd : addSigner members s = _ := Call.bind_of_err (Call.bind_of_err hfetched)
    rw [hadd]
    exact ⟨_, _, _, invites_refused hsub hsplit⟩

end GroupV2

/-! ### Every kind -/

/-- An add on a conversation of one kind, seen as an add on a conversation of any. -/
theorem Invites.within {C : Type} {kind : GroupKind} {outstanding : C → SignerKey → Prop}
    {wrap : C → GroupConvo P} (hwrap : ∀ convo, (wrap convo).Outstanding = outstanding convo)
    {seated signers asked kept : List SignerKey} {convo : C} {cx : ServiceContext P}
    {after : Result ChatError Unit × InSession P C} {items : List (Handed × Signer)}
    (h : Invites kind outstanding seated signers ⟨convo, cx⟩ after asked kept items) :
    Invites kind GroupConvo.Outstanding seated signers ⟨wrap convo, cx⟩
      (after.1, ⟨wrap after.2.convo, after.2.cx⟩) asked kept items where
  toHandover := by
    rw [hwrap]
    exact h.toHandover
  still := by
    rw [hwrap, hwrap]
    exact h.still
  fresh := h.fresh
  failed hrefuses := ⟨(h.failed hrefuses).1, congrArg wrap (h.failed hrefuses).2⟩

theorem GroupConvo.addSigner_invites (members : List SignerKey) (s : InSession P (GroupConvo P)) :
    ∃ asked kept items, Invites s.convo.kind Outstanding s.convo.seated members s
      (addSigner members s) asked kept items := by
  obtain ⟨convo, cx⟩ := s
  cases convo with
  | v1 convo =>
      obtain ⟨asked, kept, items, h⟩ := GroupV1.addSigner_invites members ⟨convo, cx⟩
      exact ⟨asked, kept, items, h.within fun _ ↦ rfl⟩
  | v2 convo =>
      obtain ⟨asked, kept, items, h⟩ := GroupV2.addSigner_invites members ⟨convo, cx⟩
      exact ⟨asked, kept, items, h.within fun _ ↦ rfl⟩
  | v3 convo =>
      obtain ⟨asked, kept, items, h, -⟩ := GroupV3.addSigner_invites members ⟨convo, cx⟩
      exact ⟨asked, kept, items, h.within fun _ ↦ rfl⟩

end LogosChat.Conversations
