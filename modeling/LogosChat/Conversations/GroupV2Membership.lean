import LogosChat.Conversations.GroupV2
import LogosChat.Reasoning.Run
import LogosChat.Reasoning.LittleEndian

/-!
# Membership of GroupV2

A conversation knows itself by the leaf it was given when it joined.  MLS seats a newcomer in any free
leaf, one that the same commit has freed included, so the leaf says who is in it and not whether that
is still us.
-/

namespace LogosChat.Conversations.GroupV2

open Reasoning

variable {P : Platform}

/-! ## Leaves -/

theorem leafBytes_injective {i j : UInt32} (h : leafBytes i = leafBytes j) : i = j := by
  have hbytes : leBytes 4 i.toNat = leBytes 4 j.toNat := List.reverse_injective h
  have hvalue := congrArg leNat hbytes
  rw [leNat_leBytes_of_lt i.toNat_lt, leNat_leBytes_of_lt j.toNat_lt] at hvalue
  exact UInt32.toNat_inj.mp hvalue

/-- A commit: the leaves it frees and the members it seats. -/
structure Commit where
  removed : List UInt32
  added : List GroupMember

def Commit.apply (roster : List GroupMember) (commit : Commit) : List GroupMember :=
  roster.filter (·.index ∉ commit.removed) ++ commit.added

/-- Newcomers are seated in distinct leaves, each free once the commit has removed its members. -/
def Commit.Legal (roster : List GroupMember) (commit : Commit) : Prop :=
  (commit.added.map (·.index)).Nodup ∧
    ∀ m ∈ commit.added, ∀ seated ∈ roster, seated.index = m.index → seated.index ∈ commit.removed

instance (roster : List GroupMember) (commit : Commit) : Decidable (commit.Legal roster) :=
  inferInstanceAs (Decidable (_ ∧ _))

/-- The leaf `own` holds `me`, and no other leaf does. -/
def Faithful (own : UInt32) (me : SignerKey) (roster : List GroupMember) : Prop :=
  ∀ m ∈ roster, m.index = own ↔ m.signatureKey = me.bytes

instance (own : UInt32) (me : SignerKey) (roster : List GroupMember) :
    Decidable (Faithful own me roster) :=
  inferInstanceAs (Decidable (∀ m ∈ roster, _))

theorem Faithful.apply {own : UInt32} {me : SignerKey} {roster : List GroupMember} {commit : Commit}
    (hroster : Faithful own me roster) (hadded : Faithful own me commit.added) :
    Faithful own me (commit.apply roster) := by
  intro m hm
  obtain hkept | hnew := List.mem_append.mp hm
  · exact hroster m (List.mem_of_mem_filter hkept)
  · exact hadded m hnew

/-! ## What a conversation makes of the tree -/

/-- The conversation lists the leaves of `roster` and was given the leaf `own` when it joined. -/
structure Shows (convo : GroupV2Convo P) (own : UInt32) (roster : List GroupMember) : Prop where
  members : ∀ m, m ∈ convo.conversation.membersView ↔ m ∈ roster
  memberId : convo.conversation.memberIdBytes = leafBytes own

/-- The signature keys that a conversation lists. -/
def listed (convo : GroupV2Convo P) : List SignerKey :=
  convo.conversation.membersView.map fun m ↦ ⟨m.signatureKey⟩

variable {convo : GroupV2Convo P} {own : UInt32} {me : SignerKey} {roster : List GroupMember}

/-- A conversation takes itself for a member when its leaf is seated. -/
theorem isMember_iff (h : Shows convo own roster) :
    isMember convo = true ↔ ∃ m ∈ roster, m.index = own := by
  rw [isMember, ownSigner, Option.isSome_map, List.find?_isSome]
  constructor
  · rintro ⟨m, hm, hleaf⟩
    refine ⟨m, (h.members m).mp hm, leafBytes_injective ?_⟩
    rw [← h.memberId]
    exact eq_of_beq hleaf
  · rintro ⟨m, hm, rfl⟩
    refine ⟨m, (h.members m).mpr hm, ?_⟩
    rw [h.memberId]
    exact beq_self_eq_true _

theorem mem_listed_iff (h : Shows convo own roster) :
    me ∈ listed convo ↔ ∃ m ∈ roster, m.signatureKey = me.bytes := by
  rw [listed, List.mem_map]
  constructor
  · rintro ⟨m, hm, rfl⟩
    exact ⟨m, (h.members m).mp hm, rfl⟩
  · rintro ⟨m, hm, hkey⟩
    refine ⟨m, (h.members m).mpr hm, ?_⟩
    rw [hkey]

theorem isMember_iff_listed (h : Shows convo own roster) (hroster : Faithful own me roster) :
    isMember convo = true ↔ me ∈ listed convo := by
  rw [isMember_iff h, mem_listed_iff h]
  refine exists_congr fun m ↦ ?_
  constructor
  · exact fun ⟨hm, hindex⟩ ↦ ⟨hm, (hroster m hm).mp hindex⟩
  · exact fun ⟨hm, hkey⟩ ↦ ⟨hm, (hroster m hm).mpr hkey⟩

/-- Nothing reaches de-mls once we are out. -/
theorem handlePayload_of_not_member {s : InSession P (GroupV2Convo P)} {payload bytes : Bytes}
    (hmember : isMember s.convo = false)
    (hplain : P.proto.decodeEncryptedPayload payload = .ok (.plaintext bytes)) :
    handlePayload payload s = (.ok (.empty s.convo.convoId), s) := by
  have hfeed : feed payload s = (.ok false, s) := by
    unfold feed
    rw [hplain]
    show (if ¬ isMember s.convo = true then pure false else _ :
      Call (InSession P (GroupV2Convo P)) ChatError Bool) s = _
    rw [if_pos (by simp [hmember])]
    rfl
  exact Call.bind_of_ok hfeed

/-! ## Over all commits -/

/-- As long as no commit seats another signer in our leaf, or us in another one, a conversation is a
member exactly when its key is listed, and is silent once it is not. -/
theorem membership_follows_key (hjoined : Faithful own me roster) {commits : List Commit}
    (hcommits : Along Commit.apply (fun _ commit ↦ Faithful own me commit.added) roster commits)
    {s : InSession P (GroupV2Convo P)} (hshows : Shows s.convo own (run Commit.apply roster commits)) :
    (isMember s.convo = true ↔ me ∈ listed s.convo) ∧
      (canSend s.convo = true ↔ me ∈ listed s.convo) ∧
      (me ∉ listed s.convo → canSend s.convo = false ∧
        ∀ payload bytes, P.proto.decodeEncryptedPayload payload = .ok (.plaintext bytes) →
          handlePayload payload s = (.ok (.empty s.convo.convoId), s)) := by
  have hfaithful : Faithful own me (run Commit.apply roster commits) :=
    hcommits.invariant (fun _ _ ↦ Faithful.apply) hjoined
  have hmember := isMember_iff_listed hshows hfaithful
  refine ⟨hmember, hmember, fun hout ↦ ?_⟩
  have hsilent : isMember s.convo = false := by
    rw [← Bool.not_eq_true, hmember]
    exact hout
  exact ⟨hsilent, fun payload bytes ↦ handlePayload_of_not_member hsilent⟩

namespace Sample

/-- Ours is the leaf `0` of a group of two. -/
def pair : List GroupMember := [Sample.seat 0 [1], Sample.seat 1 [9]]

def showing (roster : List GroupMember) : InSession Sample.platform (GroupV2Convo Sample.platform) where
  convo := { convoId := "", conversation := { core := roster } }
  cx := Sample.services _

theorem shows_showing (roster : List GroupMember) : Shows (showing roster).convo 0 roster where
  members _ := Iff.rfl
  memberId := rfl

/-- We are removed, and `[5]` is seated in a new leaf. -/
def replaced : List GroupMember := run Commit.apply pair [⟨[0], [Sample.seat 2 [5]]⟩]

/-- We are removed, and `[5]` is seated in our leaf. -/
def usurped : List GroupMember := run Commit.apply pair [⟨[0], [Sample.seat 0 [5]]⟩]

end Sample

theorem membership_follows_key_replaced :
    Faithful 0 ⟨[1]⟩ Sample.pair ∧ canSend (Sample.showing Sample.replaced).convo = false := by
  have hout : (⟨[1]⟩ : SignerKey) ∉ listed (Sample.showing Sample.replaced).convo := by decide
  have hcommits : Along Commit.apply (fun _ commit ↦ Faithful 0 ⟨[1]⟩ commit.added) Sample.pair
      [⟨[0], [Sample.seat 2 [5]]⟩] := ⟨by decide, trivial⟩
  have hjoined : Faithful 0 ⟨[1]⟩ Sample.pair := by decide
  exact ⟨hjoined, ((membership_follows_key hjoined hcommits
    (Sample.shows_showing Sample.replaced)).2.2 hout).1⟩

/-- Seated in the leaf we were removed from, a newcomer keeps the conversation open: it may still
send, and it still feeds de-mls. -/
theorem newcomer_in_our_leaf :
    Faithful 0 ⟨[1]⟩ Sample.pair ∧ Commit.Legal Sample.pair ⟨[0], [Sample.seat 0 [5]]⟩ ∧
      (⟨[1]⟩ : SignerKey) ∉ listed (Sample.showing Sample.usurped).convo ∧
      isMember (Sample.showing Sample.usurped).convo = true ∧
      canSend (Sample.showing Sample.usurped).convo = true ∧
      (feed [7] (Sample.showing Sample.usurped)).1 = .ok true := by
  refine ⟨by decide, by decide, by decide, by decide, by decide, rfl⟩

end LogosChat.Conversations.GroupV2
