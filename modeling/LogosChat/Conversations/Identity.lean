import LogosChat.Conversations.CausalHistory

/-!
# Who is who

An installation signs under a `SignerKey` and acts for a participant.  A leaf of an MLS tree claims
both; the auth service decides whether the claim holds.
-/

namespace LogosChat.Conversations

open Reasoning

/-- The participant an installation acts for.  Opaque to the core. -/
structure ParticipantId where
  bytes : Bytes
deriving DecidableEq

/-- Identity of an entity in a conversation. -/
structure Signer where
  signer : SignerKey
  participantId : ParticipantId
deriving DecidableEq

/-! ## What an MLS tree holds -/

/-- A credential: whether it is a `BasicCredential`, and its content. -/
structure Credential where
  isBasic : Bool
  serializedContent : Bytes
deriving DecidableEq

structure LeafNode where
  signatureKey : Bytes
  credential : Credential
deriving DecidableEq

/-- A seated leaf. -/
structure GroupMember extends LeafNode where
  index : UInt32
deriving DecidableEq

structure KeyPackage where
  leafNode : LeafNode
  hpkeInitKey : Bytes
  -- the rest of the package, which only openmls reads
  rest : Bytes
deriving DecidableEq

inductive TypeConversionError where
  | participantId
deriving DecidableEq

/-- `BasicCredential::try_from`, and its identity. -/
def ParticipantId.tryFrom (credential : Credential) : Except TypeConversionError ParticipantId :=
  if credential.isBasic then .ok ⟨credential.serializedContent⟩ else .error .participantId

namespace Signer

def fromLeaf (signatureKey credential : Bytes) : Signer := ⟨⟨signatureKey⟩, ⟨credential⟩⟩

def fromLeafNode (leaf : LeafNode) : Except TypeConversionError Signer := do
  let participantId ← ParticipantId.tryFrom leaf.credential
  .ok ⟨⟨leaf.signatureKey⟩, participantId⟩

def fromMember (member : GroupMember) : Except TypeConversionError Signer := do
  let participantId ← ParticipantId.tryFrom member.credential
  .ok ⟨⟨member.signatureKey⟩, participantId⟩

theorem fromLeafNode_eq_ok {leaf : LeafNode} {s : Signer} (h : fromLeafNode leaf = .ok s) :
    s = fromLeaf leaf.signatureKey leaf.credential.serializedContent := by
  unfold fromLeafNode ParticipantId.tryFrom at h
  by_cases hbasic : leaf.credential.isBasic
  · rw [if_pos hbasic] at h
    cases h
    rfl
  · rw [if_neg hbasic] at h
    cases h

theorem fromMember_eq_ok {member : GroupMember} {s : Signer} (h : fromMember member = .ok s) :
    s = fromLeaf member.signatureKey member.credential.serializedContent :=
  @fromLeafNode_eq_ok member.toLeafNode s h

end Signer

/-- The claim a key package makes. -/
def KeyPackage.signer (keyPackage : KeyPackage) : Signer :=
  .fromLeaf keyPackage.leafNode.signatureKey keyPackage.leafNode.credential.serializedContent

/-! ## The auth service -/

inductive AuthResult where
  | valid
  | revoked
  | invalid
deriving DecidableEq

/-- Checks other participants' identities.  An error is a service that could not decide. -/
structure AuthService where
  validateSigner : SignerKey → ParticipantId → Except String AuthResult
  signersForParticipant : ParticipantId → Except String (List SignerKey)

/-- The auth service's verdict on a member, as of when it was asked. -/
inductive AuthStatus where
  | valid
  | revoked
  | invalid
  | unknown
deriving DecidableEq

def AuthStatus.from : AuthResult → AuthStatus
  | .valid => .valid
  | .revoked => .revoked
  | .invalid => .invalid

/-- A member the auth service found valid: `Signer.requireValid` is what makes one. -/
structure AuthenticatedSigner where
  signer : Signer
deriving DecidableEq

namespace Signer

def authStatus (auth : AuthService) (s : Signer) : AuthStatus :=
  match auth.validateSigner s.signer s.participantId with
  | .ok result => .from result
  | .error _ => .unknown

def requireValid (auth : AuthService) (s : Signer) : Option AuthenticatedSigner :=
  match s.authStatus auth with
  | .valid => some ⟨s⟩
  | _ => none

variable {auth : AuthService} {s : Signer}

theorem requireValid_eq_some_iff {a : AuthenticatedSigner} :
    s.requireValid auth = some a ↔ s.authStatus auth = .valid ∧ a = ⟨s⟩ := by
  unfold requireValid
  cases s.authStatus auth <;> simp [eq_comm]

theorem requireValid_of_valid (h : s.authStatus auth = .valid) : s.requireValid auth = some ⟨s⟩ :=
  requireValid_eq_some_iff.mpr ⟨h, rfl⟩

theorem requireValid_of_not_valid (h : s.authStatus auth ≠ .valid) : s.requireValid auth = none := by
  cases heq : s.requireValid auth with
  | none => rfl
  | some a => exact absurd (requireValid_eq_some_iff.mp heq).1 h

end Signer

end LogosChat.Conversations
