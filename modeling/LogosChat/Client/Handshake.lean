import LogosChat.Client.Exchange
import LogosChat.Conversations.Joining

/-!
# Coming into touch

One core, somewhere in a session of any length, does something on which it publishes an invite.  Another
core, in any state whatever, finds that invite in its inbox.  Between the two nothing is shared but the
bytes: the conversation that the second core loads is still the one that the first core has.
-/

namespace LogosChat.Client

open Reasoning Conversations

variable {P : Platform}

namespace Handshake

/-- Whatever call of a session publishes an invite, the conversation that it leads to is loaded at the
end of the session, unless the call was to create it and failed; and every core that the invite is for
takes up that conversation, if it can join at all. -/
theorem invite_leads_home (W : InboxWire P) (hM : P.mls.Admits) (N : P.demls.Naming)
    (cx : ServiceContext P) (before : List (Core.Event P)) (e : Core.Event P)
    (after : List (Core.Event P)) {envelope : AddressedEnvelope} {invite : InviteType}
    (hsent : envelope ∈ Exchange.publishedSince (run Core.step (Core.assemble cx) before)
      (run Core.step (Core.assemble cx) (before ++ [e])))
    (hinvite : envelope.payload = .invite invite) :
    ∃ signer label, envelope = inviteEnvelope P signer invite ∧
      ((run Core.step (Core.assemble cx) (before ++ e :: after)).Loaded label ∨
        e.FailsToCreate (run Core.step (Core.assemble cx) before)) ∧
      ∀ c : Core P, c.inboxId = conversationIdFor P signer →
        Core.TakesUp label invite c (Core.handlePayload (W.data envelope) c) := by
  have hstart : (Core.assemble cx).Homed N := nofun
  have hhomed := Core.homed_run hM hstart before
  obtain ⟨hhomed', hannounces⟩ := Core.announces_step hM hhomed e
  obtain ⟨sent, hpublished, hbids⟩ := hannounces.bids
  have hstep : run Core.step (Core.assemble cx) (before ++ [e]) =
      Core.step (run Core.step (Core.assemble cx) before) e := run_append _ before [e]
  have hmem : envelope ∈ sent := by
    rw [hstep, Exchange.publishedSince, hpublished, List.drop_left] at hsent
    exact hsent
  obtain ⟨signer, label, rfl, hleads, hloaded⟩ := hbids envelope hmem invite hinvite
  refine ⟨signer, label, rfl, hloaded.imp_left fun hloaded ↦ ?_, fun c hinbox ↦ ?_⟩
  · rw [run_append]
    exact Core.loaded_run hM hhomed' after hloaded
  · exact Core.takesUp_handlePayload hleads hinbox

/-! ## A core that adds another one to a group -/

namespace Sample

deriving instance Countable for MemberWelcome, InviteType

-- the welcome names the group that it was made in
abbrev mls : OpenMls :=
  { Conversations.Sample.mls with
    addMembers := fun group packages ↦
      .ok { commit := [], welcome := group.groupId, secrets := ()
            members := Conversations.Sample.seatNext group.members packages }
    extractWelcome := fun bytes ↦ .ok (some bytes)
    join := fun _ welcome ↦ .ok (MlsGroup.new welcome () (.fromLeaf [1] [])) }

-- the state of a conversation is its id
abbrev demls : DeMls where
  Core := String
  membersView _ := []
  memberIdBytes _ := []
  nextWakeupIn _ := none
  create _ convoId _ _ _ _ := .ok { core := convoId }
  join _ _ := .ok none
  sendMessage core _ := (.ok (), { core := core })
  processInbound core _ _ := (.ok (), { core := core })
  poll core := { core := core }
  addMember core _ := (.ok (), { core := core })
  removeMember core _ := (.ok (), { core := core })

noncomputable def readInvite (bytes : Bytes) : Except String (Option InviteFrame) :=
  match (Exchange.Sample.read bytes : Except String InviteType) with
  | .error e => .error e
  | .ok (.groupV1 welcomeBytes) => .ok (some (.groupV1 welcomeBytes))
  | .ok (.groupV2 welcome) => .ok (some (.groupV2 (Exchange.Sample.written welcome)))
  | .ok (.groupV3 welcomeBytes) => .ok (some (.groupV3 welcomeBytes))

noncomputable abbrev platform : Platform :=
  { Exchange.Sample.platform with
    mls := mls
    demls := demls
    proto := { Exchange.Sample.platform.proto with
      decodeInboxFrame := readInvite
      decodeMemberWelcome := Exchange.Sample.read } }

theorem readInvite_written (invite : InviteType) :
    readInvite (Exchange.Sample.written invite) = match invite with
      | .groupV1 welcomeBytes => .ok (some (.groupV1 welcomeBytes))
      | .groupV2 welcome => .ok (some (.groupV2 (Exchange.Sample.written welcome)))
      | .groupV3 welcomeBytes => .ok (some (.groupV3 welcomeBytes)) := by
  unfold readInvite
  rw [Exchange.Sample.read_written]
  cases invite <;> rfl

noncomputable def wire : InboxWire platform where
  encodeEnvelope := Exchange.Sample.written
  encodePlaintext := id
  encodeGroupV3Payload := Exchange.Sample.written
  encodeInvite := Exchange.Sample.written
  decode_envelope := Exchange.Sample.read_written
  decode_plaintext _ := rfl
  decode_groupV3Payload := Exchange.Sample.read_written
  decode_groupV3Frame := Conversations.Sample.hashing_proto
  decode_reliable := Exchange.Sample.read_written
  decode_groupV1 welcomeBytes := readInvite_written (.groupV1 welcomeBytes)
  decode_groupV2 welcome := ⟨_, readInvite_written (.groupV2 welcome), Exchange.Sample.read_written welcome⟩
  decode_groupV3 welcomeBytes := readInvite_written (.groupV3 welcomeBytes)

theorem admits : mls.Admits := by
  intro group keyPackages bundle welcomeBytes welcome n joined hadd hbytes hextract hjoin
  cases hadd
  cases hbytes
  cases hextract
  cases hjoin
  rfl

def naming : demls.Naming where
  idOf := id
  created h := by
    cases h
    exact ⟨rfl, nofun⟩
  joined h := nomatch h
  sent _ _ := ⟨rfl, nofun⟩
  processed _ _ _ := ⟨rfl, nofun⟩
  polled _ := ⟨rfl, nofun⟩
  added _ _ := ⟨rfl, nofun⟩
  removed _ _ := ⟨rfl, nofun⟩

noncomputable def services : ServiceContext platform := Conversations.Sample.services platform

-- the core of the signer that is added
noncomputable def joiner : Core platform :=
  Core.assemble { services with self := .fromLeaf [2] [] }

end Sample

/-- A group is created and another signer added to it: both cores have the same conversation then. -/
theorem invite_leads_home_added : ∃ label,
    (run Core.step (Core.assemble Sample.services)
      [.createGroupConvoV3 [], .groupAddSigners "00" [⟨[2]⟩]]).Loaded label ∧
    (Core.handlePayload (Sample.wire.data (inviteEnvelope Sample.platform ⟨[2]⟩ (.groupV3 [0])))
      Sample.joiner).2.Loaded label := by
  have hsent : Exchange.publishedSince
      (run Core.step (Core.assemble Sample.services) [.createGroupConvoV3 []])
      (run Core.step (Core.assemble Sample.services)
        ([.createGroupConvoV3 []] ++ [.groupAddSigners "00" [⟨[2]⟩]])) =
      [_, inviteEnvelope Sample.platform ⟨[2]⟩ (.groupV3 [0])] := rfl
  have hmem := hsent ▸ List.mem_cons_of_mem _ (List.mem_singleton_self _)
  obtain ⟨signer, label, henvelope, hloaded, htakes⟩ :=
    invite_leads_home Sample.wire Sample.admits Sample.naming Sample.services [.createGroupConvoV3 []]
      (.groupAddSigners "00" [⟨[2]⟩]) [] hmem rfl
  have hinbox : Sample.joiner.inboxId = conversationIdFor Sample.platform signer :=
    congrArg AddressedEnvelope.conversationHint henvelope
  have hjoinable : Joinable Sample.joiner.services (.groupV3 [0]) :=
    ⟨[0], _, rfl, rfl, fun _ _ ↦ rfl⟩
  obtain ⟨-, owned, hcached, hlabel⟩ := (htakes Sample.joiner hinbox).joins hjoinable (AList.notMem_empty _)
  refine ⟨label, hloaded.resolve_right fun hfails ↦ hfails.1, owned, ?_, hlabel⟩
  rw [hcached]
  exact AList.lookup_insert _

end Handshake

end LogosChat.Client
