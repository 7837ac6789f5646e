import Mieru.Wire.PacketRoundTrip

/-!
# Nonces of a packet underlay

The calls of `Seal` made over a run of a packet underlay, grouped by the call
of `writeOneSegment` that made them.  A segment has one nonce, which seals its
metadata and then its payload.  The user hint replaces the end of the nonce, so
only the bytes before it tell the nonces of two segments apart.
-/

namespace Mieru.Protocol

open Mieru.Foundation
open Mieru.Cipher

def nonceFront (bytes : Bytes) : Bytes :=
  bytes.take (defaultNonceSize - nonceSuffixLenForUserHint)

theorem nonceFront_addUserHint (crypto : Crypto) (block : BlockCipher) (fresh : Nonce) :
    nonceFront (block.addUserHintToNonce crypto fresh).bytes = nonceFront fresh.bytes := by
  unfold BlockCipher.addUserHintToNonce
  split
  · rfl
  · have hfresh := fresh.length_bytes
    simp only [nonceFront, List.append_assoc]
    rw [List.take_append_of_le_length (by
      rw [List.length_take, hfresh]; decide), List.take_take, Nat.min_self]

structure SealGroup where
  fresh : Nonce
  calls : List SealCall

def SealGroup.OneNonce (group : SealGroup) : Prop :=
  group.calls = [] ∨ ∃ key nonce plaintextMetadata,
      nonceFront nonce = nonceFront group.fresh.bytes ∧
      (group.calls = [⟨key, nonce, plaintextMetadata⟩] ∨ ∃ payload, group.calls =
          [⟨key, nonce, plaintextMetadata⟩, ⟨key, nonce, payload⟩])

theorem SealGroup.OneNonce.front {group : SealGroup} (h : group.OneNonce)
    {call : SealCall} (hcall : call ∈ group.calls) :
    nonceFront call.nonce = nonceFront group.fresh.bytes := by
  obtain hnil | ⟨key, nonce, metadata, hfront, hone | ⟨payload, htwo⟩⟩ := h
  · rw [hnil] at hcall
    cases hcall
  · rw [hone, List.mem_singleton] at hcall
    rw [hcall]
    exact hfront
  · rw [htwo] at hcall
    simp only [List.mem_cons, List.not_mem_nil, or_false] at hcall
    obtain rfl | rfl := hcall <;> exact hfront

theorem SealGroup.OneNonce.pair {group : SealGroup} (h : group.OneNonce) {first second : SealCall}
    (hfirst : first ∈ group.calls) (hsecond : second ∈ group.calls)
    (hne : first.plaintext ≠ second.plaintext) :
    group.calls = [first, second] ∨ group.calls = [second, first] := by
  obtain hnil | ⟨key, nonce, metadata, -, hone | ⟨payload, htwo⟩⟩ := h
  · rw [hnil] at hfirst
    cases hfirst
  · rw [hone, List.mem_singleton] at hfirst hsecond
    rw [hfirst, hsecond] at hne
    exact absurd rfl hne
  · rw [htwo] at hfirst hsecond ⊢
    simp only [List.mem_cons, List.not_mem_nil, or_false] at hfirst hsecond
    obtain rfl | rfl := hfirst <;> obtain rfl | rfl := hsecond
    · exact absurd rfl hne
    · exact .inl rfl
    · exact .inr rfl
    · exact absurd rfl hne

section

variable (crypto : Crypto)

def PacketUnderlay.sealGroup (u : PacketUnderlay) (addr : Addr)
    (choices : WriteChoices) (seg : Segment) : SealGroup where
  fresh := choices.fresh
  calls := (u.writeOneSegment crypto addr choices seg).calls

theorem PacketUnderlay.sealGroup_oneNonce {u : PacketUnderlay} {seg : Segment}
    (hstateless : ∀ block, u.writeBlock seg = .ok block → block.isStateless = true) (addr : Addr)
    (choices : WriteChoices) : (u.sealGroup crypto addr choices seg).OneNonce := by
  unfold sealGroup writeOneSegment
  split
  · exact .inl rfl
  · cases hblock : u.writeBlock seg with
    | ok block =>
      have hblock := hstateless block hblock
      refine .inr ⟨block.key, (block.addUserHintToNonce crypto choices.fresh).bytes,
        ((seg.pad u.base.mtu .packetTransport choices.paddings).metadata.marshal
          (unixSeconds choices.now)).2,
        nonceFront_addUserHint crypto block choices.fresh, ?_⟩
      generalize seg.pad u.base.mtu .packetTransport choices.paddings = padded
      have htake : ∀ rest : Bytes,
          ((block.addUserHintToNonce crypto choices.fresh).bytes ++ rest).take defaultNonceSize =
          (block.addUserHintToNonce crypto choices.fresh).bytes :=
        fun rest => List.take_left' (Nonce.length_bytes _)
      simp only [sealSegment, BlockCipher.encrypt_of_isStateless crypto hblock, htake,
        BlockCipher.encryptWithNonce_of_isStateless crypto hblock]
      split
      · exact .inr ⟨padded.payload, rfl⟩
      · exact .inl rfl
    | error err => exact .inl rfl
    | panic message => exact .inl rfl

structure SealRun where
  u : PacketUnderlay
  groups : List SealGroup := []

inductive SealEvent where
  | write (addr : Addr) (choices : WriteChoices) (seg : Segment)
  | change (u : PacketUnderlay)

def SealRun.next (run : SealRun) : SealEvent → Option SealRun
  | .write addr choices seg =>
    some { run with
      groups := run.groups ++ [run.u.sealGroup crypto addr choices seg] }
  | .change u => some { run with u := u }

def sealSystem : System SealRun SealEvent :=
  System.ofNext (fun run => run.groups = []) (SealRun.next crypto)

/--
A written segment has a stateless cipher, as every packet underlay does, and
its nonce differs from the earlier ones before the bytes of the user hint.
-/
def FreshFront (run : SealRun) : SealEvent → Prop
  | .write _ choices seg =>
    (∀ block, run.u.writeBlock seg = .ok block → block.isStateless = true) ∧ ∀ group ∈ run.groups,
        nonceFront group.fresh.bytes ≠ nonceFront choices.fresh.bytes
  | .change _ => True

/-- A nonce differs from the earlier ones somewhere. -/
def FreshNonce (run : SealRun) : SealEvent → Prop
  | .write _ choices seg =>
    (∀ block, run.u.writeBlock seg = .ok block → block.isStateless = true) ∧
      ∀ group ∈ run.groups, group.fresh ≠ choices.fresh
  | .change _ => True

structure SealRun.Inv (run : SealRun) : Prop where
  oneNonce : ∀ group ∈ run.groups, group.OneNonce
  fronts : run.groups.Pairwise fun earlier later =>
    nonceFront earlier.fresh.bytes ≠ nonceFront later.fresh.bytes

theorem sealRun_inv {run : SealRun}
    (h : (sealSystem crypto).ReachableBy FreshFront run) : run.Inv := by
  refine System.ReachableBy.invariant ?_ ?_ h
  · intro run hinit
    have hinit : run.groups = [] := hinit
    exact ⟨by rw [hinit]; simp, by rw [hinit]; exact List.Pairwise.nil⟩
  · intro run event after hinv hguard hstep
    cases event with
    | write addr choices seg =>
      cases hstep
      obtain ⟨hstateless, hfresh⟩ := hguard
      refine ⟨fun group hgroup => ?_, ?_⟩
      · obtain hgroup | hgroup := List.mem_append.mp hgroup
        · exact hinv.oneNonce group hgroup
        · rw [List.mem_singleton.mp hgroup]
          exact PacketUnderlay.sealGroup_oneNonce crypto hstateless addr choices
      · refine List.pairwise_append.mpr
          ⟨hinv.fronts, List.pairwise_singleton _ _, fun group hgroup => ?_⟩
        intro last hlast
        rw [List.mem_singleton.mp hlast]
        exact hfresh group hgroup
    | change u =>
      cases hstep
      exact ⟨hinv.oneNonce, hinv.fronts⟩

/--
Two `Seal` calls of a run that use one nonce on different plaintexts are the
metadata and the payload of one segment.
-/
theorem same_nonce_same_segment {run : SealRun} (h : (sealSystem crypto).ReachableBy FreshFront run)
    {i j : Nat} {groupI groupJ : SealGroup} (hi : run.groups[i]? = some groupI)
    (hj : run.groups[j]? = some groupJ) {first second : SealCall} (hfirst : first ∈ groupI.calls)
    (hsecond : second ∈ groupJ.calls) (hnonce : first.nonce = second.nonce)
    (hne : first.plaintext ≠ second.plaintext) :
    i = j ∧ (groupI.calls = [first, second] ∨ groupI.calls = [second, first]) := by
  have hinv := sealRun_inv crypto h
  have hfront : nonceFront groupI.fresh.bytes = nonceFront groupJ.fresh.bytes := by
    rw [← (hinv.oneNonce _ (List.mem_of_getElem? hi)).front hfirst,
      ← (hinv.oneNonce _ (List.mem_of_getElem? hj)).front hsecond, hnonce]
  have hsame : i = j := by
    obtain ⟨hilt, rfl⟩ := List.getElem?_eq_some_iff.mp hi
    obtain ⟨hjlt, rfl⟩ := List.getElem?_eq_some_iff.mp hj
    have hpairwise := List.pairwise_iff_getElem.mp hinv.fronts
    rcases Nat.lt_trichotomy i j with hlt | heq | hgt
    · exact absurd hfront (hpairwise i j hilt hjlt hlt)
    · exact heq
    · exact absurd hfront.symm (hpairwise j i hjlt hilt hgt)
  subst hsame
  cases hi.symm.trans hj
  exact ⟨rfl, (hinv.oneNonce _ (List.mem_of_getElem? hi)).pair hfirst hsecond hne⟩

end

def greetingChoices (seconds : Int) (fresh : Nonce) : WriteChoices :=
  { choicesAt (seconds * 1000000000) with fresh := fresh }

def greetingGroup (seconds : Int) (fresh : Nonce) : SealGroup :=
  aliceClient.sealGroup tagCrypto "server" (greetingChoices seconds fresh) greeting

def greetingRun : SealRun where
  u := aliceClient
  groups := [greetingGroup 120 (nonceOf 5), greetingGroup 120 (nonceOf 6)]

theorem stateless_greeting {block : BlockCipher} (h : aliceClient.writeBlock greeting = .ok block) :
    block.isStateless = true := by
  cases h
  rfl

theorem reachable_greeting {guard : SealRun → SealEvent → Prop} {groups : List SealGroup}
    {seconds : Int} {fresh : Nonce}
    (h : (sealSystem tagCrypto).ReachableBy guard ⟨aliceClient, groups⟩)
    (hguard : guard ⟨aliceClient, groups⟩
      (.write "server" (greetingChoices seconds fresh) greeting)) :
    (sealSystem tagCrypto).ReachableBy guard
      ⟨aliceClient, groups ++ [greetingGroup seconds fresh]⟩ :=
  h.step hguard rfl

theorem greetingRun_reachable : (sealSystem tagCrypto).ReachableBy FreshFront greetingRun := by
  have hfirst : (sealSystem tagCrypto).ReachableBy FreshFront
      ⟨aliceClient, [greetingGroup 120 (nonceOf 5)]⟩ :=
    reachable_greeting (.init rfl) ⟨fun _ => stateless_greeting, by simp⟩
  refine reachable_greeting hfirst ⟨fun _ => stateless_greeting, ?_⟩
  intro group hgroup
  rw [List.mem_singleton.mp hgroup]
  decide

def greetingNonce : Bytes :=
  (aliceCipher.addUserHintToNonce tagCrypto (nonceOf 6)).bytes

def greetingMetadataCall : SealCall where
  key := aliceCipher.key
  nonce := greetingNonce
  plaintext :=
    ((greeting.pad 1400 .packetTransport shortPaddings).metadata.marshal 120).2

def greetingPayloadCall : SealCall where
  key := aliceCipher.key
  nonce := greetingNonce
  plaintext := greeting.payload

theorem greetingGroup_calls :
    (greetingGroup 120 (nonceOf 6)).calls = [greetingMetadataCall, greetingPayloadCall] := by
  decide +kernel

/-- The two calls of the second greeting. -/
theorem same_nonce_same_segment_greetingRun :
    greetingMetadataCall.plaintext ≠ greetingPayloadCall.plaintext ∧ (1 = 1 ∧
        ((greetingGroup 120 (nonceOf 6)).calls = [greetingMetadataCall, greetingPayloadCall] ∨
          (greetingGroup 120 (nonceOf 6)).calls =
            [greetingPayloadCall, greetingMetadataCall])) := by
  have hne : greetingMetadataCall.plaintext ≠ greetingPayloadCall.plaintext := by
    decide
  refine ⟨hne, ?_⟩
  exact same_nonce_same_segment tagCrypto greetingRun_reachable
    (show greetingRun.groups[1]? = some (greetingGroup 120 (nonceOf 6)) from rfl) rfl
    (by rw [greetingGroup_calls]; simp) (by rw [greetingGroup_calls]; simp)
    rfl hne

/-- It differs from `nonceOf 6` in the four bytes that the hint replaces. -/
def hintedNonce : Nonce := ⟨List.replicate 20 6 ++ List.replicate 4 7, rfl⟩

def hintedRun : SealRun where
  u := aliceClient
  groups := [greetingGroup 120 (nonceOf 6), greetingGroup 180 hintedNonce]

theorem hintedRun_reachable : (sealSystem tagCrypto).ReachableBy FreshNonce hintedRun := by
  have hfirst : (sealSystem tagCrypto).ReachableBy FreshNonce
      ⟨aliceClient, [greetingGroup 120 (nonceOf 6)]⟩ :=
    reachable_greeting (.init rfl) ⟨fun _ => stateless_greeting, by simp⟩
  refine reachable_greeting hfirst ⟨fun _ => stateless_greeting, ?_⟩
  intro group hgroup
  rw [List.mem_singleton.mp hgroup]
  decide

def hintedMetadataCall : SealCall where
  key := aliceCipher.key
  nonce := greetingNonce
  plaintext :=
    ((greeting.pad 1400 .packetTransport shortPaddings).metadata.marshal 180).2

theorem hintedGroup_calls : hintedMetadataCall ∈ (greetingGroup 180 hintedNonce).calls := by
  decide +kernel

/-- The payload of a segment is sealed under the key and nonce of its metadata;
and the metadata of two segments are, if their nonces were drawn different only
where the user hint comes. -/
theorem seal_nonce_reused : (∃ run group first second,
      (sealSystem tagCrypto).ReachableBy FreshFront run ∧
      group ∈ run.groups ∧ first ∈ group.calls ∧ second ∈ group.calls ∧
      first.key = second.key ∧ first.nonce = second.nonce ∧
      first.plaintext ≠ second.plaintext) ∧
    ∃ run groupI groupJ first second, (sealSystem tagCrypto).ReachableBy FreshNonce run ∧
      run.groups = [groupI, groupJ] ∧ first ∈ groupI.calls ∧ second ∈ groupJ.calls ∧
      first.key = second.key ∧ first.nonce = second.nonce ∧
      first.plaintext ≠ second.plaintext := by
  constructor
  · refine ⟨greetingRun, greetingGroup 120 (nonceOf 6), greetingMetadataCall,
      greetingPayloadCall, greetingRun_reachable, ?_, ?_, ?_, rfl, rfl, by decide⟩
    · simp [greetingRun]
    · simp [greetingGroup_calls]
    · simp [greetingGroup_calls]
  · refine ⟨hintedRun, greetingGroup 120 (nonceOf 6), greetingGroup 180 hintedNonce,
      greetingMetadataCall, hintedMetadataCall, hintedRun_reachable, rfl, ?_,
      hintedGroup_calls, rfl, rfl, by decide⟩
    simp [greetingGroup_calls]

end Mieru.Protocol
