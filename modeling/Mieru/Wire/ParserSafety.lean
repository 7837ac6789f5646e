import Mieru.Underlay.PacketRead
import Mieru.Underlay.StreamRead

/-!
# Safety of the segment parsers

When a parser neither slices out of range nor lets the 16-bit sum of the
payload length and the AEAD overhead wrap around, for each of the four parsers.
-/

namespace Mieru.Protocol

open Mieru.Foundation
open Mieru.Cipher
open ProtocolType

/-- The size of the encrypted payload is computed without wrap-around. -/
def FitsUint16 (payloadLen : UInt16) : Prop :=
  payloadLen.toNat + defaultOverhead < 65536

theorem safe_add_overhead_iff {ε : Type} (payloadLen : UInt16) :
    (Eval.addUint16 payloadLen (UInt16.ofNat defaultOverhead) :
      Eval ε UInt16).Safe ↔ FitsUint16 payloadLen :=
  Eval.safe_addUint16_iff _ _

theorem FitsUint16.toNat_add {payloadLen : UInt16} (h : FitsUint16 payloadLen) :
    (payloadLen + UInt16.ofNat defaultOverhead).toNat = payloadLen.toNat + defaultOverhead := by
  have hoverhead : (UInt16.ofNat defaultOverhead).toNat = defaultOverhead := rfl
  rw [UInt16.toNat_add, hoverhead]
  exact Nat.mod_eq_of_lt h

theorem fitsUint16_zero {payloadLen : UInt16} (h : ¬ 0 < payloadLen) : FitsUint16 payloadLen := by
  have hzero : payloadLen = 0 := by
    simpa [UInt16.lt_iff_toNat_lt, ← UInt16.toNat_inj] using h
  rw [hzero, FitsUint16]
  decide

namespace PacketUnderlay

variable (crypto : Crypto) {u : PacketUnderlay} {blockCipher : Option BlockCipher}

/-- The parsers have a cipher: the caller's or the client's own. -/
def HasBlock (u : PacketUnderlay) (blockCipher : Option BlockCipher) : Prop :=
  blockCipher.isSome = true ∨ (u.isClient = true ∧ u.block.isSome = true)

theorem HasBlock.payloadBlock (h : u.HasBlock blockCipher) (caller : String) :
    ∃ block, u.payloadBlock caller blockCipher = pure block := by
  unfold PacketUnderlay.payloadBlock
  cases blockCipher with
  | some block => exact ⟨block, rfl⟩
  | none =>
    obtain hnone | ⟨hclient, hblock⟩ := h
    · cases hnone
    · obtain ⟨block, hblock⟩ := Option.isSome_iff_exists.mp hblock
      exact ⟨block, by simp only [hclient, hblock, if_true]⟩

theorem openPayload_not_panics (block : BlockCipher) (encryptedPayload nonce : Bytes) :
    ¬ (openPayload crypto block encryptedPayload nonce).Panics := by
  have hopen := block.decryptWithNonce_not_panics crypto encryptedPayload nonce
  unfold openPayload
  split
  · simp
  · exact hopen

theorem parsePayload_safe_iff (h : u.HasBlock blockCipher) (caller : String)
    (payloadLen : UInt16) (suffixLen : UInt8) (nonce remaining : Bytes) :
    (u.parsePayload crypto caller payloadLen suffixLen nonce remaining blockCipher).Safe ↔
      FitsUint16 payloadLen ∨ remaining.length < payloadLen.toNat + defaultOverhead := by
  obtain ⟨block, hblock⟩ := h.payloadBlock caller
  unfold parsePayload
  by_cases hpayload : 0 < payloadLen
  · rw [if_pos hpayload]
    by_cases hshort : remaining.length < payloadLen.toNat + defaultOverhead
    · rw [if_pos hshort]
      exact ⟨fun _ => .inr hshort, fun _ => Eval.safe_fail _⟩
    · rw [if_neg hshort, hblock, Eval.pure_bind, Eval.safe_bind, safe_add_overhead_iff]
      constructor
      · exact fun hsafe => .inl hsafe.1
      · intro hfits
        have hfits := hfits.resolve_right hshort
        refine ⟨hfits, fun size hsize => ?_⟩
        cases hsize
        rw [Eval.safe_bind, Eval.safe_sliceTo_iff, hfits.toNat_add]
        refine ⟨Nat.not_lt.mp hshort, fun encryptedPayload _ => ?_⟩
        rw [Eval.safe_bind]
        refine ⟨Eval.safe_lift (openPayload_not_panics crypto _ _ _), fun decryptedPayload _ => ?_⟩
        split
        · exact Eval.safe_fail _
        · exact Eval.safe_pure _
  · rw [if_neg hpayload]
    refine ⟨fun _ => .inl (fitsUint16_zero hpayload), fun _ => ?_⟩
    split
    · exact Eval.safe_fail _
    · exact Eval.safe_pure _

theorem parseSessionSegment_safe_iff (h : u.HasBlock blockCipher)
    (ss : SessionStruct) (nonce remaining : Bytes) :
    (u.parseSessionSegment crypto ss nonce remaining blockCipher).Safe ↔ FitsUint16 ss.payloadLen ∨
        remaining.length < ss.payloadLen.toNat + defaultOverhead := by
  unfold parseSessionSegment
  rw [Eval.safe_bind, parsePayload_safe_iff crypto h]
  exact and_iff_left fun payload _ => Eval.safe_pure _

theorem dropPadding_of_le {remaining : Bytes} {prefixLen : UInt8}
    (h : prefixLen.toNat ≤ remaining.length) :
    dropPadding remaining prefixLen = pure (remaining.drop prefixLen.toNat) := by
  unfold dropPadding
  split
  · exact Eval.sliceFrom_of_le h
  · rename_i hzero
    have hzero : prefixLen.toNat = 0 := by
      simpa [UInt8.lt_iff_toNat_lt] using hzero
    rw [hzero, List.drop_zero]

theorem dropPadding_not_safe {remaining : Bytes} {prefixLen : UInt8}
    (h : remaining.length < prefixLen.toNat) : ¬ (dropPadding remaining prefixLen).Safe := by
  have hpositive : 0 < prefixLen := by
    rw [UInt8.lt_iff_toNat_lt]
    exact Nat.zero_lt_of_lt h
  rw [dropPadding, if_pos hpositive, Eval.safe_sliceFrom_iff]
  omega

theorem parseDataAckSegment_safe_iff (h : u.HasBlock blockCipher)
    (das : DataAckStruct) (nonce remaining : Bytes) :
    (u.parseDataAckSegment crypto das nonce remaining blockCipher).Safe ↔
      das.prefixLen.toNat ≤ remaining.length ∧ (FitsUint16 das.payloadLen ∨
          remaining.length - das.prefixLen.toNat < das.payloadLen.toNat + defaultOverhead) := by
  unfold parseDataAckSegment
  by_cases hlong : das.prefixLen.toNat ≤ remaining.length
  · rw [dropPadding_of_le hlong, Eval.pure_bind, Eval.safe_bind,
      parsePayload_safe_iff crypto h, List.length_drop, and_iff_right hlong]
    exact and_iff_left fun payload _ => Eval.safe_pure _
  · rw [Eval.safe_bind]
    constructor
    · intro hsafe
      exact absurd hsafe.1 (dropPadding_not_safe (by omega))
    · intro hbounds
      exact absurd hbounds.1 hlong

end PacketUnderlay

namespace StreamInput

variable (crypto : Crypto) {input : StreamInput}

theorem readConn_safe (part : String) (size : Nat) : (input.readConn part size).Safe := by
  unfold readConn
  split
  · exact Eval.safe_pure _
  · exact Eval.safe_fail _

theorem readConn_eq_ok {part : String} {size : Nat} {result : Bytes × StreamInput}
    (h : (input.readConn part size).outcome = .ok result) :
    result.1.length = size ∧ result.2.t = input.t := by
  unfold readConn at h
  split at h
  · rename_i data conn hread
    cases h
    exact ⟨length_of_readFull hread, rfl⟩
  · cases h

theorem readPadding_safe (size : UInt8) : (input.readPadding size).Safe := by
  unfold readPadding
  split
  · rw [Eval.safe_bind]
    exact ⟨readConn_safe _ _, fun _ _ => Eval.safe_pure _⟩
  · exact Eval.safe_pure _

theorem readPadding_outcome (input : StreamInput) (size : UInt8) :
    (∃ after, (input.readPadding size).outcome = .ok after ∧
        after.t = input.t ∧ size.toNat ≤ input.conn.flatten.length) ∨
      (∃ err, (input.readPadding size).outcome = .error err) ∧
        input.conn.flatten.length < size.toNat := by
  unfold readPadding
  by_cases hsize : 0 < size
  · rw [if_pos hsize]
    unfold readConn
    cases hread : readFull size.toNat input.conn with
    | some result =>
      refine .inl ⟨{ input with conn := result.2 }, rfl, rfl, ?_⟩
      by_contra hshort
      rw [readFull_of_lt _ _ (by omega)] at hread
      cases hread
    | none =>
      exact .inr ⟨⟨_, rfl⟩, (readFull_eq_none_iff _ _).mp hread⟩
  · rw [if_neg hsize]
    have hzero : size.toNat = 0 := by
      simpa [UInt8.lt_iff_toNat_lt] using hsize
    exact .inl ⟨input, rfl, rfl, by omega⟩

theorem checkReplay_safe_iff (now : Int) (encrypted : Bytes) :
    (input.checkReplay now encrypted).Safe ↔ defaultOverhead ≤ encrypted.length := by
  unfold checkReplay
  rw [Eval.safe_bind, Eval.safe_sliceTo_iff]
  exact and_iff_left fun _ _ => Eval.safe_pure _

theorem checkReplay_eq_ok {now : Int} {encrypted : Bytes} {result : Bool × StreamInput}
    (h : (input.checkReplay now encrypted).outcome = .ok result) : result.2.t = input.t := by
  unfold checkReplay at h
  simp only [Eval.outcome_bind, Outcome.bind_eq_ok] at h
  obtain ⟨front, -, h⟩ := h
  cases h
  rfl

theorem decryptNext_safe (h : input.t.recv.isSome = true) (ciphertext : Bytes) :
    (input.decryptNext crypto ciphertext).Safe := by
  obtain ⟨recv, hrecv⟩ := Option.isSome_iff_exists.mp h
  have hopen := recv.decrypt_not_panics crypto ciphertext
  unfold decryptNext
  rw [hrecv]
  dsimp only
  split
  · exact Eval.safe_pure _
  · exact Eval.safe_fail _
  · rename_i message hpanic
    rw [hpanic] at hopen
    exact absurd trivial hopen

theorem readPayload_safe_iff (h : input.t.recv.isSome = true) (now : Int) (payloadLen : UInt16) :
    (input.readPayload crypto now payloadLen).Safe ↔ FitsUint16 payloadLen := by
  unfold readPayload
  by_cases hpayload : 0 < payloadLen
  · rw [if_pos hpayload, Eval.safe_bind, safe_add_overhead_iff]
    refine and_iff_left_of_imp fun hfits size hsize => ?_
    cases hsize
    rw [Eval.safe_bind]
    refine ⟨readConn_safe _ _, fun result hread => ?_⟩
    obtain ⟨hlength, ht⟩ := readConn_eq_ok hread
    rw [hfits.toNat_add] at hlength
    rw [Eval.safe_bind, checkReplay_safe_iff]
    refine ⟨by omega, fun checked hchecked => ?_⟩
    exact decryptNext_safe crypto (by rw [checkReplay_eq_ok hchecked, ht]; exact h) _
  · rw [if_neg hpayload]
    exact ⟨fun _ => fitsUint16_zero hpayload, fun _ => Eval.safe_pure _⟩

theorem readSessionSegment_safe_iff (h : input.t.recv.isSome = true)
    (now : Int) (ss : SessionStruct) :
    (input.readSessionSegment crypto now ss).Safe ↔ FitsUint16 ss.payloadLen := by
  unfold readSessionSegment
  rw [Eval.safe_bind, readPayload_safe_iff crypto h]
  refine and_iff_left fun result _ => ?_
  rw [Eval.safe_bind]
  exact ⟨readPadding_safe _, fun _ _ => Eval.safe_pure _⟩

theorem readDataAckSegment_safe_iff (h : input.t.recv.isSome = true)
    (now : Int) (das : DataAckStruct) :
    (input.readDataAckSegment crypto now das).Safe ↔ FitsUint16 das.payloadLen ∨
        input.conn.flatten.length < das.prefixLen.toNat := by
  unfold readDataAckSegment
  rw [Eval.safe_bind, and_iff_right (readPadding_safe _)]
  rcases readPadding_outcome input das.prefixLen with
    ⟨after, hafter, ht, hlong⟩ | ⟨⟨err, herr⟩, hshort⟩
  · rw [hafter]
    simp only [Outcome.ok.injEq, forall_eq']
    rw [Eval.safe_bind, readPayload_safe_iff crypto (by rw [ht]; exact h)]
    constructor
    · exact fun hsafe => .inl hsafe.1
    · intro hfits
      refine ⟨hfits.resolve_right (by omega), fun result _ => ?_⟩
      rw [Eval.safe_bind]
      exact ⟨readPadding_safe _, fun _ _ => Eval.safe_pure _⟩
  · rw [herr]
    exact ⟨fun _ => .inr hshort, fun _ _ hok => by cases hok⟩

end StreamInput

/--
Each parser is safe on the metadata and the bytes it is given exactly when the
stated bound holds.
-/
theorem parsers_safe_iff (crypto : Crypto) (u : PacketUnderlay) (blockCipher : Option BlockCipher)
    (nonce remaining : Bytes) (input : StreamInput) (now : Int) (hblock : u.HasBlock blockCipher)
    (hrecv : input.t.recv.isSome = true) :
    (∀ ss, (u.parseSessionSegment crypto ss nonce remaining blockCipher).Safe ↔
      FitsUint16 ss.payloadLen ∨ remaining.length < ss.payloadLen.toNat + defaultOverhead) ∧
    (∀ das, (u.parseDataAckSegment crypto das nonce remaining blockCipher).Safe ↔
      das.prefixLen.toNat ≤ remaining.length ∧ (FitsUint16 das.payloadLen ∨
          remaining.length - das.prefixLen.toNat < das.payloadLen.toNat + defaultOverhead)) ∧
    (∀ ss, (input.readSessionSegment crypto now ss).Safe ↔ FitsUint16 ss.payloadLen) ∧
    (∀ das, (input.readDataAckSegment crypto now das).Safe ↔ FitsUint16 das.payloadLen ∨
        input.conn.flatten.length < das.prefixLen.toNat) :=
  ⟨fun ss =>
      PacketUnderlay.parseSessionSegment_safe_iff crypto hblock ss nonce remaining,
    fun das =>
      PacketUnderlay.parseDataAckSegment_safe_iff crypto hblock das nonce remaining,
    StreamInput.readSessionSegment_safe_iff crypto hrecv now,
    StreamInput.readDataAckSegment_safe_iff crypto hrecv now⟩

def parserCipher : BlockCipher := { key := [1], ctx := ⟨"alice"⟩ }

def parserUnderlay : PacketUnderlay where
  base := { transport := .packetTransport, isClient := false, mtu := 1400 }

def parserInput : StreamInput where
  t := {
    isClient := false
    mtu := 1400
    recv := some (parserCipher.setImplicitNonceMode true) }
  conn := [List.replicate 15 0]
  cache := { capacity := 16, expireTime := 0, expireInterval := 60 }

theorem parsers_safe_iff_parserUnderlay : (parserUnderlay.parseDataAckSegment tagCrypto
        { protocol := dataClientToServer, prefixLen := 1, suffixLen := 2 }
        [] [0, 0, 0] (some parserCipher)).Safe ∧
      (parserInput.readSessionSegment tagCrypto 0
        { protocol := openSessionRequest, payloadLen := 65519 }).Safe := by
  have hiff := parsers_safe_iff tagCrypto parserUnderlay (some parserCipher) []
    [0, 0, 0] parserInput 0 (.inl rfl) rfl
  exact ⟨(hiff.2.1 _).mpr ⟨by decide, .inl (by unfold FitsUint16; decide)⟩,
    (hiff.2.2.1 _).mpr (by unfold FitsUint16; decide)⟩

def overlongPrefix : DataAckStruct where
  protocol := dataClientToServer
  timestamp := 1
  prefixLen := 1

def wrappingPayload : SessionStruct where
  protocol := openSessionRequest
  timestamp := 1
  payloadLen := 65535

/--
Two unmarshalled values on which a parser panics: a prefix padding longer than
the datagram, and a payload whose encrypted size wraps around to 15.
-/
theorem parsers_panic : (DataAckStruct.unmarshal overlongPrefix.encode 60 = .ok overlongPrefix ∧
      (parserUnderlay.parseDataAckSegment tagCrypto overlongPrefix [] []
        (some parserCipher)).outcome.Panics) ∧
    (SessionStruct.unmarshal {} wrappingPayload.encode 60 = .ok wrappingPayload ∧
      (parserInput.readSessionSegment tagCrypto 0 wrappingPayload).outcome.Panics) := by
  decide

end Mieru.Protocol
