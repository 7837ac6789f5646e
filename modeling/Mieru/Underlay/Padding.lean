import Mieru.Protocol.Segment

/-!
# Padding

`newPadding` draws both the length and the content of a padding at random;
what a writer can rely on is the bound it passes in.
-/

namespace Mieru.Protocol

open Mieru.Foundation

def maxPaddingSize (mtu : Nat) (transport : TransportProtocol)
    (fragmentSize existingPaddingSize : Nat) : Nat :=
  match transport with
  | .streamTransport => 255
  | .packetTransport =>
    let res := mtu - fragmentSize - packetOverhead
    if res ≤ existingPaddingSize then 0
    else min (res - existingPaddingSize) 255

theorem maxPaddingSize_le (mtu : Nat) (transport : TransportProtocol)
    (fragmentSize existing : Nat) : maxPaddingSize mtu transport fragmentSize existing ≤ 255 := by
  unfold maxPaddingSize
  cases transport with
  | streamTransport => exact Nat.le_refl _
  | packetTransport =>
    dsimp only
    split
    · exact Nat.zero_le _
    · exact Nat.min_le_right _ _

variable {mtu fragmentSize existing : Nat}

theorem existing_add_maxPaddingSize_le
    (h : existing ≤ maxPaddingSize mtu .packetTransport fragmentSize 0) :
    existing + maxPaddingSize mtu .packetTransport fragmentSize existing ≤
      mtu - fragmentSize - packetOverhead := by
  simp only [maxPaddingSize] at h ⊢
  split at h <;> split <;> omega

structure Padding (maxLen : Nat) where
  bytes : Bytes
  length_le : bytes.length ≤ maxLen

/-- What the one or two calls of `newPadding` in a writer return. -/
structure PaddingSource where
  first : (maxLen : Nat) → Padding maxLen
  second : (maxLen : Nat) → Padding maxLen

theorem toNat_paddingLen {transport : TransportProtocol}
    (padding : Padding (maxPaddingSize mtu transport fragmentSize existing)) :
    (UInt8.ofNat padding.bytes.length).toNat = padding.bytes.length := by
  have hle := padding.length_le
  have hmax := maxPaddingSize_le mtu transport fragmentSize existing
  rw [UInt8.toNat_ofNat']
  omega

structure Padded where
  metadata : Metadata
  padding1 : Bytes
  payload : Bytes
  padding2 : Bytes

/--
The two branches of the writers up to `Marshal`: paddings are drawn and their
lengths stored in the metadata.  Only data and acknowledgements have a padding
before the payload.
-/
def Segment.pad (seg : Segment) (mtu : Nat) (transport : TransportProtocol)
    (paddings : PaddingSource) : Padded :=
  let maxLen := maxPaddingSize mtu transport
  match seg.metadata with
  | .session ss =>
    let padding := paddings.first (maxLen ss.payloadLen.toNat 0)
    { metadata := .session { ss with suffixLen := UInt8.ofNat padding.bytes.length }
      padding1 := []
      payload := seg.payload
      padding2 := padding.bytes }
  | .dataAck das =>
    let padding1 := paddings.first (maxLen das.payloadLen.toNat 0)
    let padding2 := paddings.second (maxLen das.payloadLen.toNat padding1.bytes.length)
    { metadata := .dataAck
        { das with
          prefixLen := UInt8.ofNat padding1.bytes.length
          suffixLen := UInt8.ofNat padding2.bytes.length }
      padding1 := padding1.bytes
      payload := seg.payload
      padding2 := padding2.bytes }

structure Padded.Describes (padded : Padded) (seg : Segment) : Prop where
  sameContent : seg.metadata.SameContent padded.metadata
  typed : seg.metadata.Typed → padded.metadata.Typed
  payload : padded.payload = seg.payload
  payloadLen : padded.metadata.payloadLen = seg.metadata.payloadLen
  prefixLen : padded.metadata.prefixLen.toNat = padded.padding1.length
  suffixLen : padded.metadata.suffixLen.toNat = padded.padding2.length

variable (seg : Segment) (mtu : Nat) (transport : TransportProtocol) (paddings : PaddingSource)

theorem Segment.pad_describes : (seg.pad mtu transport paddings).Describes seg := by
  unfold Segment.pad
  cases hmeta : seg.metadata with
  | session ss =>
    exact {
      sameContent := by rw [hmeta]; exact ⟨rfl, rfl, rfl, rfl⟩
      typed := fun h => by rw [hmeta] at h; exact h
      payload := rfl
      payloadLen := by rw [hmeta]; rfl
      prefixLen := rfl
      suffixLen := toNat_paddingLen _ }
  | dataAck das =>
    exact {
      sameContent := by rw [hmeta]; exact ⟨rfl, rfl, rfl, rfl, rfl, rfl⟩
      typed := fun h => by rw [hmeta] at h; exact h
      payload := rfl
      payloadLen := by rw [hmeta]; rfl
      prefixLen := toNat_paddingLen _
      suffixLen := toNat_paddingLen _ }

theorem Segment.length_pad_le : (seg.pad mtu .packetTransport paddings).padding1.length +
        (seg.pad mtu .packetTransport paddings).padding2.length ≤
      mtu - seg.metadata.payloadLen.toNat - packetOverhead := by
  unfold Segment.pad
  cases seg.metadata with
  | session ss =>
    have hpadding := (paddings.first
      (maxPaddingSize mtu .packetTransport ss.payloadLen.toNat 0)).length_le
    have hroom := existing_add_maxPaddingSize_le hpadding
    simp only [List.length_nil, Metadata.payloadLen]
    omega
  | dataAck das =>
    have hpadding1 := (paddings.first
      (maxPaddingSize mtu .packetTransport das.payloadLen.toNat 0)).length_le
    have hpadding2 := (paddings.second (maxPaddingSize mtu .packetTransport
      das.payloadLen.toNat (paddings.first (maxPaddingSize mtu
        .packetTransport das.payloadLen.toNat 0)).bytes.length)).length_le
    have hroom := existing_add_maxPaddingSize_le hpadding1
    simp only [Metadata.payloadLen]
    omega

end Mieru.Protocol
