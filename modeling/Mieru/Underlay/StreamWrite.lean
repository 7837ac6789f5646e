import Mathlib.Data.Nat.Sqrt
import Mieru.Underlay.Padding
import Mieru.Underlay.StreamRead

/-!
# Writing to a stream

`writeOneSegment` of the stream underlay.  The result lists the calls of
`conn.Write` that it makes.
-/

namespace Mieru.Protocol

open Mieru.Foundation
open Mieru.Cipher

/--
What a call of `writeOneSegment` draws at random, and the clock.  A stateful
cipher draws a nonce at most once; `draws` are the results of `mrand.Intn`
before they are reduced to the range asked for.
-/
structure StreamChoices where
  fresh : Nonce
  freshPayload : Nonce
  paddings : PaddingSource
  draws : Nat → Nat
  now : Int

/--
The loop of `writeWithPossibleFragment`.  Every round sends at least one byte,
so as many rounds as there are bytes are enough.
-/
def fragments (size : Nat) (draws : Nat → Nat) : Nat → Nat → Bytes → List Bytes
  | 0, _, _ => []
  | rounds + 1, round, remaining =>
    if remaining.length = 0 then []
    else
      let minLenToSend := Nat.sqrt size + 1
      let maxLenToSend := max minLenToSend (size / 2)
      let lenToSend :=
        draws round % (maxLenToSend - minLenToSend + 1) + minLenToSend
      let lenToSend := min lenToSend remaining.length
      remaining.take lenToSend :: fragments size draws rounds (round + 1) (remaining.drop lenToSend)

theorem flatten_fragments (size : Nat) (draws : Nat → Nat) (rounds round : Nat) (remaining : Bytes)
    (h : remaining.length ≤ rounds) :
    (fragments size draws rounds round remaining).flatten = remaining := by
  induction rounds generalizing round remaining with
  | zero =>
    have hnil : remaining = [] := List.eq_nil_of_length_eq_zero (by omega)
    rw [hnil]
    rfl
  | succ rounds ih =>
    rw [fragments]
    split
    · rename_i hzero
      rw [List.eq_nil_of_length_eq_zero hzero]
      rfl
    · dsimp only
      rw [List.flatten_cons, ih, List.take_append_drop]
      rw [List.length_drop]
      omega

namespace StreamUnderlay

variable (crypto : Crypto)

def maybeInitSendBlockCipher (t : StreamUnderlay) : Outcome String StreamUnderlay :=
  match t.send with
  | some _ => .ok t
  | none =>
    if t.isClient then
      match t.block with
      | some block => .ok { t with send := some block }
      | none => .panic "invalid memory address or nil pointer dereference"
    else
      match t.recv with
      | some recv =>
        -- Leaving the implicit nonce mode clears the nonce of the clone.
        let cleared := recv.setImplicitNonceMode false
        .ok { t with send := some (cleared.setImplicitNonceMode true) }
      | none => .error "recv cipher is nil"

def writeWithPossibleFragment (t : StreamUnderlay) (draws : Nat → Nat)
    (dataToSend : Bytes) : List Bytes :=
  if t.tcpFragment then
    fragments dataToSend.length draws dataToSend.length 0 dataToSend
  else [dataToSend]

def sealSegment (send : BlockCipher) (choices : StreamChoices)
    (padded : Padded) : BlockCipher × Bytes :=
  let plaintextMetadata :=
    (padded.metadata.marshal (unixSeconds choices.now)).2
  let encryptedMetadata := send.encrypt crypto choices.fresh plaintextMetadata
  if 0 < padded.payload.length then
    let encryptedPayload := encryptedMetadata.cipher.encrypt crypto
      choices.freshPayload padded.payload
    (encryptedPayload.cipher, encryptedMetadata.bytes ++ padded.padding1 ++
      encryptedPayload.bytes ++ padded.padding2)
  else
    (encryptedMetadata.cipher, encryptedMetadata.bytes ++ padded.padding1 ++ padded.padding2)

def writes (t : StreamUnderlay) (draws : Nat → Nat) (metadata : Metadata)
    (dataToSend : Bytes) : List Bytes :=
  match metadata with
  | .session _ => t.writeWithPossibleFragment draws dataToSend
  | .dataAck _ => [dataToSend]

def writeOneSegment (t : StreamUnderlay) (choices : StreamChoices)
    (seg : Segment) : Outcome String (StreamUnderlay × List Bytes) :=
  t.maybeInitSendBlockCipher.bind fun t =>
    match t.send with
    | none => .panic "invalid memory address or nil pointer dereference"
    | some send =>
      let sealedSegment := sealSegment crypto send choices
        (seg.pad t.mtu .streamTransport choices.paddings)
      .ok ({ t with send := some sealedSegment.1 },
        t.writes choices.draws seg.metadata sealedSegment.2)

theorem flatten_writes (t : StreamUnderlay) (draws : Nat → Nat)
    (metadata : Metadata) (dataToSend : Bytes) :
    (t.writes draws metadata dataToSend).flatten = dataToSend := by
  cases metadata with
  | session ss =>
    simp only [writes, writeWithPossibleFragment]
    split
    · exact flatten_fragments _ _ _ _ _ (Nat.le_refl _)
    · simp
  | dataAck das => simp [writes]

end StreamUnderlay

end Mieru.Protocol
