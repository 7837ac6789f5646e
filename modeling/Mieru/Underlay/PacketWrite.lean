import Mieru.Underlay.Padding
import Mieru.Underlay.PacketRead

/-!
# Writing a datagram

`writeOneSegment` of the packet underlay.  The nonce that `newNonce` would draw
and the paddings are arguments, and the result lists every call of the AEAD's
`Seal`, also of a call that fails later.
-/

namespace Mieru.Protocol

open Mieru.Foundation
open Mieru.Cipher

inductive PacketWriteError where
  | wrongAddress (addr serverAddr : Addr)
  | sessionNotFound (id : UInt32)
  | notReady
  | encryptFailed (message : String)
  deriving DecidableEq, Repr

structure PacketWritten where
  outcome : Outcome PacketWriteError Bytes
  calls : List SealCall

/-- What a call of `writeOneSegment` draws at random, and the clock. -/
structure WriteChoices where
  fresh : Nonce
  paddings : PaddingSource
  now : Int

namespace PacketUnderlay

variable (crypto : Crypto)

def writeBlock (u : PacketUnderlay) (seg : Segment) : Outcome PacketWriteError BlockCipher :=
  if u.isClient then
    match u.block with
    | some block => .ok block
    | none => .panic "cipher block is not ready"
  else
    match seg.block with
    | some block => .ok block
    | none =>
      match u.base.sessions.load seg.sessionID with
      | none => .error (.sessionNotFound seg.sessionID)
      | some live =>
        match live.session.block with
        | none => .error .notReady
        | some block => .ok block

def sealSegment (block : BlockCipher) (choices : WriteChoices) (padded : Padded) : PacketWritten :=
  let plaintextMetadata :=
    (padded.metadata.marshal (unixSeconds choices.now)).2
  let encryptedMetadata := block.encrypt crypto choices.fresh plaintextMetadata
  let nonce := encryptedMetadata.bytes.take defaultNonceSize
  if 0 < padded.payload.length then
    match block.encryptWithNonce crypto padded.payload nonce with
    | .ok (encryptedPayload, call) =>
      { outcome := .ok (encryptedMetadata.bytes ++ padded.padding1 ++
          encryptedPayload ++ padded.padding2)
        calls := [encryptedMetadata.call, call] }
    | .error err =>
      { outcome := .error (.encryptFailed err)
        calls := [encryptedMetadata.call] }
    | .panic message =>
      { outcome := .panic message, calls := [encryptedMetadata.call] }
  else
    { outcome := .ok (encryptedMetadata.bytes ++ padded.padding1 ++ padded.padding2)
      calls := [encryptedMetadata.call] }

def writeOneSegment (u : PacketUnderlay) (addr : Addr)
    (choices : WriteChoices) (seg : Segment) : PacketWritten :=
  if u.isClient && addr != u.serverAddr then
    { outcome := .error (.wrongAddress addr u.serverAddr), calls := [] }
  else
    match u.writeBlock seg with
    | .ok block =>
      sealSegment crypto block choices (seg.pad u.base.mtu .packetTransport choices.paddings)
    | .error err => { outcome := .error err, calls := [] }
    | .panic message => { outcome := .panic message, calls := [] }

end PacketUnderlay

end Mieru.Protocol
