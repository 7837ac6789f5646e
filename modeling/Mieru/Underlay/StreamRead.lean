import Mieru.Cipher.UserLookup
import Mieru.Foundation.ChunkedInput
import Mieru.Protocol.Segment
import Mieru.Underlay.ReplayCache

/-!
# Reading from a stream

`readOneSegment` of the stream underlay with the two readers it calls.  The
connection is the list of the pieces that its reads return, and running out of
pieces is the read deadline passing.
-/

namespace Mieru.Protocol

open Mieru.Foundation
open Mieru.Cipher

inductive ErrorType where
  | networkError
  | cryptoError
  | protocolError
  | replayError
  deriving DecidableEq, Repr

structure StreamError where
  errorType : ErrorType
  message : String
  deriving DecidableEq, Repr

structure StreamUnderlay where
  isClient : Bool
  mtu : Nat
  block : Option BlockCipher := none
  users : List User := []
  userHintIsMandatory : Bool := false
  tcpFragment : Bool := false
  send : Option BlockCipher := none
  recv : Option BlockCipher := none
  deriving DecidableEq

structure StreamInput where
  t : StreamUnderlay
  conn : List Bytes
  cache : ReplayCache
  deriving DecidableEq

namespace StreamInput

variable (crypto : Crypto) (keyList : Bytes → List Bytes)

def setRecv (input : StreamInput) (recv : BlockCipher) : StreamInput :=
  { input with t := { input.t with recv := some recv } }

def readConn (input : StreamInput) (part : String) (size : Nat) :
    Eval StreamError (Bytes × StreamInput) :=
  match readFull size input.conn with
  | some (data, conn) => pure (data, { input with conn := conn })
  | none =>
    .fail ⟨.networkError, s!"{part}: read {size} bytes from StreamUnderlay failed"⟩

def checkReplay (input : StreamInput) (now : Int) (encrypted : Bytes) :
    Eval StreamError (Bool × StreamInput) := do
  let front ← .sliceTo encrypted defaultOverhead
  let checked := input.cache.isDuplicate front emptyTag now
  pure (checked.1, { input with cache := checked.2 })

def decryptNext (input : StreamInput) (ciphertext : Bytes) :
    Eval StreamError (Bytes × StreamInput) :=
  match input.t.recv with
  | none => .panic "invalid memory address or nil pointer dereference"
  | some recv =>
    let opened := recv.decrypt crypto ciphertext
    match opened.1 with
    | .ok plaintext => pure (plaintext, input.setRecv opened.2)
    | .error err => .fail ⟨.cryptoError, s!"Decrypt() failed: {err}"⟩
    | .panic message => .panic message

def readPadding (input : StreamInput) (size : UInt8) : Eval StreamError StreamInput :=
  if 0 < size then do
    let (_, input) ← input.readConn "padding" size.toNat
    pure input
  else pure input

def readPayload (input : StreamInput) (now : Int) (payloadLen : UInt16) :
    Eval StreamError (Bytes × StreamInput) :=
  if 0 < payloadLen then do
    let size ← .addUint16 payloadLen (UInt16.ofNat defaultOverhead)
    let (encryptedPayload, input) ← input.readConn "payload" size.toNat
    let (_, input) ← input.checkReplay now encryptedPayload
    input.decryptNext crypto encryptedPayload
  else pure ([], input)

def readSessionSegment (input : StreamInput) (now : Int) (ss : SessionStruct) :
    Eval StreamError (Segment × StreamInput) := do
  let (payload, input) ← input.readPayload crypto now ss.payloadLen
  let input ← input.readPadding ss.suffixLen
  pure ({ metadata := .session ss, payload := payload, block := input.t.recv }, input)

def readDataAckSegment (input : StreamInput) (now : Int)
    (das : DataAckStruct) : Eval StreamError (Segment × StreamInput) := do
  let input ← input.readPadding das.prefixLen
  let (payload, input) ← input.readPayload crypto now das.payloadLen
  let input ← input.readPadding das.suffixLen
  pure ({ metadata := .dataAck das, payload := payload, block := input.t.recv }, input)

/--
The server's first read: the matched cipher is made stateful and decrypts the
metadata again, which stores the nonce.
-/
def serverInitRecvBlockCipherAndDecryptMetadata (t : StreamUnderlay)
    (encryptedMeta : Bytes) : Outcome String (Bytes × BlockCipher) :=
  if h : encryptedMeta.length < defaultNonceSize then
    .panic s!"slice bounds out of range [:{defaultNonceSize}]"
  else
    (lookupUser crypto keyList t.users t.userHintIsMandatory encryptedMeta
      (Nonce.ofFront encryptedMeta (Nonce.front_le h))).bind fun (matched, _) =>
        let opened :=
          (matched.setImplicitNonceMode true).decrypt crypto encryptedMeta
        match opened.1 with
        | .ok decryptedMeta => .ok (decryptedMeta, opened.2)
        | .error err => .error s!"stateful Decrypt() failed: {err}"
        | .panic message => .panic message

def decryptFirst (input : StreamInput) (isNewSessionReplay : Bool)
    (encryptedMeta : Bytes) : Eval StreamError (Bytes × StreamInput) :=
  match serverInitRecvBlockCipherAndDecryptMetadata crypto keyList input.t encryptedMeta with
  | .ok (decryptedMeta, recv) =>
    if isNewSessionReplay then
      .fail ⟨.replayError, "found possible replay attack with payload decrypted"⟩
    else pure (decryptedMeta, input.setRecv recv)
  | .error err =>
    if isNewSessionReplay then
      .fail ⟨.replayError, "found possible replay attack"⟩
    else .fail ⟨.cryptoError, err⟩
  | .panic message => .panic message

def decryptMetadata (input : StreamInput) (isNewSessionReplay : Bool)
    (encryptedMeta : Bytes) : Eval StreamError (Bytes × StreamInput) :=
  match input.t.recv, input.t.isClient, input.t.block with
  | none, false, _ =>
    input.decryptFirst crypto keyList isNewSessionReplay encryptedMeta
  | none, true, some block =>
    (input.setRecv block).decryptNext crypto encryptedMeta
  | none, true, none =>
    .panic "invalid memory address or nil pointer dereference"
  | some _, _, _ => input.decryptNext crypto encryptedMeta

def readSegment (input : StreamInput) (now : Int) (decryptedMeta : Bytes) :
    Eval StreamError (Segment × StreamInput) :=
  match Metadata.unmarshal decryptedMeta (unixSeconds now) with
  | .ok (.session ss) => input.readSessionSegment crypto now ss
  | .ok (.dataAck das) => input.readDataAckSegment crypto now das
  | .error err => .fail ⟨.protocolError, err⟩
  | .panic message => .panic message

def metaReadLen (t : StreamUnderlay) : Nat :=
  metadataLength + defaultOverhead + (if t.recv.isNone then defaultNonceSize else 0)

def readOneSegment (input : StreamInput) (now : Int) :
    Eval StreamError (Option Segment × StreamInput) :=
  if input.conn.flatten = [] then pure (none, input)
  else do
    let firstRead := input.t.recv.isNone
    let (encryptedMeta, input) ← input.readConn "metadata" (metaReadLen input.t)
    let (duplicate, input) ← input.checkReplay now encryptedMeta
    let (decryptedMeta, input) ←
      input.decryptMetadata crypto keyList (firstRead && duplicate) encryptedMeta
    if decryptedMeta.length ≠ metadataLength then
      .fail ⟨.protocolError, s!"decrypted metadata size {decryptedMeta.length} is unexpected"⟩
    else do
      let (seg, input) ← input.readSegment crypto now decryptedMeta
      pure (some seg, input)

end StreamInput

end Mieru.Protocol
