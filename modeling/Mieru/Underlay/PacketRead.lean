import Mieru.Cipher.UserLookup
import Mieru.Underlay.EventLoop
import Mieru.Underlay.ReplayCache

/-!
# Reading a datagram

`readOneSegment` of the packet underlay with the two parsers it calls.  A call
of the source reads datagrams until one of them makes a segment; here it is
run on one datagram, and `none` says that the datagram was dropped.
-/

namespace Mieru.Protocol

open Mieru.Foundation
open Mieru.Cipher

structure PacketUnderlay where
  base : Underlay
  serverAddr : Addr := ""
  block : Option BlockCipher := none
  users : List User := []
  userHintIsMandatory : Bool := false

structure Datagram where
  addr : Addr
  bytes : Bytes
  deriving DecidableEq, Repr

def readBufferSize : Nat := 1500

namespace PacketUnderlay

def isClient (u : PacketUnderlay) : Bool := u.base.isClient

variable (crypto : Crypto) (keyList : Bytes → List Bytes)

/-- The cipher for the payload; `caller` is the name in the panic message. -/
def payloadBlock (u : PacketUnderlay) (caller : String)
    (blockCipher : Option BlockCipher) : Eval String BlockCipher :=
  match blockCipher with
  | some block => pure block
  | none =>
    if u.isClient then
      match u.block with
      | some block => pure block
      | none => .panic "invalid memory address or nil pointer dereference"
    else .panic s!"PacketUnderlay {caller}(): block is nil"

def openPayload (block : BlockCipher) (encryptedPayload nonce : Bytes) : Outcome String Bytes :=
  match block.decryptWithNonce crypto encryptedPayload nonce with
  | .error err => .error s!"DecryptWithNonce() failed: {err}"
  | result => result

def parsePayload (u : PacketUnderlay) (caller : String) (payloadLen : UInt16) (suffixLen : UInt8)
    (nonce remaining : Bytes) (blockCipher : Option BlockCipher) : Eval String Bytes :=
  if 0 < payloadLen then
    if remaining.length < payloadLen.toNat + defaultOverhead then
      .fail "payload: received incomplete packet"
    else do
      let block ← u.payloadBlock caller blockCipher
      let size ← .addUint16 payloadLen (UInt16.ofNat defaultOverhead)
      let encryptedPayload ← .sliceTo remaining size.toNat
      let decryptedPayload ← .lift (openPayload crypto block encryptedPayload nonce)
      if payloadLen.toNat + defaultOverhead + suffixLen.toNat ≠
          remaining.length then .fail "padding: size not match"
      else pure decryptedPayload
  else if suffixLen.toNat ≠ remaining.length then
    .fail "padding: size not match"
  else pure []

def parseSessionSegment (u : PacketUnderlay) (ss : SessionStruct)
    (nonce remaining : Bytes) (blockCipher : Option BlockCipher) :
    Eval String Segment := do
  let payload ← u.parsePayload crypto "readSessionSegment" ss.payloadLen
    ss.suffixLen nonce remaining blockCipher
  pure { metadata := .session ss, payload := payload }

def dropPadding (remaining : Bytes) (prefixLen : UInt8) : Eval String Bytes :=
  if 0 < prefixLen then .sliceFrom remaining prefixLen.toNat
  else pure remaining

def parseDataAckSegment (u : PacketUnderlay) (das : DataAckStruct)
    (nonce remaining : Bytes) (blockCipher : Option BlockCipher) :
    Eval String Segment := do
  let remaining ← dropPadding remaining das.prefixLen
  let payload ← u.parsePayload crypto "readDataAckSegment" das.payloadLen
    das.suffixLen nonce remaining blockCipher
  pure { metadata := .dataAck das, payload := payload }

def trySessions (u : PacketUnderlay) (addr : Addr) (encryptedMeta : Bytes) :
    List UInt32 → Option (BlockCipher × Bytes)
  | [] => none
  | id :: rest =>
    match u.base.sessions.load id with
    | none => trySessions u addr encryptedMeta rest
    | some live =>
      match live.session.block with
      | none => trySessions u addr encryptedMeta rest
      | some block =>
        if live.session.remoteAddr = addr then
          match (block.decrypt crypto encryptedMeta).1 with
          | .ok decryptedMeta => some (block, decryptedMeta)
          | _ => trySessions u addr encryptedMeta rest
        else trySessions u addr encryptedMeta rest

/--
The decrypted metadata, on a server with the cipher that opened it.  `order` is
the order in which `sessionMap.Range` visits the sessions.
-/
def decryptMetadata (u : PacketUnderlay) (addr : Addr) (order : List UInt32)
    (encryptedMeta : Bytes) (nonce : Nonce) : Outcome String (Option BlockCipher × Bytes) :=
  if u.isClient then
    match u.block with
    | some block =>
      (block.decrypt crypto encryptedMeta).1.bind fun decryptedMeta =>
        .ok (none, decryptedMeta)
    | none => .panic "invalid memory address or nil pointer dereference"
  else
    match u.trySessions crypto addr encryptedMeta order with
    | some (block, decryptedMeta) => .ok (some block, decryptedMeta)
    | none =>
      (lookupUser crypto keyList u.users u.userHintIsMandatory encryptedMeta
        nonce).bind fun (block, decryptedMeta) =>
          .ok (some block, decryptedMeta)

def parseSegment (u : PacketUnderlay) (unix : Int) (decryptedMeta : Bytes)
    (nonce remaining : Bytes) (blockCipher : Option BlockCipher) : Outcome String Segment :=
  (Metadata.unmarshal decryptedMeta unix).bind fun
    | .session ss =>
      (u.parseSessionSegment crypto ss nonce remaining blockCipher).outcome
    | .dataAck das =>
      (u.parseDataAckSegment crypto das nonce remaining blockCipher).outcome

def finishRead (u : PacketUnderlay) (blockCipher : Option BlockCipher) :
    Outcome String Segment → Outcome String (Option Segment)
  | .ok seg => .ok (some { seg with block := blockCipher })
  | .error err => if u.isClient then .error err else .ok none
  | .panic message => .panic message

def readChecked (u : PacketUnderlay) (addr : Addr) (order : List UInt32)
    (now : Int) (isNewSessionReplay : Bool) (nonce : Nonce)
    (encryptedMeta remaining : Bytes) : Outcome String (Option Segment) :=
  match u.decryptMetadata crypto keyList addr order encryptedMeta nonce with
  | .panic message => .panic message
  | .error _ => .ok none
  | .ok (blockCipher, decryptedMeta) =>
    if !u.isClient && isNewSessionReplay then .ok none
    else if decryptedMeta.length ≠ metadataLength then .ok none
    else
      u.finishRead blockCipher (u.parseSegment crypto (unixSeconds now) decryptedMeta nonce.bytes
          remaining blockCipher)

def readOneSegment (u : PacketUnderlay) (cache : ReplayCache)
    (order : List UInt32) (now : Int) (datagram : Datagram) :
    Outcome String (Option Segment) × ReplayCache :=
  let b := datagram.bytes.take readBufferSize
  if u.isClient && datagram.addr != u.serverAddr then (.ok none, cache)
  else if h : b.length < packetNonHeaderPosition then (.ok none, cache)
  else
    let encryptedMeta := b.take packetNonHeaderPosition
    let (isNewSessionReplay, cache) :=
      cache.isDuplicate (encryptedMeta.take defaultOverhead) datagram.addr now
    let nonce := Nonce.ofFront encryptedMeta (by
      simp only [encryptedMeta, List.length_take, packetNonHeaderPosition,
        defaultNonceSize, metadataLength, defaultOverhead] at h ⊢
      omega)
    (u.readChecked crypto keyList datagram.addr order now isNewSessionReplay
      nonce encryptedMeta (b.drop packetNonHeaderPosition), cache)

def SessionCipher (u : PacketUnderlay) (addr : Addr) (order : List UInt32)
    (own : BlockCipher) : Prop :=
  ∃ id ∈ order, ∃ live, u.base.sessions.load id = some live ∧
    live.session.block = some own ∧ live.session.remoteAddr = addr

theorem trySessions_eq_some {crypto : Crypto} {u : PacketUnderlay} {addr : Addr}
    {order : List UInt32} {data decrypted : Bytes} {own : BlockCipher}
    (h : u.trySessions crypto addr data order = some (own, decrypted)) :
    u.SessionCipher addr order own ∧ (own.decrypt crypto data).1 = .ok decrypted := by
  induction order with
  | nil => cases h
  | cons id rest ih =>
    have hrest : u.trySessions crypto addr data rest = some (own, decrypted) →
        u.SessionCipher addr (id :: rest) own ∧ (own.decrypt crypto data).1 = .ok decrypted := by
      intro hrest
      obtain ⟨⟨found, hmem, hfound⟩, hopen⟩ := ih hrest
      exact ⟨⟨found, List.mem_cons_of_mem _ hmem, hfound⟩, hopen⟩
    rw [trySessions] at h
    split at h
    · exact hrest h
    · rename_i live hload
      split at h
      · exact hrest h
      · rename_i block hblock
        split at h
        · rename_i haddr
          split at h
          · rename_i hopen
            cases h
            exact ⟨⟨id, List.mem_cons_self, live, hload, hblock, haddr⟩, hopen⟩
          · exact hrest h
        · exact hrest h

end PacketUnderlay

end Mieru.Protocol
