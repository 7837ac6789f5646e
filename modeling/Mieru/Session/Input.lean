import Mieru.Session.State

/-!
# The input loop

`runInputLoop` with `input`, `inputData`, `inputAck` and `inputClose` as the
steps of one goroutine.  The insertion of a segment into `recvQueue` and the
increment of `nextRecv` are two steps: the reader can take the segment, and the
output loop can acknowledge, in between.
-/

namespace Mieru.Protocol

open Mieru.Foundation
open Mieru.Cipher
open ProtocolType

inductive InputState where
  | idle
  | ended
  /-- `seg` was taken from `recvChan` and is not stored. -/
  | panicked (message : String) (seg : Option Segment)
  | deletingAcked (seg : Segment) (das : DataAckStruct)
  | countingAck (das : DataAckStruct)
  | inserting (seg : Segment)
  | moving (seg : Segment)
  | holding (seg seg3 : Segment)
  | queued (seg seg3 : Segment)
  | responding (seg : Segment)
  | closing (seg : Segment)

def isClientInput (p : ProtocolType) : Bool :=
  p == openSessionResponse || p == dataServerToClient ||
    p == ackServerToClient || p == closeSessionRequest ||
    p == closeSessionResponse

def isServerInput (p : ProtocolType) : Bool :=
  p == openSessionRequest || p == dataClientToServer ||
    p == ackClientToServer || p == closeSessionRequest ||
    p == closeSessionResponse

/-- The protocols that `input` hands to `inputData`. -/
def isInputData (p : ProtocolType) : Bool :=
  p == openSessionRequest || p == openSessionResponse ||
    p == dataServerToClient || p == dataClientToServer

def Segment.countAck (unAckSeq : UInt32) (seg : Segment) : Segment :=
  if seg.seq = unAckSeq then { seg with ackCount := seg.ackCount + 1 }
  else seg

theorem Segment.key_countAck (unAckSeq : UInt32) (seg : Segment) :
    (seg.countAck unAckSeq).key = seg.key := by
  unfold Segment.countAck
  split <;> rfl

namespace Session

/-- The code that follows an error of `input`. -/
def failInput (s : Session) : Session × InputState :=
  (s.setInputErr.closeWithError false, .ended)

@[simp] theorem closeRequested_failInput (s : Session) : s.failInput.1.closeRequested = true :=
  closeRequested_closeWithError _ _

def checkBlockUser (s : Session) (block : BlockCipher) : Outcome String Unit :=
  match s.block with
  | none => .ok ()
  | some prev =>
    let prevUserName := prev.ctx.userName
    let nextUserName := block.ctx.userName
    if prevUserName = "" then
      .panic "session cipher block user name is not set"
    else if nextUserName = "" then
      .panic "segment cipher block user name is not set"
    else if prevUserName ≠ nextUserName then
      .panic "cipher block user names are different"
    else .ok ()

def storeBlock (s : Session) (block : BlockCipher) : Session :=
  { s with
    block := some block
    userName :=
      if s.userName = "" ∧ block.ctx.userName ≠ "" then block.ctx.userName
      else s.userName
    uploadBytes :=
      if s.isClient then s.uploadBytes else some (s.uploadBytes.getD 0)
    downloadBytes :=
      if s.isClient then s.downloadBytes else some (s.downloadBytes.getD 0) }

/-- The part of `input` that checks and stores the segment's cipher. -/
def acceptBlock (s : Session) (seg : Segment) : Outcome String Session :=
  match seg.block with
  | none => .ok s
  | some block => (s.checkBlockUser block).bind fun _ => .ok (s.storeBlock block)

/-- Where `input` goes after its checks. -/
def dispatch (s : Session) (seg : Segment) : InputState :=
  if isInputData seg.protocol then
    match s.transportProtocol, seg.metadata with
    | .packetTransport, .dataAck das => .deletingAcked seg das
    | _, _ => .inserting seg
  else if seg.protocol = ackServerToClient ∨ seg.protocol = ackClientToServer
  then
    match s.transportProtocol, seg.metadata with
    | .streamTransport, _ => .idle
    | .packetTransport, .dataAck das => .deletingAcked seg das
    | .packetTransport, .session _ =>
      .panicked "interface conversion: metadata is *sessionStruct" (some seg)
  else if seg.protocol = closeSessionRequest ∨ seg.protocol = closeSessionResponse then .closing seg
  else .idle

def acceptsProtocol (s : Session) (p : ProtocolType) : Bool :=
  if s.isClient then isClientInput p else isServerInput p

def input (s : Session) (env : Env) (seg : Segment) : Session × InputState :=
  if s.acceptsProtocol seg.protocol = false then s.failInput
  else
    match s.acceptBlock seg with
    | .panic message => (s, .panicked message (some seg))
    | .error _ => s.failInput
    | .ok s => ({ s with lastRXTime := env.now }, s.dispatch seg)

/-- `Ascend` of `inputAck`: count the acknowledgements of a waiting segment. -/
def countAck (s : Session) (unAckSeq : UInt32) : Session :=
  { s with
    sendBuf := s.sendBuf.update (fun seg => seg.countAck unAckSeq) (Segment.key_countAck unAckSeq) }

def storeWindow (s : Session) (metadata : Metadata) : Session :=
  match metadata with
  | .dataAck das => { s with remoteWindowSize := das.windowSize.toUInt32 }
  | .session _ => s

/-- The insertion at the start of `inputData`, which waits for space. -/
def insertReceived (s : Session) (seg : Segment) : Session × InputState :=
  match s.transportProtocol with
  | .streamTransport =>
    if s.recvQueue.remaining ≤ 1 then (s, .inserting seg)
    else
      match s.recvQueue.insert seg with
      | (true, recvQueue) =>
        ({ s with recvQueue := recvQueue }, .responding seg)
      | (false, recvQueue) => { s with recvQueue := recvQueue }.failInput
  | .packetTransport =>
    if s.recvBuf.remaining ≤ 1 then (s, .inserting seg)
    else
      match s.recvBuf.insert seg with
      | (true, recvBuf) => ({ s with recvBuf := recvBuf }, .moving seg)
      | (false, recvBuf) => { s with recvBuf := recvBuf }.failInput

/-- One round of the loop that moves `recvBuf` to `recvQueue`. -/
def moveOne (s : Session) (seg : Segment) : Session × InputState :=
  if s.recvQueue.remaining ≤ 1 then
    ({ s with ackOnDataRecv := true }, .responding seg)
  else
    match s.recvBuf.deleteMinIf fun iter => decide (iter.seq ≤ s.nextRecv) with
    | (none, recvBuf) =>
      ({ s with recvBuf := recvBuf, ackOnDataRecv := true }, .responding seg)
    | (some seg3, recvBuf) => ({ s with recvBuf := recvBuf }, .holding seg seg3)

/-- A segment older than `nextRecv` is a duplicate and is dropped. -/
def queueReceived (s : Session) (seg seg3 : Segment) : Session × InputState :=
  if seg3.seq = s.nextRecv then
    match s.recvQueue.insert seg3 with
    | (true, recvQueue) =>
      ({ s with recvQueue := recvQueue }, .queued seg seg3)
    | (false, recvQueue) => { s with recvQueue := recvQueue }.failInput
  else (s, .moving seg)

def openResponse (s : Session) : Segment :=
  { metadata := .session {
      protocol := openSessionResponse
      sessionID := s.id
      seq := s.nextSend } }

/-- `checkQuota` is called for a session that has a user. -/
def quotaAnswer (s : Session) (env : Env) : Outcome Empty Bool :=
  if s.userName = "" then .ok true else env.quota

def respond (s : Session) (env : Env) (seg : Segment) : Session × InputState :=
  if !s.isClient && seg.protocol == openSessionRequest && s.isState .sessionAttached then
    match s.quotaAnswer env with
    | .panic message => (s, .panicked message none)
    | .ok false => ({ s with status := .statusQuotaExhausted }.close, .idle)
    | .ok true =>
      match s.enqueue s.openResponse with
      | (true, s) => (s.forwardStateTo .sessionEstablished, .idle)
      | (false, s) => s.failInput
  else (s, .idle)

def closeResponse (s : Session) : Segment :=
  { metadata := .session {
      protocol := closeSessionResponse
      sessionID := s.id
      seq := s.nextSend
      statusCode := StatusCode.statusOK.toByte } }

def inputClose (s : Session) (env : Env) (seg : Segment) : Session × InputState × List Packet :=
  if seg.protocol = closeSessionRequest then
    match s.reserveSeq.output env s.closeResponse with
    | (true, s, sent) => (s.close, .idle, sent)
    | (false, s, sent) => (s.failInput.1, s.failInput.2, sent)
  else (s.close, .idle, [])

/-- The `select` of `runInputLoop`. -/
def beginInput (s : Session) (env : Env) : Option (Session × InputState) :=
  match env.choice with
  | .closedChan => if s.closedChan then some (s, .ended) else none
  | _ =>
    match s.recvChan with
    | [] => none
    | seg :: rest => some ({ s with recvChan := rest }.input env seg)

def inputStep (s : Session) (env : Env) : InputState → Option (Session × InputState × List Packet)
  | .ended => none
  | .panicked _ _ => none
  | .idle => (s.beginInput env).map fun (s, state) => (s, state, [])
  | .deletingAcked seg das =>
    match s.sendBuf.deleteMinIf fun iter => decide (iter.seq < das.unAckSeq)
    with
    | (some _, sendBuf) =>
      some ({ s with sendBuf := sendBuf }, .deletingAcked seg das, [])
    | (none, sendBuf) =>
      some ({ s with sendBuf := sendBuf }.storeWindow (.dataAck das),
        if isInputData seg.protocol then .inserting seg
        else .countingAck das, [])
  | .countingAck das => some (s.countAck das.unAckSeq, .idle, [])
  | .inserting seg =>
    match s.insertReceived seg with
    | (s, state) => some (s, state, [])
  | .moving seg =>
    match s.moveOne seg with
    | (s, state) => some (s, state, [])
  | .holding seg seg3 =>
    match s.queueReceived seg seg3 with
    | (s, state) => some (s, state, [])
  | .queued seg seg3 =>
    some ({ s with nextRecv := s.nextRecv + 1 }.storeWindow seg3.metadata, .moving seg, [])
  | .responding seg =>
    match s.respond env seg with
    | (s, state) => some (s, state, [])
  | .closing seg => some (s.inputClose env seg)

end Session

end Mieru.Protocol
