import Mieru.Session.State

/-!
# Read and Write

`Write` with `writeChunk`, and `Read`, each as the steps of one goroutine: the
locks `wLock` and `rLock` admit one caller at a time.  A step runs from one
point where other goroutines can intervene to the next.  The steps of different
goroutines of a session interleave freely, which allows more schedules than
`oLock` does.
-/

namespace Mieru.Protocol

open Mieru.Foundation
open ProtocolType

inductive WriteError where
  | closedPipe
  | notReady
  | insertFailed
  | eof
  | timeout
  deriving DecidableEq, Repr

/-- The local variables of `writeChunk` and of its caller's loop. -/
structure ChunkJob where
  ptr : Bytes
  fragmentsLeft : Nat
  seqBeforeWrite : UInt32
  size : Nat
  rest : Bytes
  n : Nat
  deriving DecidableEq, Repr

inductive WriterState where
  | returned (n : Nat) (err : Option WriteError)
  | writing (rest : Bytes) (n : Nat)
  | waiting (job : ChunkJob)
  | queueing (job : ChunkJob)
  | settling (job : ChunkJob)
  | comparing (job : ChunkJob)
  deriving DecidableEq, Repr

namespace Session

def openRequest (s : Session) (b : Bytes) : Segment :=
  let payload := if b.length ≤ maxSessionOpenPayload then b else []
  { metadata := .session {
      protocol := openSessionRequest
      sessionID := s.id
      seq := s.nextSend
      payloadLen := UInt16.ofNat payload.length }
    payload := payload }

def opening (s : Session) : Bool :=
  s.isClient && s.isState .sessionAttached && !s.openSessionRequestSent

def setOpenSessionRequestSent (s : Session) : Session :=
  { s with openSessionRequestSent := true }

def write (s : Session) (b : Bytes) : Session × WriterState :=
  if s.closeRequested then (s, .returned 0 (some .closedPipe))
  else if s.isStateBefore .sessionAttached false then
    (s, .returned 0 (some .notReady))
  else if s.isStateAfter .sessionClosed true then
    (s, .returned 0 (some .closedPipe))
  else if s.opening then
    let seg := s.openRequest b
    match s.setOpenSessionRequestSent.enqueue seg with
    | (false, s) => (s, .returned 0 (some .insertFailed))
    | (true, s) =>
      if seg.payload.length > 0 then (s, .returned seg.payload.length none)
      else (s, .writing b 0)
  else (s, .writing b 0)

/--
The `select` that stops a writer: the outer `none` says the chosen case is not
ready, `some none` that no case is ready.
-/
def writerExit (s : Session) (choice : SelectCase) : Option (Option WriteError) :=
  match choice with
  | .closedChan => if s.closedChan then some (some .eof) else none
  | .outputErr => if s.outputHasErr then some (some .closedPipe) else none
  | .timeC => some (some .timeout)
  | .fallback => if s.closedChan || s.outputHasErr then none else some none
  | _ => none

def addDownloadBytes (s : Session) (n : Nat) : Session :=
  if s.isClient then s
  else { s with downloadBytes := s.downloadBytes.map (· + n) }

/-- The entry of `writeChunk`: the number of fragments is fixed here. -/
def chunkJob (s : Session) (rest : Bytes) (n : Nat) : ChunkJob :=
  let size := min rest.length maxPDU
  let fragmentSize := maxFragmentSize s.mtu s.transportProtocol
  { ptr := rest.take size
    fragmentsLeft :=
      if size > fragmentSize then (size - 1) / fragmentSize + 1 else 1
    seqBeforeWrite := s.sendQueue.minSeq.getD 0
    size := size
    rest := rest.drop size
    n := n }

def dataSegment (s : Session) (env : Env) (job : ChunkJob) : Segment :=
  let part := job.ptr.take (maxFragmentSize s.mtu s.transportProtocol)
  { metadata := .dataAck {
      protocol := if s.isClient then dataClientToServer else dataServerToClient
      sessionID := s.id
      seq := s.nextSend
      unAckSeq := s.nextRecv
      windowSize := UInt16.ofNat (s.receiveWindowSize env)
      fragment := UInt8.ofNat (job.fragmentsLeft - 1)
      payloadLen := UInt16.ofNat part.length }
    payload := part }

def queueFragment (s : Session) (env : Env) (job : ChunkJob) : Session × WriterState :=
  let seg := s.dataSegment env job
  let next := { job with
    ptr := job.ptr.drop seg.payload.length
    fragmentsLeft := job.fragmentsLeft - 1 }
  match s.enqueue seg with
  | (false, s) => (s, .returned job.n (some .insertFailed))
  | (true, s) =>
    if next.fragmentsLeft = 0 then (s, .settling next)
    else (s, .queueing next)

def writerStep (s : Session) (env : Env) : WriterState → Option (Session × WriterState)
  | .returned _ _ => none
  | .writing rest n =>
    if rest = [] then some (s.addDownloadBytes n, .returned n none)
    else some (s, .waiting (s.chunkJob rest n))
  | .waiting job =>
    if s.sendQueue.remaining ≤ job.fragmentsLeft then
      match s.writerExit env.choice with
      | none => none
      | some (some err) => some (s, .returned job.n (some err))
      | some none => some (s, .waiting job)
    else some (s, .queueing job)
  | .queueing job =>
    match s.writerExit env.choice with
    | none => none
    | some (some err) => some (s, .returned job.n (some err))
    | some none => some (s.queueFragment env job)
  | .settling job =>
    if s.sendQueue.chanEmptyEvent then
      some ({ s with
        sendQueue := { s.sendQueue with chanEmptyEvent := false } },
        .writing job.rest (job.n + job.size))
    else some (s, .comparing job)
  | .comparing job =>
    match s.sendQueue.minSeq with
    | none => some (s, .writing job.rest (job.n + job.size))
    | some seqAfterWrite =>
      if job.seqBeforeWrite < seqAfterWrite then
        some (s, .writing job.rest (job.n + job.size))
      else some (s, .settling job)

end Session

inductive ReadError where
  | eof
  | unexpectedEOF
  | timeout
  deriving DecidableEq, Repr

inductive ReaderState where
  | returned (data : Bytes) (err : Option ReadError)
  | waiting (size : Nat)
  | selecting (size : Nat)
  | draining (size : Nat)
  deriving DecidableEq, Repr

namespace Session

def addUploadBytes (s : Session) (n : Nat) : Session :=
  if s.isClient then s
  else { s with uploadBytes := s.uploadBytes.map (· + n) }

/-- Copy from `unreadBuf` into a buffer of the given size and return. -/
def copyUnread (s : Session) (size : Nat) : Session × ReaderState :=
  let data := s.unreadBuf.take size
  ({ s with
    unreadBuf := s.unreadBuf.drop size
    history := { s.history with read := s.history.read ++ data }
    }.addUploadBytes data.length, .returned data none)

def read (s : Session) (size : Nat) : Session × ReaderState :=
  if s.unreadBuf ≠ [] then s.copyUnread size else (s, .waiting size)

def openOnResponse (s : Session) (seg : Segment) : Session :=
  if s.isClient && seg.protocol == openSessionResponse &&
      s.isState .sessionAttached then s.forwardStateTo .sessionEstablished
  else s

def appendUnread (s : Session) (seg : Segment) : Session :=
  { s with unreadBuf := s.unreadBuf ++ seg.payload }.openOnResponse seg

def readerStep (s : Session) (env : Env) : ReaderState → Option (Session × ReaderState)
  | .returned _ _ => none
  | .waiting size =>
    if 0 < s.recvQueue.len then some (s, .draining size)
    else some (s, .selecting size)
  | .selecting size =>
    -- The queue may have got segments since it was found empty.
    match env.choice with
    | .closedChan =>
      if s.closedChan then some (s, .returned [] (some .eof)) else none
    | .inputErr =>
      if s.inputHasErr then some (s, .returned [] (some .unexpectedEOF))
      else none
    | .timeC => some (s, .returned [] (some .timeout))
    | .notEmptyEvent =>
      if s.recvQueue.chanNotEmptyEvent then
        some ({ s with recvQueue :=
          { s.recvQueue with chanNotEmptyEvent := false } },
          .waiting size)
      else none
    | _ => none
  | .draining size =>
    match s.recvQueue.deleteMin with
    | (some seg, recvQueue) =>
      some ({ s with recvQueue := recvQueue }.appendUnread seg, .draining size)
    | (none, recvQueue) =>
      let s := { s with recvQueue := recvQueue }
      if s.unreadBuf ≠ [] then some (s.copyUnread size)
      else some (s, .waiting size)

end Session

end Mieru.Protocol
