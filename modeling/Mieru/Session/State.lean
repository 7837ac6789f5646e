import Mieru.Protocol.Segment

/-!
# Session state

The fields of `Session` that its operations read or write.  Round-trip and
congestion estimates are floating-point computations that only decide when a
segment is sent, so every operation receives them, with the clock and the
other answers of its surroundings, as an `Env` of arbitrary values.
-/

namespace Mieru.Protocol

open Mieru.Foundation
open Mieru.Cipher

abbrev Addr := String

def segmentChanCapacity : Nat := 1024
def segmentTreeCapacity : Nat := 4096
def segmentTreeRecvQueueCapacity : Nat := 1024 * 1024
def minWindowSize : UInt32 := 16
def earlyRetransmission : UInt8 := 3
def earlyRetransmissionLimit : UInt8 := 1

def sessionHeartbeatInterval : Int := 5000000

def maxBackOffDuration : Int := 10000000000

inductive SessionState where
  | sessionInit
  | sessionAttached
  | sessionEstablished
  | sessionClosed
  deriving DecidableEq, Repr

def SessionState.toNat : SessionState → Nat
  | .sessionInit => 0
  | .sessionAttached => 1
  | .sessionEstablished => 2
  | .sessionClosed => 3

inductive StatusCode where
  | statusOK
  | statusQuotaExhausted
  deriving DecidableEq, Repr

def StatusCode.toByte : StatusCode → UInt8
  | .statusOK => 0
  | .statusQuotaExhausted => 1

/--
History of a session, kept beside the fields of the source: for each sequence
number taken from `nextSend`, the payload put in the send queue under it, and
all bytes returned by `Read`.
-/
structure History where
  queued : List (Option Bytes) := []
  read : Bytes := []
  deriving DecidableEq, Repr

/--
Where the goroutine inside `closeWithError` stands.  The compare-and-swap on
`closeRequested` lets only one goroutine in.  The source keeps that goroutine
there until the session is closed; here it may go on earlier, which only adds
schedules.
-/
inductive CloserState where
  | notCalled
  | starting (gracefulClose : Bool)
  | waiting (seg : Segment) (triesLeft : Nat)
  | sendingDirectly (seg : Segment)
  | clearingSendQueue
  | clearingSendBuf
  | finishing
  | closed

structure Session where
  id : UInt32
  isClient : Bool
  mtu : Nat
  transportProtocol : TransportProtocol
  remoteAddr : Addr := ""
  state : SessionState := .sessionInit
  status : StatusCode := .statusOK
  block : Option BlockCipher := none
  userName : String := ""
  openSessionRequestSent : Bool := false
  closeRequested : Bool := false
  closer : CloserState := .notCalled
  closedChan : Bool := false
  inputHasErr : Bool := false
  outputHasErr : Bool := false
  sendQueue : SegmentTree := SegmentTree.new segmentTreeCapacity
  sendBuf : SegmentTree := SegmentTree.new segmentTreeCapacity
  recvBuf : SegmentTree := SegmentTree.new segmentTreeCapacity
  recvQueue : SegmentTree := SegmentTree.new segmentTreeRecvQueueCapacity
  recvChan : List Segment := []
  nextSend : UInt32 := 0
  nextRecv : UInt32 := 0
  lastSend : UInt32 := 0
  lastRXTime : Int := 0
  lastTXTime : Int := 0
  nextRetransmissionTime : Int := 0
  ackOnDataRecv : Bool := false
  unreadBuf : Bytes := []
  uploadBytes : Option Nat := none
  downloadBytes : Option Nat := none
  remoteWindowSize : UInt32 := minWindowSize
  history : History := {}

inductive WriteAnswer where
  | sent
  | notReady
  | failed
  deriving DecidableEq, Repr

inductive SelectCase where
  | closedChan
  | inputErr
  | outputErr
  | timeC
  | notEmptyEvent
  | fallback
  deriving DecidableEq, Repr

/--
What a session's surroundings answer during one step: the clock in
microseconds, the congestion window, the retransmission timeout in
nanoseconds, the underlay, the quota check (whose error is only logged) and the
choice of a `select`.
-/
structure Env where
  now : Int
  congestionWindowSize : Nat
  rto : Int
  writeAnswer : WriteAnswer
  quota : Outcome Empty Bool
  choice : SelectCase

/-- Every write is accepted, and no quota is used up. -/
def Env.calm (choice : SelectCase) : Env := ⟨0, 16, 1000000, .sent, .ok true, choice⟩

/-- What a datagram or a stream record carries from one session to another. -/
structure Packet where
  metadata : Metadata
  payload : Bytes
  deriving DecidableEq

def Packet.seq (packet : Packet) : UInt32 := packet.metadata.seq

def Segment.packet (seg : Segment) : Packet :=
  ⟨seg.metadata, seg.payload⟩

namespace Session

/-- `NewSession` and `AddSession`: a session attached to an underlay. -/
def new (id : UInt32) (isClient : Bool) (mtu : Nat)
    (transport : TransportProtocol) (remoteAddr : Addr) (now : Int) : Session :=
  { id := id
    isClient := isClient
    mtu := mtu
    transportProtocol := transport
    remoteAddr := remoteAddr
    state := .sessionAttached
    lastRXTime := now
    lastTXTime := now }

def isState (s : Session) (target : SessionState) : Bool := s.state == target

def isStateBefore (s : Session) (target : SessionState) (inclusive : Bool) : Bool :=
  if inclusive then s.state.toNat ≤ target.toNat
  else s.state.toNat < target.toNat

def isStateAfter (s : Session) (target : SessionState) (inclusive : Bool) : Bool :=
  if inclusive then target.toNat ≤ s.state.toNat
  else target.toNat < s.state.toNat

def forwardStateTo (s : Session) (next : SessionState) : Session :=
  if next.toNat ≤ s.state.toNat then s else { s with state := next }

def sendWindowSize (s : Session) (env : Env) : Nat :=
  min (env.congestionWindowSize - s.sendBuf.len) s.remoteWindowSize.toNat

def receiveWindowSize (s : Session) (env : Env) : Nat :=
  env.congestionWindowSize - s.recvBuf.len

/-- `output`: the session after the call and what reached the network. -/
def output (s : Session) (env : Env) (seg : Segment) : Bool × Session × List Packet :=
  match s.transportProtocol, env.writeAnswer with
  | _, .sent =>
    (true, { s with lastSend := seg.seq, lastTXTime := env.now }, [seg.packet])
  | .packetTransport, .notReady => (true, s, [])
  | .streamTransport, .notReady => (false, s, [])
  | _, .failed => (false, s, [])

/-- Take the next sequence number and insert `seg` into the send queue. -/
def enqueue (s : Session) (seg : Segment) : Bool × Session :=
  let (ok, sendQueue) := s.sendQueue.insert seg
  let payload := if ok then some seg.payload else none
  (ok, { s with
    nextSend := s.nextSend + 1
    sendQueue := sendQueue
    history := { s.history with queued := s.history.queued ++ [payload] } })

def reserveSeq (s : Session) : Session :=
  { s with
    nextSend := s.nextSend + 1
    history := { s.history with queued := s.history.queued ++ [none] } }

def setInputErr (s : Session) : Session := { s with inputHasErr := true }

def setOutputErr (s : Session) : Session := { s with outputHasErr := true }

/-- The call of `closeWithError` up to its compare-and-swap. -/
def closeWithError (s : Session) (gracefulClose : Bool) : Session :=
  if s.closeRequested then s
  else { s with closeRequested := true, closer := .starting gracefulClose }

@[simp] theorem closeRequested_closeWithError (s : Session) (gracefulClose : Bool) :
    (s.closeWithError gracefulClose).closeRequested = true := by
  unfold closeWithError
  split
  · assumption
  · rfl

def close (s : Session) : Session := s.closeWithError true

def closeSegment (s : Session) : Segment :=
  { metadata := .session {
      protocol := .closeSessionRequest
      sessionID := s.id
      seq := s.nextSend
      statusCode := s.status.toByte } }

/-- How often `closeWithError` looks whether its request was sent. -/
def closeTries : Nat := 1000

def closerStep (s : Session) (env : Env) : Option (Session × List Packet) :=
  match s.closer with
  | .notCalled => none
  | .starting gracefulClose =>
    if s.isState .sessionAttached || s.isState .sessionEstablished then
      let seg := s.closeSegment
      if gracefulClose then
        match s.enqueue seg with
        | (true, s) => some ({ s with closer := .waiting seg closeTries }, [])
        | (false, s) => some ({ s with closer := .sendingDirectly seg }, [])
      else some ({ s.reserveSeq with closer := .sendingDirectly seg }, [])
    else some ({ s with closer := .clearingSendQueue }, [])
  | .waiting seg triesLeft =>
    match triesLeft with
    | 0 => some ({ s with closer := .sendingDirectly seg }, [])
    | tries + 1 =>
      if seg.seq ≤ s.lastSend then
        some ({ s with closer := .clearingSendQueue }, [])
      else some ({ s with closer := .waiting seg tries }, [])
  | .sendingDirectly seg =>
    match s.output env seg with
    | (_, s, sent) => some ({ s with closer := .clearingSendQueue }, sent)
  | .clearingSendQueue =>
    some ({ s with
      sendQueue := s.sendQueue.deleteAll
      closer := .clearingSendBuf }, [])
  | .clearingSendBuf =>
    some ({ s with sendBuf := s.sendBuf.deleteAll, closer := .finishing }, [])
  | .finishing =>
    some ({ s.forwardStateTo .sessionClosed with
      closedChan := true
      closer := .closed }, [])
  | .closed => none

end Session

end Mieru.Protocol
