import Mathlib.Algebra.Group.Nat.Defs
import Mieru.Session.State

/-!
# The output loop

`runOutputLoop` with `runOutputOnceStream` and `runOutputOncePacket` as the
steps of one goroutine.  A retransmission pass visits the segments of `sendBuf`
in order, one segment a step, because `nextRecv` and the clock are read again
for each of them.  A new segment leaves `sendQueue`, enters `sendBuf` and is
handed to the underlay in three steps, so that an acknowledgement can arrive
in between.
-/

namespace Mieru.Protocol

open ProtocolType

structure ResendPass where
  cursor : Option UInt32 := none
  /-- `none` stands for the initial `math.MaxInt64`. -/
  nextTX : Option Int := none
  /-- Whether `closeSessionReason` is set, which ends the iteration. -/
  closing : Bool := false
  totalTransmissionCount : Nat := 0
  deriving DecidableEq, Repr

inductive OutputState where
  | idle
  | ended
  | streaming
  | streamPopped (seg : Segment)
  | resending (pass : ResendPass)
  | checking (totalTransmissionCount : Nat)
  | sending (totalTransmissionCount : Nat)
  | popped (seg : Segment) (totalTransmissionCount : Nat)
  | buffered (seg : Segment) (totalTransmissionCount : Nat)
  | acking
  | acked

def Metadata.setUnAckSeq (unAckSeq : UInt32) : Metadata → Metadata
  | .dataAck das =>
    if isDataAckProtocol das.protocol then
      .dataAck { das with unAckSeq := unAckSeq }
    else .dataAck das
  | .session ss => .session ss

@[simp] theorem Metadata.seq_setUnAckSeq (unAckSeq : UInt32) (m : Metadata) :
    (m.setUnAckSeq unAckSeq).seq = m.seq := by
  cases m with
  | session ss => rfl
  | dataAck das =>
    simp only [Metadata.setUnAckSeq]
    split <;> rfl

@[simp] theorem Metadata.protocol_setUnAckSeq (unAckSeq : UInt32)
    (m : Metadata) : (m.setUnAckSeq unAckSeq).protocol = m.protocol := by
  cases m with
  | session ss => rfl
  | dataAck das =>
    simp only [Metadata.setUnAckSeq]
    split <;> rfl

namespace Session

/-- `min(RTO * Duration(1.5 ** txCount), maxBackOffDuration)`. -/
def txTimeoutOf (env : Env) (txCount : UInt8) : Int :=
  min (env.rto * ((3 ^ txCount.toNat / 2 ^ txCount.toNat : Nat) : Int)) maxBackOffDuration

/-- The bookkeeping before a transmission; `nextRecv` is acknowledged. -/
def stampTransmission (s : Session) (env : Env) (seg : Segment) : Segment :=
  { seg with
    txCount := seg.txCount + 1
    txTime := env.now
    txTimeout := txTimeoutOf env (seg.txCount + 1)
    metadata := seg.metadata.setUnAckSeq s.nextRecv }

@[simp] theorem key_stampTransmission (s : Session) (env : Env)
    (seg : Segment) : (s.stampTransmission env seg).key = seg.key := by
  simp [stampTransmission, Segment.key, Segment.seq]

def txTimeoutMicros (seg : Segment) : Int := seg.txTimeout.tdiv 1000

def mustResend (env : Env) (iter : Segment) : Bool :=
  (earlyRetransmission ≤ iter.ackCount && iter.txCount ≤ earlyRetransmissionLimit) ||
  decide (txTimeoutMicros iter < env.now - iter.txTime)

/-- The first segment of `sendBuf` that the pass has not visited. -/
def nextToVisit (s : Session) (pass : ResendPass) : Option Segment :=
  match pass.cursor with
  | none => s.sendBuf.items.head?
  | some cursor => s.sendBuf.items.find? fun seg => cursor < seg.seq

/-- The segment with the number of `iter` is prepared to be sent again. -/
def restamp (s : Session) (env : Env) (iter seg : Segment) : Segment :=
  if seg.seq = iter.seq then s.stampTransmission env { seg with ackCount := 0 }
  else seg

theorem key_restamp (s : Session) (env : Env) (iter seg : Segment) :
    (s.restamp env iter seg).key = seg.key := by
  unfold restamp
  split
  · rw [key_stampTransmission]
    rfl
  · rfl

def restampSendBuf (s : Session) (env : Env) (iter : Segment) : Session :=
  { s with
    sendBuf := s.sendBuf.update (s.restamp env iter) (s.key_restamp env iter) }

def visitSegment (s : Session) (env : Env) (pass : ResendPass)
    (iter : Segment) : Session × ResendPass × List Packet :=
  let due := iter.txTime + txTimeoutMicros iter
  let pass := { pass with
    cursor := some iter.seq
    nextTX := some (pass.nextTX.elim due fun nextTX => min nextTX due) }
  if txCountLimit ≤ iter.txCount then
    (s.setOutputErr, { pass with closing := true }, [])
  else if mustResend env iter then
    let again := s.stampTransmission env { iter with ackCount := 0 }
    match (s.restampSendBuf env iter).output env again with
    | (true, s, sent) =>
      (s, { pass with
        totalTransmissionCount := pass.totalTransmissionCount + 1 }, sent)
    | (false, s, sent) => (s.setOutputErr, { pass with closing := true }, sent)
  else (s, pass, [])

def endPass (s : Session) (env : Env) (pass : ResendPass) : Session :=
  let s := { s with
    nextRetransmissionTime := pass.nextTX.getD (env.now + 10000) }
  if pass.closing then s.closeWithError false else s

def ackSegment (s : Session) (env : Env) : Segment :=
  { metadata := .dataAck {
      protocol := if s.isClient then ackClientToServer else ackServerToClient
      sessionID := s.id
      seq := UInt32.ofNat (s.nextSend.toNat - 1)
      unAckSeq := s.nextRecv
      windowSize := UInt16.ofNat (s.receiveWindowSize env) } }

def startRun (s : Session) (env : Env) : OutputState :=
  if s.outputHasErr then .idle
  else
    match s.transportProtocol with
    | .streamTransport => .streaming
    | .packetTransport =>
      if s.nextRetransmissionTime ≤ env.now then .resending {}
      else .checking 0

/-- The `select` of `runOutputLoop`; only the packet transport has a ticker. -/
def beginOutput (s : Session) (env : Env) : Option (Session × OutputState) :=
  match env.choice with
  | .closedChan => if s.closedChan then some (s, .ended) else none
  | .notEmptyEvent =>
    if s.sendQueue.chanNotEmptyEvent then
      some ({ s with
        sendQueue := { s.sendQueue with chanNotEmptyEvent := false } },
        s.startRun env)
    else none
  | .timeC =>
    match s.transportProtocol with
    | .streamTransport => none
    | .packetTransport => some (s, s.startRun env)
  | _ => none

def failOutput (s : Session) : Session := s.setOutputErr.closeWithError false

def outputStep (s : Session) (env : Env) :
    OutputState → Option (Session × OutputState × List Packet)
  | .ended => none
  | .idle => (s.beginOutput env).map fun (s, state) => (s, state, [])
  | .streaming =>
    match s.sendQueue.deleteMin with
    | (none, sendQueue) => some ({ s with sendQueue := sendQueue }, .idle, [])
    | (some seg, sendQueue) =>
      some ({ s with sendQueue := sendQueue }, .streamPopped seg, [])
  | .streamPopped seg =>
    match s.output env seg with
    | (true, s, sent) => some (s, .streaming, sent)
    | (false, s, sent) => some (s.failOutput, .idle, sent)
  | .resending pass =>
    match (if pass.closing then none else s.nextToVisit pass) with
    | none => some (s.endPass env pass, .checking pass.totalTransmissionCount, [])
    | some iter =>
      match s.visitSegment env pass iter with
      | (s, pass, sent) => some (s, .resending pass, sent)
  | .checking total =>
    if 0 < s.sendQueue.len ∧ 0 < s.sendWindowSize env then
      some (s, .sending total, [])
    else some (s, .acking, [])
  | .sending total =>
    if s.sendBuf.remaining ≤ 1 then some (s, .acking, [])
    else
      match s.sendQueue.deleteMinIf fun _ => decide (total < s.sendWindowSize env) with
      | (none, sendQueue) =>
        some ({ s with sendQueue := sendQueue }, .acking, [])
      | (some seg, sendQueue) =>
        some ({ s with sendQueue := sendQueue }, .popped seg total, [])
  | .popped seg total =>
    let seg := s.stampTransmission env seg
    match s.sendBuf.insert seg with
    | (true, sendBuf) =>
      some ({ s with sendBuf := sendBuf }, .buffered seg total, [])
    | (false, sendBuf) =>
      some ({ s with sendBuf := sendBuf }.failOutput, .acking, [])
  | .buffered seg total =>
    match s.output env seg with
    | (true, s, sent) => some (s, .sending (total + 1), sent)
    | (false, s, sent) => some (s.failOutput, .acking, sent)
  | .acking =>
    if s.ackOnDataRecv || sessionHeartbeatInterval < env.now - s.lastTXTime
    then
      match s.output env (s.ackSegment env) with
      | (true, s, sent) => some (s, .acked, sent)
      | (false, s, sent) => some (s.failOutput, .acked, sent)
    else some (s, .idle, [])
  | .acked => some ({ s with ackOnDataRecv := false }, .idle, [])

end Session

end Mieru.Protocol
