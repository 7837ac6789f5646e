import Mieru.Session.Steps

/-!
# What the goroutines of a session leave to each other

The fields of a session belong to its goroutines: what has been received to
the input loop, the bytes to read to `Read`, the segments that wait for an
acknowledgement to the output loop.  Every goroutine is shown once to leave
alone what belongs to the others.
-/

namespace Mieru.Protocol

open Mieru.Foundation
open Mieru.Cipher

structure Receiving where
  recvChan : List Segment
  recvBuf : SegmentTree
  nextRecv : UInt32
  block : Option BlockCipher
  userName : String

namespace Session

def receiving (s : Session) : Receiving where
  recvChan := s.recvChan
  recvBuf := s.recvBuf
  nextRecv := s.nextRecv
  block := s.block
  userName := s.userName

/-- What `Read` takes bytes from. -/
def readSide (s : Session) : Bytes × SegmentTree := (s.unreadBuf, s.recvQueue)

def timing (s : Session) : SegmentTree × Int × Bool :=
  (s.sendBuf, s.nextRetransmissionTime, s.outputHasErr)

/-- What the output loop and `closeWithError` leave alone. -/
def incoming (s : Session) : Receiving × Bytes × SegmentTree :=
  (s.receiving, s.readSide)

/-- What `Read` leaves alone. -/
def aside (s : Session) : Receiving × SegmentTree × Int × Bool :=
  (s.receiving, s.timing)

/-- What `input` leaves alone up to the point where it hands a segment on. -/
def settled (s : Session) : (Bytes × SegmentTree) × SegmentTree × Int × Bool :=
  (s.readSide, s.timing)

/-- What the writer and the functions that several goroutines call leave
alone. -/
def still (s : Session) : (Receiving × Bytes × SegmentTree) × SegmentTree × Int × Bool :=
  (s.incoming, s.timing)

section Parts

variable {s t : Session}

theorem incoming_of_still (h : t.still = s.still) : t.incoming = s.incoming :=
  (Prod.mk.inj h).1

theorem timing_of_still (h : t.still = s.still) : t.timing = s.timing :=
  (Prod.mk.inj h).2

theorem receiving_of_still (h : t.still = s.still) : t.receiving = s.receiving :=
  (Prod.mk.inj (incoming_of_still h)).1

theorem readSide_of_still (h : t.still = s.still) : t.readSide = s.readSide :=
  (Prod.mk.inj (incoming_of_still h)).2

theorem settled_of_still (h : t.still = s.still) : t.settled = s.settled :=
  Prod.ext (readSide_of_still h) (timing_of_still h)

end Parts

variable {s t : Session} {env : Env} {seg : Segment} {sent : List Packet} {ok : Bool}
  {state : InputState}

@[simp] theorem still_closeWithError (graceful : Bool) :
    (s.closeWithError graceful).still = s.still := by
  unfold closeWithError
  split <;> rfl

@[simp] theorem still_forwardStateTo (next : SessionState) :
    (s.forwardStateTo next).still = s.still := by
  unfold forwardStateTo
  split <;> rfl

@[simp] theorem still_storeWindow (metadata : Metadata) :
    (s.storeWindow metadata).still = s.still := by
  cases metadata <;> rfl

@[simp] theorem still_failInput : s.failInput.1.still = s.still :=
  still_closeWithError (s := s.setInputErr) false

theorem still_output (h : s.output env seg = (ok, t, sent)) : t.still = s.still := by
  unfold output at h
  split at h <;> cases h <;> rfl

theorem still_enqueue (h : s.enqueue seg = (ok, t)) : t.still = s.still := by
  cases h
  rfl

theorem still_write {b : Bytes} {writer : WriterState}
    (h : s.write b = (t, writer)) : t.still = s.still := by
  cases writeStart h with
  | refused | begun => rfl
  | full _ _ henqueue | carried _ _ henqueue | requested _ _ henqueue =>
    have hsame := still_enqueue henqueue
    exact hsame

theorem still_writerStep {writer writer' : WriterState}
    (h : s.writerStep env writer = some (t, writer')) : t.still = s.still := by
  cases writerStep_inv h with
  | done =>
    unfold addDownloadBytes
    split <;> rfl
  | full _ henqueue | last _ henqueue | queued _ henqueue => exact still_enqueue henqueue
  | _ => rfl

theorem aside_copyUnread {size : Nat} : (s.copyUnread size).1.aside = s.aside := by
  unfold copyUnread addUploadBytes
  dsimp only
  split <;> rfl

theorem aside_read {size : Nat} {reader : ReaderState}
    (h : s.read size = (t, reader)) : t.aside = s.aside := by
  unfold read at h
  split at h <;> cases h
  · exact aside_copyUnread
  · rfl

theorem aside_appendUnread : (s.appendUnread seg).aside = s.aside := by
  obtain ⟨state, hstate⟩ := s.appendUnread_eq seg
  rw [hstate]
  rfl

theorem aside_readerStep {reader reader' : ReaderState}
    (h : s.readerStep env reader = some (t, reader')) : t.aside = s.aside := by
  cases readerStep_inv h with
  | taken => exact aside_appendUnread
  | copied => exact aside_copyUnread
  | _ => rfl

theorem incoming_closeWithError (graceful : Bool) :
    (s.closeWithError graceful).incoming = s.incoming :=
  incoming_of_still (still_closeWithError graceful)

theorem incoming_failOutput : s.failOutput.incoming = s.incoming :=
  incoming_closeWithError (s := s.setOutputErr) false

theorem incoming_output (h : s.output env seg = (ok, t, sent)) : t.incoming = s.incoming :=
  incoming_of_still (still_output h)

theorem incoming_visit {pass pass' : ResendPass} {iter : Segment}
    (h : s.Visit env pass iter t pass' sent) : t.incoming = s.incoming := by
  cases h with
  | exhausted | early => rfl
  | resent _ houtput | unsent houtput =>
    have hwritten := incoming_output houtput
    exact hwritten

theorem incoming_endPass {pass : ResendPass} : (s.endPass env pass).incoming = s.incoming := by
  unfold endPass
  dsimp only
  split
  · rw [incoming_closeWithError]
    rfl
  · rfl

theorem incoming_outputStep {output output' : OutputState}
    (h : s.outputStep env output = some (t, output', sent)) : t.incoming = s.incoming := by
  cases outputStep_inv h with
  | passed => exact incoming_endPass
  | visited _ hvisit => exact incoming_visit hvisit
  | streamSent houtput | written houtput | ack _ houtput => exact incoming_output houtput
  | streamFailed houtput | failed houtput | ackFailed _ houtput =>
    exact incoming_failOutput.trans (incoming_output houtput)
  | overflow => exact incoming_failOutput
  | _ => rfl

theorem incoming_closerStep (h : s.closerStep env = some (t, sent)) : t.incoming = s.incoming := by
  cases closerStep_inv h with
  | queued _ henqueue | full _ henqueue =>
    have hqueued := incoming_of_still (still_enqueue henqueue)
    exact hqueued
  | written _ houtput =>
    have hwritten := incoming_output houtput
    exact hwritten
  | finished =>
    have hsame := incoming_of_still (s.still_forwardStateTo .sessionClosed)
    exact hsame
  | _ => rfl

theorem settled_acceptBlock (h : s.acceptBlock seg = .ok t) : t.settled = s.settled := by
  obtain rfl | ⟨block, -, rfl⟩ := acceptBlock_eq_ok h <;> rfl

theorem settled_failInput : s.failInput.1.settled = s.settled :=
  settled_of_still still_failInput

theorem settled_idle (h : s.inputStep env .idle = some (t, state, sent)) :
    t.settled = s.settled := by
  cases inputStep_inv h with
  | ended | panicked => rfl
  | refused => exact settled_failInput
  | taken _ hblock =>
    have hsame := settled_acceptBlock hblock
    exact hsame

theorem still_responding (h : s.inputStep env (.responding seg) = some (t, state, sent)) :
    t.still = s.still := by
  cases inputStep_inv h with
  | overQuota => exact still_closeWithError true
  | opened _ _ _ _ henqueue => exact (still_forwardStateTo _).trans (still_enqueue henqueue)
  | openFailed _ _ _ henqueue => exact still_failInput.trans (still_enqueue henqueue)
  | quotaPanicked | ordinary => rfl

theorem still_closing (h : s.inputStep env (.closing seg) = some (t, state, sent)) :
    t.still = s.still := by
  cases inputStep_inv h with
  | answered _ houtput =>
    have hsame := still_output houtput
    exact (still_closeWithError true).trans hsame
  | unanswered _ houtput =>
    have hsame := still_output houtput
    exact still_failInput.trans hsame
  | confirmed => exact still_closeWithError true

end Session

end Mieru.Protocol
