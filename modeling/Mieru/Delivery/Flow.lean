import Mieru.Session.Live

/-!
# The flow of data through a session

The abstract view of a running session that delivery is about: which segments
it holds where, which sequence numbers it has used and what its callers have
written and read.  `Flow.Step` lists everything one step of a goroutine can do
to that view.  Timers, windows, states and ciphers only decide which of these
actions is taken.
-/

namespace Mieru.Protocol

open Mieru.Foundation
open Mieru.Cipher
open ProtocolType

def loggedBytes (log : List (Option Bytes)) : Bytes :=
  log.flatMap fun entry => entry.getD []

def payloads (segments : List Segment) : Bytes :=
  segments.flatMap Segment.payload

inductive Intake where
  | nothing
  | stuck (seg : Segment)
  | acking (seg : Segment) (das : DataAckStruct)
  | inserting (seg : Segment)
  | holding (seg3 : Segment)
  | queued

structure Flow where
  id : UInt32
  nextSend : UInt32
  nextRecv : UInt32
  queued : List (Option Bytes)
  read : Bytes
  unread : Bytes
  sendQueue : List Segment
  sendBuf : List Segment
  sendHeld : List Segment
  recvChan : List Segment
  intake : Intake
  recvBuf : List Segment
  recvQueue : List Segment

structure Packet.IsControl (nextRecv : UInt32) (p : Packet) : Prop where
  protocol : isInputData p.metadata.protocol = false
  acked : ∀ das, p.metadata = .dataAck das → das.unAckSeq = nextRecv

structure Segment.Retouched (nextRecv : UInt32) (seg again : Segment) :
    Prop where
  payload : again.payload = seg.payload
  metadata : again.metadata = seg.metadata ∨ again.metadata = seg.metadata.setUnAckSeq nextRecv

namespace Flow

structure Fresh (f : Flow) (seg : Segment) : Prop where
  id : seg.sessionID = f.id
  seq : seg.seq = f.nextSend
  acked : ∀ das, seg.metadata = .dataAck das → das.unAckSeq = f.nextRecv
  typed : seg.metadata.Typed

/--
What else a step depends on: whether the session runs over the packet
transport, whether a close has been requested by the end of the step, and
whether the open session request was still to be queued before it.
-/
structure Mode where
  packet : Bool
  closed : Bool
  opening : Bool

/-- What the input loop makes of a segment it takes from `recvChan`. -/
inductive Taken (mode : Mode) (seg : Segment) : Intake → Prop
  | dropped : isInputData seg.protocol = false ∨ mode.closed = true → Taken mode seg .nothing
  | stuck : Taken mode seg (.stuck seg)
  | inserting : isInputData seg.protocol = true → Taken mode seg (.inserting seg)
  | acking {das : DataAckStruct} : mode.packet = true →
      seg.metadata = .dataAck das → Taken mode seg (.acking seg das)

inductive Step (mode : Mode) : Flow → List Packet → Flow → Prop
  | stay (f : Flow) : Step mode f [] f
  | control {f : Flow} {p : Packet} : p.IsControl f.nextRecv →
      mode.packet = true ∨ mode.closed = true → Step mode f [p] f
  | enqueue {f : Flow} {seg : Segment} : f.Fresh seg →
      isInputData seg.protocol = true ∨ mode.closed = true →
      (seg.protocol = openSessionRequest → mode.opening = true) →
      Step mode f [] { f with
        nextSend := f.nextSend + 1
        queued := f.queued ++ [some seg.payload]
        sendQueue := replaceOrInsert Segment.key seg f.sendQueue }
  | reserve {f : Flow} {sent : List Packet} :
      (∀ p ∈ sent, p.IsControl f.nextRecv ∧ mode.closed = true) →
      Step mode f sent { f with
        nextSend := f.nextSend + 1
        queued := f.queued ++ [none] }
  | pop {f : Flow} {seg : Segment} {rest : List Segment} :
      f.sendHeld = [] → f.sendQueue = seg :: rest →
      Step mode f [] { f with sendQueue := rest, sendHeld := [seg] }
  | buffer {f : Flow} {seg again : Segment} : mode.packet = true →
      f.sendHeld = [seg] → seg.Retouched f.nextRecv again →
      Step mode f [] { f with
        sendBuf := replaceOrInsert Segment.key again f.sendBuf
        sendHeld := [again] }
  | emit {f : Flow} {seg : Segment} : f.sendHeld = [seg] →
      Step mode f [seg.packet] { f with sendHeld := [] }
  | withhold {f : Flow} : mode.packet = true ∨ mode.closed = true →
      Step mode f [] { f with sendHeld := [] }
  | resend {f : Flow} {touch : Segment → Segment} {sent : List Packet} : mode.packet = true →
      (∀ seg : Segment, seg.Retouched f.nextRecv (touch seg)) →
      (∀ p ∈ sent, ∃ seg ∈ f.sendBuf, p = (touch seg).packet) →
      Step mode f sent { f with sendBuf := f.sendBuf.map touch }
  | acked {f : Flow} {seg first : Segment} {das : DataAckStruct}
      {rest : List Segment} : f.intake = .acking seg das →
      f.sendBuf = first :: rest → first.seq < das.unAckSeq →
      Step mode f [] { f with sendBuf := rest }
  | clearQueue {f : Flow} : mode.closed = true → Step mode f [] { f with sendQueue := [] }
  | clearBuf {f : Flow} : mode.closed = true → Step mode f [] { f with sendBuf := [] }
  | take {f : Flow} {seg : Segment} {rest : List Segment} {intake : Intake} :
      f.intake = .nothing → f.recvChan = seg :: rest →
      Taken mode seg intake →
      Step mode f [] { f with recvChan := rest, intake := intake }
  | ackDone {f : Flow} {seg : Segment} {das : DataAckStruct} : f.intake = .acking seg das →
      Step mode f [] { f with
        intake :=
          if isInputData seg.protocol then .inserting seg else .nothing }
  | abandon {f : Flow} : mode.closed = true → f.intake ≠ .queued →
      Step mode f [] { f with intake := .nothing }
  | storeBuf {f : Flow} {seg : Segment} : mode.packet = true → f.intake = .inserting seg →
      Step mode f [] { f with
        recvBuf := replaceOrInsert Segment.key seg f.recvBuf
        intake := .nothing }
  | storeQueue {f : Flow} {seg : Segment} : mode.packet = false → f.intake = .inserting seg →
      Step mode f [] { f with
        recvQueue := replaceOrInsert Segment.key seg f.recvQueue
        intake := .nothing }
  | hold {f : Flow} {seg3 : Segment} {rest : List Segment} : mode.packet = true →
      f.intake = .nothing → f.recvBuf = seg3 :: rest →
      Step mode f [] { f with
        recvBuf := rest
        intake := .holding seg3 }
  | queue {f : Flow} {seg3 : Segment} : mode.packet = true →
      f.intake = .holding seg3 → seg3.seq = f.nextRecv →
      Step mode f [] { f with
        recvQueue := replaceOrInsert Segment.key seg3 f.recvQueue
        intake := .queued }
  | skip {f : Flow} {seg3 : Segment} : f.intake = .holding seg3 →
      Step mode f [] { f with intake := .nothing }
  | advance {f : Flow} : mode.packet = true → f.intake = .queued →
      Step mode f [] { f with
        nextRecv := f.nextRecv + 1
        intake := .nothing }
  | drain {f : Flow} {seg : Segment} {rest : List Segment} : f.recvQueue = seg :: rest →
      Step mode f [] { f with
        recvQueue := rest
        unread := f.unread ++ seg.payload }
  | copy {f : Flow} (size : Nat) :
      Step mode f [] { f with
        unread := f.unread.drop size
        read := f.read ++ f.unread.take size }

variable {f f' : Flow} {sent : List Packet} {mode : Mode}

theorem Step.queued_isPrefix (h : Step mode f sent f') : f.queued <+: f'.queued := by
  cases h <;> first
    | exact List.prefix_rfl
    | exact List.prefix_append _ _

theorem Step.read_isPrefix (h : Step mode f sent f') : f.read <+: f'.read := by
  cases h with
  | copy size => exact List.prefix_append _ _
  | _ => exact List.prefix_rfl

theorem Step.recvChan_subset (h : Step mode f sent f') : f'.recvChan ⊆ f.recvChan := by
  cases h with
  | take _ hchan _ =>
    rw [hchan]
    exact List.subset_cons_self _ _
  | _ => exact List.Subset.refl _

end Flow

def OutputState.held : OutputState → List Segment
  | .streamPopped seg => [seg]
  | .popped seg _ => [seg]
  | .buffered seg _ => [seg]
  | _ => []

def InputState.intake : InputState → Intake
  | .panicked _ (some seg) => .stuck seg
  | .deletingAcked seg das => .acking seg das
  | .inserting seg => .inserting seg
  | .holding _ seg3 => .holding seg3
  | .queued _ _ => .queued
  | _ => .nothing

def Session.flow (s : Session) (held : List Segment) (intake : Intake) : Flow where
  id := s.id
  nextSend := s.nextSend
  nextRecv := s.nextRecv
  queued := s.history.queued
  read := s.history.read
  unread := s.unreadBuf
  sendQueue := s.sendQueue.items
  sendBuf := s.sendBuf.items
  sendHeld := held
  recvChan := s.recvChan
  intake := intake
  recvBuf := s.recvBuf.items
  recvQueue := s.recvQueue.items

def LiveSession.flow (l : LiveSession) : Flow :=
  l.session.flow l.output.held l.input.intake

inductive Side where
  | client
  | server
  deriving DecidableEq, Repr

namespace Side

def peer : Side → Side
  | client => server
  | server => client

instance {P : Side → Prop} [DecidablePred P] : Decidable (∀ side, P side) :=
  decidable_of_iff (P client ∧ P server)
    ⟨fun h side => by cases side with | client => exact h.1 | server => exact h.2,
      fun h => ⟨h client, h server⟩⟩

@[simp] theorem peer_peer (side : Side) : side.peer.peer = side := by
  cases side <;> rfl

theorem peer_ne (side : Side) : side.peer ≠ side := by
  cases side <;> simp [peer]

theorem eq_or_eq_peer (side other : Side) : other = side ∨ other = side.peer := by
  cases side <;> cases other <;> simp [peer]

end Side

def Packet.received (p : Packet) (block : Option BlockCipher) : Segment :=
  { metadata := p.metadata, payload := p.payload, block := block }

end Mieru.Protocol
