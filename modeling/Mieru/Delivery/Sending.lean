import Mieru.Delivery.Simulation

/-!
# The sending half of a session

What graceful close and flow control are about: the send queue and the
retransmission buffer, the segment between the two, the capacities, and the
number that `output` sent last.  `SendStep` lists everything that a step of a
goroutine other than the one inside `closeWithError` does to it.
-/

namespace Mieru.Protocol

open Mieru.Foundation
open ProtocolType

variable {seg : Segment} {s t u : Session} {ok : Bool}

inductive SendPhase where
  | idle
  | popped (seg : Segment)
  | ready (seg : Segment)

namespace SendPhase

def held : SendPhase → List Segment
  | idle => []
  | popped seg => [seg]
  | ready seg => [seg]

def handed : SendPhase → List Segment
  | ready seg => [seg]
  | _ => []

def unbuffered : SendPhase → List Segment
  | popped seg => [seg]
  | _ => []

end SendPhase

def WriterState.isQueueing : WriterState → Bool
  | .queueing _ => true
  | _ => false

def OutputState.phase : OutputState → SendPhase
  | .streamPopped seg => .ready seg
  | .popped seg _ => .popped seg
  | .buffered seg _ => .ready seg
  | _ => .idle

structure SendView where
  isClient : Bool
  nextSend : UInt32
  lastSend : UInt32
  queued : List (Option Bytes)
  queue : List Segment
  buf : List Segment
  phase : SendPhase
  queueCap : Nat
  bufCap : Nat
  recvBufCap : Nat
  recvQueueCap : Nat

def Session.sendView (s : Session) (phase : SendPhase) : SendView where
  isClient := s.isClient
  nextSend := s.nextSend
  lastSend := s.lastSend
  queued := s.history.queued
  queue := s.sendQueue.items
  buf := s.sendBuf.items
  phase := phase
  queueCap := s.sendQueue.cap
  bufCap := s.sendBuf.cap
  recvBufCap := s.recvBuf.cap
  recvQueueCap := s.recvQueue.cap

def LiveSession.sendView (l : LiveSession) : SendView :=
  l.session.sendView l.output.phase

/-- `output` is called with `seg`: it counts as sent or nothing happens. -/
def Segment.Wrote (seg : Segment) (before : UInt32) (sent : List Packet) (after : UInt32) : Prop :=
  sent = [seg.packet] ∧ after = seg.seq ∨ sent = [] ∧ after = before

def isOutputData (isClient : Bool) (p : ProtocolType) : Bool :=
  if isClient then p == openSessionRequest || p == dataClientToServer
  else p == openSessionResponse || p == dataServerToClient

def isOutputAck (isClient : Bool) (p : ProtocolType) : Bool :=
  if isClient then p == ackClientToServer else p == ackServerToClient

/--
What else a step depends on: the transport, whether a close has been requested
by the end of the step, the acknowledgement that the input loop is applying,
and whether the step queues a segment, sends an acknowledgement or answers a
close request.
-/
structure SendMode where
  packet : Bool
  closed : Bool
  acking : Option UInt32
  enqueues : Bool
  acknowledges : Bool
  answersClose : Bool

inductive SendStep (mode : SendMode) :
    SendView → List Packet → SendView → Prop
  | stay (v : SendView) : SendStep mode v [] v
  | enqueue {v : SendView} {seg : Segment} : mode.enqueues = true → seg.seq = v.nextSend →
      isOutputData v.isClient seg.protocol = true ∨ mode.closed = true →
      v.queue.length < v.queueCap →
      SendStep mode v [] { v with
        nextSend := v.nextSend + 1
        queued := v.queued ++ [some seg.payload]
        queue := replaceOrInsert Segment.key seg v.queue }
  | overflow {v : SendView} : mode.enqueues = true → v.queueCap ≤ v.queue.length →
      SendStep mode v [] { v with
        nextSend := v.nextSend + 1
        queued := v.queued ++ [none] }
  | popStream {v : SendView} {seg : Segment} {rest : List Segment} :
      mode.packet = false → v.phase = .idle → v.queue = seg :: rest →
      SendStep mode v [] { v with queue := rest, phase := .ready seg }
  | popPacket {v : SendView} {seg : Segment} {rest : List Segment} :
      v.phase = .idle → v.queue = seg :: rest → v.buf.length + 1 < v.bufCap →
      SendStep mode v [] { v with queue := rest, phase := .popped seg }
  | buffer {v : SendView} {seg again : Segment} {nextRecv : UInt32} :
      v.phase = .popped seg → seg.Retouched nextRecv again →
      v.buf.length < v.bufCap →
      SendStep mode v [] { v with
        buf := replaceOrInsert Segment.key again v.buf
        phase := .ready again }
  | bufferFull {v : SendView} {seg : Segment} : v.phase = .popped seg →
      v.bufCap ≤ v.buf.length → SendStep mode v [] { v with phase := .idle }
  | emit {v : SendView} {seg : Segment} {sent : List Packet}
      {lastSend : UInt32} : v.phase = .ready seg →
      seg.Wrote v.lastSend sent lastSend →
      SendStep mode v sent { v with phase := .idle, lastSend := lastSend }
  | resend {v : SendView} {iter : Segment} {touch : Segment → Segment}
      {nextRecv : UInt32} {sent : List Packet} {lastSend : UInt32} :
      v.phase = .idle → iter ∈ v.buf →
      (∀ seg : Segment, seg.Retouched nextRecv (touch seg)) →
      (touch iter).Wrote v.lastSend sent lastSend →
      SendStep mode v sent { v with
        buf := v.buf.map touch
        lastSend := lastSend }
  | count {v : SendView} {unAckSeq : UInt32} :
      SendStep mode v [] { v with
        buf := v.buf.map fun seg => seg.countAck unAckSeq }
  | ack {v : SendView} {seg : Segment} {sent : List Packet}
      {lastSend : UInt32} : mode.acknowledges = true →
      isOutputAck v.isClient seg.protocol = true →
      seg.seq = UInt32.ofNat (v.nextSend.toNat - 1) →
      seg.Wrote v.lastSend sent lastSend →
      SendStep mode v sent { v with lastSend := lastSend }
  | acked {v : SendView} {first : Segment} {rest : List Segment}
      {unAckSeq : UInt32} : mode.acking = some unAckSeq →
      v.buf = first :: rest → first.seq < unAckSeq →
      SendStep mode v [] { v with buf := rest }
  | answerClose {v : SendView} {seg : Segment} {sent : List Packet}
      {lastSend : UInt32} : mode.answersClose = true → mode.closed = true →
      seg.protocol = closeSessionResponse → seg.seq = v.nextSend →
      seg.Wrote v.lastSend sent lastSend →
      SendStep mode v sent { v with
        nextSend := v.nextSend + 1
        queued := v.queued ++ [none]
        lastSend := lastSend }

/-! ## What waits and what is sent -/

theorem Segment.Retouched.key {nextRecv : UInt32} {again : Segment}
    (h : seg.Retouched nextRecv again) : again.key = seg.key := by
  unfold Segment.key Segment.seq
  rcases h.metadata with hmeta | hmeta
  · rw [hmeta]
  · rw [hmeta, Metadata.seq_setUnAckSeq]

theorem Segment.Retouched.protocol_eq {nextRecv : UInt32} {again : Segment}
    (h : seg.Retouched nextRecv again) : again.protocol = seg.protocol := by
  unfold Segment.protocol
  rcases h.metadata with hmeta | hmeta
  · rw [hmeta]
  · rw [hmeta, Metadata.protocol_setUnAckSeq]

def SendView.waiting (v : SendView) : List Segment :=
  v.phase.held ++ v.queue ++ v.buf

theorem Segment.Wrote.sends {before after : UInt32} {sent : List Packet} {P : Packet → Prop}
    (h : seg.Wrote before sent after) (hseg : P seg.packet) : ∀ p ∈ sent, P p := by
  intro p hp
  rcases h with ⟨rfl, _⟩ | ⟨rfl, _⟩
  · rw [List.mem_singleton.mp hp]
    exact hseg
  · cases hp

namespace SendStep

variable {mode : SendMode} {v v' : SendView} {sent : List Packet}

theorem isClient_eq (h : SendStep mode v sent v') : v'.isClient = v.isClient := by
  cases h <;> rfl

/--
What holds of every segment that is made holds of everything that waits or is
sent, if new transmission bookkeeping does not change it.
-/
theorem packets (h : SendStep mode v sent v') (Waits Sends : Packet → Prop)
    (hsends : ∀ p, Waits p → Sends p) (htouch : ∀ {seg again : Segment} {nextRecv : UInt32},
      seg.Retouched nextRecv again → Waits seg.packet → Waits again.packet)
    (hfresh : ∀ seg : Segment, mode.enqueues = true → seg.seq = v.nextSend →
      isOutputData v.isClient seg.protocol = true ∨ mode.closed = true → Waits seg.packet)
    (hack : ∀ seg : Segment, mode.acknowledges = true →
      isOutputAck v.isClient seg.protocol = true → Sends seg.packet)
    (hanswer : ∀ seg : Segment, mode.answersClose = true → mode.closed = true →
      seg.protocol = closeSessionResponse → seg.seq = v.nextSend → Sends seg.packet)
    (hv : ∀ seg ∈ v.waiting, Waits seg.packet) :
    (∀ seg ∈ v'.waiting, Waits seg.packet) ∧ ∀ p ∈ sent, Sends p := by
  have hsub : ∀ {next : SendView}, next.waiting ⊆ v.waiting →
      ∀ seg ∈ next.waiting, Waits seg.packet :=
    fun hsubset seg hseg => hv seg (hsubset hseg)
  cases h with
  | stay => exact ⟨hv, by simp⟩
  | @enqueue new henqueues hseq hdata _ =>
    refine ⟨?_, by simp⟩
    intro seg hseg
    simp only [SendView.waiting, List.mem_append] at hseg
    rcases hseg with (hheld | hqueue) | hbuf
    · exact hv seg (by simp [SendView.waiting, hheld])
    · rcases mem_replaceOrInsert_of_mem hqueue with rfl | hqueue
      · exact hfresh seg henqueues hseq hdata
      · exact hv seg (by simp [SendView.waiting, hqueue])
    · exact hv seg (by simp [SendView.waiting, hbuf])
  | overflow _ _ => exact ⟨hv, by simp⟩
  | popStream _ hidle hqueue | popPacket hidle hqueue _ =>
    refine ⟨hsub ?_, by simp⟩
    simp [SendView.waiting, hidle, SendPhase.held, hqueue]
  | @buffer seg again _ hpopped hagain _ =>
    have hseg : Waits again.packet := htouch hagain
      (hv seg (by simp [SendView.waiting, hpopped, SendPhase.held]))
    refine ⟨?_, by simp⟩
    intro other hother
    simp only [SendView.waiting, SendPhase.held, List.mem_append, List.mem_singleton] at hother
    rcases hother with (rfl | hqueue) | hbuf
    · exact hseg
    · exact hv other (by simp [SendView.waiting, hqueue])
    · rcases mem_replaceOrInsert_of_mem hbuf with rfl | hbuf
      · exact hseg
      · exact hv other (by simp [SendView.waiting, hbuf])
  | bufferFull _ _ =>
    refine ⟨hsub ?_, by simp⟩
    simp [SendView.waiting, SendPhase.held]
  | @emit seg _ _ hready hwrote =>
    refine ⟨hsub ?_, hwrote.sends (hsends _ (hv seg ?_))⟩
    · simp [SendView.waiting, SendPhase.held]
    · simp [SendView.waiting, hready, SendPhase.held]
  | @resend iter touch _ _ _ hidle hiter htouched hwrote =>
    have hbuf : ∀ seg ∈ v.buf, Waits (touch seg).packet :=
      fun seg hseg => htouch (htouched seg) (hv seg (by simp [SendView.waiting, hseg]))
    refine ⟨?_, hwrote.sends (hsends _ (hbuf iter hiter))⟩
    intro other hother
    rcases List.mem_append.mp hother with hother | hother
    · exact hv other (List.mem_append_left _ hother)
    · obtain ⟨seg, hseg, rfl⟩ := List.mem_map.mp hother
      exact hbuf seg hseg
  | count =>
    refine ⟨?_, by simp⟩
    intro other hother
    rcases List.mem_append.mp hother with hother | hother
    · exact hv other (List.mem_append_left _ hother)
    · obtain ⟨seg, hseg, rfl⟩ := List.mem_map.mp hother
      exact htouch (Session.retouched_countAck _ 0 seg) (hv seg (by simp [SendView.waiting, hseg]))
  | ack hacks hprotocol _ hwrote =>
    exact ⟨hv, hwrote.sends (hack _ hacks hprotocol)⟩
  | acked _ hbuf _ =>
    refine ⟨hsub ?_, by simp⟩
    refine List.append_subset.mpr ⟨List.subset_append_left _ _, ?_⟩
    rw [SendView.waiting, hbuf]
    exact List.subset_append_of_subset_right _ (List.subset_cons_self _ _)
  | answerClose hanswers hclosed hprotocol hseq hwrote =>
    exact ⟨hv, hwrote.sends (hanswer _ hanswers hclosed hprotocol hseq)⟩

end SendStep

namespace Session

/-! ## Operations that leave the sending half alone -/

/-- `closeWithError` is called, or the goroutine inside it is left alone. -/
inductive CloserCalled (s s' : Session) : Prop
  | same : s'.closer = s.closer → s'.closeRequested = s.closeRequested → CloserCalled s s'
  | called (gracefulClose : Bool) : s.closeRequested = false →
      s'.closer = .starting gracefulClose → s'.closeRequested = true →
      CloserCalled s s'

theorem CloserCalled.refl (s : Session) : s.CloserCalled s := .same rfl rfl

theorem CloserCalled.trans (h : s.CloserCalled t) (h' : t.CloserCalled u) : s.CloserCalled u := by
  cases h with
  | same hcloser hrequested =>
    cases h' with
    | same hcloser' hrequested' =>
      exact .same (hcloser'.trans hcloser) (hrequested'.trans hrequested)
    | called g hopen hcloser' hrequested' =>
      exact .called g (hrequested.symm.trans hopen) hcloser' hrequested'
  | called g hopen hcloser hrequested =>
    cases h' with
    | same hcloser' hrequested' =>
      exact .called g hopen (hcloser'.trans hcloser) (hrequested'.trans hrequested)
    | called _ hopen' _ _ => cases hrequested.symm.trans hopen'

structure Idles (s s' : Session) : Prop where
  view : ∀ phase, s'.sendView phase = s.sendView phase
  closer : s.CloserCalled s'

theorem Idles.refl (s : Session) : s.Idles s := ⟨fun _ => rfl, .refl s⟩

theorem Idles.trans (h : s.Idles t) (h' : t.Idles u) : s.Idles u :=
  ⟨fun phase => (h'.view phase).trans (h.view phase), h.closer.trans h'.closer⟩

theorem Idles.after (h' : t.Idles u) (h : s.Idles t) : s.Idles u :=
  h.trans h'

variable (s : Session)

theorem idles_closeWithError (gracefulClose : Bool) : s.Idles (s.closeWithError gracefulClose) := by
  unfold closeWithError
  split
  · exact Idles.refl s
  · rename_i hopen
    exact ⟨fun _ => rfl, .called gracefulClose (by simpa using hopen) rfl rfl⟩

theorem idles_forwardStateTo (next : SessionState) : s.Idles (s.forwardStateTo next) := by
  unfold forwardStateTo
  split
  · exact Idles.refl s
  · exact ⟨fun _ => rfl, .same rfl rfl⟩

theorem idles_failInput : s.Idles s.failInput.1 :=
  Idles.trans (t := s.setInputErr) ⟨fun _ => rfl, .same rfl rfl⟩ (idles_closeWithError _ false)

theorem idles_failOutput : s.Idles s.failOutput :=
  Idles.trans (t := s.setOutputErr) ⟨fun _ => rfl, .same rfl rfl⟩ (idles_closeWithError _ false)

theorem idles_storeWindow (metadata : Metadata) : s.Idles (s.storeWindow metadata) := by
  cases metadata with
  | session ss => exact Idles.refl s
  | dataAck das => exact ⟨fun _ => rfl, .same rfl rfl⟩

theorem idles_addDownloadBytes (n : Nat) : s.Idles (s.addDownloadBytes n) := by
  unfold addDownloadBytes
  split
  · exact Idles.refl s
  · exact ⟨fun _ => rfl, .same rfl rfl⟩

theorem idles_copyUnread (size : Nat) : s.Idles (s.copyUnread size).1 := by
  simp only [copyUnread, addUploadBytes]
  split
  · exact ⟨fun _ => rfl, .same rfl rfl⟩
  · exact ⟨fun _ => rfl, .same rfl rfl⟩

theorem idles_appendUnread (seg : Segment) : s.Idles (s.appendUnread seg) := by
  obtain ⟨state, hstate⟩ := s.appendUnread_eq seg
  rw [hstate]
  exact ⟨fun _ => rfl, .same rfl rfl⟩

theorem idles_setRecvQueue {recvQueue : SegmentTree} (h : recvQueue.cap = s.recvQueue.cap) :
    s.Idles { s with recvQueue := recvQueue } :=
  ⟨fun _ => by simp only [sendView, h], .same rfl rfl⟩

theorem idles_setRecvBuf {recvBuf : SegmentTree}
    (h : recvBuf.cap = s.recvBuf.cap) : s.Idles { s with recvBuf := recvBuf } :=
  ⟨fun _ => by simp only [sendView, h], .same rfl rfl⟩

variable {s}
variable {t u : Session} {env : Env} {sent : List Packet} {mode : SendMode}
  {phase phase' : SendPhase}

theorem idles_read {size : Nat} {reader : ReaderState}
    (h : s.read size = (t, reader)) : s.Idles t := by
  unfold read at h
  split at h
  · obtain rfl : (s.copyUnread size).1 = t := congrArg Prod.fst h
    exact s.idles_copyUnread size
  · cases h
    exact Idles.refl s

theorem idles_readerStep {reader reader' : ReaderState}
    (h : s.readerStep env reader = some (t, reader')) : s.Idles t := by
  cases readerStep_inv h with
  | taken hdelete =>
    exact (s.idles_setRecvQueue (SegmentTree.cap_deleteMinIf hdelete)).trans
      (idles_appendUnread _ _)
  | copied hdelete =>
    exact (s.idles_setRecvQueue (SegmentTree.cap_deleteMinIf hdelete)).trans (idles_copyUnread _ _)
  | nothing hdelete => exact s.idles_setRecvQueue (SegmentTree.cap_deleteMinIf hdelete)
  | _ => exact ⟨fun _ => rfl, .same rfl rfl⟩

structure Sending (mode : SendMode) (s : Session) (phase : SendPhase)
    (sent : List Packet) (s' : Session) (phase' : SendPhase) : Prop where
  step : SendStep mode (s.sendView phase) sent (s'.sendView phase')
  closer : s.CloserCalled s'

theorem Idles.sending (h : s.Idles t) : Sending mode s phase [] t phase :=
  ⟨by rw [h.view]; exact .stay _, h.closer⟩

theorem Sending.idles (h : Sending mode s phase sent t phase')
    (hidles : t.Idles u) : Sending mode s phase sent u phase' :=
  ⟨by rw [hidles.view]; exact h.step, h.closer.trans hidles.closer⟩

theorem Idles.then (hidles : s.Idles t) (h : Sending mode t phase sent u phase') :
    Sending mode s phase sent u phase' :=
  ⟨by rw [← hidles.view]; exact h.step, hidles.closer.trans h.closer⟩

theorem sending_enqueue (hmode : mode.enqueues = true) (h : s.enqueue seg = (ok, t))
    (hseq : seg.seq = s.nextSend)
    (hdata : isOutputData s.isClient seg.protocol = true ∨ mode.closed = true) :
    Sending mode s phase [] t phase := by
  cases hinsert : s.sendQueue.insert seg with
  | mk inserted sendQueue =>
    simp only [enqueue, hinsert] at h
    cases h
    refine ⟨?_, .same rfl rfl⟩
    cases ok with
    | true =>
      obtain ⟨hspace, hitems⟩ := SegmentTree.insert_eq_true hinsert
      have hcap := SegmentTree.cap_insert hinsert
      simp only [sendView, hitems, hcap, if_true]
      exact .enqueue hmode hseq hdata hspace
    | false =>
      obtain ⟨hfull, hitems⟩ := SegmentTree.insert_eq_false hinsert
      have hcap := SegmentTree.cap_insert hinsert
      simp only [sendView, hitems, hcap]
      exact .overflow hmode hfull

theorem sendView_enqueue (h : s.enqueue seg = (true, t)) :
    t.sendView phase = { s.sendView phase with
      nextSend := s.nextSend + 1
      queued := s.history.queued ++ [some seg.payload]
      queue := replaceOrInsert Segment.key seg s.sendQueue.items } := by
  cases hinsert : s.sendQueue.insert seg with
  | mk inserted sendQueue =>
    simp only [enqueue, hinsert] at h
    cases h
    simp only [sendView, (SegmentTree.insert_eq_true hinsert).2,
      SegmentTree.cap_insert hinsert, if_true]

theorem output_wrote (h : s.output env seg = (ok, t, sent)) :
    ∃ lastSend, seg.Wrote s.lastSend sent lastSend ∧ (∀ phase,
      t.sendView phase = { s.sendView phase with lastSend := lastSend }) ∧
      t.closer = s.closer ∧ t.closeRequested = s.closeRequested := by
  unfold output at h
  split at h
  · cases h
    exact ⟨seg.seq, .inl ⟨rfl, rfl⟩, fun _ => rfl, rfl, rfl⟩
  all_goals
    cases h
    exact ⟨s.lastSend, .inr ⟨rfl, rfl⟩, fun _ => rfl, rfl, rfl⟩

theorem sending_write {b : Bytes} {writer : WriterState}
    (hmode : s.opening = true → mode.enqueues = true)
    (h : s.write b = (t, writer)) : Sending mode s phase [] t phase := by
  have hmark : s.Idles s.setOpenSessionRequestSent :=
    ⟨fun _ => rfl, .same rfl rfl⟩
  have hdata : s.opening = true → isOutputData s.isClient (s.openRequest b).protocol = true := by
    intro hopening
    simp only [opening, Bool.and_eq_true] at hopening
    rw [hopening.1.1]
    rfl
  cases writeStart h with
  | refused | begun => exact (Idles.refl s).sending
  | full _ hopening henqueue | carried _ hopening henqueue
  | requested _ hopening henqueue =>
    exact hmark.then
      (sending_enqueue (hmode hopening) henqueue rfl (.inl (hdata hopening)))

theorem isOutputData_dataSegment (s : Session) (env : Env) (job : ChunkJob) :
    isOutputData s.isClient (s.dataSegment env job).protocol = true := by
  change isOutputData s.isClient
    (if s.isClient then dataClientToServer else dataServerToClient) = true
  cases s.isClient <;> rfl

theorem sending_writerStep {writer writer' : WriterState}
    (hmode : writer.isQueueing = true → mode.enqueues = true)
    (h : s.writerStep env writer = some (t, writer')) : Sending mode s phase [] t phase := by
  cases writerStep_inv h with
  | done n => exact (s.idles_addDownloadBytes n).sending
  | full _ henqueue | last _ henqueue | queued _ henqueue =>
    exact sending_enqueue (hmode rfl) henqueue rfl (.inl (s.isOutputData_dataSegment env _))
  | emptied => exact Idles.sending ⟨fun _ => rfl, .same rfl rfl⟩
  | _ => exact (Idles.refl s).sending

/-! ## The output loop -/

theorem phase_startRun : (s.startRun env).phase = .idle := by
  unfold startRun
  split
  · rfl
  · split
    · rfl
    · split <;> rfl

theorem sending_visit {pass pass' : ResendPass} {iter : Segment}
    (hiter : iter ∈ s.sendBuf.items) (h : s.Visit env pass iter t pass' sent) :
    Sending mode s .idle sent t .idle := by
  have hresend : ∀ {ok : Bool} {u : Session},
      (s.restampSendBuf env iter).output env (s.restamp env iter iter) =
          (ok, u, sent) → Sending mode s .idle sent u .idle := by
    intro ok u houtput
    obtain ⟨lastSend, hwrote, hview, hcloser, hrequested⟩ :=
      output_wrote houtput
    refine ⟨?_, .same hcloser hrequested⟩
    rw [hview]
    exact .resend (v := s.sendView .idle) rfl hiter
      (fun seg => retouched_restamp env iter seg) hwrote
  cases h with
  | exhausted => exact Idles.sending ⟨fun _ => rfl, .same rfl rfl⟩
  | resent _ houtput => exact hresend houtput
  | unsent houtput => exact (hresend houtput).idles ⟨fun _ => rfl, .same rfl rfl⟩
  | early => exact (Idles.refl s).sending

theorem idles_endPass (pass : ResendPass) : s.Idles (s.endPass env pass) := by
  have htime : s.Idles { s with
      nextRetransmissionTime := pass.nextTX.getD (env.now + 10000) } :=
    ⟨fun _ => rfl, .same rfl rfl⟩
  unfold endPass
  dsimp only
  split
  · exact htime.trans (idles_closeWithError _ _)
  · exact htime

theorem sending_emit (h : s.output env seg = (ok, t, sent)) (hidles : t.Idles u) :
    Sending mode s (.ready seg) sent u .idle := by
  obtain ⟨lastSend, hwrote, hview, hcloser, hrequested⟩ := output_wrote h
  refine Sending.idles ⟨?_, .same hcloser hrequested⟩ hidles
  rw [hview]
  exact .emit (v := s.sendView (.ready seg)) rfl hwrote

theorem isOutputAck_ackSegment : isOutputAck s.isClient (s.ackSegment env).protocol = true := by
  change isOutputAck s.isClient (if s.isClient then ackClientToServer else ackServerToClient) = true
  cases s.isClient <;> rfl

theorem sending_ack (hmode : mode.acknowledges = true)
    (h : s.output env (s.ackSegment env) = (ok, t, sent))
    (hidles : t.Idles u) : Sending mode s phase sent u phase := by
  obtain ⟨lastSend, hwrote, hview, hcloser, hrequested⟩ := output_wrote h
  refine Sending.idles ⟨?_, .same hcloser hrequested⟩ hidles
  rw [hview]
  exact .ack (v := s.sendView phase) hmode isOutputAck_ackSegment rfl hwrote

def ackDue (s : Session) (env : Env) : Bool :=
  s.ackOnDataRecv || sessionHeartbeatInterval < env.now - s.lastTXTime

def acknowledges (s : Session) (env : Env) : OutputState → Bool
  | .acking => s.ackDue env
  | _ => false

theorem idles_setSendQueue {sendQueue : SegmentTree}
    (hitems : sendQueue.items = s.sendQueue.items) (hcap : sendQueue.cap = s.sendQueue.cap) :
    s.Idles { s with sendQueue := sendQueue } :=
  ⟨fun _ => by simp only [sendView, hitems, hcap], .same rfl rfl⟩

theorem sending_outputStep {output output' : OutputState} (hfits : output.Fits s.transportProtocol)
    (hpacket : mode.packet = s.isPacket)
    (hmode : s.acknowledges env output = true → mode.acknowledges = true)
    (h : s.outputStep env output = some (t, output', sent)) :
    Sending mode s output.phase sent t output'.phase := by
  cases outputStep_inv h with
  | woken | ticked =>
    rw [phase_startRun]
    exact Idles.sending ⟨fun _ => rfl, .same rfl rfl⟩
  | drained hdelete | spent hdelete =>
    exact (idles_setSendQueue (SegmentTree.deleteMinIf_eq_none hdelete).1
      (SegmentTree.cap_deleteMinIf hdelete)).sending
  | streamPop hdelete =>
    refine ⟨?_, .same rfl rfl⟩
    simp only [sendView, SegmentTree.cap_deleteMinIf hdelete]
    refine .popStream ?_ rfl (SegmentTree.deleteMinIf_eq_some hdelete).1
    have htransport : s.transportProtocol = .streamTransport := hfits
    simp [hpacket, isPacket, htransport]
  | streamSent houtput | written houtput => exact sending_emit houtput (Idles.refl _)
  | streamFailed houtput | failed houtput => exact sending_emit houtput (idles_failOutput _)
  | passed => exact (idles_endPass _).sending
  | visited hnext hvisit => exact sending_visit (mem_of_nextToVisit hnext) hvisit
  | pop hspace hdelete =>
    refine ⟨?_, .same rfl rfl⟩
    simp only [sendView, SegmentTree.cap_deleteMinIf hdelete]
    refine .popPacket rfl (SegmentTree.deleteMinIf_eq_some hdelete).1 ?_
    simp only [SegmentTree.remaining] at hspace
    change s.sendBuf.items.length + 1 < s.sendBuf.cap
    omega
  | buffered hinsert =>
    obtain ⟨hspace, hitems⟩ := SegmentTree.insert_eq_true hinsert
    refine ⟨?_, .same rfl rfl⟩
    simp only [sendView, hitems, SegmentTree.cap_insert hinsert]
    exact .buffer rfl (retouched_stampTransmission env _) hspace
  | overflow hinsert =>
    rename_i seg sendBuf total
    obtain ⟨hfull, hitems⟩ := SegmentTree.insert_eq_false hinsert
    refine Sending.idles (t := { s with sendBuf := sendBuf })
      ⟨?_, .same rfl rfl⟩ (idles_failOutput _)
    simp only [sendView, hitems, SegmentTree.cap_insert hinsert]
    exact .bufferFull rfl hfull
  | ack hdue houtput => exact sending_ack (hmode hdue) houtput (Idles.refl _)
  | ackFailed hdue houtput => exact sending_ack (hmode hdue) houtput (idles_failOutput _)
  | _ => exact Idles.sending ⟨fun _ => rfl, .same rfl rfl⟩

/-! ## The input loop -/

theorem idles_acceptBlock (h : s.acceptBlock seg = .ok t) : s.Idles t := by
  obtain rfl | ⟨block, -, rfl⟩ := acceptBlock_eq_ok h
  · exact Idles.refl t
  · exact ⟨fun _ => rfl, .same rfl rfl⟩

def unopened (s : Session) : Bool :=
  !s.isClient && s.isState .sessionAttached

def responds (s : Session) : InputState → Bool
  | .responding _ => s.unopened
  | _ => false

def answersClose : InputState → Bool
  | .closing seg => seg.protocol == closeSessionRequest
  | _ => false

theorem sending_closeResponse (hmode : mode.answersClose = true) (hclosed : mode.closed = true)
    (houtput : s.reserveSeq.output env s.closeResponse = (ok, t, sent)) (hidles : t.Idles u) :
    Sending mode s phase sent u phase := by
  obtain ⟨lastSend, hwrote, hview, hcloser, hsame⟩ := output_wrote houtput
  refine Sending.idles ⟨?_, .same hcloser hsame⟩ hidles
  rw [hview]
  exact .answerClose (v := s.sendView phase) hmode hclosed rfl rfl hwrote

theorem sending_inputStep {input input' : InputState}
    (hacking : ∀ seg das, input = .deletingAcked seg das → mode.acking = some das.unAckSeq)
    (henqueues : responds s input = true → mode.enqueues = true)
    (hmode : answersClose input = true → mode.answersClose = true)
    (hclosed : t.closeRequested = true → mode.closed = true)
    (h : s.inputStep env input = some (t, input', sent)) : Sending mode s phase sent t phase := by
  have hnone : ∀ {sendBuf : SegmentTree} {das : DataAckStruct},
      s.sendBuf.deleteMinIf (fun iter => decide (iter.seq < das.unAckSeq)) = (none, sendBuf) →
      s.Idles ({ s with sendBuf := sendBuf }.storeWindow (.dataAck das)) :=
    fun hdelete => (idles_storeWindow _ _).after ⟨fun _ => by
      simp only [sendView, (SegmentTree.deleteMinIf_eq_none hdelete).1,
        SegmentTree.cap_deleteMinIf hdelete], .same rfl rfl⟩
  have hresponse : ∀ {ok : Bool} {u : Session}, s.isClient = false →
      mode.enqueues = true → s.enqueue s.openResponse = (ok, u) →
      Sending mode s phase [] u phase := by
    intro ok u hserver henqueues henqueue
    refine sending_enqueue henqueues henqueue rfl (.inl ?_)
    rw [hserver]
    rfl
  cases inputStep_inv h with
  | refused => exact Idles.sending ((idles_failInput _).after ⟨fun _ => rfl, .same rfl rfl⟩)
  | taken _ hblock =>
    have haccept : s.Idles _ := (idles_acceptBlock hblock).after ⟨fun _ => rfl, .same rfl rfl⟩
    exact Idles.sending (haccept.trans ⟨fun _ => rfl, .same rfl rfl⟩)
  | acked hdelete =>
    obtain ⟨hitems, hacked⟩ := SegmentTree.deleteMinIf_eq_some hdelete
    refine ⟨?_, .same rfl rfl⟩
    simp only [sendView, SegmentTree.cap_deleteMinIf hdelete]
    exact .acked (hacking _ _ rfl) hitems (of_decide_eq_true hacked)
  | ackedData hdelete | ackedOnly hdelete => exact (hnone hdelete).sending
  | counted => exact ⟨.count (v := s.sendView phase), .same rfl rfl⟩
  | streamed _ hinsert | queued _ hinsert =>
    exact (s.idles_setRecvQueue (SegmentTree.cap_insert hinsert)).sending
  | stored _ hinsert => exact (s.idles_setRecvBuf (SegmentTree.cap_insert hinsert)).sending
  | movedAll hdelete =>
    exact Idles.sending ((s.idles_setRecvBuf (SegmentTree.cap_deleteMinIf hdelete)).trans
      ⟨fun _ => rfl, .same rfl rfl⟩)
  | held _ hdelete => exact (s.idles_setRecvBuf (SegmentTree.cap_deleteMinIf hdelete)).sending
  | overflow hinsert =>
    exact ((s.idles_setRecvQueue (SegmentTree.cap_insert hinsert)).trans
      (idles_failInput _)).sending
  | advanced => exact Idles.sending ((idles_storeWindow _ _).after ⟨fun _ => rfl, .same rfl rfl⟩)
  | overQuota =>
    exact Idles.sending ((idles_closeWithError _ _).after ⟨fun _ => rfl, .same rfl rfl⟩)
  | opened hserver _ hattached _ henqueue =>
    have hunopened := henqueues (by simp [responds, unopened, hserver, hattached])
    exact (hresponse hserver hunopened henqueue).idles (idles_forwardStateTo _ _)
  | openFailed hserver _ hattached henqueue =>
    have hunopened := henqueues (by simp [responds, unopened, hserver, hattached])
    exact (hresponse hserver hunopened henqueue).idles (idles_failInput _)
  | answered hrequest houtput =>
    exact sending_closeResponse (hmode (by simp [answersClose, hrequest]))
      (hclosed (closeRequested_closeWithError _ _)) houtput (idles_closeWithError _ _)
  | unanswered hrequest houtput =>
    exact sending_closeResponse (hmode (by simp [answersClose, hrequest]))
      (hclosed (closeRequested_failInput _)) houtput (idles_failInput _)
  | confirmed => exact (s.idles_closeWithError true).sending
  | _ => exact Idles.sending ⟨fun _ => rfl, .same rfl rfl⟩

end Session

/-! ## The whole session -/

def InputState.acking : InputState → Option UInt32
  | .deletingAcked _ das => some das.unAckSeq
  | _ => none

def SessionEvent.ofCloser : SessionEvent → Bool
  | .closer _ => true
  | _ => false

namespace LiveSession

variable {l l' : LiveSession} {event : SessionEvent} {sent : List Packet}

def acknowledges (l : LiveSession) : SessionEvent → Bool
  | .output env => l.session.acknowledges env l.output
  | _ => false

def answersClose (l : LiveSession) : SessionEvent → Bool
  | .input _ => Session.answersClose l.input
  | _ => false

def enqueues (l : LiveSession) : SessionEvent → Bool
  | .write _ => l.session.opening
  | .writer _ => l.writer.isQueueing
  | .input _ => l.session.responds l.input
  | _ => false

def sendMode (l : LiveSession) (event : SessionEvent) (l' : LiveSession) : SendMode where
  packet := l.session.isPacket
  closed := l'.session.closeRequested
  acking := l.input.acking
  enqueues := l.enqueues event
  acknowledges := l.acknowledges event
  answersClose := l.answersClose event

theorem step_sending (hl : l.WellFormed) (hevent : event.ofCloser = false)
    (h : l.step event = some (l', sent)) :
    Session.Sending (l.sendMode event l') l.session l.output.phase sent
      l'.session l'.output.phase := by
  cases step_inv h with
  | write hcall => exact Session.sending_write (fun h => h) hcall
  | writer hstep => exact Session.sending_writerStep (fun h => h) hstep
  | read hcall => exact (Session.idles_read hcall).sending
  | reader hstep => exact (Session.idles_readerStep hstep).sending
  | output hstep => exact Session.sending_outputStep hl.output rfl (fun h => h) hstep
  | input hstep =>
    refine Session.sending_inputStep ?_ (fun h => h) (fun h => h) (fun h => h) hstep
    intro seg das hinput
    simp [sendMode, hinput, InputState.acking]
  | close => exact (l.session.idles_closeWithError true).sending
  | closer => cases hevent

theorem step_loops_eq (h : l.step event = some (l', sent)) :
    (l'.output = l.output ∨ ∃ env, event = .output env) ∧
      (l'.input = l.input ∨ ∃ env, event = .input env) := by
  cases step_inv h with
  | output => exact ⟨.inr ⟨_, rfl⟩, .inl rfl⟩
  | input => exact ⟨.inl rfl, .inr ⟨_, rfl⟩⟩
  | _ => exact ⟨.inl rfl, .inl rfl⟩

theorem sendView_receive (h : l.receive seg = some l') :
    l'.sendView = l.sendView ∧ l.session.CloserCalled l'.session := by
  obtain ⟨-, rfl⟩ := receive_eq_some h
  exact ⟨rfl, .same rfl rfl⟩

end LiveSession

end Mieru.Protocol
