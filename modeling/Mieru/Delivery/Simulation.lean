import Mieru.Delivery.Flow
import Mieru.Session.Steps

/-!
# A running session follows its flow

Every step of a running session is a step of its abstract view.  The session
must be well formed: the program points of the output and input loops belong
to its transport, and the goroutine inside `closeWithError` holds a close
request.
-/

namespace Mieru.Protocol

open Mieru.Foundation
open ProtocolType

variable {env : Env} {seg : Segment} {ok : Bool} {writer : WriterState} {reader : ReaderState}

def Session.isPacket (s : Session) : Bool :=
  s.transportProtocol == .packetTransport

def CloserState.held : CloserState → List Segment
  | .waiting seg _ => [seg]
  | .sendingDirectly seg => [seg]
  | _ => []

def CloserState.called : CloserState → Bool
  | .notCalled => false
  | _ => true

def OutputState.Fits (transport : TransportProtocol) : OutputState → Prop
  | .idle => True
  | .ended => True
  | .streaming => transport = .streamTransport
  | .streamPopped _ => transport = .streamTransport
  | _ => transport = .packetTransport

def InputState.Fits (transport : TransportProtocol) : InputState → Prop
  | .deletingAcked _ _ => transport = .packetTransport
  | .countingAck _ => transport = .packetTransport
  | .moving _ => transport = .packetTransport
  | .holding _ _ => transport = .packetTransport
  | .queued _ _ => transport = .packetTransport
  | _ => True

def Segment.IsCloseRequest (seg : Segment) : Prop :=
  ∃ ss : SessionStruct, seg.metadata = .session ss ∧ ss.protocol = closeSessionRequest

structure Session.CloserOK (s : Session) : Prop where
  held : ∀ seg ∈ s.closer.held, seg.IsCloseRequest
  requested : s.closer.called = true → s.closeRequested = true
  closed : s.closedChan = true → s.closeRequested = true

def WriterState.inCall : WriterState → Bool
  | .returned _ _ => false
  | _ => true

structure LiveSession.WellFormed (l : LiveSession) : Prop where
  closer : l.session.CloserOK
  writer : l.writer.inCall = true → l.session.opening = false
  output : l.output.Fits l.session.transportProtocol
  input : l.input.Fits l.session.transportProtocol

/-! ## Operations that leave the flow alone -/

namespace Session

/--
The step keeps the identity of the session and, if it touches the goroutine
inside `closeWithError` at all, only starts it.  As long as the open session
request is still to be queued, nothing else is.
-/
structure Keeps (s s' : Session) : Prop where
  sameID : s'.id = s.id
  sameSide : s'.isClient = s.isClient
  transport : s'.transportProtocol = s.transportProtocol
  attached : s'.isState .sessionAttached = true → s.isState .sessionAttached = true
  requested : s.closeRequested = true → s'.closeRequested = true
  closer : s.CloserOK → s'.CloserOK
  opening : s'.opening = true → s.opening = true
  still : s'.opening = true → s'.closeRequested = false → s'.history.queued = s.history.queued

structure Quiet (s s' : Session) : Prop extends s.Keeps s' where
  flow : ∀ held intake, s'.flow held intake = s.flow held intake

def outline (s : Session) : UInt32 × Bool × TransportProtocol × SessionState × Bool × Bool × Bool ×
      CloserState :=
  (s.id, s.isClient, s.transportProtocol, s.state, s.closeRequested,
    s.closedChan, s.opening, s.closer)

theorem Keeps.of_queued {s s' : Session} (h : s'.outline = s.outline)
    (hstill : s'.opening = true → s'.closeRequested = false →
      s'.history.queued = s.history.queued) : s.Keeps s' := by
  simp only [outline, Prod.mk.injEq] at h
  obtain ⟨hid, hside, htransport, hstate, hrequested, hchan, hopening, hcloser⟩ := h
  refine ⟨hid, hside, htransport, ?_, fun h => hrequested.trans h,
    fun h => ⟨?_, ?_, ?_⟩, fun h => hopening ▸ h, hstill⟩
  · unfold isState
    rw [hstate]
    exact fun h => h
  · rw [hcloser]
    exact h.held
  · rw [hcloser, hrequested]
    exact h.requested
  · rw [hchan, hrequested]
    exact h.closed

theorem Keeps.of_outline {s s' : Session} (h : s'.outline = s.outline)
    (hqueued : s'.history.queued = s.history.queued) : s.Keeps s' :=
  Keeps.of_queued h fun _ _ => hqueued

theorem Keeps.open_of {s s' : Session} (h : s.Keeps s')
    (hopen : s'.closeRequested = false) : s.closeRequested = false := by
  cases hrequested : s.closeRequested with
  | false => rfl
  | true => cases (h.requested hrequested).symm.trans hopen

theorem Keeps.refl (s : Session) : s.Keeps s := Keeps.of_outline rfl rfl

variable {s t u : Session}

theorem Keeps.trans (h : s.Keeps t) (h' : t.Keeps u) : s.Keeps u where
  sameID := h'.sameID.trans h.sameID
  sameSide := h'.sameSide.trans h.sameSide
  transport := h'.transport.trans h.transport
  attached := fun hu => h.attached (h'.attached hu)
  requested := fun hs => h'.requested (h.requested hs)
  closer := fun hs => h'.closer (h.closer hs)
  opening := fun hu => h.opening (h'.opening hu)
  still := by
    intro hopening hopen
    exact (h'.still hopening hopen).trans (h.still (h'.opening hopening) (h'.open_of hopen))

theorem Quiet.refl (s : Session) : s.Quiet s := ⟨Keeps.refl s, fun _ _ => rfl⟩

theorem Quiet.trans (h : s.Quiet t) (h' : t.Quiet u) : s.Quiet u :=
  ⟨h.toKeeps.trans h'.toKeeps, fun held intake => (h'.flow held intake).trans (h.flow held intake)⟩

theorem Quiet.after (h' : t.Quiet u) (h : s.Quiet t) : s.Quiet u :=
  h.trans h'

theorem Keeps.isPacket {s s' : Session} (h : s.Keeps s') : s'.isPacket = s.isPacket := by
  unfold Session.isPacket
  rw [h.transport]

variable (s : Session)

theorem quiet_closeWithError (gracefulClose : Bool) : s.Quiet (s.closeWithError gracefulClose) := by
  unfold closeWithError
  split
  · exact Quiet.refl s
  · refine ⟨⟨rfl, rfl, rfl, fun h => h, fun _ => rfl,
      fun _ => ⟨?_, fun _ => rfl, fun _ => rfl⟩, fun h => h, fun _ _ => rfl⟩,
      fun _ _ => rfl⟩
    intro seg hseg
    cases hseg

theorem quiet_forwardStateTo {next : SessionState}
    (hnext : next ≠ .sessionAttached) : s.Quiet (s.forwardStateTo next) := by
  unfold forwardStateTo
  split
  · exact Quiet.refl s
  · refine ⟨⟨rfl, rfl, rfl, ?_, fun h => h,
      fun h => ⟨h.held, h.requested, h.closed⟩, ?_, fun _ _ => rfl⟩,
      fun _ _ => rfl⟩
    · simp [isState, hnext]
    · simp [opening, isState, hnext]

theorem quiet_addDownloadBytes (n : Nat) : s.Quiet (s.addDownloadBytes n) := by
  unfold addDownloadBytes
  split
  · exact Quiet.refl s
  · exact ⟨Keeps.of_outline rfl rfl, fun _ _ => rfl⟩

theorem quiet_addUploadBytes (n : Nat) : s.Quiet (s.addUploadBytes n) := by
  unfold addUploadBytes
  split
  · exact Quiet.refl s
  · exact ⟨Keeps.of_outline rfl rfl, fun _ _ => rfl⟩

theorem quiet_storeWindow (metadata : Metadata) : s.Quiet (s.storeWindow metadata) := by
  cases metadata with
  | session ss => exact Quiet.refl s
  | dataAck das => exact ⟨Keeps.of_outline rfl rfl, fun _ _ => rfl⟩

theorem output_spec {t : Session} {sent : List Packet} (h : s.output env seg = (ok, t, sent)) :
    s.Quiet t ∧ (sent = [seg.packet] ∨ sent = [] ∧ (s.isPacket = true ∨ ok = false)) := by
  unfold output at h
  split at h
  · cases h
    exact ⟨⟨Keeps.of_outline rfl rfl, fun _ _ => rfl⟩, .inl rfl⟩
  · rename_i htransport _
    cases h
    exact ⟨Quiet.refl s, .inr ⟨rfl, .inl (by simp [isPacket, htransport])⟩⟩
  · cases h
    exact ⟨Quiet.refl s, .inr ⟨rfl, .inr rfl⟩⟩
  · cases h
    exact ⟨Quiet.refl s, .inr ⟨rfl, .inr rfl⟩⟩

theorem quiet_failOutput : s.Quiet s.failOutput :=
  Quiet.trans (t := s.setOutputErr) ⟨Keeps.of_outline rfl rfl, fun _ _ => rfl⟩
    (s.setOutputErr.quiet_closeWithError false)

@[simp] theorem closeRequested_failOutput : s.failOutput.closeRequested = true :=
  closeRequested_closeWithError _ _

theorem quiet_failInput : s.Quiet s.failInput.1 :=
  Quiet.trans (t := s.setInputErr) ⟨Keeps.of_outline rfl rfl, fun _ _ => rfl⟩
    (s.setInputErr.quiet_closeWithError false)

/-! ## Steps of the flow -/

def modeTo (s s' : Session) : Flow.Mode where
  packet := s.isPacket
  closed := s'.closeRequested
  opening := s.opening

@[simp] theorem packet_modeTo (s s' : Session) : (s.modeTo s').packet = s.isPacket := rfl

/--
A step of a session whose output and input loops hold `held` and `intake`
before it, and `held'` and `intake'` after it.
-/
structure Follows (s : Session) (held : List Segment) (intake : Intake) (sent : List Packet)
    (s' : Session) (held' : List Segment) (intake' : Intake) : Prop where
  keeps : s.Keeps s'
  step : Flow.Step (s.modeTo s') (s.flow held intake) sent (s'.flow held' intake')

end Session

theorem Flow.Step.mode_mono {mode mode' : Flow.Mode} {f f' : Flow} {sent : List Packet}
    (h : Flow.Step mode f sent f') (hpacket : mode'.packet = mode.packet)
    (hclosed : mode.closed = true → mode'.closed = true)
    (hopening : mode.opening = true → mode'.opening = true) : Flow.Step mode' f sent f' := by
  cases mode'
  cases hpacket
  cases h with
  | stay => exact .stay _
  | control hp hor => exact .control hp (hor.imp_right hclosed)
  | enqueue hfresh hor hopen =>
    exact .enqueue hfresh (hor.imp_right hclosed) fun h => hopening (hopen h)
  | reserve hsent =>
    exact .reserve fun p hp => ⟨(hsent p hp).1, hclosed (hsent p hp).2⟩
  | pop hheld hqueue => exact .pop hheld hqueue
  | buffer hpacket hheld htouch => exact .buffer hpacket hheld htouch
  | emit hheld => exact .emit hheld
  | withhold hor => exact .withhold (hor.imp_right hclosed)
  | resend hpacket htouch hsent => exact .resend hpacket htouch hsent
  | acked hintake hbuf hlt => exact .acked hintake hbuf hlt
  | clearQueue hc => exact .clearQueue (hclosed hc)
  | clearBuf hc => exact .clearBuf (hclosed hc)
  | take hintake hchan htaken =>
    refine .take hintake hchan ?_
    cases htaken with
    | dropped hor => exact .dropped (hor.imp_right hclosed)
    | stuck => exact .stuck
    | inserting hdata => exact .inserting hdata
    | acking hpacket hmeta => exact .acking hpacket hmeta
  | ackDone hintake => exact .ackDone hintake
  | abandon hc hintake => exact .abandon (hclosed hc) hintake
  | storeBuf hpacket hintake => exact .storeBuf hpacket hintake
  | storeQueue hpacket hintake => exact .storeQueue hpacket hintake
  | hold hpacket hintake hbuf => exact .hold hpacket hintake hbuf
  | queue hpacket hintake hseq => exact .queue hpacket hintake hseq
  | skip hintake => exact .skip hintake
  | advance hpacket hintake => exact .advance hpacket hintake
  | drain hqueue => exact .drain hqueue
  | copy size => exact .copy size

namespace Session

variable {s t u : Session} {held held' : List Segment}
  {intake intake' : Intake} {sent : List Packet}

theorem Quiet.follows (h : s.Quiet t) : s.Follows held intake [] t held intake :=
  ⟨h.toKeeps, by rw [h.flow]; exact .stay _⟩

theorem Follows.quiet (h : s.Follows held intake sent t held' intake')
    (hquiet : t.Quiet u) : s.Follows held intake sent u held' intake' :=
  ⟨h.keeps.trans hquiet.toKeeps, by
    rw [hquiet.flow]
    exact h.step.mode_mono rfl hquiet.requested fun h => h⟩

theorem Quiet.then (hquiet : s.Quiet t) (h : t.Follows held intake sent u held' intake') :
    s.Follows held intake sent u held' intake' :=
  ⟨hquiet.toKeeps.trans h.keeps, by
    rw [← hquiet.flow]
    exact h.step.mode_mono hquiet.toKeeps.isPacket.symm (fun h => h) hquiet.opening⟩

/--
A full send queue only costs the sequence number.  The open session request is
queued by a session that has just marked it as sent.
-/
theorem follows_enqueue (hquiet : s.Quiet u)
    (h : u.enqueue seg = (ok, t)) (hfresh : (u.flow held intake).Fresh seg)
    (hdata : isInputData seg.protocol = true ∨ u.closeRequested = true)
    (hopen : seg.protocol = openSessionRequest → s.opening = true)
    (hmarked : u.opening = true → u.closeRequested = true) :
    s.Follows held intake [] t held intake := by
  cases hinsert : u.sendQueue.insert seg with
  | mk inserted sendQueue =>
    simp only [enqueue, hinsert] at h
    cases h
    refine ⟨hquiet.toKeeps.trans (Keeps.of_queued rfl ?_), ?_⟩
    · intro hopening hopened
      cases (hmarked hopening).symm.trans hopened
    rw [← hquiet.flow]
    cases ok with
    | true =>
      simp only [flow, (SegmentTree.insert_eq_true hinsert).2, if_true]
      exact .enqueue hfresh hdata hopen
    | false =>
      simp only [flow, (SegmentTree.insert_eq_false hinsert).2]
      exact .reserve (by simp)

theorem keeps_of_reserveSeq (h : s.reserveSeq.Keeps u)
    (hclosed : u.closeRequested = true) : s.Keeps u where
  sameID := h.sameID
  sameSide := h.sameSide
  transport := h.transport
  attached := h.attached
  requested := h.requested
  closer := fun hs => h.closer ⟨hs.held, hs.requested, hs.closed⟩
  opening := h.opening
  still := fun _ hopened => by cases hclosed.symm.trans hopened

/-! ## The writer and the reader -/

theorem fresh_openRequest (b : Bytes) : (s.flow held intake).Fresh (s.openRequest b) := by
  refine ⟨rfl, rfl, ?_, rfl⟩
  intro das hdas
  cases hdas

theorem quiet_setOpenSessionRequestSent : s.Quiet s.setOpenSessionRequestSent := by
  refine ⟨⟨rfl, rfl, rfl, fun h => h, fun h => h,
    fun h => ⟨h.held, h.requested, h.closed⟩, ?_, fun _ _ => rfl⟩,
    fun _ _ => rfl⟩
  simp [opening, setOpenSessionRequestSent]

theorem follows_write {b : Bytes} (h : s.write b = (t, writer)) :
    s.Follows held intake [] t held intake ∧ (writer.inCall = true → t.opening = false) := by
  have hmarked : s.setOpenSessionRequestSent.opening = false := by
    simp [opening, setOpenSessionRequestSent]
  -- Queueing the request does not unmark it.
  have hrequest : ∀ {ok : Bool} {u : Session}, s.opening = true →
      s.setOpenSessionRequestSent.enqueue (s.openRequest b) = (ok, u) →
      s.Follows held intake [] u held intake ∧ u.opening = false := by
    intro ok u hopening henqueue
    refine ⟨follows_enqueue quiet_setOpenSessionRequestSent henqueue
      (fresh_openRequest b) (.inl rfl) (fun _ => hopening)
      (by simp [hmarked]), ?_⟩
    obtain rfl : (s.setOpenSessionRequestSent.enqueue (s.openRequest b)).2 = u :=
      congrArg Prod.snd henqueue
    exact hmarked
  cases writeStart h with
  | refused => exact ⟨(Quiet.refl s).follows, by simp [WriterState.inCall]⟩
  | begun hopening => exact ⟨(Quiet.refl s).follows, fun _ => hopening⟩
  | full _ hopening henqueue | carried _ hopening henqueue
  | requested _ hopening henqueue =>
    exact ⟨(hrequest hopening henqueue).1, fun _ => (hrequest hopening henqueue).2⟩

theorem fresh_dataSegment (env : Env) (job : ChunkJob) :
    (s.flow held intake).Fresh (s.dataSegment env job) := by
  refine ⟨rfl, rfl, ?_, ?_⟩
  · intro das hdas
    cases hdas
    rfl
  · change isDataAckProtocol (if s.isClient then dataClientToServer else dataServerToClient) = true
    split <;> rfl

theorem isInputData_dataSegment (env : Env) (job : ChunkJob) :
    isInputData (s.dataSegment env job).protocol = true := by
  change isInputData (if s.isClient then dataClientToServer else dataServerToClient) = true
  split <;> rfl

theorem protocol_dataSegment_ne (env : Env) (job : ChunkJob) :
    (s.dataSegment env job).protocol ≠ openSessionRequest := by
  change (if s.isClient then dataClientToServer else dataServerToClient) ≠ _
  split <;> simp

theorem follows_writerStep {writer' : WriterState}
    (hopening : writer.inCall = true → s.opening = false)
    (h : s.writerStep env writer = some (t, writer')) : s.Follows held intake [] t held intake := by
  cases writerStep_inv h with
  | done n => exact (s.quiet_addDownloadBytes n).follows
  | full _ henqueue | last _ henqueue | queued _ henqueue =>
    exact follows_enqueue (Quiet.refl s) henqueue (fresh_dataSegment env _)
      (.inl (isInputData_dataSegment env _))
      (fun h => absurd h (protocol_dataSegment_ne env _))
      (by simp [hopening rfl])
  | emptied => exact Quiet.follows ⟨Keeps.of_outline rfl rfl, fun _ _ => rfl⟩
  | _ => exact (Quiet.refl s).follows

theorem inCall_of_writerStep {writer' : WriterState}
    (h : s.writerStep env writer = some (t, writer')) : writer.inCall = true := by
  cases writerStep_inv h <;> rfl

theorem follows_copyUnread {size : Nat} (h : s.copyUnread size = (t, reader)) :
    s.Follows held intake [] t held intake := by
  cases h
  refine Follows.quiet (t := { s with
    unreadBuf := s.unreadBuf.drop size
    history := { s.history with
      read := s.history.read ++ s.unreadBuf.take size } }) ⟨?_, ?_⟩
    (quiet_addUploadBytes _ _)
  · exact Keeps.of_outline rfl rfl
  · exact .copy size

theorem quiet_openOnResponse (seg : Segment) : s.Quiet (s.openOnResponse seg) := by
  unfold openOnResponse
  split
  · exact s.quiet_forwardStateTo (by decide)
  · exact Quiet.refl s

theorem follows_read {size : Nat} (h : s.read size = (t, reader)) :
    s.Follows held intake [] t held intake := by
  unfold read at h
  split at h
  · exact follows_copyUnread h
  · cases h
    exact (Quiet.refl s).follows

theorem follows_readerStep {reader' : ReaderState}
    (h : s.readerStep env reader = some (t, reader')) : s.Follows held intake [] t held intake := by
  have hnone : ∀ {recvQueue : SegmentTree}, s.recvQueue.deleteMin = (none, recvQueue) →
      s.Quiet { s with recvQueue := recvQueue } := fun hdelete =>
    ⟨Keeps.of_outline rfl rfl, fun _ _ => by
      simp only [flow, (SegmentTree.deleteMinIf_eq_none hdelete).1]⟩
  cases readerStep_inv h with
  | announced => exact Quiet.follows ⟨Keeps.of_outline rfl rfl, fun _ _ => rfl⟩
  | taken hdelete =>
    rename_i seg recvQueue size
    refine Follows.quiet (t := { s with
      recvQueue := recvQueue
      unreadBuf := s.unreadBuf ++ seg.payload }) ⟨?_, ?_⟩
      (quiet_openOnResponse seg)
    · exact Keeps.of_outline rfl rfl
    · exact .drain (SegmentTree.deleteMinIf_eq_some hdelete).1
  | copied hdelete => exact (hnone hdelete).then (follows_copyUnread rfl)
  | nothing hdelete => exact (hnone hdelete).follows
  | _ => exact (Quiet.refl s).follows

/-! ## The output loop -/

theorem startRun_spec (env : Env) : (s.startRun env).held = [] ∧
      (s.startRun env).Fits s.transportProtocol := by
  unfold startRun
  split
  · exact ⟨rfl, trivial⟩
  · split
    · exact ⟨rfl, ‹_›⟩
    · split
      · exact ⟨rfl, ‹_›⟩
      · exact ⟨rfl, ‹_›⟩

theorem retouched_stampTransmission (env : Env) (seg : Segment) :
    seg.Retouched s.nextRecv (s.stampTransmission env seg) :=
  ⟨rfl, .inr rfl⟩

theorem retouched_restamp (env : Env) (iter seg : Segment) :
    seg.Retouched s.nextRecv (s.restamp env iter seg) := by
  unfold restamp
  split
  · exact ⟨rfl, .inr rfl⟩
  · exact ⟨rfl, .inl rfl⟩

theorem mem_of_nextToVisit {pass : ResendPass} {iter : Segment}
    (h : s.nextToVisit pass = some iter) : iter ∈ s.sendBuf.items := by
  unfold nextToVisit at h
  split at h
  · exact List.mem_of_mem_head? h
  · exact List.mem_of_find?_eq_some h

theorem follows_visit (intake : Intake) {pass pass' : ResendPass} {iter : Segment}
    (hpacket : s.isPacket = true)
    (hiter : iter ∈ s.sendBuf.items) (h : s.Visit env pass iter t pass' sent) :
    s.Follows [] intake sent t [] intake := by
  -- A retransmission, whether or not the underlay accepts the segment.
  have hresend : ∀ {ok : Bool} {u : Session},
      (s.restampSendBuf env iter).output env (s.restamp env iter iter) = (ok, u, sent) →
      s.Follows [] intake sent u [] intake := by
    intro ok u houtput
    obtain ⟨hquiet, hsent⟩ := output_spec _ houtput
    refine Follows.quiet (t := s.restampSendBuf env iter) ⟨?_, ?_⟩ hquiet
    · exact Keeps.of_outline rfl rfl
    · refine .resend hpacket (fun seg => retouched_restamp env iter seg) ?_
      intro p hp
      refine ⟨iter, hiter, ?_⟩
      rcases hsent with rfl | ⟨rfl, _⟩
      · exact List.mem_singleton.mp hp
      · cases hp
  cases h with
  | exhausted => exact Quiet.follows ⟨Keeps.of_outline rfl rfl, fun _ _ => rfl⟩
  | resent _ houtput => exact hresend houtput
  | unsent houtput =>
    exact (hresend houtput).quiet ⟨Keeps.of_outline rfl rfl, fun _ _ => rfl⟩
  | early => exact (Quiet.refl s).follows

theorem quiet_endPass (env : Env) (pass : ResendPass) : s.Quiet (s.endPass env pass) := by
  have htime : s.Quiet { s with
      nextRetransmissionTime := pass.nextTX.getD (env.now + 10000) } :=
    ⟨Keeps.of_outline rfl rfl, fun _ _ => rfl⟩
  unfold endPass
  dsimp only
  split
  · exact htime.trans (quiet_closeWithError _ _)
  · exact htime

theorem follows_emit (intake : Intake) (h : s.output env seg = (ok, t, sent)) (hquiet : t.Quiet u)
    (hclosed : ok = false → u.closeRequested = true) : s.Follows [seg] intake sent u [] intake := by
  obtain ⟨houtput, hsent⟩ := s.output_spec h
  have hall := houtput.trans hquiet
  refine ⟨hall.toKeeps, ?_⟩
  rw [hall.flow]
  rcases hsent with rfl | ⟨rfl, hpacket | hfailed⟩
  · exact .emit (f := s.flow [seg] intake) rfl
  · exact .withhold (f := s.flow [seg] intake) (.inl hpacket)
  · exact .withhold (f := s.flow [seg] intake) (.inr (hclosed hfailed))

theorem isControl_ackSegment (env : Env) : (s.ackSegment env).packet.IsControl s.nextRecv := by
  constructor
  · change isInputData (if s.isClient then ackClientToServer else ackServerToClient) = false
    split <;> rfl
  · intro das hdas
    cases hdas
    rfl

theorem follows_ack (held : List Segment) (intake : Intake) (hpacket : s.isPacket = true)
    (h : s.output env (s.ackSegment env) = (ok, t, sent)) (hquiet : t.Quiet u) :
    s.Follows held intake sent u held intake := by
  obtain ⟨houtput, hsent⟩ := s.output_spec h
  have hall := houtput.trans hquiet
  refine ⟨hall.toKeeps, ?_⟩
  rw [hall.flow]
  rcases hsent with rfl | ⟨rfl, _⟩
  · exact .control (isControl_ackSegment env) (.inl hpacket)
  · exact .stay _

theorem isPacket_of_fits (h : s.transportProtocol = .packetTransport) : s.isPacket = true := by
  simp [isPacket, h]

theorem follows_outputStep {output output' : OutputState} (hfits : output.Fits s.transportProtocol)
    (h : s.outputStep env output = some (t, output', sent)) :
    s.Follows output.held intake sent t output'.held intake ∧ output'.Fits t.transportProtocol := by
  have hfollows {held held' : List Segment} (h : s.Follows held intake sent t held' intake)
      (hfits : output'.Fits s.transportProtocol) :
      s.Follows held intake sent t held' intake ∧ output'.Fits t.transportProtocol :=
    ⟨h, h.keeps.transport ▸ hfits⟩
  cases outputStep_inv h with
  | ended => exact ⟨(Quiet.refl s).follows, trivial⟩
  | woken | ticked =>
    rw [(s.startRun_spec env).1]
    exact hfollows (Quiet.follows ⟨Keeps.of_outline rfl rfl, fun _ _ => rfl⟩)
      (s.startRun_spec env).2
  | drained hdelete =>
    exact ⟨Quiet.follows ⟨Keeps.of_outline rfl rfl, fun _ _ => by
      simp only [flow, (SegmentTree.deleteMinIf_eq_none hdelete).1]⟩, trivial⟩
  | streamPop hdelete | pop _ hdelete =>
    exact ⟨⟨Keeps.of_outline rfl rfl, .pop rfl (SegmentTree.deleteMinIf_eq_some hdelete).1⟩, hfits⟩
  | streamSent houtput | written houtput =>
    exact hfollows (follows_emit intake houtput (Quiet.refl _) (by simp)) hfits
  | streamFailed houtput =>
    exact ⟨follows_emit intake houtput (quiet_failOutput _) (by simp), trivial⟩
  | failed houtput =>
    exact hfollows (follows_emit intake houtput (quiet_failOutput _) (by simp)) hfits
  | passed => exact hfollows (s.quiet_endPass env _).follows hfits
  | visited hnext hvisit =>
    exact hfollows (follows_visit intake (isPacket_of_fits hfits)
      (mem_of_nextToVisit hnext) hvisit) hfits
  | window | shut | crowded => exact ⟨(Quiet.refl s).follows, hfits⟩
  | spent hdelete =>
    exact ⟨Quiet.follows ⟨Keeps.of_outline rfl rfl, fun _ _ => by
      simp only [flow, (SegmentTree.deleteMinIf_eq_none hdelete).1]⟩, hfits⟩
  | buffered hinsert =>
    refine ⟨⟨Keeps.of_outline rfl rfl, ?_⟩, hfits⟩
    simp only [flow, (SegmentTree.insert_eq_true hinsert).2]
    exact .buffer (isPacket_of_fits hfits) rfl (retouched_stampTransmission env _)
  | overflow hinsert =>
    rename_i seg sendBuf total
    refine hfollows (Follows.quiet (t := { s with sendBuf := sendBuf })
      ⟨Keeps.of_outline rfl rfl, ?_⟩ (quiet_failOutput _)) hfits
    simp only [flow, (SegmentTree.insert_eq_false hinsert).2]
    exact .withhold (.inl (isPacket_of_fits hfits))
  | ack _ houtput =>
    exact hfollows (follows_ack [] intake (isPacket_of_fits hfits) houtput (Quiet.refl _)) hfits
  | ackFailed _ houtput =>
    exact hfollows (follows_ack [] intake (isPacket_of_fits hfits) houtput
      (quiet_failOutput _)) hfits
  | silent => exact ⟨(Quiet.refl s).follows, trivial⟩
  | acked => exact ⟨Quiet.follows ⟨Keeps.of_outline rfl rfl, fun _ _ => rfl⟩, trivial⟩

/-! ## The input loop -/

theorem quiet_acceptBlock (h : s.acceptBlock seg = .ok t) : s.Quiet t := by
  obtain rfl | ⟨block, -, rfl⟩ := acceptBlock_eq_ok h
  · exact Quiet.refl t
  · exact ⟨Keeps.of_outline rfl rfl, fun _ _ => rfl⟩

theorem taken_dispatch {mode : Flow.Mode} (hmode : mode.packet = s.isPacket) (seg : Segment) :
    Flow.Taken mode seg (s.dispatch seg).intake ∧ (s.dispatch seg).Fits s.transportProtocol := by
  unfold dispatch
  split
  · rename_i hdata
    split
    · rename_i htransport hmeta
      exact ⟨.acking (by simp [hmode, isPacket, htransport]) hmeta, htransport⟩
    · exact ⟨.inserting hdata, trivial⟩
  · rename_i hdata
    have hcontrol : isInputData seg.protocol = false := by simpa using hdata
    split
    · split
      · exact ⟨.dropped (.inl hcontrol), trivial⟩
      · rename_i htransport hmeta
        exact ⟨.acking (by simp [hmode, isPacket, htransport]) hmeta, htransport⟩
      · exact ⟨.stuck, trivial⟩
    · split
      · exact ⟨.dropped (.inl hcontrol), trivial⟩
      · exact ⟨.dropped (.inl hcontrol), trivial⟩

theorem follows_take {rest : List Segment} (hchan : s.recvChan = seg :: rest)
    (hquiet : { s with recvChan := rest }.Quiet u) (htaken : Flow.Taken (s.modeTo u) seg intake) :
    s.Follows held .nothing [] u held intake := by
  have hkeeps : s.Keeps { s with recvChan := rest } :=
    Keeps.of_outline rfl rfl
  refine ⟨hkeeps.trans hquiet.toKeeps, ?_⟩
  rw [hquiet.flow]
  exact .take (f := s.flow held .nothing) rfl hchan htaken

theorem retouched_countAck (unAckSeq nextRecv : UInt32) (seg : Segment) :
    seg.Retouched nextRecv (seg.countAck unAckSeq) := by
  unfold Segment.countAck
  split
  · exact ⟨rfl, .inl rfl⟩
  · exact ⟨rfl, .inl rfl⟩

theorem fresh_openResponse : (s.flow held intake).Fresh s.openResponse := by
  refine ⟨rfl, rfl, ?_, rfl⟩
  intro das hdas
  cases hdas

theorem follows_openResponse (hserver : s.isClient = false)
    (h : s.enqueue s.openResponse = (ok, t)) : s.Follows held .nothing [] t held .nothing :=
  follows_enqueue (Quiet.refl s) h fresh_openResponse (.inl rfl)
    (fun h => by cases h) (by simp [opening, hserver])

theorem isControl_closeResponse : s.closeResponse.packet.IsControl s.nextRecv := by
  refine ⟨rfl, ?_⟩
  intro das hdas
  cases hdas

theorem follows_closeResponse (houtput : s.reserveSeq.output env s.closeResponse = (ok, t, sent))
    (hquiet : t.Quiet u) (hclosed : u.closeRequested = true) :
    s.Follows held .nothing sent u held .nothing := by
  obtain ⟨hsend, hsent⟩ := output_spec _ houtput
  have hall := hsend.trans hquiet
  refine ⟨keeps_of_reserveSeq hall.toKeeps hclosed, ?_⟩
  rw [hall.flow]
  refine .reserve (f := s.flow held .nothing) ?_
  intro p hp
  rcases hsent with rfl | ⟨rfl, _⟩
  · rw [List.mem_singleton.mp hp]
    exact ⟨isControl_closeResponse, hclosed⟩
  · cases hp

theorem follows_inputStep {input input' : InputState} (hfits : input.Fits s.transportProtocol)
    (h : s.inputStep env input = some (t, input', sent)) :
    s.Follows held input.intake sent t held input'.intake ∧ input'.Fits t.transportProtocol := by
  have hacked : ∀ {sendBuf : SegmentTree} {das : DataAckStruct},
      s.sendBuf.deleteMinIf (fun iter => decide (iter.seq < das.unAckSeq)) = (none, sendBuf) →
      s.Quiet ({ s with sendBuf := sendBuf }.storeWindow (.dataAck das)) :=
    fun hdelete => (quiet_storeWindow _ _).after ⟨Keeps.of_outline rfl rfl, fun _ _ => by
      simp only [flow, (SegmentTree.deleteMinIf_eq_none hdelete).1]⟩
  cases inputStep_inv h with
  | ended => exact ⟨(Quiet.refl s).follows, trivial⟩
  | refused hchan =>
    exact ⟨follows_take hchan (quiet_failInput _)
      (.dropped (.inr (closeRequested_failInput _))), trivial⟩
  | panicked hchan => exact ⟨follows_take hchan (Quiet.refl _) .stuck, trivial⟩
  | taken hchan hblock =>
    rename_i seg rest accepted
    have haccept := quiet_acceptBlock hblock
    have hpacket : (s.modeTo { accepted with lastRXTime := env.now }).packet =
        accepted.isPacket := haccept.toKeeps.isPacket.symm
    have hdispatch := taken_dispatch hpacket seg
    exact ⟨follows_take hchan (haccept.trans
      ⟨Keeps.of_outline rfl rfl, fun _ _ => rfl⟩) hdispatch.1, hdispatch.2⟩
  | acked hdelete =>
    obtain ⟨hitems, hacked⟩ := SegmentTree.deleteMinIf_eq_some hdelete
    exact ⟨⟨Keeps.of_outline rfl rfl, .acked rfl hitems (of_decide_eq_true hacked)⟩, hfits⟩
  | ackedData hdelete hdata =>
    refine ⟨⟨(hacked hdelete).toKeeps, ?_⟩, trivial⟩
    rename_i sendBuf seg das
    rw [(hacked hdelete).flow]
    have hdone : Flow.Step (s.modeTo ({ s with sendBuf := sendBuf }.storeWindow (.dataAck das)))
        (s.flow held (.acking seg das)) [] _ := .ackDone rfl
    rwa [if_pos hdata] at hdone
  | ackedOnly hdelete hdata =>
    refine ⟨⟨(hacked hdelete).toKeeps, ?_⟩, (hacked hdelete).transport.trans hfits⟩
    rename_i sendBuf seg das
    rw [(hacked hdelete).flow]
    have hdone : Flow.Step (s.modeTo ({ s with sendBuf := sendBuf }.storeWindow (.dataAck das)))
        (s.flow held (.acking seg das)) [] _ := .ackDone rfl
    rwa [if_neg (by simp [hdata])] at hdone
  | counted =>
    refine ⟨⟨Keeps.of_outline rfl rfl, ?_⟩, trivial⟩
    exact .resend (f := s.flow held .nothing) (isPacket_of_fits hfits)
      (fun seg => retouched_countAck _ s.nextRecv seg) (by simp)
  | crowded => exact ⟨(Quiet.refl s).follows, trivial⟩
  | streamed htransport hinsert =>
    refine ⟨⟨Keeps.of_outline rfl rfl, ?_⟩, trivial⟩
    simp only [flow, (SegmentTree.insert_eq_true hinsert).2]
    exact .storeQueue (by simp [isPacket, htransport]) rfl
  | stored htransport hinsert =>
    refine ⟨⟨Keeps.of_outline rfl rfl, ?_⟩, htransport⟩
    simp only [flow, (SegmentTree.insert_eq_true hinsert).2]
    exact .storeBuf (isPacket_of_fits htransport) rfl
  | queueFull =>
    exact ⟨Quiet.follows ⟨Keeps.of_outline rfl rfl, fun _ _ => rfl⟩, trivial⟩
  | movedAll hdelete =>
    exact ⟨Quiet.follows ⟨Keeps.of_outline rfl rfl, fun _ _ => by
      simp only [flow, (SegmentTree.deleteMinIf_eq_none hdelete).1]⟩, trivial⟩
  | held _ hdelete =>
    exact ⟨⟨Keeps.of_outline rfl rfl, .hold (isPacket_of_fits hfits) rfl
      (SegmentTree.deleteMinIf_eq_some hdelete).1⟩, hfits⟩
  | queued hseq hinsert =>
    refine ⟨⟨Keeps.of_outline rfl rfl, ?_⟩, hfits⟩
    simp only [flow, (SegmentTree.insert_eq_true hinsert).2]
    exact .queue (isPacket_of_fits hfits) rfl hseq
  | overflow hinsert =>
    rename_i seg3 recvQueue seg
    have hfail : s.Quiet { s with recvQueue := recvQueue }.failInput.1 :=
      (quiet_failInput _).after ⟨Keeps.of_outline rfl rfl, fun _ _ => by
        simp only [flow, (SegmentTree.insert_eq_false hinsert).2]⟩
    refine ⟨⟨hfail.toKeeps, ?_⟩, trivial⟩
    rw [hfail.flow]
    exact .abandon (f := s.flow held (.holding seg3)) (closeRequested_failInput _) (by simp [flow])
  | skipped => exact ⟨⟨Keeps.refl s, .skip rfl⟩, hfits⟩
  | advanced =>
    rename_i seg seg3
    have hwindow := quiet_storeWindow { s with nextRecv := s.nextRecv + 1 } seg3.metadata
    exact ⟨Follows.quiet (t := { s with nextRecv := s.nextRecv + 1 })
      ⟨Keeps.of_outline rfl rfl, .advance (isPacket_of_fits hfits) rfl⟩ hwindow,
      hwindow.transport.trans hfits⟩
  | overQuota =>
    have hquiet : s.Quiet { s with status := .statusQuotaExhausted }.close :=
      (quiet_closeWithError _ _).after ⟨Keeps.of_outline rfl rfl, fun _ _ => rfl⟩
    exact ⟨hquiet.follows, trivial⟩
  | opened hserver _ _ _ henqueue =>
    exact ⟨(follows_openResponse hserver henqueue).quiet
      (quiet_forwardStateTo _ (by decide)), trivial⟩
  | openFailed hserver _ _ henqueue =>
    exact ⟨(follows_openResponse hserver henqueue).quiet (quiet_failInput _), trivial⟩
  | quotaPanicked | ordinary => exact ⟨(Quiet.refl s).follows, trivial⟩
  | answered _ houtput =>
    exact ⟨follows_closeResponse houtput (quiet_closeWithError _ _)
      (closeRequested_closeWithError _ _), trivial⟩
  | unanswered _ houtput =>
    exact ⟨follows_closeResponse houtput (quiet_failInput _) (closeRequested_failInput _), trivial⟩
  | confirmed => exact ⟨(s.quiet_closeWithError true).follows, trivial⟩

/-! ## The goroutine inside closeWithError -/

theorem quiet_setCloser {closer : CloserState} (hrequested : s.closeRequested = true)
    (hheld : ∀ seg ∈ closer.held, seg.IsCloseRequest) : s.Quiet { s with closer := closer } :=
  ⟨⟨rfl, rfl, rfl, fun h => h, fun h => h, fun _ => ⟨hheld,
    fun _ => hrequested, fun _ => hrequested⟩, fun h => h, fun _ _ => rfl⟩,
    fun _ _ => rfl⟩

theorem quiet_closed (hrequested : s.closeRequested = true) :
    s.Quiet { s with closedChan := true, closer := .closed } := by
  refine ⟨⟨rfl, rfl, rfl, fun h => h, fun h => h, fun _ => ⟨?_,
    fun _ => hrequested, fun _ => hrequested⟩, fun h => h, fun _ _ => rfl⟩,
    fun _ _ => rfl⟩
  simp [CloserState.held]

theorem isCloseRequest_closeSegment : s.closeSegment.IsCloseRequest :=
  ⟨_, rfl, rfl⟩

theorem isControl_of_isCloseRequest (h : seg.IsCloseRequest)
    (nextRecv : UInt32) : seg.packet.IsControl nextRecv := by
  obtain ⟨ss, hmeta, hprotocol⟩ := h
  constructor
  · simp [Segment.packet, hmeta, Metadata.protocol, hprotocol, isInputData]
  · intro das hdas
    have hsession : seg.metadata = .dataAck das := hdas
    rw [hmeta] at hsession
    cases hsession

theorem fresh_closeSegment : (s.flow held intake).Fresh s.closeSegment := by
  refine ⟨rfl, rfl, ?_, rfl⟩
  intro das hdas
  cases hdas

theorem follows_closeSegment {closer : CloserState} (hrequested : s.closeRequested = true)
    (hheld : closer.held = [s.closeSegment]) (h : s.enqueue s.closeSegment = (ok, t)) :
    s.Follows held intake [] { t with closer := closer } held intake := by
  have hfollows : s.Follows held intake [] t held intake :=
    follows_enqueue (Quiet.refl s) h fresh_closeSegment
      (.inr hrequested) (fun h => by cases h) (fun _ => hrequested)
  refine hfollows.quiet (quiet_setCloser (hfollows.keeps.requested hrequested) ?_)
  rw [hheld]
  exact fun seg hseg => List.mem_singleton.mp hseg ▸ isCloseRequest_closeSegment

theorem follows_closerStep (hok : s.CloserOK) (h : s.closerStep env = some (t, sent)) :
    s.Follows held intake sent t held intake := by
  have hheld := hok.held
  have hrequested := hok.requested
  cases closerStep_inv h with
  | queued hcloser henqueue | full hcloser henqueue =>
    exact follows_closeSegment (hrequested (by rw [hcloser]; rfl)) rfl henqueue
  | direct hcloser =>
    have hclosed := hrequested (by rw [hcloser]; rfl)
    have hquiet : s.reserveSeq.Quiet
        { s.reserveSeq with closer := .sendingDirectly s.closeSegment } :=
      quiet_setCloser hclosed fun seg hseg =>
        List.mem_singleton.mp hseg ▸ isCloseRequest_closeSegment
    exact ⟨keeps_of_reserveSeq hquiet.toKeeps hclosed, .reserve (f := s.flow held intake) (by simp)⟩
  | unsent hcloser | reached hcloser =>
    exact (quiet_setCloser (hrequested (by rw [hcloser]; rfl)) (by simp [CloserState.held])).follows
  | expired hcloser | waits hcloser =>
    rw [hcloser] at hheld hrequested
    refine (quiet_setCloser (hrequested rfl) ?_).follows
    exact hheld
  | written hcloser houtput =>
    rw [hcloser] at hheld hrequested
    obtain ⟨hquiet, hsent⟩ := s.output_spec houtput
    refine Follows.quiet ⟨hquiet.toKeeps, ?_⟩ (quiet_setCloser (hquiet.requested (hrequested rfl))
        (by simp [CloserState.held]))
    rw [hquiet.flow]
    rcases hsent with rfl | ⟨rfl, _⟩
    · exact .control (f := s.flow held intake)
        (isControl_of_isCloseRequest (hheld _ (by simp [CloserState.held])) s.nextRecv)
        (.inr (hquiet.requested (hrequested rfl)))
    · exact .stay _
  | clearQueue hcloser =>
    rw [hcloser] at hrequested
    refine Follows.quiet (t := { s with sendQueue := s.sendQueue.deleteAll })
      ⟨?_, ?_⟩ (quiet_setCloser (hrequested rfl) (by simp [CloserState.held]))
    · exact Keeps.of_outline rfl rfl
    · exact .clearQueue (f := s.flow held intake) (hrequested rfl)
  | clearBuf hcloser =>
    rw [hcloser] at hrequested
    refine Follows.quiet (t := { s with sendBuf := s.sendBuf.deleteAll })
      ⟨?_, ?_⟩ (quiet_setCloser (hrequested rfl) (by simp [CloserState.held]))
    · exact Keeps.of_outline rfl rfl
    · exact .clearBuf (f := s.flow held intake) (hrequested rfl)
  | finished hcloser =>
    rw [hcloser] at hrequested
    have hforward : s.Quiet (s.forwardStateTo .sessionClosed) :=
      s.quiet_forwardStateTo (by decide)
    have hclosed := hforward.requested (hrequested rfl)
    exact (hforward.trans (quiet_closed hclosed)).follows

end Session

/-! ## The whole session -/

namespace LiveSession

variable {l l' : LiveSession} {event : SessionEvent} {sent : List Packet}

theorem WellFormed.of_keeps (hl : l.WellFormed) (h : l.session.Keeps l'.session)
    (hwriter : l'.writer.inCall = true → l'.session.opening = false)
    (houtput : l'.output = l.output) (hinput : l'.input = l.input) : l'.WellFormed where
  closer := h.closer hl.closer
  writer := hwriter
  output := by
    rw [houtput, h.transport]
    exact hl.output
  input := by
    rw [hinput, h.transport]
    exact hl.input

theorem WellFormed.writer_of_keeps (hl : l.WellFormed) {next : Session}
    (h : l.session.Keeps next) (hin : l.writer.inCall = true) : next.opening = false := by
  have hbefore := hl.writer hin
  cases hopening : next.opening with
  | false => rfl
  | true => cases hbefore.symm.trans (h.opening hopening)

theorem step_follows (hl : l.WellFormed) (h : l.step event = some (l', sent)) :
    l.session.Follows l.output.held l.input.intake sent l'.session
        l'.output.held l'.input.intake ∧ l'.WellFormed := by
  have hsame (hfollows : l.session.Follows l.output.held l.input.intake sent l'.session
      l.output.held l.input.intake) (houtput : l'.output = l.output)
      (hinput : l'.input = l.input) (hwriter : l'.writer = l.writer) :
      l.session.Follows l.output.held l.input.intake sent l'.session
        l'.output.held l'.input.intake ∧ l'.WellFormed := by
    rw [houtput, hinput]
    refine ⟨hfollows, hl.of_keeps hfollows.keeps ?_ houtput hinput⟩
    rw [hwriter]
    exact hl.writer_of_keeps hfollows.keeps
  cases step_inv h with
  | write hcall =>
    obtain ⟨hfollows, hopening⟩ : l.session.Follows l.output.held l.input.intake [] _
        l.output.held l.input.intake ∧ _ := Session.follows_write hcall
    exact ⟨hfollows, hl.of_keeps hfollows.keeps hopening rfl rfl⟩
  | writer hstep =>
    have hfollows : l.session.Follows l.output.held l.input.intake [] _ l.output.held
        l.input.intake := Session.follows_writerStep hl.writer hstep
    exact ⟨hfollows, hl.of_keeps hfollows.keeps (fun _ =>
      hl.writer_of_keeps hfollows.keeps (Session.inCall_of_writerStep hstep))
      rfl rfl⟩
  | read hcall => exact hsame (Session.follows_read hcall) rfl rfl rfl
  | reader hstep => exact hsame (Session.follows_readerStep hstep) rfl rfl rfl
  | output hstep =>
    obtain ⟨hfollows, hfits⟩ : l.session.Follows l.output.held l.input.intake sent _ _
        l.input.intake ∧ _ := Session.follows_outputStep hl.output hstep
    exact ⟨hfollows, hfollows.keeps.closer hl.closer, hl.writer_of_keeps hfollows.keeps, hfits,
      hfollows.keeps.transport ▸ hl.input⟩
  | input hstep =>
    obtain ⟨hfollows, hfits⟩ : l.session.Follows l.output.held l.input.intake sent _
        l.output.held _ ∧ _ := Session.follows_inputStep hl.input hstep
    exact ⟨hfollows, hfollows.keeps.closer hl.closer, hl.writer_of_keeps hfollows.keeps,
      hfollows.keeps.transport ▸ hl.output, hfits⟩
  | close => exact hsame (l.session.quiet_closeWithError true).follows rfl rfl rfl
  | closer hstep => exact hsame (Session.follows_closerStep hl.closer hstep) rfl rfl rfl

theorem wellFormed_new {id : UInt32} {isClient : Bool} {mtu : Nat}
    {transport : TransportProtocol} {addr : Addr} {now : Int} :
    LiveSession.WellFormed { session := Session.new id isClient mtu transport addr now } := by
  refine ⟨⟨?_, ?_, ?_⟩, ?_, trivial, trivial⟩
  · simp [Session.new, CloserState.held]
  · simp [Session.new, CloserState.called]
  · simp [Session.new]
  · simp [WriterState.inCall]

theorem receive_spec (hl : l.WellFormed) (h : l.receive seg = some l') :
    l'.flow = { l.flow with recvChan := l.flow.recvChan ++ [seg] } ∧
      l.session.Keeps l'.session ∧ l'.WellFormed := by
  obtain ⟨-, rfl⟩ := receive_eq_some h
  have hkeeps : l.session.Keeps { l.session with recvChan := l.session.recvChan ++ [seg] } :=
    Session.Keeps.of_outline rfl rfl
  exact ⟨rfl, hkeeps, hl.of_keeps hkeeps (hl.writer_of_keeps hkeeps) rfl rfl⟩

end LiveSession

end Mieru.Protocol
