import Mieru.Session.Live

/-!
# What a step of a session can do

One relation for each goroutine, with one constructor for each way that a step
of it can go.  Everything that is invariant under the steps is proved by cases
over these relations.
-/

namespace Mieru.Protocol

open Mieru.Foundation
open ProtocolType

theorem SegmentTree.insert_of_remaining {tree tree' : SegmentTree} {seg : Segment}
    (hspace : 0 < tree.remaining) : tree.insert seg ≠ (false, tree') := by
  intro h
  have hfull := (SegmentTree.insert_eq_false h).1
  unfold SegmentTree.remaining at hspace
  omega

def ResendPass.visit (pass : ResendPass) (iter : Segment) : ResendPass :=
  let due := iter.txTime + Session.txTimeoutMicros iter
  { pass with
    cursor := some iter.seq
    nextTX := some (pass.nextTX.elim due fun nextTX => min nextTX due) }

namespace Session

/-! ## The writer -/

inductive WriteStart (s : Session) (b : Bytes) : Session → WriterState → Prop
  | refused (hnot : s.closeRequested = true ∨ s.opening = false) :
      WriteStart s b s (.returned 0 (some err))
  | full (hopen : s.closeRequested = false) (hopening : s.opening = true)
      (henqueue : s.setOpenSessionRequestSent.enqueue (s.openRequest b) = (false, t)) :
      WriteStart s b t (.returned 0 (some .insertFailed))
  | carried (hopen : s.closeRequested = false) (hopening : s.opening = true)
      (henqueue : s.setOpenSessionRequestSent.enqueue (s.openRequest b) = (true, t))
      (hsome : (s.openRequest b).payload ≠ []) :
      WriteStart s b t (.returned (s.openRequest b).payload.length none)
  | requested (hopen : s.closeRequested = false) (hopening : s.opening = true)
      (henqueue : s.setOpenSessionRequestSent.enqueue (s.openRequest b) = (true, t))
      (hnone : (s.openRequest b).payload = []) : WriteStart s b t (.writing b 0)
  | begun (hopening : s.opening = false) : WriteStart s b s (.writing b 0)

def nextJob (s : Session) (env : Env) (job : ChunkJob) : ChunkJob :=
  { job with
    ptr := job.ptr.drop (s.dataSegment env job).payload.length
    fragmentsLeft := job.fragmentsLeft - 1 }

inductive WriterStep (s : Session) (env : Env) :
    WriterState → Session → WriterState → Prop
  | done (n : Nat) : WriterStep s env (.writing [] n) (s.addDownloadBytes n) (.returned n none)
  | chunk (n : Nat) (hrest : rest ≠ []) :
      WriterStep s env (.writing rest n) s (.waiting (s.chunkJob rest n))
  | stopped (hfull : s.sendQueue.remaining ≤ job.fragmentsLeft)
      (hexit : s.writerExit env.choice = some (some err)) :
      WriterStep s env (.waiting job) s (.returned job.n (some err))
  | blocked : WriterStep s env (.waiting job) s (.waiting job)
  | ready (hspace : job.fragmentsLeft < s.sendQueue.remaining) :
      WriterStep s env (.waiting job) s (.queueing job)
  | broken (hexit : s.writerExit env.choice = some (some err)) :
      WriterStep s env (.queueing job) s (.returned job.n (some err))
  | full (hexit : s.writerExit env.choice = some none)
      (henqueue : s.enqueue (s.dataSegment env job) = (false, t)) :
      WriterStep s env (.queueing job) t (.returned job.n (some .insertFailed))
  | last (hexit : s.writerExit env.choice = some none)
      (henqueue : s.enqueue (s.dataSegment env job) = (true, t))
      (hlast : job.fragmentsLeft - 1 = 0) :
      WriterStep s env (.queueing job) t (.settling (s.nextJob env job))
  | queued (hexit : s.writerExit env.choice = some none)
      (henqueue : s.enqueue (s.dataSegment env job) = (true, t))
      (hmore : job.fragmentsLeft - 1 ≠ 0) :
      WriterStep s env (.queueing job) t (.queueing (s.nextJob env job))
  | emptied : WriterStep s env (.settling job)
      { s with sendQueue := { s.sendQueue with chanEmptyEvent := false } }
      (.writing job.rest (job.n + job.size))
  | unsettled : WriterStep s env (.settling job) s (.comparing job)
  | moved : WriterStep s env (.comparing job) s (.writing job.rest (job.n + job.size))
  | unmoved : WriterStep s env (.comparing job) s (.settling job)

/-! ## The reader -/

inductive ReaderStep (s : Session) (env : Env) :
    ReaderState → Session → ReaderState → Prop
  | found : ReaderStep s env (.waiting size) s (.draining size)
  | missed (hempty : s.recvQueue.items = []) : ReaderStep s env (.waiting size) s (.selecting size)
  | eof (hchoice : env.choice = .closedChan) (hclosed : s.closedChan = true) :
      ReaderStep s env (.selecting size) s (.returned [] (some .eof))
  | unexpectedEOF (hchoice : env.choice = .inputErr) :
      ReaderStep s env (.selecting size) s (.returned [] (some .unexpectedEOF))
  | timeout : ReaderStep s env (.selecting size) s (.returned [] (some .timeout))
  | announced : ReaderStep s env (.selecting size)
      { s with recvQueue := { s.recvQueue with chanNotEmptyEvent := false } } (.waiting size)
  | taken (hdelete : s.recvQueue.deleteMin = (some seg, queue)) :
      ReaderStep s env (.draining size) ({ s with recvQueue := queue }.appendUnread seg)
        (.draining size)
  | copied (hdelete : s.recvQueue.deleteMin = (none, queue)) :
      ReaderStep s env (.draining size) (copyUnread { s with recvQueue := queue } size).1
        (.returned (s.unreadBuf.take size) none)
  | nothing (hdelete : s.recvQueue.deleteMin = (none, queue)) (hunread : s.unreadBuf = []) :
      ReaderStep s env (.draining size) { s with recvQueue := queue } (.waiting size)

/-! ## The output loop -/

inductive Visit (s : Session) (env : Env) (pass : ResendPass) (iter : Segment) :
    Session → ResendPass → List Packet → Prop
  | exhausted (hlimit : txCountLimit ≤ iter.txCount) :
      Visit s env pass iter s.setOutputErr { pass.visit iter with closing := true } []
  | resent (hdue : mustResend env iter = true)
      (houtput : (s.restampSendBuf env iter).output env (s.restamp env iter iter) =
        (true, t, sent)) :
      Visit s env pass iter t { pass.visit iter with
        totalTransmissionCount := pass.totalTransmissionCount + 1 } sent
  | unsent (houtput : (s.restampSendBuf env iter).output env (s.restamp env iter iter) =
        (false, t, sent)) :
      Visit s env pass iter t.setOutputErr { pass.visit iter with closing := true } sent
  | early (hdue : mustResend env iter = false) : Visit s env pass iter s (pass.visit iter) []

inductive OutputStep (s : Session) (env : Env) :
    OutputState → Session → OutputState → List Packet → Prop
  | ended : OutputStep s env .idle s .ended []
  | woken : OutputStep s env .idle
      { s with sendQueue := { s.sendQueue with chanNotEmptyEvent := false } } (s.startRun env) []
  | ticked : OutputStep s env .idle s (s.startRun env) []
  | drained (hdelete : s.sendQueue.deleteMin = (none, queue)) :
      OutputStep s env .streaming { s with sendQueue := queue } .idle []
  | streamPop (hdelete : s.sendQueue.deleteMin = (some seg, queue)) :
      OutputStep s env .streaming { s with sendQueue := queue } (.streamPopped seg) []
  | streamSent (houtput : s.output env seg = (true, t, sent)) :
      OutputStep s env (.streamPopped seg) t .streaming sent
  | streamFailed (houtput : s.output env seg = (false, t, sent)) :
      OutputStep s env (.streamPopped seg) t.failOutput .idle sent
  | passed {pass : ResendPass} (hend : pass.closing = true ∨ s.nextToVisit pass = none) :
      OutputStep s env (.resending pass) (s.endPass env pass)
        (.checking pass.totalTransmissionCount) []
  | visited {pass : ResendPass} (hnext : s.nextToVisit pass = some iter)
      (hvisit : s.Visit env pass iter t pass' sent) :
      OutputStep s env (.resending pass) t (.resending pass') sent
  | window : OutputStep s env (.checking total) s (.sending total) []
  | shut : OutputStep s env (.checking total) s .acking []
  | crowded : OutputStep s env (.sending total) s .acking []
  | spent (hdelete : s.sendQueue.deleteMinIf (fun _ => decide (total < s.sendWindowSize env)) =
        (none, queue)) :
      OutputStep s env (.sending total) { s with sendQueue := queue } .acking []
  | pop (hspace : 1 < s.sendBuf.remaining)
      (hdelete : s.sendQueue.deleteMinIf (fun _ => decide (total < s.sendWindowSize env)) =
        (some seg, queue)) :
      OutputStep s env (.sending total) { s with sendQueue := queue } (.popped seg total) []
  | buffered (hinsert : s.sendBuf.insert (s.stampTransmission env seg) = (true, buf)) :
      OutputStep s env (.popped seg total) { s with sendBuf := buf }
        (.buffered (s.stampTransmission env seg) total) []
  | overflow (hinsert : s.sendBuf.insert (s.stampTransmission env seg) = (false, buf)) :
      OutputStep s env (.popped seg total) { s with sendBuf := buf }.failOutput .acking []
  | written (houtput : s.output env seg = (true, t, sent)) :
      OutputStep s env (.buffered seg total) t (.sending (total + 1)) sent
  | failed (houtput : s.output env seg = (false, t, sent)) :
      OutputStep s env (.buffered seg total) t.failOutput .acking sent
  | ack (hdue : (s.ackOnDataRecv || sessionHeartbeatInterval < env.now - s.lastTXTime) = true)
      (houtput : s.output env (s.ackSegment env) = (true, t, sent)) :
      OutputStep s env .acking t .acked sent
  | ackFailed (hdue : (s.ackOnDataRecv || sessionHeartbeatInterval < env.now - s.lastTXTime) = true)
      (houtput : s.output env (s.ackSegment env) = (false, t, sent)) :
      OutputStep s env .acking t.failOutput .acked sent
  | silent : OutputStep s env .acking s .idle []
  | acked : OutputStep s env .acked { s with ackOnDataRecv := false } .idle []

/-! ## The input loop -/

/-- The space for an insertion is checked just before it, except in `recvQueue`
and `sendQueue` of the packet transport. -/
inductive InputStep (s : Session) (env : Env) :
    InputState → Session → InputState → List Packet → Prop
  | ended (hchoice : env.choice = .closedChan) (hclosed : s.closedChan = true) :
      InputStep s env .idle s .ended []
  | refused (hchan : s.recvChan = seg :: rest)
      (hprotocol : s.acceptsProtocol seg.protocol = false) :
      InputStep s env .idle { s with recvChan := rest }.failInput.1 .ended []
  | panicked (hchan : s.recvChan = seg :: rest)
      (hblock : { s with recvChan := rest }.acceptBlock seg = .panic message) :
      InputStep s env .idle { s with recvChan := rest } (.panicked message (some seg)) []
  | taken (hchan : s.recvChan = seg :: rest)
      (hblock : { s with recvChan := rest }.acceptBlock seg = .ok t) :
      InputStep s env .idle { t with lastRXTime := env.now } (t.dispatch seg) []
  | acked (hdelete : s.sendBuf.deleteMinIf (fun iter => decide (iter.seq < das.unAckSeq)) =
        (some first, buf)) :
      InputStep s env (.deletingAcked seg das) { s with sendBuf := buf } (.deletingAcked seg das) []
  | ackedData (hdelete : s.sendBuf.deleteMinIf (fun iter => decide (iter.seq < das.unAckSeq)) =
        (none, buf)) (hdata : isInputData seg.protocol = true) :
      InputStep s env (.deletingAcked seg das)
        ({ s with sendBuf := buf }.storeWindow (.dataAck das)) (.inserting seg) []
  | ackedOnly (hdelete : s.sendBuf.deleteMinIf (fun iter => decide (iter.seq < das.unAckSeq)) =
        (none, buf)) (hdata : isInputData seg.protocol = false) :
      InputStep s env (.deletingAcked seg das)
        ({ s with sendBuf := buf }.storeWindow (.dataAck das)) (.countingAck das) []
  | counted : InputStep s env (.countingAck das) (s.countAck das.unAckSeq) .idle []
  | crowded : InputStep s env (.inserting seg) s (.inserting seg) []
  | streamed (htransport : s.transportProtocol = .streamTransport)
      (hinsert : s.recvQueue.insert seg = (true, queue)) :
      InputStep s env (.inserting seg) { s with recvQueue := queue } (.responding seg) []
  | stored (htransport : s.transportProtocol = .packetTransport)
      (hinsert : s.recvBuf.insert seg = (true, buf)) :
      InputStep s env (.inserting seg) { s with recvBuf := buf } (.moving seg) []
  | queueFull (hfull : s.recvQueue.remaining ≤ 1) :
      InputStep s env (.moving seg) { s with ackOnDataRecv := true } (.responding seg) []
  | movedAll (hdelete : s.recvBuf.deleteMinIf (fun iter => decide (iter.seq ≤ s.nextRecv)) =
        (none, buf)) :
      InputStep s env (.moving seg) { s with recvBuf := buf, ackOnDataRecv := true }
        (.responding seg) []
  | held (hspace : 1 < s.recvQueue.remaining)
      (hdelete : s.recvBuf.deleteMinIf (fun iter => decide (iter.seq ≤ s.nextRecv)) =
        (some seg3, buf)) :
      InputStep s env (.moving seg) { s with recvBuf := buf } (.holding seg seg3) []
  | queued (hseq : seg3.seq = s.nextRecv) (hinsert : s.recvQueue.insert seg3 = (true, queue)) :
      InputStep s env (.holding seg seg3) { s with recvQueue := queue } (.queued seg seg3) []
  | overflow (hinsert : s.recvQueue.insert seg3 = (false, queue)) :
      InputStep s env (.holding seg seg3) { s with recvQueue := queue }.failInput.1 .ended []
  | skipped : InputStep s env (.holding seg seg3) s (.moving seg) []
  | advanced : InputStep s env (.queued seg seg3)
      ({ s with nextRecv := s.nextRecv + 1 }.storeWindow seg3.metadata) (.moving seg) []
  | overQuota (hserver : s.isClient = false) (hrequest : seg.protocol = openSessionRequest)
      (hattached : s.isState .sessionAttached = true)
      (hquota : s.quotaAnswer env = .ok false) :
      InputStep s env (.responding seg) { s with status := .statusQuotaExhausted }.close .idle []
  | quotaPanicked (hrequest : seg.protocol = openSessionRequest)
      (hquota : s.quotaAnswer env = .panic message) :
      InputStep s env (.responding seg) s (.panicked message none) []
  | opened (hserver : s.isClient = false) (hrequest : seg.protocol = openSessionRequest)
      (hattached : s.isState .sessionAttached = true)
      (hquota : s.quotaAnswer env = .ok true)
      (henqueue : s.enqueue s.openResponse = (true, t)) :
      InputStep s env (.responding seg) (t.forwardStateTo .sessionEstablished) .idle []
  | openFailed (hserver : s.isClient = false) (hrequest : seg.protocol = openSessionRequest)
      (hattached : s.isState .sessionAttached = true)
      (henqueue : s.enqueue s.openResponse = (false, t)) :
      InputStep s env (.responding seg) t.failInput.1 .ended []
  | ordinary (hnot : (!s.isClient && seg.protocol == openSessionRequest &&
        s.isState .sessionAttached) = false) : InputStep s env (.responding seg) s .idle []
  | answered (hrequest : seg.protocol = closeSessionRequest)
      (houtput : s.reserveSeq.output env s.closeResponse = (true, t, sent)) :
      InputStep s env (.closing seg) t.close .idle sent
  | unanswered (hrequest : seg.protocol = closeSessionRequest)
      (houtput : s.reserveSeq.output env s.closeResponse = (false, t, sent)) :
      InputStep s env (.closing seg) t.failInput.1 .ended sent
  | confirmed : InputStep s env (.closing seg) s.close .idle []

/-! ## The goroutine inside `closeWithError` -/

inductive CloserStep (s : Session) (env : Env) : Session → List Packet → Prop
  | queued (hcloser : s.closer = .starting true) (henqueue : s.enqueue s.closeSegment = (true, t)) :
      CloserStep s env { t with closer := .waiting s.closeSegment closeTries } []
  | full (hcloser : s.closer = .starting true) (henqueue : s.enqueue s.closeSegment = (false, t)) :
      CloserStep s env { t with closer := .sendingDirectly s.closeSegment } []
  | direct (hcloser : s.closer = .starting false) :
      CloserStep s env { s.reserveSeq with closer := .sendingDirectly s.closeSegment } []
  | unsent (hcloser : s.closer = .starting gracefulClose) :
      CloserStep s env { s with closer := .clearingSendQueue } []
  | expired (hcloser : s.closer = .waiting seg 0) :
      CloserStep s env { s with closer := .sendingDirectly seg } []
  | reached (hcloser : s.closer = .waiting seg (tries + 1)) (hreached : seg.seq ≤ s.lastSend) :
      CloserStep s env { s with closer := .clearingSendQueue } []
  | waits (hcloser : s.closer = .waiting seg (tries + 1)) :
      CloserStep s env { s with closer := .waiting seg tries } []
  | written
      (hcloser : s.closer = .sendingDirectly seg) (houtput : s.output env seg = (ok, t, sent)) :
      CloserStep s env { t with closer := .clearingSendQueue } sent
  | clearQueue (hcloser : s.closer = .clearingSendQueue) : CloserStep s env
        { s with sendQueue := s.sendQueue.deleteAll, closer := .clearingSendBuf } []
  | clearBuf (hcloser : s.closer = .clearingSendBuf) :
      CloserStep s env { s with sendBuf := s.sendBuf.deleteAll, closer := .finishing } []
  | finished (hcloser : s.closer = .finishing) :
      CloserStep s env { s.forwardStateTo .sessionClosed with
        closedChan := true
        closer := .closed } []

/-! ## Every step is one of these -/

variable {s t : Session} {env : Env} {sent : List Packet} {seg : Segment}

theorem appendUnread_eq (seg : Segment) : ∃ state, s.appendUnread seg =
    { s with unreadBuf := s.unreadBuf ++ seg.payload, state := state } := by
  unfold appendUnread openOnResponse forwardStateTo
  split
  · split <;> exact ⟨_, rfl⟩
  · exact ⟨_, rfl⟩

theorem full_of_enqueue (h : s.enqueue seg = (false, t)) :
    s.sendQueue.cap ≤ s.sendQueue.items.length := by
  cases hinsert : s.sendQueue.insert seg with
  | mk ok sendQueue =>
    simp only [enqueue, hinsert] at h
    cases h
    exact (SegmentTree.insert_eq_false hinsert).1

theorem writeStart {b : Bytes} {writer : WriterState} (h : s.write b = (t, writer)) :
    s.WriteStart b t writer := by
  unfold write at h
  split at h
  · rename_i hclosed
    cases h
    exact .refused (.inl hclosed)
  rename_i hopen
  have hopen : s.closeRequested = false := by simpa using hopen
  split at h
  · rename_i hbefore
    cases h
    refine .refused (.inr ?_)
    cases hstate : s.state <;> simp_all [opening, isState, isStateBefore, SessionState.toNat]
  split at h
  · rename_i hafter
    cases h
    refine .refused (.inr ?_)
    cases hstate : s.state <;> simp_all [opening, isState, isStateAfter, SessionState.toNat]
  split at h
  · rename_i hopening
    dsimp only at h
    split at h
    · cases h
      exact .full hopen hopening ‹_›
    · split at h
      · rename_i hsome
        cases h
        exact .carried hopen hopening ‹_› (List.length_pos_iff.mp hsome)
      · rename_i hnone
        cases h
        exact .requested hopen hopening ‹_› (List.eq_nil_of_length_eq_zero (by omega))
  · rename_i hopening
    cases h
    exact .begun (by simpa using hopening)

theorem writerStep_inv {writer writer' : WriterState}
    (h : s.writerStep env writer = some (t, writer')) : s.WriterStep env writer t writer' := by
  cases writer with
  | returned n err => cases h
  | writing rest n =>
    simp only [writerStep] at h
    split at h
    · rename_i hrest
      cases h
      rw [hrest]
      exact .done n
    · cases h
      exact .chunk n ‹_›
  | waiting job =>
    simp only [writerStep] at h
    split at h
    · split at h <;> cases h
      · exact .stopped ‹_› ‹_›
      · exact .blocked
    · cases h
      exact .ready (Nat.lt_of_not_le ‹_›)
  | queueing job =>
    simp only [writerStep, queueFragment] at h
    split at h
    · cases h
    · cases h
      exact .broken ‹_›
    · rename_i hexit
      split at h
      · cases h
        exact .full hexit ‹_›
      · split at h <;> cases h
        · exact .last hexit ‹_› ‹_›
        · exact .queued hexit ‹_› ‹_›
  | settling job =>
    simp only [writerStep] at h
    split at h <;> cases h
    · exact .emptied
    · exact .unsettled
  | comparing job =>
    simp only [writerStep] at h
    split at h
    · cases h
      exact .moved
    · split at h <;> cases h
      · exact .moved
      · exact .unmoved

theorem readerStep_inv {reader reader' : ReaderState}
    (h : s.readerStep env reader = some (t, reader')) : s.ReaderStep env reader t reader' := by
  cases reader with
  | returned data err => cases h
  | waiting size =>
    simp only [readerStep] at h
    split at h <;> cases h
    · exact .found
    · exact .missed (List.eq_nil_of_length_eq_zero (Nat.eq_zero_of_not_pos ‹_›))
  | selecting size =>
    simp only [readerStep] at h
    split at h
    · split at h <;> cases h
      exact .eof ‹_› ‹_›
    · split at h <;> cases h
      exact .unexpectedEOF ‹_›
    · cases h
      exact .timeout
    · split at h <;> cases h
      exact .announced
    · cases h
  | draining size =>
    simp only [readerStep] at h
    split at h
    · cases h
      exact .taken ‹_›
    · split at h
      · cases h
        exact .copied ‹_›
      · rename_i hunread
        cases h
        exact .nothing ‹_› (by simpa using hunread)

theorem visit_of_visitSegment {pass pass' : ResendPass} {iter : Segment}
    (h : s.visitSegment env pass iter = (t, pass', sent)) : s.Visit env pass iter t pass' sent := by
  have hagain : s.stampTransmission env { iter with ackCount := 0 } = s.restamp env iter iter := by
    unfold restamp
    rw [if_pos rfl]
  simp only [visitSegment, hagain] at h
  split at h
  · cases h
    exact .exhausted ‹_›
  · split at h
    · split at h <;> cases h
      · exact .resent ‹_› ‹_›
      · exact .unsent ‹_›
    · rename_i hdue
      cases h
      exact .early (by simpa using hdue)

theorem outputStep_inv {output output' : OutputState}
    (h : s.outputStep env output = some (t, output', sent)) :
    s.OutputStep env output t output' sent := by
  cases output with
  | ended => cases h
  | idle =>
    obtain ⟨⟨u, state⟩, hbegin, heq⟩ := Option.map_eq_some_iff.mp h
    cases heq
    unfold beginOutput at hbegin
    split at hbegin
    · split at hbegin <;> cases hbegin
      exact .ended
    · split at hbegin <;> cases hbegin
      exact .woken
    · split at hbegin <;> cases hbegin
      exact .ticked
    · cases hbegin
  | streaming =>
    simp only [outputStep] at h
    split at h <;> cases h
    · exact .drained ‹_›
    · exact .streamPop ‹_›
  | streamPopped seg =>
    simp only [outputStep] at h
    split at h <;> cases h
    · exact .streamSent ‹_›
    · exact .streamFailed ‹_›
  | resending pass =>
    simp only [outputStep] at h
    split at h
    · rename_i hend
      cases h
      refine .passed ?_
      cases hclosing : pass.closing with
      | true => exact .inl rfl
      | false => exact .inr (by simpa [hclosing] using hend)
    · rename_i iter hnext
      cases h
      exact .visited (by simpa using (Option.ite_none_left_eq_some.mp hnext).2)
        (visit_of_visitSegment rfl)
  | checking total =>
    simp only [outputStep] at h
    split at h <;> cases h
    · exact .window
    · exact .shut
  | sending total =>
    simp only [outputStep] at h
    split at h
    · cases h
      exact .crowded
    · split at h <;> cases h
      · exact .spent ‹_›
      · exact .pop (Nat.lt_of_not_le ‹_›) ‹_›
  | popped seg total =>
    simp only [outputStep] at h
    split at h <;> cases h
    · exact .buffered ‹_›
    · exact .overflow ‹_›
  | buffered seg total =>
    simp only [outputStep] at h
    split at h <;> cases h
    · exact .written ‹_›
    · exact .failed ‹_›
  | acking =>
    simp only [outputStep] at h
    split at h
    · split at h <;> cases h
      · exact .ack ‹_› ‹_›
      · exact .ackFailed ‹_› ‹_›
    · cases h
      exact .silent
  | acked =>
    cases h
    exact .acked

theorem acceptBlock_eq_ok (h : s.acceptBlock seg = .ok t) :
    t = s ∨ ∃ block, seg.block = some block ∧ t = s.storeBlock block := by
  unfold acceptBlock at h
  split at h
  · cases h
    exact .inl rfl
  · rename_i block hblock
    obtain ⟨_, _, hstore⟩ := Outcome.bind_eq_ok.mp h
    cases hstore
    exact .inr ⟨block, hblock, rfl⟩

theorem acceptBlock_ne_error {message : String} : s.acceptBlock seg ≠ .error message := by
  intro h
  unfold acceptBlock checkBlockUser at h
  split at h
  · cases h
  · split at h
    · cases h
    · dsimp only at h
      split at h
      · cases h
      · split at h
        · cases h
        · split at h <;> cases h

theorem inputStep_inv {input input' : InputState}
    (h : s.inputStep env input = some (t, input', sent)) : s.InputStep env input t input' sent := by
  cases input with
  | ended => cases h
  | panicked message seg => cases h
  | idle =>
    obtain ⟨⟨u, state⟩, hbegin, heq⟩ := Option.map_eq_some_iff.mp h
    cases heq
    unfold beginInput at hbegin
    split at hbegin
    · split at hbegin <;> cases hbegin
      exact .ended ‹_› ‹_›
    · split at hbegin
      · cases hbegin
      · rename_i hchan
        simp only [input] at hbegin
        split at hbegin
        · cases hbegin
          exact .refused hchan ‹_›
        · split at hbegin <;> cases hbegin
          · exact .panicked hchan ‹_›
          · exact absurd ‹_› acceptBlock_ne_error
          · exact .taken hchan ‹_›
  | deletingAcked seg das =>
    simp only [inputStep] at h
    split at h
    · cases h
      exact .acked ‹_›
    · cases hdata : isInputData seg.protocol <;> rw [hdata] at h <;> cases h
      · exact .ackedOnly ‹_› hdata
      · exact .ackedData ‹_› hdata
  | countingAck das =>
    cases h
    exact .counted
  | inserting seg =>
    simp only [inputStep, insertReceived] at h
    split at h
    · rename_i htransport
      split at h
      · cases h
        exact .crowded
      · split at h
        · cases h
          exact .streamed htransport ‹_›
        · exact absurd ‹_› (SegmentTree.insert_of_remaining (by omega))
    · rename_i htransport
      split at h
      · cases h
        exact .crowded
      · split at h
        · cases h
          exact .stored htransport ‹_›
        · exact absurd ‹_› (SegmentTree.insert_of_remaining (by omega))
  | moving seg =>
    simp only [inputStep, moveOne] at h
    split at h
    · cases h
      exact .queueFull ‹_›
    · split at h <;> cases h
      · exact .movedAll ‹_›
      · exact .held (Nat.lt_of_not_le ‹_›) ‹_›
  | holding seg seg3 =>
    simp only [inputStep, queueReceived] at h
    split at h
    · split at h <;> cases h
      · exact .queued ‹_› ‹_›
      · exact .overflow ‹_›
    · cases h
      exact .skipped
  | queued seg seg3 =>
    cases h
    exact .advanced
  | responding seg =>
    simp only [inputStep, respond] at h
    split at h
    · rename_i hrequest
      simp only [Bool.and_eq_true, Bool.not_eq_true', beq_iff_eq] at hrequest
      obtain ⟨⟨hserver, hprotocol⟩, hattached⟩ := hrequest
      split at h
      · cases h
        exact .quotaPanicked hprotocol ‹_›
      · cases h
        exact .overQuota hserver hprotocol hattached ‹_›
      · split at h <;> cases h
        · exact .opened hserver hprotocol hattached ‹_› ‹_›
        · exact .openFailed hserver hprotocol hattached ‹_›
    · rename_i hnot
      cases h
      exact .ordinary (by simpa using hnot)
  | closing seg =>
    simp only [inputStep, inputClose] at h
    split at h
    · split at h <;> cases h
      · exact .answered ‹_› ‹_›
      · exact .unanswered ‹_› ‹_›
    · cases h
      exact .confirmed

theorem closerStep_inv (h : s.closerStep env = some (t, sent)) : s.CloserStep env t sent := by
  unfold closerStep at h
  split at h
  · cases h
  · rename_i gracefulClose hcloser
    split at h
    · cases gracefulClose with
      | true =>
        simp only [if_true] at h
        split at h <;> cases h
        · exact .queued hcloser ‹_›
        · exact .full hcloser ‹_›
      | false =>
        cases h
        exact .direct hcloser
    · cases h
      exact .unsent hcloser
  · rename_i hcloser
    split at h
    · cases h
      exact .expired hcloser
    · split at h <;> cases h
      · exact .reached hcloser ‹_›
      · exact .waits hcloser
  · cases h
    exact .written ‹_› rfl
  · cases h
    exact .clearQueue ‹_›
  · cases h
    exact .clearBuf ‹_›
  · cases h
    exact .finished ‹_›
  · cases h

end Session

/-! ## The whole session -/

namespace LiveSession

inductive Step (l : LiveSession) : SessionEvent → LiveSession → List Packet → Prop
  | write (hcall : l.session.write b = (s, state)) :
      Step l (.write b) { l with session := s, writer := state } []
  | writer (hstep : l.session.writerStep env l.writer = some (s, state)) :
      Step l (.writer env) { l with session := s, writer := state } []
  | read (hcall : l.session.read size = (s, state)) :
      Step l (.read size) { l with session := s, reader := state } []
  | reader (hstep : l.session.readerStep env l.reader = some (s, state)) :
      Step l (.reader env) { l with session := s, reader := state } []
  | output (hstep : l.session.outputStep env l.output = some (s, state, sent)) :
      Step l (.output env) { l with session := s, output := state } sent
  | input (hstep : l.session.inputStep env l.input = some (s, state, sent)) :
      Step l (.input env) { l with session := s, input := state } sent
  | close : Step l .close { l with session := l.session.close } []
  | closer (hstep : l.session.closerStep env = some (s, sent)) :
      Step l (.closer env) { l with session := s } sent

theorem step_inv {l l' : LiveSession} {event : SessionEvent} {sent : List Packet}
    (h : l.step event = some (l', sent)) : l.Step event l' sent := by
  cases event with
  | write b =>
    simp only [step, LiveSession.write, Option.map_eq_some_iff] at h
    obtain ⟨next, hwrite, heq⟩ := h
    split at hwrite <;> cases hwrite
    cases heq
    exact .write rfl
  | read size =>
    simp only [step, LiveSession.read, Option.map_eq_some_iff] at h
    obtain ⟨next, hread, heq⟩ := h
    split at hread <;> cases hread
    cases heq
    exact .read rfl
  | close =>
    cases h
    exact .close
  | writer env =>
    obtain ⟨_, hstep, heq⟩ := Option.map_eq_some_iff.mp h
    cases heq
    exact .writer hstep
  | reader env =>
    obtain ⟨_, hstep, heq⟩ := Option.map_eq_some_iff.mp h
    cases heq
    exact .reader hstep
  | output env =>
    obtain ⟨_, hstep, heq⟩ := Option.map_eq_some_iff.mp h
    cases heq
    exact .output hstep
  | input env =>
    obtain ⟨_, hstep, heq⟩ := Option.map_eq_some_iff.mp h
    cases heq
    exact .input hstep
  | closer env =>
    obtain ⟨_, hstep, heq⟩ := Option.map_eq_some_iff.mp h
    cases heq
    exact .closer hstep

end LiveSession

end Mieru.Protocol
