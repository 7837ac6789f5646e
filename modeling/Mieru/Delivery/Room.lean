import Mieru.Delivery.Closing

/-!
# Room in the queues of an open session

As long as a session is not closed, none of its insertions fails.  `writeChunk`
waits until the send queue can take all fragments of a chunk and one segment
more; that one segment is the open session request or the response to it.  The
output and input loops look at the space before they take a segment that they
insert elsewhere, and no other goroutine inserts there.
-/

namespace Mieru.Protocol

open Mieru.Foundation
open ProtocolType

def WriterState.fragments : WriterState → Nat
  | .queueing job => job.fragmentsLeft
  | _ => 0

def WriterState.HasJob (writer : WriterState) (job : ChunkJob) : Prop :=
  writer = .waiting job ∨ writer = .queueing job

/-- The input loop neither holds a segment of `recvBuf` nor closes. -/
def InputState.isPlain : InputState → Bool
  | .holding _ _ => false
  | .closing _ => false
  | _ => true

namespace Session

def reserved (s : Session) : Nat :=
  if s.opening || s.unopened then 1 else 0

variable {s t : Session} {env : Env} {sent : List Packet} {writer writer' : WriterState}

theorem reserved_le_one : s.reserved ≤ 1 := by
  unfold reserved
  split <;> omega

theorem Keeps.unopened_of (h : s.Keeps t) (ht : t.unopened = true) : s.unopened = true := by
  simp only [unopened, Bool.and_eq_true] at ht ⊢
  exact ⟨h.sameSide ▸ ht.1, h.attached ht.2⟩

theorem Keeps.unopened_eq_false (h : s.Keeps t) (hs : s.unopened = false) : t.unopened = false := by
  cases ht : t.unopened with
  | false => rfl
  | true => cases hs.symm.trans (h.unopened_of ht)

theorem Keeps.reserved_le (h : s.Keeps t) : t.reserved ≤ s.reserved := by
  unfold reserved
  split
  · rename_i ht
    rcases Bool.or_eq_true_iff.mp ht with hopening | hunopened
    · simp [h.opening hopening]
    · simp [h.unopened_of hunopened]
  · exact Nat.zero_le _

theorem length_enqueue {seg : Segment} {ok : Bool} (h : s.enqueue seg = (ok, t)) :
    t.sendQueue.items.length ≤ s.sendQueue.items.length + 1 ∧
      t.sendQueue.cap = s.sendQueue.cap := by
  cases hinsert : s.sendQueue.insert seg with
  | mk inserted sendQueue =>
    simp only [enqueue, hinsert] at h
    cases h
    refine ⟨?_, SegmentTree.cap_insert hinsert⟩
    cases ok with
    | true =>
      simp only [(SegmentTree.insert_eq_true hinsert).2]
      exact length_replaceOrInsert_le seg _
    | false =>
      simp only [(SegmentTree.insert_eq_false hinsert).2]
      omega

def HasRoom (s : Session) (writer : WriterState) : Prop :=
  s.sendQueue.items.length + writer.fragments + s.reserved ≤ s.sendQueue.cap

theorem hasRoom_write {b : Bytes} (hroom : s.HasRoom writer) (h : s.write b = (t, writer')) :
    t.HasRoom writer' ∧ ∀ job, ¬writer'.HasJob job := by
  unfold HasRoom at hroom ⊢
  have hsame : s.sendQueue.items.length + 0 + s.reserved ≤ s.sendQueue.cap := by omega
  -- The request uses the reserved segment.
  have hrequest : ∀ {ok : Bool} {u : Session}, s.opening = true →
      s.setOpenSessionRequestSent.enqueue (s.openRequest b) = (ok, u) →
      u.sendQueue.items.length + u.reserved ≤ u.sendQueue.cap := by
    intro ok u hopening henqueue
    obtain ⟨hlength, hcap⟩ := length_enqueue henqueue
    have hone : s.reserved = 1 := by simp [reserved, hopening]
    have hclient : s.isClient = true := by
      simp only [opening, Bool.and_eq_true] at hopening
      exact hopening.1.1
    have hnone : u.reserved = 0 := by
      cases henqueue
      simp [reserved, opening, unopened, setOpenSessionRequestSent, hclient]
    rw [hnone, hcap]
    change u.sendQueue.items.length + 0 ≤ s.sendQueue.cap
    have hlength : u.sendQueue.items.length ≤ s.sendQueue.items.length + 1 := hlength
    omega
  cases writeStart h with
  | refused | begun => exact ⟨hsame, by simp [WriterState.HasJob]⟩
  | full _ hopening henqueue | carried _ hopening henqueue
  | requested _ hopening henqueue =>
    exact ⟨hrequest hopening henqueue, by simp [WriterState.HasJob]⟩

theorem fragmentsLeft_chunkJob (rest : Bytes) (n : Nat) :
    1 ≤ (s.chunkJob rest n).fragmentsLeft := by
  simp only [chunkJob]
  split
  · exact Nat.le_add_left 1 _
  · exact Nat.le_refl 1

theorem hasRoom_writerStep (hroom : s.HasRoom writer)
    (hjob : ∀ job, writer.HasJob job → 1 ≤ job.fragmentsLeft)
    (h : s.writerStep env writer = some (t, writer')) :
    t.HasRoom writer' ∧ ∀ job, writer'.HasJob job → 1 ≤ job.fragmentsLeft := by
  unfold HasRoom at hroom ⊢
  have hsame : s.sendQueue.items.length + 0 + s.reserved ≤ s.sendQueue.cap := by omega
  have hqueued : ∀ {job : ChunkJob} {ok : Bool} {u : Session}, writer = .queueing job →
      s.enqueue (s.dataSegment env job) = (ok, u) →
      u.sendQueue.items.length + (job.fragmentsLeft - 1) + u.reserved ≤
        u.sendQueue.cap := by
    rintro job ok u rfl henqueue
    have hone : 1 ≤ job.fragmentsLeft := hjob job (.inr rfl)
    have hroom : s.sendQueue.items.length + job.fragmentsLeft + s.reserved ≤
      s.sendQueue.cap := hroom
    obtain ⟨hlength, hcap⟩ := length_enqueue henqueue
    have hreserved : u.reserved = s.reserved := by
      cases henqueue
      rfl
    rw [hreserved, hcap]
    omega
  cases writerStep_inv h with
  | done =>
    refine ⟨?_, by simp [WriterState.HasJob]⟩
    unfold addDownloadBytes
    split <;> exact hsame
  | chunk n =>
    refine ⟨hsame, fun job hnext => ?_⟩
    simp only [WriterState.HasJob, WriterState.waiting.injEq, reduceCtorEq, or_false] at hnext
    rw [← hnext]
    exact fragmentsLeft_chunkJob _ n
  | blocked => exact ⟨hsame, hjob⟩
  | ready hspace =>
    rename_i job
    have hreserved : s.reserved ≤ 1 := reserved_le_one
    unfold SegmentTree.remaining at hspace
    refine ⟨?_, fun other hother => hjob other (.inl ?_)⟩
    · change s.sendQueue.items.length + job.fragmentsLeft + s.reserved ≤ _
      omega
    · simpa [WriterState.HasJob] using hother
  | full _ henqueue | last _ henqueue =>
    have hafter := hqueued rfl henqueue
    refine ⟨?_, by simp [WriterState.HasJob]⟩
    change _ + 0 + _ ≤ _
    omega
  | queued _ henqueue hleft =>
    refine ⟨hqueued rfl henqueue, fun other hother => ?_⟩
    simp only [WriterState.HasJob, reduceCtorEq, WriterState.queueing.injEq, false_or] at hother
    rw [← hother]
    exact Nat.one_le_iff_ne_zero.mpr hleft
  | _ => exact ⟨hsame, by simp [WriterState.HasJob]⟩

theorem hasRoom_responding {writer : WriterState} {seg : Segment} {state : InputState}
    (hroom : s.HasRoom writer) (h : s.inputStep env (.responding seg) = some (t, state, sent))
    (hopen : t.closeRequested = false) : t.HasRoom writer := by
  unfold HasRoom at hroom ⊢
  cases inputStep_inv h with
  | overQuota => simp [close] at hopen
  | openFailed => simp at hopen
  | quotaPanicked | ordinary => exact hroom
  | @opened u _ hserver _ hattached _ henqueue =>
    obtain ⟨hlength, hcap⟩ := length_enqueue henqueue
    have hone : s.reserved = 1 := by simp [reserved, unopened, hserver, hattached]
    have hattached : s.state = .sessionAttached := by simpa [isState] using hattached
    have hnone : (u.forwardStateTo .sessionEstablished).reserved = 0 := by
      obtain rfl : (s.enqueue s.openResponse).2 = u :=
        congrArg Prod.snd henqueue
      simp [reserved, opening, unopened, enqueue, forwardStateTo, isState,
        hattached, SessionState.toNat, hserver]
    have hqueue : (u.forwardStateTo .sessionEstablished).sendQueue =
        u.sendQueue := by
      unfold forwardStateTo
      split <;> rfl
    rw [hnone, hqueue, hcap]
    omega

theorem dispatch_isPlain (s : Session) (seg : Segment) : (s.dispatch seg).isPlain = true ∨
      s.dispatch seg = .closing seg ∧ (seg.protocol = closeSessionRequest ∨
          seg.protocol = closeSessionResponse) := by
  unfold dispatch
  split
  · split <;> exact .inl rfl
  · split
    · split <;> exact .inl rfl
    · split
      · exact .inr ⟨rfl, ‹_›⟩
      · exact .inl rfl

/--
The input loop holds a segment only if the receive queue can take it, and
closes the session only for a close segment.
-/
theorem inputStep_next {input input' : InputState}
    (h : s.inputStep env input = some (t, input', sent)) :
    (∃ seg seg3, input' = .holding seg seg3 ∧ t.recvQueue.items.length < t.recvQueue.cap) ∨
    (∃ seg ∈ s.recvChan, input' = .closing seg ∧ (seg.protocol = closeSessionRequest ∨
        seg.protocol = closeSessionResponse)) ∨ input'.isPlain = true := by
  cases inputStep_inv h with
  | taken hchan =>
    rename_i seg rest accepted _
    rcases accepted.dispatch_isPlain seg with hplain | ⟨hclosing, hprotocol⟩
    · exact .inr (.inr hplain)
    · exact .inr (.inl ⟨seg, by simp [hchan], hclosing, hprotocol⟩)
  | held hspace =>
    unfold SegmentTree.remaining at hspace
    refine .inl ⟨_, _, rfl, ?_⟩
    change s.recvQueue.items.length < s.recvQueue.cap
    omega
  | _ => exact .inr (.inr rfl)

end Session

namespace SendStep

variable {mode : SendMode} {v v' : SendView} {sent : List Packet}

theorem queue_le (h : SendStep mode v sent v') (hmode : mode.enqueues = false) :
    v'.queue.length ≤ v.queue.length := by
  cases h with
  | enqueue henqueues | overflow henqueues =>
    cases hmode.symm.trans henqueues
  | popStream _ _ hqueue | popPacket _ hqueue _ => simp [hqueue]
  | _ => exact Nat.le_refl _

theorem caps_eq (h : SendStep mode v sent v') : v'.queueCap = v.queueCap ∧ v'.bufCap = v.bufCap ∧
      v'.recvBufCap = v.recvBufCap ∧ v'.recvQueueCap = v.recvQueueCap := by
  cases h <;> exact ⟨rfl, rfl, rfl, rfl⟩

theorem space (h : SendStep mode v sent v')
    (hv : ∀ seg, v.phase = .popped seg → v.buf.length < v.bufCap) :
    ∀ seg, v'.phase = .popped seg → v'.buf.length < v'.bufCap := by
  cases h with
  | popPacket _ _ hspace => exact fun _ _ => Nat.lt_of_succ_lt hspace
  | popStream | buffer | bufferFull | emit => simp
  | resend hidle _ _ _ => simp [hidle]
  | count => simpa using hv
  | acked _ hbuf _ =>
    intro seg hseg
    have hspace := hv seg hseg
    rw [hbuf, List.length_cons] at hspace
    exact Nat.lt_of_succ_lt hspace
  | stay | enqueue | overflow | ack | answerClose => exact hv

end SendStep

theorem Flow.Step.recvQueue_le {mode : Flow.Mode} {f f' : Flow}
    {sent : List Packet} {seg3 : Segment} (h : Flow.Step mode f sent f')
    (hbefore : f.intake = .holding seg3) (hafter : f'.intake = .holding seg3) :
    f'.recvQueue.length ≤ f.recvQueue.length := by
  cases h with
  | storeQueue _ hintake => cases hbefore.symm.trans hintake
  | queue _ _ _ => cases hafter
  | drain hqueue => simp [hqueue]
  | _ => exact Nat.le_refl _

namespace LiveSession

variable {l l' : LiveSession} {event : SessionEvent} {sent : List Packet}

structure Roomy (l : LiveSession) : Prop where
  queue : l.session.HasRoom l.writer
  job : ∀ job, l.writer.HasJob job → 1 ≤ job.fragmentsLeft
  popped : ∀ seg, l.sendView.phase = .popped seg → l.sendView.buf.length < l.sendView.bufCap
  holding : ∀ seg seg3, l.input = .holding seg seg3 →
    l.session.recvQueue.items.length < l.session.recvQueue.cap

theorem ofCloser_of_open (hl : l.WellFormed) (hopen : l.session.closeRequested = false)
    (h : l.step event = some (l', sent)) : event.ofCloser = false := by
  cases step_inv h with
  | closer hstep =>
    have hrequested := hl.closer.requested (Session.closesWith_closerStep hstep).called
    cases hrequested.symm.trans hopen
  | _ => rfl

theorem Roomy.lt_cap (h : l.Roomy) (henqueues : l.enqueues event = true) :
    l.session.sendQueue.items.length < l.session.sendQueue.cap := by
  have hroom : l.session.sendQueue.items.length + l.writer.fragments +
    l.session.reserved ≤ l.session.sendQueue.cap := h.queue
  cases event with
  | write b =>
    have hopening : l.session.opening = true := henqueues
    have hone : l.session.reserved = 1 := by
      simp [Session.reserved, hopening]
    omega
  | writer env =>
    cases hwriter : l.writer with
    | queueing job =>
      have hone := h.job job (.inr hwriter)
      rw [hwriter] at hroom
      have hroom : l.session.sendQueue.items.length + job.fragmentsLeft +
        l.session.reserved ≤ l.session.sendQueue.cap := hroom
      omega
    | _ => simp [enqueues, hwriter, WriterState.isQueueing] at henqueues
  | input env =>
    cases hinput : l.input with
    | responding seg =>
      have hunopened : l.session.unopened = true := by
        simpa [enqueues, hinput, Session.responds] using henqueues
      have hone : l.session.reserved = 1 := by
        simp [Session.reserved, hunopened]
      omega
    | _ => simp [enqueues, hinput, Session.responds] at henqueues
  | _ => cases henqueues

theorem hasRoom_of_sending (hkeeps : l.session.Keeps l'.session)
    (hsending : Session.Sending (l.sendMode event l') l.session l.output.phase
      sent l'.session l'.output.phase)
    (hroom : l.session.HasRoom l.writer) (hwriter : l'.writer = l.writer)
    (henqueues : l.enqueues event = false) : l'.session.HasRoom l'.writer := by
  unfold Session.HasRoom at hroom ⊢
  have hqueue : l'.session.sendQueue.items.length ≤
      l.session.sendQueue.items.length := hsending.step.queue_le henqueues
  have hcap : l'.session.sendQueue.cap = l.session.sendQueue.cap :=
    hsending.step.caps_eq.1
  have hreserved := hkeeps.reserved_le
  rw [hwriter, hcap]
  omega

theorem hasRoom_step (hl : l.WellFormed) (hroom : l.Roomy) (h : l.step event = some (l', sent))
    (hopen : l'.session.closeRequested = false) :
    l'.session.HasRoom l'.writer ∧ ∀ job, l'.writer.HasJob job → 1 ≤ job.fragmentsLeft := by
  have hkeeps := (step_follows hl h).1.keeps
  have hbefore := hkeeps.open_of hopen
  have hsending := step_sending hl (ofCloser_of_open hl hbefore h) h
  have hsame (henqueues : l.enqueues event = false) (hwriter : l'.writer = l.writer) :
      l'.session.HasRoom l'.writer ∧ ∀ job, l'.writer.HasJob job → 1 ≤ job.fragmentsLeft := by
    refine ⟨hasRoom_of_sending hkeeps hsending hroom.queue hwriter henqueues, ?_⟩
    rw [hwriter]
    exact hroom.job
  have hcloser := ofCloser_of_open hl hbefore h
  cases step_inv h with
  | write hcall =>
    obtain ⟨hafter, hnone⟩ := Session.hasRoom_write hroom.queue hcall
    exact ⟨hafter, fun job hjob => absurd hjob (hnone job)⟩
  | writer hstep => exact Session.hasRoom_writerStep hroom.queue hroom.job hstep
  | read | reader | output => exact hsame rfl rfl
  | input hstep =>
    cases hinput : l.input with
    | responding seg =>
      rw [hinput] at hstep
      exact ⟨Session.hasRoom_responding hroom.queue hstep hopen, hroom.job⟩
    | _ => exact hsame (by simp [enqueues, hinput, Session.responds]) rfl
  | close => simp [Session.close] at hopen
  | closer => cases hcloser

theorem holding_step (hl : l.WellFormed) (hroom : l.Roomy)
    (hopen : l.session.closeRequested = false) (h : l.step event = some (l', sent))
    {seg seg3 : Segment} (hholding : l'.input = .holding seg seg3) :
    l'.session.recvQueue.items.length < l'.session.recvQueue.cap := by
  rcases (step_loops_eq h).2 with hinput | ⟨env, rfl⟩
  · have hbefore : l.input = .holding seg seg3 := hinput ▸ hholding
    have hlength : l'.session.recvQueue.items.length ≤
        l.session.recvQueue.items.length :=
      (step_follows hl h).1.step.recvQueue_le (by rw [hbefore]; rfl) (by rw [hholding]; rfl)
    have hcap : l'.session.recvQueue.cap = l.session.recvQueue.cap :=
      (step_sending hl (ofCloser_of_open hl hopen h) h).step.caps_eq.2.2.2
    have hspace := hroom.holding seg seg3 hbefore
    omega
  · cases step_inv h with | @input _ t input _ hstep =>
    have hinput : input = .holding seg seg3 := hholding
    rcases Session.inputStep_next hstep with ⟨_, _, _, hspace⟩ |
      ⟨_, _, hclosing, _⟩ | hplain
    · exact hspace
    · cases hinput.symm.trans hclosing
    · rw [hinput] at hplain
      cases hplain

theorem Roomy.step (hroom : l.Roomy) (hl : l.WellFormed) (h : l.step event = some (l', sent))
    (hopen : l'.session.closeRequested = false) : l'.Roomy := by
  have hkeeps := (step_follows hl h).1.keeps
  have hbefore := hkeeps.open_of hopen
  have hsending := step_sending hl (ofCloser_of_open hl hbefore h) h
  obtain ⟨hqueue, hjob⟩ := hasRoom_step hl hroom h hopen
  refine ⟨hqueue, hjob, hsending.step.space hroom.popped, ?_⟩
  intro seg seg3 hholding
  exact holding_step hl hroom hbefore h hholding

theorem Roomy.receive {seg : Segment} (hroom : l.Roomy)
    (h : l.receive seg = some l') : l'.Roomy := by
  obtain ⟨-, rfl⟩ := receive_eq_some h
  exact ⟨hroom.queue, hroom.job, hroom.popped, hroom.holding⟩

/--
The step does not close the session by itself: `Close` is not called, what the
output loop writes is taken, no segment has been found at its transmission
limit and the user's quota is not exhausted.
-/
structure KeepsOpen (l : LiveSession) (event : SessionEvent) : Prop where
  notClosed : event ≠ .close
  writes : ∀ env, event = .output env → l.session.outputFails env = false
  limit : ∀ env pass, event = .output env → l.output = .resending pass → pass.closing = false
  quota : ∀ env, event = .input env → l.session.quotaAnswer env ≠ .ok false

/-- `Close` has not been called, and no close segment is still to be handled. -/
structure Unclosed (l : LiveSession) : Prop where
  isOpen : l.session.closeRequested = false
  chan : ∀ seg ∈ l.session.recvChan,
    seg.protocol ≠ closeSessionRequest ∧ seg.protocol ≠ closeSessionResponse
  input : ∀ seg, l.input ≠ .closing seg

theorem Roomy.not_closes (h : l.Roomy) (hkeeps : l.KeepsOpen event)
    (hclosing : ∀ seg, l.input ≠ .closing seg)
    (haccepts : ∀ env, event = .input env → l.input = .idle →
      ∀ seg ∈ l.session.recvChan, l.session.acceptsProtocol seg.protocol = true) :
    ¬l.Closes event := by
  intro hcloses
  cases event with
  | close => exact hkeeps.notClosed rfl
  | output env =>
    have hwrites := hkeeps.writes env rfl
    cases houtput : l.output with
    | streamPopped seg | buffered seg total | acking =>
      simp [Closes, houtput, Session.OutputCloses, hwrites] at hcloses
    | resending pass =>
      simp [Closes, houtput, Session.OutputCloses, hkeeps.limit env pass rfl houtput] at hcloses
    | popped seg total =>
      have hspace : l.session.sendBuf.items.length < l.session.sendBuf.cap := by
        apply h.popped seg
        simp [sendView, Session.sendView, houtput, OutputState.phase]
      simp only [Closes, houtput, Session.OutputCloses] at hcloses
      omega
    | _ => simp [Closes, houtput, Session.OutputCloses] at hcloses
  | input env =>
    cases hinput : l.input with
    | idle =>
      simp only [Closes, hinput, Session.InputCloses] at hcloses
      obtain ⟨seg, hseg, hrefused⟩ := hcloses
      simp [haccepts env rfl hinput seg hseg] at hrefused
    | holding seg seg3 =>
      have hspace := h.holding seg seg3 hinput
      simp only [Closes, hinput, Session.InputCloses] at hcloses
      omega
    | responding seg =>
      simp only [Closes, hinput, Session.InputCloses] at hcloses
      rcases hcloses.refused with hquota | hfull
      · exact hkeeps.quota env rfl hquota
      · have henqueues : l.enqueues (.input env) = true := by
          simp [enqueues, hinput, Session.responds, Session.unopened, hcloses.isServer,
            hcloses.attached]
        have hspace := h.lt_cap henqueues
        omega
    | closing seg => exact hclosing seg hinput
    | _ => simp [Closes, hinput, Session.InputCloses] at hcloses
  | _ => exact hcloses

theorem Unclosed.step (h : l.Unclosed) (hl : l.WellFormed) (hcloses : ¬l.Closes event)
    (hstep : l.step event = some (l', sent)) : l'.Unclosed := by
  refine ⟨?_, ?_, ?_⟩
  · rw [(step_closes hstep).resolve_right hcloses]
    exact h.isOpen
  · intro seg hseg
    exact h.chan seg ((step_follows hl hstep).1.step.recvChan_subset hseg)
  · intro seg hclosing
    rcases (step_loops_eq hstep).2 with hsame | ⟨env, rfl⟩
    · exact h.input seg (hsame ▸ hclosing)
    · cases step_inv hstep with | @input _ t input _ hinput =>
      have hnext : input = .closing seg := hclosing
      rcases Session.inputStep_next hinput with ⟨_, _, hholding, _⟩ |
        ⟨other, hother, _, hprotocol⟩ | hplain
      · cases hnext.symm.trans hholding
      · have hordinary := h.chan other hother
        rcases hprotocol with hrequest | hresponse
        · exact hordinary.1 hrequest
        · exact hordinary.2 hresponse
      · rw [hnext] at hplain
        cases hplain

theorem roomy_new {id : UInt32} {isClient : Bool} {mtu : Nat}
    {transport : TransportProtocol} {addr : Addr} {now : Int} :
    Roomy { session := Session.new id isClient mtu transport addr now } := by
  refine ⟨?_, by simp [WriterState.HasJob], by simp [sendView, Session.sendView,
    OutputState.phase], by simp⟩
  have hreserved : (Session.new id isClient mtu transport addr now).reserved ≤
    1 := Session.reserved_le_one
  change 0 + 0 + (Session.new id isClient mtu transport addr now).reserved ≤ segmentTreeCapacity
  unfold segmentTreeCapacity
  omega

end LiveSession

end Mieru.Protocol
