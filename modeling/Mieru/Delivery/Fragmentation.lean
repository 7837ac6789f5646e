import Mieru.Delivery.Fragments
import Mieru.Session.Congestion

/-!
# How `Write` cuts its bytes

A running session is watched together with its congestion window and its last
`Write`.  `oLock` is held from the first fragment of a chunk to its last, and
is free between two chunks: the input loop of a server may then queue the open
session response, which takes the next sequence number.
-/

namespace Mieru.Protocol

open Mieru.Foundation
open Mieru.Congestion
open ProtocolType

/-! ## A session, its congestion window and its last `Write` -/

def SessionEvent.withWindow (window : Nat) : SessionEvent → SessionEvent
  | .writer env => .writer { env with congestionWindowSize := window }
  | .reader env => .reader { env with congestionWindowSize := window }
  | .output env => .output { env with congestionWindowSize := window }
  | .input env => .input { env with congestionWindowSize := window }
  | .closer env => .closer { env with congestionWindowSize := window }
  | event => event

/-- `writeChunk` holds `oLock` between its first and its last fragment. -/
def WriterState.holdsOLock : WriterState → Bool
  | .queueing job => decide (job.ptr.length < job.size)
  | _ => false

structure FragmentingSession where
  writing : WritingSession
  cubic : CubicSendAlgorithm := newCubic
  first : UInt32 := 0
  /-- The open session response, if it was queued since then, and how many
  segments of the call were queued before it. -/
  answer : Option (Nat × Segment) := none

inductive FragmentingEvent where
  | session (event : SessionEvent)
  | receive (seg : Segment)
  | window (change : CubicEvent)

namespace FragmentingSession

abbrev live (w : FragmentingSession) : LiveSession := w.writing.live

abbrev inserts (w : FragmentingSession) : List Insertion :=
  w.writing.call.inserts

def responds (w : FragmentingSession) : SessionEvent → Bool
  | .input env => w.live.session.queuesResponse env w.live.input
  | _ => false

def firstAfter (w : FragmentingSession) : SessionEvent → UInt32
  | .write _ => w.live.session.nextSend
  | _ => w.first

def answerAfter (w : FragmentingSession) (event : SessionEvent) : Option (Nat × Segment) :=
  match event with
  | .write _ => none
  | _ =>
    if w.responds event then
      some (w.inserts.length, w.live.session.openResponse)
    else w.answer

/-- A step of the session.  The response has to wait for `oLock`. -/
def sessionNext (w : FragmentingSession) (event : SessionEvent) : Option FragmentingSession :=
  if w.responds event && w.live.writer.holdsOLock then none
  else
    (w.writing.next (.inl event)).map fun writing =>
      { w with
        writing := writing
        first := w.firstAfter event
        answer := w.answerAfter event }

def next (w : FragmentingSession) : FragmentingEvent → Option FragmentingSession
  | .session event =>
    w.sessionNext (event.withWindow w.cubic.congestionWindowSize.toNat)
  | .receive seg =>
    (w.writing.next (.inr seg)).map fun writing =>
      { w with writing := writing }
  | .window change => some { w with cubic := w.cubic.apply change }

def IsInitial (w : FragmentingSession) : Prop :=
  ∃ (id : UInt32) (isClient : Bool) (mtu : Nat)
    (transport : TransportProtocol) (addr : Addr) (now : Int),
    IsValidMTU mtu ∧ w = { writing := { live :=
      { session := Session.new id isClient mtu transport addr now } } }

end FragmentingSession

def fragmentingSystem : System FragmentingSession FragmentingEvent :=
  System.ofNext FragmentingSession.IsInitial FragmentingSession.next

namespace FragmentingSession

/-- The response took one number before the `k`-th segment of the call. -/
def skipped (w : FragmentingSession) (k : Nat) : Nat :=
  match w.answer with
  | some (j, _) => if j ≤ k then 1 else 0
  | none => 0

/-- The numbers of the segments: they are consecutive, but for the number that
an open session response takes between two chunks. -/
structure Numbered (w : FragmentingSession) : Prop where
  seq : ∀ k i, w.inserts[k]? = some i → i.seg.seq = w.first + UInt32.ofNat (k + w.skipped k)
  answer : ∀ j seg, w.answer = some (j, seg) →
    w.live.session.isClient = false ∧ seg.protocol = openSessionResponse ∧
      seg.seq = w.first + UInt32.ofNat j ∧ j ≤ w.inserts.length ∧
      ∃ rest, Chunks w.writing.call.b (w.inserts.take j) rest

/-- What a call of `Write` that succeeded has queued. -/
structure Faithful (w : FragmentingSession) : Prop where
  payload : carried w.inserts = w.writing.call.b
  inserted : ∀ i ∈ w.inserts, i.ok = true
  exact : ∀ i ∈ w.inserts, i.Exact
  sized : ∀ i ∈ w.inserts, i.Sized w.writing.fragmentSize
  chunks : Complete w.live.session.isClient w.writing.call.b w.inserts
  numbered : w.Numbered

def GoesOn (w : FragmentingSession) : Prop :=
  w.live.session.closeRequested = false ∧ ∀ n err, w.live.writer ≠ .returned n (some err)

structure Progress (w : FragmentingSession) : Prop where
  inserted : ∀ i ∈ w.inserts, i.ok = true
  exact : ∀ i ∈ w.inserts, i.Exact
  sized : ∀ i ∈ w.inserts, i.Sized w.writing.fragmentSize
  laid : Laid w.live.session.isClient w.writing.call.b w.inserts w.live.writer
  numbered : w.Numbered
  nextSend : w.live.session.nextSend =
    w.first + UInt32.ofNat (w.inserts.length + w.skipped w.inserts.length)
  answered : w.answer ≠ none → w.live.session.unopened = false

structure Inv (w : FragmentingSession) : Prop where
  writing : w.writing.Inv
  mtu : IsValidMTU w.live.session.mtu
  window : w.cubic.maxWindowSize = maxWindowSize
  roomy : w.live.session.closeRequested = false → w.live.Roomy
  progress : w.GoesOn → w.Progress

end FragmentingSession

theorem SendStep.nextSend_eq {mode : SendMode} {v v' : SendView}
    {sent : List Packet} (h : SendStep mode v sent v')
    (henqueues : mode.enqueues = false) (hclosed : mode.closed = false) :
    v'.nextSend = v.nextSend := by
  cases h with
  | enqueue hmode | overflow hmode => cases henqueues.symm.trans hmode
  | answerClose _ hmode => cases hclosed.symm.trans hmode
  | _ => rfl

namespace LiveSession

variable {l l' : LiveSession} {event : SessionEvent} {sent : List Packet}

theorem nextSend_of_not_enqueues (hl : l.WellFormed) (h : l.step event = some (l', sent))
    (hopen : l'.session.closeRequested = false) (henqueues : l.enqueues event = false) :
    l'.session.nextSend = l.session.nextSend :=
  have hbefore := (step_follows hl h).1.keeps.open_of hopen
  (step_sending hl (ofCloser_of_open hl hbefore h) h).step.nextSend_eq henqueues hopen

theorem nextSend_input {env : Env} (hl : l.WellFormed) (h : l.step (.input env) = some (l', sent))
    (hopen : l'.session.closeRequested = false) : l.session.queuesResponse env l.input = true ∧
        l.session.isClient = false ∧ l.session.unopened = true ∧ l'.session.unopened = false ∧
        l'.session.nextSend = l.session.nextSend + 1 ∨
      l.session.queuesResponse env l.input = false ∧ l'.session.nextSend = l.session.nextSend := by
  cases hinput : l.input with
  | responding seg =>
    cases step_inv h with | input hstep =>
    rw [hinput] at hstep
    exact Session.responding_spec hstep hopen
  | _ =>
    have henqueues : l.enqueues (.input env) = false := by
      simp [enqueues, hinput, Session.responds]
    exact .inr ⟨rfl, nextSend_of_not_enqueues hl h hopen henqueues⟩

end LiveSession

namespace FragmentingSession

variable {w w' : FragmentingSession} {event : SessionEvent}

theorem sessionNext_spec (h : w.sessionNext event = some w') :
    ∃ live sent, w.live.step event = some (live, sent) ∧
      ¬ (w.responds event = true ∧ w.live.writer.holdsOLock = true) ∧ w' = { w with
        writing := { live := live, call := w.writing.callAfter event }
        first := w.firstAfter event
        answer := w.answerAfter event } := by
  obtain ⟨hfree, h⟩ := Option.ite_none_left_eq_some.mp h
  obtain ⟨writing, hnext, rfl⟩ := Option.map_eq_some_iff.mp h
  obtain ⟨⟨live, sent⟩, hstep, rfl⟩ := Option.map_eq_some_iff.mp hnext
  exact ⟨live, sent, hstep, by simpa using hfree, rfl⟩

theorem skipped_of_le {m k : Nat} (h : ∀ j seg, w.answer = some (j, seg) → j ≤ m)
    (hle : m ≤ k) : w.skipped k = w.skipped m := by
  unfold skipped
  split
  · rename_i j seg hanswer
    have hj := h j seg hanswer
    rw [if_pos hj, if_pos (Nat.le_trans hj hle)]
  · rfl

theorem seq_append {first : UInt32} (skip : Nat → Nat)
    (inserts : List Insertion) {new : List Insertion} (hnew : new.length ≤ 1)
    (hold : ∀ k i, inserts[k]? = some i → i.seg.seq = first + UInt32.ofNat (k + skip k))
    (hseq : ∀ i ∈ new, i.seg.seq = first + UInt32.ofNat (inserts.length + skip inserts.length)) :
    ∀ k i, (inserts ++ new)[k]? = some i → i.seg.seq = first + UInt32.ofNat (k + skip k) := by
  intro k i hi
  rcases Nat.lt_or_ge k inserts.length with hlt | hge
  · rw [List.getElem?_append_left hlt] at hi
    exact hold k i hi
  · rw [List.getElem?_append_right hge] at hi
    obtain ⟨hindex, _⟩ := List.getElem?_eq_some_iff.mp hi
    obtain rfl : k = inserts.length := by omega
    exact hseq i (List.mem_of_getElem? hi)

theorem nextSend_append {first nextSend : UInt32} {skip : Nat → Nat} {m n : Nat}
    (h : nextSend = first + UInt32.ofNat (m + skip m)) (hskip : skip (m + n) = skip m) :
    nextSend + UInt32.ofNat n = first + UInt32.ofNat (m + n + skip (m + n)) := by
  rw [h, hskip, Nat.add_right_comm, UInt32.ofNat_add (m + skip m) n, UInt32.add_assoc]

/-! ## The steps of a session -/

theorem boundary_of_free {b : Bytes} {inserts : List Insertion}
    {writer : WriterState} {fragmentSize : Nat} (hlaid : Laid false b inserts writer)
    (hreturned : ∀ n err, writer ≠ .returned n (some err))
    (hsized : ∀ i ∈ inserts, i.Sized fragmentSize)
    (hfree : writer.holdsOLock = false) : ∃ rest, Chunks b inserts rest := by
  cases writer with
  | returned n err =>
    cases err with
    | some err => exact absurd rfl (hreturned n err)
    | none =>
      obtain ⟨opened, data, later, rfl, hopening, hlater, hchunks⟩ :=
        (hlaid rfl).chunks
      obtain rfl : opened = [] := hopening.resolve_right (by simp)
      obtain rfl : later = b := hlater
      exact ⟨[], hchunks⟩
  | writing rest n => exact ⟨rest, UpTo.server hlaid⟩
  | waiting job =>
    obtain ⟨rest, hchunk⟩ := hlaid
    exact ⟨rest, hchunk.upTo.server⟩
  | queueing job =>
    obtain ⟨before, group, rest, rfl, hchunk⟩ := hlaid
    have hgroup : group = [] := by
      refine hchunk.group_eq_nil ?_ (of_decide_eq_false hfree)
      intro i hi
      exact (hsized i (List.mem_append_right _ hi) (hchunk.data i hi)).1
    rw [hgroup, List.append_nil]
    exact ⟨rest, hchunk.upTo.server⟩
  | settling job => exact ⟨job.rest, UpTo.server hlaid⟩
  | comparing job => exact ⟨job.rest, UpTo.server hlaid⟩

variable {l : LiveSession} {sent : List Packet}

theorem length_writeInserts_le (s : Session) (b : Bytes) : (s.writeInserts b).length ≤ 1 := by
  unfold Session.writeInserts
  split <;> simp

theorem length_writerInserts_le (s : Session) (env : Env)
    (writer : WriterState) : (s.writerInserts env writer).length ≤ 1 := by
  unfold Session.writerInserts
  split
  · split <;> simp
  · simp

theorem Progress.write {b : Bytes} (h : w.Inv) (hopen : w.live.session.closeRequested = false)
    (hstep : w.live.step (.write b) = some (l, sent)) : Progress { w with
      writing := { live := l, call := w.writing.callAfter (.write b) }
      first := w.live.session.nextSend
      answer := none } := by
  have hwell := h.writing.wellFormed
  have hkeeps := (LiveSession.step_follows hwell hstep).1.keeps
  have hcall := WritingSession.write_call hstep
  have hsize := WritingSession.fragmentSize_eq hwell hstep
  have hinserts : ∀ i ∈ w.live.session.writeInserts b, w.live.session.Inserts i :=
    Session.inserts_writeInserts fun hopening =>
      have henqueues : w.live.enqueues (.write b) = true := hopening
      (h.roomy hopen).lt_cap henqueues
  have hzero : w.live.session.nextSend = w.live.session.nextSend + UInt32.ofNat (0 + 0) :=
    (UInt32.add_zero _).symm
  refine ⟨fun i hi => (hinserts i hi).ok, fun i hi => (hinserts i hi).exact,
    ?_, ?_, ⟨?_, fun _ _ hanswer => by cases hanswer⟩, ?_,
    fun hanswer => absurd rfl hanswer⟩
  · intro i hi
    change i.Sized (maxFragmentSize l.session.mtu l.session.transportProtocol)
    rw [hsize]
    exact (hinserts i hi).sized
  · change Laid l.session.isClient _ _ _
    rw [hkeeps.sameSide]
    exact Session.laid_write hopen hcall
  · exact seq_append (fun _ => 0) [] (length_writeInserts_le _ b) (by simp)
      fun i hi => (hinserts i hi).seq.trans hzero
  · change l.session.nextSend = _
    rw [Session.nextSend_write hopen hcall]
    rfl

theorem Progress.writer {env : Env} (h : w.Inv) (hprogress : w.Progress)
    (hopen : w.live.session.closeRequested = false)
    (hwindow : env.congestionWindowSize ≤ segmentTreeCapacity)
    (hstep : w.live.step (.writer env) = some (l, sent)) : Progress { w with
      writing := { live := l, call := w.writing.callAfter (.writer env) } } := by
  have hwell := h.writing.wellFormed
  have hkeeps := (LiveSession.step_follows hwell hstep).1.keeps
  obtain ⟨hwriter, _⟩ := WritingSession.writer_call hstep
  have hsize := WritingSession.fragmentSize_eq hwell hstep
  have hinserts : ∀ i ∈ w.live.session.writerInserts env w.live.writer, w.live.session.Inserts i :=
    Session.inserts_writerInserts h.mtu h.writing.sound hprogress.laid hwindow fun hqueueing =>
        have henqueues : w.live.enqueues (.writer env) = true := hqueueing
        (h.roomy hopen).lt_cap henqueues
  have hbound : ∀ j seg, w.answer = some (j, seg) → j ≤ w.inserts.length :=
    fun j seg hanswer => (hprogress.numbered.answer j seg hanswer).2.2.2.1
  refine ⟨?_, ?_, ?_, ?_, ⟨?_, ?_⟩, ?_, ?_⟩
  · intro i hi
    rcases List.mem_append.mp hi with hi | hi
    · exact hprogress.inserted i hi
    · exact (hinserts i hi).ok
  · intro i hi
    rcases List.mem_append.mp hi with hi | hi
    · exact hprogress.exact i hi
    · exact (hinserts i hi).exact
  · intro i hi
    change i.Sized (maxFragmentSize l.session.mtu l.session.transportProtocol)
    rw [hsize]
    rcases List.mem_append.mp hi with hi | hi
    · exact hprogress.sized i hi
    · exact (hinserts i hi).sized
  · change Laid l.session.isClient _ _ _
    rw [hkeeps.sameSide]
    exact Session.laid_writerStep h.mtu h.writing.sound hprogress.laid hwriter
  · exact seq_append _ _ (length_writerInserts_le _ _ _)
      hprogress.numbered.seq fun i hi => (hinserts i hi).seq.trans hprogress.nextSend
  · intro j seg hanswer
    obtain ⟨hserver, hprotocol, hseq, hle, rest, hchunks⟩ :=
      hprogress.numbered.answer j seg hanswer
    refine ⟨hkeeps.sameSide.trans hserver, hprotocol, hseq, ?_, rest, ?_⟩
    · change j ≤ (w.inserts ++ _).length
      rw [List.length_append]
      omega
    · change Chunks _ ((w.inserts ++ _).take j) rest
      rw [List.take_append_of_le_length hle]
      exact hchunks
  · change l.session.nextSend = w.first +
      UInt32.ofNat ((w.inserts ++ _).length + w.skipped (w.inserts ++ _).length)
    rw [Session.nextSend_writerStep hwriter, List.length_append]
    exact nextSend_append hprogress.nextSend (skipped_of_le hbound (Nat.le_add_right _ _))
  · intro hanswer
    exact hkeeps.unopened_eq_false (hprogress.answered hanswer)

theorem Progress.other (h : w.Inv) (hprogress : w.Progress)
    (hevent : LiveSession.ofWriter event = false) (hstep : w.live.step event = some (l, sent))
    (hnext : l.session.nextSend = w.live.session.nextSend) :
    Progress { w with writing := { live := l, call := w.writing.call } } := by
  have hwell := h.writing.wellFormed
  have hkeeps := (LiveSession.step_follows hwell hstep).1.keeps
  have hsize := WritingSession.fragmentSize_eq hwell hstep
  have hwriter := LiveSession.writer_eq hstep hevent
  refine ⟨hprogress.inserted, hprogress.exact, ?_, ?_,
    ⟨hprogress.numbered.seq, ?_⟩, hnext.trans hprogress.nextSend, ?_⟩
  · intro i hi
    change i.Sized (maxFragmentSize l.session.mtu l.session.transportProtocol)
    rw [hsize]
    exact hprogress.sized i hi
  · change Laid l.session.isClient _ _ l.writer
    rw [hkeeps.sameSide, hwriter]
    exact hprogress.laid
  · intro j seg hanswer
    obtain ⟨hserver, hrest⟩ := hprogress.numbered.answer j seg hanswer
    exact ⟨hkeeps.sameSide.trans hserver, hrest⟩
  · intro hanswer
    exact hkeeps.unopened_eq_false (hprogress.answered hanswer)

theorem Progress.respond {env : Env} (h : w.Inv) (hprogress : w.Progress) (hgoes : w.GoesOn)
    (hfree : w.live.writer.holdsOLock = false) (hserver : w.live.session.isClient = false)
    (hunopened : w.live.session.unopened = true) (hstep : w.live.step (.input env) = some (l, sent))
    (hopened : l.session.unopened = false)
    (hnext : l.session.nextSend = w.live.session.nextSend + 1) : Progress { w with
      writing := { live := l, call := w.writing.call }
      answer := some (w.inserts.length, w.live.session.openResponse) } := by
  have hwell := h.writing.wellFormed
  have hkeeps := (LiveSession.step_follows hwell hstep).1.keeps
  have hsize := WritingSession.fragmentSize_eq hwell hstep
  have hwriter := LiveSession.writer_eq hstep rfl
  have hnone : w.answer = none := by
    by_contra hsome
    cases hunopened.symm.trans (hprogress.answered hsome)
  have hskip : ∀ k, w.skipped k = 0 := by
    intro k
    unfold skipped
    rw [hnone]
  have hnumber := hprogress.nextSend
  rw [hskip, Nat.add_zero] at hnumber
  have hlaid := hprogress.laid
  rw [hserver] at hlaid
  obtain ⟨rest, hchunks⟩ :=
    boundary_of_free hlaid hgoes.2 hprogress.sized hfree
  refine ⟨hprogress.inserted, hprogress.exact, ?_, ?_, ⟨?_, ?_⟩, ?_, fun _ => hopened⟩
  · intro i hi
    change i.Sized (maxFragmentSize l.session.mtu l.session.transportProtocol)
    rw [hsize]
    exact hprogress.sized i hi
  · change Laid l.session.isClient _ _ l.writer
    rw [hkeeps.sameSide, hwriter]
    exact hprogress.laid
  · intro k i hi
    have hseq := hprogress.numbered.seq k i hi
    obtain ⟨hlt, _⟩ := List.getElem?_eq_some_iff.mp hi
    rw [hskip] at hseq
    simp only [skipped]
    rw [if_neg (Nat.not_le.mpr hlt)]
    exact hseq
  · rintro j seg ⟨⟩
    refine ⟨hkeeps.sameSide.trans hserver, rfl, hnumber, Nat.le_refl _, rest, ?_⟩
    rw [List.take_length]
    exact hchunks
  · simp only [skipped]
    rw [if_pos (Nat.le_refl _), UInt32.ofNat_add, ← UInt32.add_assoc, ← hnumber]
    exact hnext

theorem GoesOn.before (h : w.Inv) (hstep : w.live.step event = some (l, sent))
    (hevent : ∀ b, event ≠ .write b)
    (hgoes : l.session.closeRequested = false ∧ ∀ n err, l.writer ≠ .returned n (some err)) :
    w.GoesOn := by
  have hwell := h.writing.wellFormed
  have hkeeps := (LiveSession.step_follows hwell hstep).1.keeps
  refine ⟨hkeeps.open_of hgoes.1, fun n err hreturned => ?_⟩
  cases hwriter : LiveSession.ofWriter event with
  | false =>
    have hsame := LiveSession.writer_eq hstep hwriter
    exact hgoes.2 n err (hsame.trans hreturned)
  | true =>
    cases event with
    | write b => exact hevent b rfl
    | writer env =>
      have hinside := (WritingSession.writer_call hstep).2
      rw [hreturned] at hinside
      cases hinside
    | _ => cases hwriter

theorem progress_session (h : w.Inv) (hnext : w.sessionNext event = some w')
    (hwindow : ∀ env, event = .writer env → env.congestionWindowSize ≤ segmentTreeCapacity)
    (hgoes : w'.GoesOn) : w'.Progress := by
  obtain ⟨l, sent, hstep, hlock, rfl⟩ := sessionNext_spec hnext
  have hwell := h.writing.wellFormed
  have hopen := (LiveSession.step_follows hwell hstep).1.keeps.open_of hgoes.1
  -- a step that is no call of `Write` and queues nothing
  have hother : LiveSession.ofWriter event = false → w.responds event = false →
      l.session.nextSend = w.live.session.nextSend →
      Progress { w with
        writing := { live := l, call := w.writing.callAfter event }
        first := w.firstAfter event
        answer := w.answerAfter event } := by
    intro hwriter hresponds hsame
    have hbefore := GoesOn.before h hstep (fun b heq => by rw [heq] at hwriter; cases hwriter) hgoes
    have hprogress := (h.progress hbefore).other h hwriter hstep hsame
    rw [WritingSession.callAfter_other hwriter]
    cases event with
    | write b => cases hwriter
    | _ =>
      simp only [firstAfter, answerAfter, hresponds]
      exact hprogress
  cases event with
  | write b => exact Progress.write h hopen hstep
  | writer env =>
    have hbefore := GoesOn.before h hstep (by simp) hgoes
    exact (h.progress hbefore).writer h hopen (hwindow env rfl) hstep
  | input env =>
    rcases LiveSession.nextSend_input hwell hstep hgoes.1 with
      ⟨hqueues, hserver, hunopened, hopened, hnumber⟩ | ⟨hqueues, hsame⟩
    · have hbefore := GoesOn.before h hstep (by simp) hgoes
      have hresponds : w.responds (.input env) = true := hqueues
      have hfree : w.live.writer.holdsOLock = false := by
        cases hholds : w.live.writer.holdsOLock with
        | false => rfl
        | true => exact absurd ⟨hresponds, hholds⟩ hlock
      have hprogress := (h.progress hbefore).respond h hbefore hfree hserver
        hunopened hstep hopened hnumber
      rw [WritingSession.callAfter_other rfl]
      simp only [firstAfter, answerAfter, hresponds, if_true]
      exact hprogress
    · exact hother rfl hqueues hsame
  | read size | reader env | output env | close | closer env =>
    exact hother rfl rfl (LiveSession.nextSend_of_not_enqueues hwell hstep hgoes.1 rfl)

theorem Inv.session (h : w.Inv) (hnext : w.sessionNext event = some w')
    (hwindow : ∀ env, event = .writer env → env.congestionWindowSize ≤ segmentTreeCapacity) :
    w'.Inv := by
  have hprogress := progress_session h hnext hwindow
  obtain ⟨l, sent, hstep, _, rfl⟩ := sessionNext_spec hnext
  have hwriting : w.writing.next (.inl event) =
      some { live := l, call := w.writing.callAfter event } := by
    simp only [WritingSession.next]
    rw [hstep]
    rfl
  refine ⟨h.writing.next hwriting, ?_, h.window, ?_, hprogress⟩
  · change IsValidMTU l.session.mtu
    rw [LiveSession.mtu_step hstep]
    exact h.mtu
  · intro hopen
    have hwell := h.writing.wellFormed
    have hbefore :=
      (LiveSession.step_follows hwell hstep).1.keeps.open_of hopen
    exact (h.roomy hbefore).step hwell hstep hopen

theorem Inv.receive {seg : Segment} (h : w.Inv) (hreceive : w.live.receive seg = some l) :
    Inv { w with writing := { w.writing with live := l } } := by
  have hwriting : w.writing.next (.inr seg) = some { w.writing with live := l } := by
    simp only [WritingSession.next]
    rw [hreceive]
    rfl
  have hroomy := fun hopen => (h.roomy hopen).receive hreceive
  have hinv := h.writing.next hwriting
  obtain ⟨-, rfl⟩ := LiveSession.receive_eq_some hreceive
  refine ⟨hinv, h.mtu, h.window, hroomy, fun hgoes => ?_⟩
  have hprogress := h.progress hgoes
  exact ⟨hprogress.inserted, hprogress.exact, hprogress.sized,
    hprogress.laid, ⟨hprogress.numbered.seq, hprogress.numbered.answer⟩,
    hprogress.nextSend, hprogress.answered⟩

theorem Inv.window_le (h : w.Inv) : w.cubic.congestionWindowSize.toNat ≤ segmentTreeCapacity := by
  have hle := UInt32.le_iff_toNat_le.mp w.cubic.le_max
  rw [h.window] at hle
  exact hle

theorem Inv.next {event : FragmentingEvent} (h : w.Inv)
    (hnext : w.next event = some w') : w'.Inv := by
  cases event with
  | session event =>
    refine h.session hnext fun env heq => ?_
    cases event with
    | writer env' =>
      cases heq
      exact h.window_le
    | _ => cases heq
  | receive seg =>
    obtain ⟨writing, hwriting, rfl⟩ := Option.map_eq_some_iff.mp hnext
    obtain ⟨l, hreceive, rfl⟩ := Option.map_eq_some_iff.mp hwriting
    exact h.receive hreceive
  | window change =>
    cases hnext
    refine ⟨h.writing, h.mtu, ?_, h.roomy, fun hgoes => ?_⟩
    · exact (w.cubic.maxWindowSize_apply change).trans h.window
    · have hprogress := h.progress hgoes
      exact ⟨hprogress.inserted, hprogress.exact, hprogress.sized,
        hprogress.laid, ⟨hprogress.numbered.seq, hprogress.numbered.answer⟩,
        hprogress.nextSend, hprogress.answered⟩

theorem inv_of_isInitial (h : w.IsInitial) : w.Inv := by
  obtain ⟨id, isClient, mtu, transport, addr, now, hmtu, rfl⟩ := h
  have hsize := (Session.maxFragmentSize_le hmtu transport).1
  have hpositive : 0 < maxFragmentSize mtu transport := by omega
  refine ⟨WritingSession.inv_of_isInitial ⟨id, isClient, mtu, transport, addr, now, hpositive, rfl⟩,
    hmtu, rfl, fun _ => LiveSession.roomy_new, fun _ => ?_⟩
  have hnone : ∀ (k : Nat) (i : Insertion), [][k]? ≠ some i := by simp
  exact ⟨fun _ hi => absurd hi List.not_mem_nil, fun _ hi => absurd hi List.not_mem_nil,
    fun _ hi => absurd hi List.not_mem_nil,
    fun _ => (upTo_start []).complete,
    ⟨fun k i hi => absurd hi (hnone k i), fun _ _ hanswer => by cases hanswer⟩,
    (UInt32.add_zero 0).symm, fun hanswer => absurd rfl hanswer⟩

/-- In every run on which no close is requested, what a call of `Write` that
succeeds has queued is faithful to its bytes. -/
theorem write_faithful (h : fragmentingSystem.Reachable w) {n : Nat}
    (hreturned : w.live.writer = .returned n none)
    (hopen : w.live.session.closeRequested = false) : w.Faithful := by
  have hinv : w.Inv :=
    System.Reachable.invariant (P := Inv) (fun _ hinit => inv_of_isInitial hinit)
      (fun _ _ _ hinv hnext => hinv.next hnext) h
  have hprogress := hinv.progress ⟨hopen, fun m err heq => by cases hreturned.symm.trans heq⟩
  have hlaid := hprogress.laid
  rw [hreturned] at hlaid
  exact ⟨(hlaid rfl).payload, hprogress.inserted, hprogress.exact,
    hprogress.sized, hlaid rfl, hprogress.numbered⟩

def fragmentingClient : FragmentingSession where
  writing := WritingSession.newClient

theorem fragmentingClient_isInitial : fragmentingClient.IsInitial :=
  ⟨7, true, 1280, .packetTransport, "server", 0, ⟨by decide, by decide⟩, rfl⟩

def writerSteps (n : Nat) : List FragmentingEvent :=
  List.replicate n (.session (.writer (.calm .fallback)))

def outputSteps (n : Nat) : List FragmentingEvent :=
  List.replicate n (.session (.output (.calm .notEmptyEvent)))

def twoWrites : List FragmentingEvent :=
  .session (.write [1]) :: outputSteps 6 ++
    .session (.write (List.replicate 1193 0)) :: writerSteps 6

theorem write_faithful_twoWrites : ∃ w, fragmentingSystem.Reachable w ∧
      w.live.writer = .returned 1193 none ∧
      w.inserts.map (·.seg.fragment) = [1, 0] ∧ w.Faithful := by
  obtain ⟨w, hreach, hreturned, hfragments, hopen⟩ : ∃ w, fragmentingSystem.Reachable w ∧
      w.live.writer = .returned 1193 none ∧ w.inserts.map (·.seg.fragment) = [1, 0] ∧
      w.live.session.closeRequested = false :=
    System.exists_reachable fragmentingClient_isInitial twoWrites (by decide +kernel)
  exact ⟨w, hreach, hreturned, hfragments, write_faithful hreach hreturned hopen⟩

theorem chunkJob_append {s : Session} {chunk rest : Bytes} (n : Nat)
    (hlength : chunk.length = maxPDU) (htransport : s.transportProtocol = .streamTransport) :
    s.chunkJob (chunk ++ rest) n =
      { ptr := chunk
        fragmentsLeft := 1
        seqBeforeWrite := s.sendQueue.minSeq.getD 0
        size := maxPDU
        rest := rest
        n := n } := by
  have hsize : min (chunk ++ rest).length maxPDU = maxPDU := by
    rw [List.length_append]
    omega
  have htake : (chunk ++ rest).take maxPDU = chunk := by
    rw [← hlength, List.take_left]
  have hdrop : (chunk ++ rest).drop maxPDU = rest := by
    rw [← hlength, List.drop_left]
  simp only [Session.chunkJob, hsize, htransport, maxFragmentSize, htake,
    hdrop, gt_iff_lt, Nat.lt_irrefl, if_false]

def waitingWith (w : FragmentingSession) (chunk rest : Bytes) : FragmentingSession :=
  { w with
    writing := {
      live := { w.live with
        writer := .waiting {
          ptr := chunk
          fragmentsLeft := 1
          seqBeforeWrite := w.live.session.sendQueue.minSeq.getD 0
          size := maxPDU
          rest := rest
          n := 0 } }
      call := { b := chunk ++ rest, before := w.live.session.counted } }
    first := w.live.session.nextSend
    answer := none }

theorem run_waitingWith {chunk rest : Bytes} {env : Env} {n : Nat} {err : Option WriteError}
    (hopen : w.live.session.closeRequested = false) (hserver : w.live.session.isClient = false)
    (hattached : w.live.session.state = .sessionAttached)
    (hwriter : w.live.writer = .returned n err) (hlength : chunk.length = maxPDU)
    (htransport : w.live.session.transportProtocol = .streamTransport) :
    System.runEvents next w [.session (.write (chunk ++ rest)), .session (.writer env)] =
      some (w.waitingWith chunk rest) := by
  have hopening : w.live.session.opening = false := by
    simp [Session.opening, hserver]
  have hwrite : w.live.session.write (chunk ++ rest) =
      (w.live.session, .writing (chunk ++ rest) 0) := by
    unfold Session.write
    rw [if_neg (by simp [hopen]), if_neg (by simp [Session.isStateBefore, hattached]),
      if_neg (by simp [Session.isStateAfter, hattached, SessionState.toNat]),
      if_neg (by simp [hopening])]
  have hsome : chunk ++ rest ≠ [] := by
    intro hnil
    have hzero := congrArg List.length hnil
    rw [List.length_append, hlength] at hzero
    have hpdu : maxPDU = 32768 := by decide
    simp only [List.length_nil] at hzero
    omega
  have hinserts : w.live.session.writeInserts (chunk ++ rest) = [] := by
    simp [Session.writeInserts, hopening]
  simp only [System.runEvents, next, SessionEvent.withWindow, sessionNext,
    responds, Bool.false_and, Bool.false_eq_true, if_false,
    WritingSession.next, LiveSession.step, LiveSession.write, hwriter, hwrite,
    Option.map_some, Option.bind_some, WritingSession.callAfter,
    LiveSession.inserts, hinserts, Session.writerStep, if_neg hsome,
    chunkJob_append 0 hlength htransport, firstAfter, answerAfter,
    Session.writerInserts, List.append_nil, waitingWith]

def fragmentingServer : FragmentingSession where
  writing := { live :=
    { session := Session.new 7 false 1400 .streamTransport "client" 0 } }

theorem fragmentingServer_isInitial : fragmentingServer.IsInitial :=
  ⟨7, false, 1400, .streamTransport, "client", 0, ⟨by decide, by decide⟩, rfl⟩

def arrivingRequest : Segment where
  metadata := .session {
    protocol := openSessionRequest
    sessionID := 7
    seq := 0 }

def requestArrives : List FragmentingEvent :=
  [.receive arrivingRequest, .session (.input (.calm .fallback)),
    .session (.input (.calm .fallback))]

def answersBetweenChunks : List FragmentingEvent :=
  writerSteps 2 ++ outputSteps 4 ++ writerSteps 1 ++
    [FragmentingEvent.session (.input (.calm .fallback))] ++
    writerSteps 3 ++ outputSteps 6 ++ writerSteps 2

/-- The sequence numbers are those that follow `first` one by one. -/
def Consecutive (first : UInt32) (inserts : List Insertion) : Prop :=
  ∀ k i, inserts[k]? = some i → i.seg.seq = first + UInt32.ofNat k

theorem not_consecutive {first : UInt32} {inserts : List Insertion}
    (h : inserts.map (·.seg.seq) = [0, 2]) : ¬ Consecutive first inserts := by
  intro hconsecutive
  have hat : ∀ k : Nat, (inserts.map (·.seg.seq))[k]? = ([0, 2] : List UInt32)[k]? := by
    simp [h]
  obtain ⟨i, hi, hzero⟩ := Option.map_eq_some_iff.mp ((List.getElem?_map).symm.trans (hat 0))
  obtain ⟨j, hj, htwo⟩ := Option.map_eq_some_iff.mp ((List.getElem?_map).symm.trans (hat 1))
  have hfirst : first = 0 := by
    rw [← hzero, hconsecutive 0 i hi]
    exact (UInt32.add_zero first).symm
  rw [hconsecutive 1 j hj, hfirst] at htwo
  exact absurd htwo (by decide)

/-- The two segments of a `Write` of 32769 bytes are numbered 0 and 2. -/
theorem write_not_consecutive : ∃ w, fragmentingSystem.Reachable w ∧
      w.live.writer = .returned 32769 none ∧ w.live.session.closeRequested = false ∧
      w.inserts.map (·.seg.seq) = [0, 2] ∧ ∀ first, ¬ Consecutive first w.inserts := by
  have hlength : (List.replicate maxPDU (0 : UInt8)).length = maxPDU :=
    List.length_replicate
  have hrequest : (System.runEvents next fragmentingServer requestArrives).map
      (fun w => (w.live.session.closeRequested, w.live.session.isClient,
        w.live.session.state, w.live.writer,
        w.live.session.transportProtocol)) =
      some (false, false, .sessionAttached, .returned 0 none, .streamTransport) := by
    decide +kernel
  have hanswer : ((System.runEvents next fragmentingServer requestArrives).bind
      fun w => System.runEvents next (w.waitingWith (List.replicate maxPDU 0) [0])
        answersBetweenChunks).map
      (fun w => (w.live.writer, w.live.session.closeRequested, w.inserts.map (·.seg.seq))) =
      some (.returned 32769 none, false, [0, 2]) := by
    decide +kernel
  obtain ⟨w, hw, hreport⟩ := Option.map_eq_some_iff.mp hanswer
  obtain ⟨v, hv, hlater⟩ := Option.bind_eq_some_iff.mp hw
  obtain ⟨v', hv', hstate⟩ := Option.map_eq_some_iff.mp hrequest
  obtain rfl : v = v' := Option.some.inj (hv.symm.trans hv')
  simp only [Prod.mk.injEq] at hstate hreport
  obtain ⟨hopen, hserver, hattached, hwriter, htransport⟩ := hstate
  have hwaits : System.runEvents next v [.session (.write (List.replicate maxPDU 0 ++ [0])),
        .session (.writer (.calm .fallback))] =
      some (v.waitingWith (List.replicate maxPDU 0) [0]) :=
    run_waitingWith hopen hserver hattached hwriter hlength htransport
  have hreach : fragmentingSystem.Reachable v :=
    System.Reachable.run (.init fragmentingServer_isInitial) hv
  have hreach : fragmentingSystem.Reachable w :=
    System.Reachable.run (System.Reachable.run hreach hwaits) hlater
  exact ⟨w, hreach, hreport.1, hreport.2.1, hreport.2.2, fun first => not_consecutive hreport.2.2⟩

end FragmentingSession

end Mieru.Protocol
