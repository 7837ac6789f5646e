import Mieru.Delivery.Room
import Mieru.Foundation.TransitionSystem
import Mieru.Session.Steady

/-!
# What a call of `Write` queues

A running session is watched together with its last `Write`: the bytes it was
called with, the user's counter at the call, and every `Insert` into the send
queue that this call made.  `writeChunk` leaves its fragment loop on any
failure with the fragments before it already queued, and `Write` then returns
the bytes of the chunks before; the counter of a server grows only if `Write`
gets to its end.
-/

namespace Mieru.Protocol

open Mieru.Foundation

variable {job : ChunkJob} {writer' : WriterState} {b : Bytes} {event : SessionEvent} {env : Env}

/-- One call of `Insert` by a `Write`, with the numbers that two of the fields
of the segment were converted from. -/
structure Insertion where
  seg : Segment
  ok : Bool
  fragment : Nat := 0
  windowSize : Nat := 0
  deriving DecidableEq

def insertedBytes (inserts : List Insertion) : Bytes :=
  (inserts.filter (·.ok)).flatMap (·.seg.payload)

@[simp] theorem insertedBytes_nil : insertedBytes [] = [] := rfl

theorem insertedBytes_append (first second : List Insertion) : insertedBytes (first ++ second) =
      insertedBytes first ++ insertedBytes second := by
  simp [insertedBytes]

namespace Session

def requestInsert (s : Session) (b : Bytes) : Insertion where
  seg := s.openRequest b
  ok := (s.sendQueue.insert (s.openRequest b)).1

def fragmentInsert (s : Session) (env : Env) (job : ChunkJob) : Insertion where
  seg := s.dataSegment env job
  ok := (s.sendQueue.insert (s.dataSegment env job)).1
  fragment := job.fragmentsLeft - 1
  windowSize := s.receiveWindowSize env

def writeInserts (s : Session) (b : Bytes) : List Insertion :=
  if !s.closeRequested && s.opening then [s.requestInsert b] else []

def writerInserts (s : Session) (env : Env) : WriterState → List Insertion
  | .queueing job =>
    if s.writerExit env.choice = some none then [s.fragmentInsert env job]
    else []
  | _ => []

end Session

def LiveSession.inserts (l : LiveSession) : SessionEvent → List Insertion
  | .write b => l.session.writeInserts b
  | .writer env => l.session.writerInserts env l.writer
  | _ => []

/-! ## The state of a writer -/

structure ChunkJob.Sound (fragmentSize : Nat) (job : ChunkJob) : Prop where
  ptr_le : job.ptr.length ≤ job.size
  positive : 1 ≤ job.fragmentsLeft
  covers : job.ptr.length ≤ job.fragmentsLeft * fragmentSize
  needs : (job.fragmentsLeft - 1) * fragmentSize < job.ptr.length

namespace WriterState

def pending : WriterState → Bytes
  | .returned _ _ => []
  | .writing rest _ => rest
  | .waiting job => job.ptr ++ job.rest
  | .queueing job => job.ptr ++ job.rest
  | .settling job => job.ptr ++ job.rest
  | .comparing job => job.ptr ++ job.rest

def chunkQueued : WriterState → Nat
  | .waiting job => job.size - job.ptr.length
  | .queueing job => job.size - job.ptr.length
  | .settling job => job.size - job.ptr.length
  | .comparing job => job.size - job.ptr.length
  | _ => 0

def counted : WriterState → Nat
  | .returned n _ => n
  | .writing _ n => n
  | .waiting job => job.n
  | .queueing job => job.n
  | .settling job => job.n
  | .comparing job => job.n

def Sound (fragmentSize : Nat) : WriterState → Prop
  | .waiting job => job.Sound fragmentSize ∧ job.ptr.length = job.size
  | .queueing job => job.Sound fragmentSize
  | .settling job => job.ptr = []
  | .comparing job => job.ptr = []
  | _ => True

end WriterState

namespace Session

variable {s t : Session} {env : Env} {fragmentSize : Nat} {writer : WriterState}

theorem sound_chunkJob {rest : Bytes} (n : Nat) (hrest : rest ≠ [])
    (hsize : 0 < maxFragmentSize s.mtu s.transportProtocol) :
    (s.chunkJob rest n).Sound (maxFragmentSize s.mtu s.transportProtocol) ∧
      (s.chunkJob rest n).ptr.length = (s.chunkJob rest n).size := by
  generalize hfragment : maxFragmentSize s.mtu s.transportProtocol = fragmentSize at hsize
  have hpos : 0 < rest.length := List.length_pos_iff.mpr hrest
  have hpdu : 0 < maxPDU := by decide
  simp only [chunkJob, hfragment]
  generalize hchunk : min rest.length maxPDU = size
  have hptr : (rest.take size).length = size := by
    rw [List.length_take]
    omega
  have hone : 1 ≤ size := by omega
  refine ⟨⟨Nat.le_of_eq hptr, ?_, ?_, ?_⟩, hptr⟩
  · dsimp only
    split
    · exact Nat.le_add_left 1 _
    · exact Nat.le_refl 1
  · dsimp only
    rw [hptr]
    split
    · have hlt := Nat.lt_mul_div_succ (size - 1) hsize
      rw [Nat.mul_comm] at hlt
      omega
    · omega
  · dsimp only
    rw [hptr]
    split
    · have hle := Nat.div_mul_le_self (size - 1) fragmentSize
      rw [Nat.add_sub_cancel]
      omega
    · omega

theorem pending_chunkJob (rest : Bytes) (n : Nat) :
    (s.chunkJob rest n).ptr ++ (s.chunkJob rest n).rest = rest :=
  List.take_append_drop _ rest

theorem payload_dataSegment (job : ChunkJob) : (s.dataSegment env job).payload =
      job.ptr.take (maxFragmentSize s.mtu s.transportProtocol) := rfl

theorem ptr_nextJob (env : Env) (job : ChunkJob) :
    (s.dataSegment env job).payload ++ (s.nextJob env job).ptr = job.ptr := by
  have hdrop : job.ptr.drop (s.dataSegment env job).payload.length =
      job.ptr.drop (maxFragmentSize s.mtu s.transportProtocol) := by
    rw [payload_dataSegment, List.length_take]
    rcases Nat.le_total (maxFragmentSize s.mtu s.transportProtocol) job.ptr.length with hle | hle
    · rw [Nat.min_eq_left hle]
    · rw [Nat.min_eq_right hle, List.drop_length, List.drop_of_length_le hle]
  simp only [nextJob, hdrop]
  exact List.take_append_drop _ _

theorem length_nextJob (env : Env) (job : ChunkJob) :
    (s.nextJob env job).ptr.length = job.ptr.length -
      maxFragmentSize s.mtu s.transportProtocol := by
  have happend := congrArg List.length (s.ptr_nextJob env job)
  rw [List.length_append, payload_dataSegment, List.length_take] at happend
  omega

theorem sound_nextJob (h : job.Sound (maxFragmentSize s.mtu s.transportProtocol))
    (hmore : job.fragmentsLeft - 1 ≠ 0) :
    (s.nextJob env job).Sound (maxFragmentSize s.mtu s.transportProtocol) := by
  have hlength := s.length_nextJob env job
  have hle := h.ptr_le
  have hcovers := h.covers
  have hneeds := h.needs
  generalize maxFragmentSize s.mtu s.transportProtocol = size at *
  obtain ⟨left, hleft⟩ : ∃ left, job.fragmentsLeft = left + 2 :=
    ⟨job.fragmentsLeft - 2, by omega⟩
  have hnext : (s.nextJob env job).fragmentsLeft = left + 1 := by
    simp only [nextJob, hleft]
    omega
  rw [hleft] at hcovers hneeds
  simp only [Nat.add_mul, Nat.one_mul, show left + 2 - 1 = left + 1 from rfl] at hcovers hneeds
  refine ⟨?_, ?_, ?_, ?_⟩
  · change (s.nextJob env job).ptr.length ≤ job.size
    omega
  · omega
  · rw [hlength, hnext, Nat.add_mul, Nat.one_mul]
    omega
  · rw [hlength, hnext, Nat.add_sub_cancel]
    omega

theorem ptr_nextJob_last (h : job.Sound (maxFragmentSize s.mtu s.transportProtocol))
    (hlast : job.fragmentsLeft - 1 = 0) : (s.nextJob env job).ptr = [] := by
  have hpositive := h.positive
  have hcovers := h.covers
  have hone : job.fragmentsLeft = 1 := by omega
  rw [hone, Nat.one_mul] at hcovers
  apply List.eq_nil_of_length_eq_zero
  rw [length_nextJob]
  omega

/-! ## One step of the writer -/

structure Moves (writer : WriterState) (inserts : List Insertion)
    (writer' : WriterState) : Prop where
  pending : insertedBytes inserts ++ writer'.pending = writer.pending
  counted : writer'.counted + writer'.chunkQueued =
    writer.counted + writer.chunkQueued + (insertedBytes inserts).length

structure Returns (writer : WriterState) (inserts : List Insertion)
    (n : Nat) (err : Option WriteError) : Prop where
  inserted : insertedBytes inserts = []
  counted : n = writer.counted
  complete : err = none → writer.pending = [] ∧ writer.chunkQueued = 0

theorem moves_nextJob (hle : job.ptr.length ≤ job.size) (hok : (s.fragmentInsert env job).ok = true)
    (hpending : writer'.pending = (s.nextJob env job).ptr ++ job.rest)
    (hcounted : writer'.counted = job.n)
    (hqueued : writer'.chunkQueued = job.size - (s.nextJob env job).ptr.length) :
    Moves (.queueing job) [s.fragmentInsert env job] writer' := by
  have hbytes : insertedBytes [s.fragmentInsert env job] = (s.dataSegment env job).payload := by
    simp only [insertedBytes, List.filter_cons, hok, if_true, List.filter_nil]
    exact List.append_nil _
  have happend := s.ptr_nextJob env job
  have hlength := congrArg List.length happend
  rw [List.length_append] at hlength
  constructor
  · rw [hbytes, hpending, ← List.append_assoc, happend]
    rfl
  · rw [hbytes, hcounted, hqueued]
    change job.n + _ = job.n + (job.size - job.ptr.length) + _
    omega

theorem Moves.same (hpending : writer'.pending = writer.pending)
    (hcounted : writer'.counted + writer'.chunkQueued = writer.counted + writer.chunkQueued) :
    Moves writer [] writer' :=
  ⟨by simpa using hpending, by simpa using hcounted⟩

theorem moves_settled (hpending : writer.pending = job.ptr ++ job.rest)
    (hcounted : writer.counted = job.n) (hqueued : writer.chunkQueued = job.size - job.ptr.length)
    (hptr : job.ptr = []) : Moves writer [] (.writing job.rest (job.n + job.size)) := by
  apply Moves.same
  · rw [hpending, hptr]
    rfl
  · rw [hcounted, hqueued, hptr]
    rfl

theorem writerStep_spec (hsize : 0 < maxFragmentSize s.mtu s.transportProtocol)
    (hsound : writer.Sound (maxFragmentSize s.mtu s.transportProtocol))
    (h : s.writerStep env writer = some (t, writer')) :
    writer'.Sound (maxFragmentSize s.mtu s.transportProtocol) ∧
      (Moves writer (s.writerInserts env writer) writer' ∧ writer'.inCall = true ∨
        ∃ n err, writer' = .returned n err ∧
          Returns writer (s.writerInserts env writer) n err) := by
  -- A fragment is queued only if no case of the `select` is ready.
  have hone : ∀ {job : ChunkJob}, s.writerExit env.choice = some none →
      s.writerInserts env (.queueing job) = [s.fragmentInsert env job] := by
    intro job hexit
    simp [writerInserts, hexit]
  have hok : ∀ {job : ChunkJob} {ok : Bool} {u : Session},
      s.enqueue (s.dataSegment env job) = (ok, u) → (s.fragmentInsert env job).ok = ok :=
    fun henqueue => congrArg Prod.fst henqueue
  cases writerStep_inv h with
  | done n => exact ⟨trivial, .inr ⟨n, none, rfl, rfl, rfl, fun _ => ⟨rfl, rfl⟩⟩⟩
  | chunk n hrest =>
    rename_i rest
    obtain ⟨hjob, hlength⟩ := s.sound_chunkJob n hrest hsize
    refine ⟨⟨hjob, hlength⟩, .inl ⟨Moves.same ?_ ?_, rfl⟩⟩
    · exact pending_chunkJob rest n
    · change n + ((s.chunkJob rest n).size - (s.chunkJob rest n).ptr.length) = n + 0
      omega
  | stopped =>
    exact ⟨trivial, .inr ⟨_, _, rfl, rfl, rfl, fun hnone => by cases hnone⟩⟩
  | blocked => exact ⟨hsound, .inl ⟨Moves.same rfl rfl, rfl⟩⟩
  | ready => exact ⟨hsound.1, .inl ⟨Moves.same rfl rfl, rfl⟩⟩
  | @broken err job hexit =>
    have hnone : s.writerInserts env (.queueing job) = [] := by
      simp [writerInserts, hexit]
    rw [hnone]
    exact ⟨trivial, .inr ⟨_, _, rfl, rfl, rfl, fun hnone => by cases hnone⟩⟩
  | full hexit henqueue =>
    rw [hone hexit]
    refine ⟨trivial, .inr ⟨_, _, rfl, ?_, rfl, fun hnone => by cases hnone⟩⟩
    simp only [insertedBytes, List.filter_cons, hok henqueue,
      Bool.false_eq_true, if_false, List.filter_nil, List.flatMap_nil]
  | last hexit henqueue hlast =>
    rw [hone hexit]
    exact ⟨ptr_nextJob_last hsound hlast,
      .inl ⟨moves_nextJob hsound.ptr_le (hok henqueue) rfl rfl rfl, rfl⟩⟩
  | queued hexit henqueue hmore =>
    rw [hone hexit]
    exact ⟨sound_nextJob hsound hmore,
      .inl ⟨moves_nextJob hsound.ptr_le (hok henqueue) rfl rfl rfl, rfl⟩⟩
  | emptied | moved => exact ⟨trivial, .inl ⟨moves_settled rfl rfl rfl hsound, rfl⟩⟩
  | unsettled | unmoved => exact ⟨hsound, .inl ⟨Moves.same rfl rfl, rfl⟩⟩

theorem write_spec (h : s.write b = (t, writer)) :
    (∃ n err, writer = .returned n err ∧
        insertedBytes (s.writeInserts b) = b.take n ∧ n ≤ b.length ∧ (n = 0 ∨ s.isClient = true)) ∨
      writer = .writing b 0 ∧ insertedBytes (s.writeInserts b) = [] := by
  have hone : s.closeRequested = false → s.opening = true →
      s.writeInserts b = [s.requestInsert b] := by
    intro hopen hopening
    simp [writeInserts, hopen, hopening]
  have hpayload : (s.openRequest b).payload =
      if b.length ≤ maxSessionOpenPayload then b else [] := rfl
  have hbytes : ∀ {u : Session}, s.setOpenSessionRequestSent.enqueue (s.openRequest b) = (true, u) →
      insertedBytes [s.requestInsert b] = (s.openRequest b).payload := by
    intro u henqueue
    have hok : (s.requestInsert b).ok = true := congrArg Prod.fst henqueue
    simp only [insertedBytes, List.filter_cons, hok, if_true, List.filter_nil]
    exact List.append_nil _
  cases writeStart h with
  | refused hnot =>
    refine .inl ⟨0, _, rfl, ?_, Nat.zero_le _, .inl rfl⟩
    rcases hnot with hclosed | hopening
    · simp [writeInserts, hclosed]
    · simp [writeInserts, hopening]
  | full hopen hopening henqueue =>
    have hok : (s.requestInsert b).ok = false := congrArg Prod.fst henqueue
    rw [hone hopen hopening]
    refine .inl ⟨0, _, rfl, ?_, Nat.zero_le _, .inl rfl⟩
    simp [insertedBytes, hok]
  | carried hopen hopening henqueue hsome =>
    have hclient : s.isClient = true := by
      simp only [opening, Bool.and_eq_true] at hopening
      exact hopening.1.1
    refine .inl ⟨_, none, rfl, ?_⟩
    rw [hone hopen hopening, hbytes henqueue, hpayload]
    rw [hpayload] at hsome
    split
    · exact ⟨(List.take_length).symm, Nat.le_refl _, .inr hclient⟩
    · rename_i hlong
      rw [if_neg hlong] at hsome
      exact absurd rfl hsome
  | requested hopen hopening henqueue hnone =>
    exact .inr ⟨rfl, by rw [hone hopen hopening, hbytes henqueue, hnone]⟩
  | begun hopening => exact .inr ⟨rfl, by simp [writeInserts, hopening]⟩

end Session

/-! ## A session and its last `Write` -/

structure WriteCall where
  b : Bytes := []
  /-- What was counted for the user when `Write` was called. -/
  before : Nat := 0
  inserts : List Insertion := []

structure WritingSession where
  live : LiveSession
  call : WriteCall := {}

namespace WritingSession

def callAfter (w : WritingSession) : SessionEvent → WriteCall
  | .write b =>
    { b := b
      before := w.live.session.counted
      inserts := w.live.inserts (.write b) }
  | event =>
    { w.call with inserts := w.call.inserts ++ w.live.inserts event }

def next (w : WritingSession) : SessionEvent ⊕ Segment → Option WritingSession
  | .inl event =>
    (w.live.step event).map fun (live, _) =>
      { live := live, call := w.callAfter event }
  | .inr seg => (w.live.receive seg).map fun live => { w with live := live }

def IsInitial (w : WritingSession) : Prop :=
  ∃ (id : UInt32) (isClient : Bool) (mtu : Nat)
    (transport : TransportProtocol) (addr : Addr) (now : Int),
    0 < maxFragmentSize mtu transport ∧ w = {
      live := { session := Session.new id isClient mtu transport addr now } }

end WritingSession

def writingSystem : System WritingSession (SessionEvent ⊕ Segment) :=
  System.ofNext WritingSession.IsInitial WritingSession.next

namespace WritingSession

def fragmentSize (w : WritingSession) : Nat :=
  maxFragmentSize w.live.session.mtu w.live.session.transportProtocol

/-- The call returned `n`: that many bytes are queued and counted. -/
structure Reports (w : WritingSession) (n : Nat) : Prop where
  queued : insertedBytes w.call.inserts = w.call.b.take n
  le_length : n ≤ w.call.b.length
  counted : w.live.session.isClient = false → w.live.session.counted = w.call.before + n

structure UnderWay (w : WritingSession) : Prop where
  pending : insertedBytes w.call.inserts ++ w.live.writer.pending = w.call.b
  queued : (insertedBytes w.call.inserts).length = w.live.writer.counted + w.live.writer.chunkQueued
  counted : w.live.session.counted = w.call.before

structure Inv (w : WritingSession) : Prop where
  wellFormed : w.live.WellFormed
  fragments : 0 < w.fragmentSize
  sound : w.live.writer.Sound w.fragmentSize
  underWay : w.live.writer.inCall = true → w.UnderWay

def ReportsReturn (w : WritingSession) : Prop :=
  ∀ n err, w.live.writer = .returned n err → w.Reports n

/--
Nothing makes the step leave `writeChunk` once a fragment of the chunk is
queued, on a server once a chunk is: neither `closedChan`, `outputErr` and the
deadline nor a full queue.  A server that gets to the end has its counter.
-/
def WritesOn (s : Session) (env : Env) : WriterState → Prop
  | .writing rest n => rest = [] → s.isClient = true ∨ n = 0 ∨ s.downloadBytes ≠ none
  | .waiting job => s.sendQueue.remaining ≤ job.fragmentsLeft →
    env.choice = .fallback ∨ s.isClient = true ∨ job.n = 0
  | .queueing job => env.choice = .fallback ∧ 0 < s.sendQueue.remaining ∨
    job.ptr.length = job.size ∧ (s.isClient = true ∨ job.n = 0)
  | _ => True

instance (s : Session) (env : Env) : (writer : WriterState) → Decidable (WritesOn s env writer)
  | .writing _ _ => inferInstanceAs (Decidable (_ → _))
  | .waiting _ => inferInstanceAs (Decidable (_ → _))
  | .queueing _ => inferInstanceAs (Decidable (_ ∨ _))
  | .returned _ _ | .settling _ | .comparing _ => isTrue trivial

def Clean (w : WritingSession) : SessionEvent ⊕ Segment → Prop
  | .inl (.writer env) => WritesOn w.live.session env w.live.writer
  | _ => True

theorem choice_of_writerExit {s : Session} {choice : SelectCase} {err : WriteError}
    (h : s.writerExit choice = some (some err)) : choice ≠ .fallback := by
  rintro rfl
  simp only [Session.writerExit] at h
  split at h <;> cases h

/-- A step that returns an error has queued nothing of its chunk, and a server
returns a number only if it counts it. -/
theorem WritesOn.returned {s t : Session} {writer : WriterState} {size n : Nat}
    {err : Option WriteError} (hwrites : WritesOn s env writer) (hsound : writer.Sound size)
    (h : s.writerStep env writer = some (t, .returned n err)) :
    (err ≠ none → writer.chunkQueued = 0) ∧
      (s.isClient = true ∨ n = 0 ∨ err = none ∧ s.downloadBytes ≠ none) := by
  cases Session.writerStep_inv h with
  | done =>
    refine ⟨fun herr => absurd rfl herr, ?_⟩
    rcases hwrites rfl with hclient | hzero | hregistered
    · exact .inl hclient
    · exact .inr (.inl hzero)
    · exact .inr (.inr ⟨rfl, hregistered⟩)
  | stopped hfull hexit =>
    have hbefore := (hwrites hfull).resolve_left (choice_of_writerExit hexit)
    refine ⟨fun _ => ?_, hbefore.imp_right .inl⟩
    simp [WriterState.chunkQueued, hsound.2]
  | broken hexit =>
    obtain ⟨hwhole, hbefore⟩ := hwrites.resolve_left fun h => choice_of_writerExit hexit h.1
    exact ⟨fun _ => by simp [WriterState.chunkQueued, hwhole], hbefore.imp_right .inl⟩
  | full _ henqueue =>
    have hfull := Session.full_of_enqueue henqueue
    obtain ⟨hwhole, hbefore⟩ := hwrites.resolve_left fun h => by
      have hspace := h.2
      unfold SegmentTree.remaining at hspace
      omega
    exact ⟨fun _ => by simp [WriterState.chunkQueued, hwhole], hbefore.imp_right .inl⟩

theorem inv_of_isInitial {w : WritingSession} (h : w.IsInitial) : w.Inv := by
  obtain ⟨id, isClient, mtu, transport, addr, now, hsize, rfl⟩ := h
  exact ⟨LiveSession.wellFormed_new, hsize, trivial, fun hincall => by cases hincall⟩

theorem reports_of_isInitial {w : WritingSession} (h : w.IsInitial) : w.ReportsReturn := by
  obtain ⟨id, isClient, mtu, transport, addr, now, hsize, rfl⟩ := h
  rintro n err ⟨⟩
  exact ⟨rfl, Nat.le_refl _, fun _ => rfl⟩

end WritingSession

namespace LiveSession

variable {l l' : LiveSession} {event : SessionEvent} {sent : List Packet}

def ofWriter : SessionEvent → Bool
  | .write _ => true
  | .writer _ => true
  | _ => false

theorem writer_eq (h : l.step event = some (l', sent))
    (hevent : ofWriter event = false) : l'.writer = l.writer := by
  cases step_inv h with
  | write | writer => cases hevent
  | _ => rfl

theorem counted_eq (h : l.step event = some (l', sent)) : l'.session.counted = l.session.counted ∨
      ∃ env n, event = .writer env ∧ l.writer = .writing [] n ∧ l' = { l with
          session := l.session.addDownloadBytes n
          writer := .returned n none } := by
  rcases step_steady h with
    hsteady | hreturns | ⟨env, pass, _, _, hend⟩
  · exact .inl hsteady.counted
  · exact .inr hreturns
  · refine .inl ?_
    rw [hend]
    exact (Session.steady_endPass pass).counted

theorem counted_other (h : l.step event = some (l', sent)) (hevent : ofWriter event = false) :
    l'.session.counted = l.session.counted := by
  rcases counted_eq h with hcounted | ⟨env, n, rfl, _⟩
  · exact hcounted
  · cases hevent

end LiveSession

namespace Session

theorem counted_addDownloadBytes {s : Session} (n : Nat) (hserver : s.isClient = false)
    (hregistered : n = 0 ∨ s.downloadBytes ≠ none) :
    (s.addDownloadBytes n).counted = s.counted + n := by
  unfold addDownloadBytes counted
  rw [if_neg (by simp [hserver])]
  cases hbytes : s.downloadBytes with
  | none =>
    have hzero := hregistered.resolve_right (by simp [hbytes])
    simp [hzero]
  | some total => rfl

end Session

namespace WritingSession

variable {w : WritingSession} {l : LiveSession} {sent : List Packet}

theorem fragmentSize_eq (hl : w.live.WellFormed) (hstep : w.live.step event = some (l, sent)) :
    maxFragmentSize l.session.mtu l.session.transportProtocol = w.fragmentSize := by
  obtain ⟨hfollows, _⟩ := LiveSession.step_follows hl hstep
  rw [LiveSession.mtu_step hstep, hfollows.keeps.transport]
  rfl

theorem write_call (hstep : w.live.step (.write b) = some (l, sent)) :
    w.live.session.write b = (l.session, l.writer) := by
  cases LiveSession.step_inv hstep with | write hcall => exact hcall

theorem writer_call (hstep : w.live.step (.writer env) = some (l, sent)) :
    w.live.session.writerStep env w.live.writer =
        some (l.session, l.writer) ∧ w.live.writer.inCall = true := by
  cases LiveSession.step_inv hstep with
  | writer hwriter => exact ⟨hwriter, Session.inCall_of_writerStep hwriter⟩

theorem Inv.write (h : w.Inv) (hstep : w.live.step (.write b) = some (l, sent)) :
    Inv { live := l, call := w.callAfter (.write b) } := by
  obtain ⟨_, hwell⟩ := LiveSession.step_follows h.wellFormed hstep
  have hsize := fragmentSize_eq h.wellFormed hstep
  have hpositive : 0 < maxFragmentSize l.session.mtu
      l.session.transportProtocol := hsize ▸ h.fragments
  have hcounted : l.session.counted = w.live.session.counted :=
    (LiveSession.counted_eq hstep).resolve_right (by simp)
  rcases Session.write_spec (write_call hstep) with
    ⟨n, err, hwriter, _⟩ | ⟨hwriter, hbytes⟩
  · refine ⟨hwell, hpositive, ?_, ?_⟩
    · change l.writer.Sound _
      rw [hwriter]
      trivial
    · change l.writer.inCall = true → _
      rw [hwriter]
      intro hincall
      cases hincall
  · refine ⟨hwell, hpositive, ?_, fun _ => ⟨?_, ?_, hcounted⟩⟩
    · change l.writer.Sound _
      rw [hwriter]
      trivial
    · change insertedBytes (w.live.session.writeInserts b) ++ l.writer.pending = b
      rw [hbytes, hwriter]
      rfl
    · change (insertedBytes (w.live.session.writeInserts b)).length =
        l.writer.counted + l.writer.chunkQueued
      rw [hbytes, hwriter]
      rfl

theorem Inv.writer (h : w.Inv) (hstep : w.live.step (.writer env) = some (l, sent)) :
    Inv { live := l, call := w.callAfter (.writer env) } := by
  obtain ⟨_, hwell⟩ := LiveSession.step_follows h.wellFormed hstep
  have hsize := fragmentSize_eq h.wellFormed hstep
  have hpositive : 0 < maxFragmentSize l.session.mtu
      l.session.transportProtocol := hsize ▸ h.fragments
  obtain ⟨hwriter, hincall⟩ := writer_call hstep
  have hunder := h.underWay hincall
  obtain ⟨hsound, hcases⟩ := Session.writerStep_spec h.fragments h.sound hwriter
  have hsound' : l.writer.Sound (maxFragmentSize l.session.mtu l.session.transportProtocol) := by
    rw [hsize]
    exact hsound
  refine ⟨hwell, hpositive, hsound', fun hinside => ?_⟩
  have hinside : l.writer.inCall = true := hinside
  rcases hcases with ⟨hmoves, _⟩ | ⟨n, err, hreturned, _⟩
  · have hsame : l.session.counted = w.live.session.counted := by
      rcases Session.steady_writerStep hwriter with
        ⟨hsteady, _⟩ | ⟨n, _, hreturned, _⟩
      · exact hsteady.counted
      · rw [hreturned] at hinside
        cases hinside
    refine ⟨?_, ?_, hsame.trans hunder.counted⟩
    · change insertedBytes (w.call.inserts ++ _) ++ l.writer.pending = w.call.b
      rw [insertedBytes_append, List.append_assoc, LiveSession.inserts, hmoves.pending]
      exact hunder.pending
    · change (insertedBytes (w.call.inserts ++ _)).length = _
      rw [insertedBytes_append, List.length_append, hunder.queued]
      exact hmoves.counted.symm
  · rw [hreturned] at hinside
    cases hinside

theorem Inv.other (h : w.Inv) (hevent : LiveSession.ofWriter event = false)
    (hstep : w.live.step event = some (l, sent)) : Inv { live := l, call := w.call } := by
  obtain ⟨_, hwell⟩ := LiveSession.step_follows h.wellFormed hstep
  have hsize := fragmentSize_eq h.wellFormed hstep
  have hpositive : 0 < maxFragmentSize l.session.mtu
      l.session.transportProtocol := hsize ▸ h.fragments
  have hwriter := LiveSession.writer_eq hstep hevent
  have hcounted := LiveSession.counted_other hstep hevent
  refine ⟨hwell, hpositive, ?_, ?_⟩
  · change l.writer.Sound (maxFragmentSize l.session.mtu l.session.transportProtocol)
    rw [hsize, hwriter]
    exact h.sound
  · intro hincall
    have hunder := h.underWay (hwriter ▸ hincall)
    refine ⟨?_, ?_, hcounted.trans hunder.counted⟩
    · change _ ++ l.writer.pending = _
      rw [hwriter]
      exact hunder.pending
    · change _ = l.writer.counted + l.writer.chunkQueued
      rw [hwriter]
      exact hunder.queued

theorem callAfter_other (hevent : LiveSession.ofWriter event = false) :
    w.callAfter event = w.call := by
  cases event with
  | write b => cases hevent
  | writer env => cases hevent
  | read size | reader env | output env | input env | close | closer env =>
    simp [callAfter, LiveSession.inserts]

theorem Inv.next {w' : WritingSession} {event : SessionEvent ⊕ Segment}
    (h : w.Inv) (hnext : w.next event = some w') : w'.Inv := by
  cases event with
  | inl event =>
    obtain ⟨⟨live, packets⟩, hstep, heq⟩ := Option.map_eq_some_iff.mp hnext
    cases heq
    cases hevent : LiveSession.ofWriter event with
    | false =>
      rw [callAfter_other hevent]
      exact h.other hevent hstep
    | true =>
      cases event with
      | write b => exact h.write hstep
      | writer env => exact h.writer hstep
      | _ => cases hevent
  | inr seg =>
    obtain ⟨live, hreceive, heq⟩ := Option.map_eq_some_iff.mp hnext
    cases heq
    obtain ⟨_, _, hwell⟩ := LiveSession.receive_spec h.wellFormed hreceive
    obtain ⟨-, rfl⟩ := LiveSession.receive_eq_some hreceive
    exact ⟨hwell, h.fragments, h.sound, fun hincall => ⟨(h.underWay hincall).pending,
        (h.underWay hincall).queued, (h.underWay hincall).counted⟩⟩

/-! ## What is reported -/

theorem reports_write (h : w.Inv) (hstep : w.live.step (.write b) = some (l, sent)) :
    ReportsReturn { live := l, call := w.callAfter (.write b) } := by
  obtain ⟨hfollows, _⟩ := LiveSession.step_follows h.wellFormed hstep
  have hcounted : l.session.counted = w.live.session.counted :=
    (LiveSession.counted_eq hstep).resolve_right (by simp)
  intro m err' hreturned
  have hreturned : l.writer = .returned m err' := hreturned
  rcases Session.write_spec (write_call hstep) with
    ⟨n, err, hwriter, hbytes, hle, hclient⟩ | ⟨hwriter, _⟩
  · cases hwriter.symm.trans hreturned
    refine ⟨hbytes, hle, fun hserver => ?_⟩
    have hside : w.live.session.isClient = false :=
      hfollows.keeps.sameSide.symm.trans hserver
    have hzero := hclient.resolve_right (by simp [hside])
    change l.session.counted = w.live.session.counted + _
    rw [hzero]
    exact hcounted
  · cases hwriter.symm.trans hreturned

theorem UnderWay.take (h : w.UnderWay) : insertedBytes w.call.inserts =
        w.call.b.take (w.live.writer.counted + w.live.writer.chunkQueued) ∧
      w.live.writer.counted + w.live.writer.chunkQueued ≤ w.call.b.length := by
  rw [← h.queued, ← h.pending]
  exact ⟨(List.take_left).symm, by rw [List.length_append]; omega⟩

theorem reports_writer (h : w.Inv) (hclean : w.Clean (.inl (.writer env)))
    (hstep : w.live.step (.writer env) = some (l, sent)) :
    ReportsReturn { live := l, call := w.callAfter (.writer env) } := by
  obtain ⟨hfollows, _⟩ := LiveSession.step_follows h.wellFormed hstep
  obtain ⟨hwriter, hincall⟩ := writer_call hstep
  have hunder := h.underWay hincall
  obtain ⟨_, hcases⟩ := Session.writerStep_spec h.fragments h.sound hwriter
  intro n err hreturned
  have hreturned : l.writer = .returned n err := hreturned
  rw [hreturned] at hwriter hcases
  rcases hcases with ⟨_, hinside⟩ | ⟨m, err', heq, hreturns⟩
  · cases hinside
  cases heq
  obtain ⟨hfresh, hcounts⟩ := WritesOn.returned hclean h.sound hwriter
  have hzero : w.live.writer.chunkQueued = 0 := by
    cases err with
    | none => exact (hreturns.complete rfl).2
    | some err => exact hfresh (by simp)
  obtain ⟨htake, hle⟩ := hunder.take
  rw [hzero, Nat.add_zero, ← hreturns.counted] at htake hle
  have hbytes : insertedBytes (w.call.inserts ++
      w.live.inserts (.writer env)) = w.call.b.take n := by
    rw [insertedBytes_append, LiveSession.inserts, hreturns.inserted, List.append_nil]
    exact htake
  refine ⟨hbytes, hle, fun hserver => ?_⟩
  have hside : w.live.session.isClient = false :=
    hfollows.keeps.sameSide.symm.trans hserver
  have hcounts := hcounts.resolve_left (by simp [hside])
  change l.session.counted = w.call.before + n
  rcases Session.steady_writerStep hwriter with
    ⟨hsteady, hfailed⟩ | ⟨m, _, heq, hcounted⟩
  · -- a call that fails does not count, so it must not report anything
    have hn : n = 0 := by
      rcases hcounts with hn | ⟨rfl, _⟩
      · exact hn
      · exact absurd rfl (hfailed n)
    rw [hn]
    exact hsteady.counted.trans hunder.counted
  · cases heq
    rw [← hunder.counted, hcounted]
    exact Session.counted_addDownloadBytes n hside (hcounts.imp_right fun hcounts => hcounts.2)

theorem reports_other (h : w.Inv) (hreports : w.ReportsReturn)
    (hevent : LiveSession.ofWriter event = false) (hstep : w.live.step event = some (l, sent)) :
    ReportsReturn { live := l, call := w.call } := by
  obtain ⟨hfollows, _⟩ := LiveSession.step_follows h.wellFormed hstep
  have hwriter := LiveSession.writer_eq hstep hevent
  have hcounted := LiveSession.counted_other hstep hevent
  intro n err hreturned
  have hbefore := hreports n err (hwriter.symm.trans hreturned)
  refine ⟨hbefore.queued, hbefore.le_length, fun hserver => ?_⟩
  have hside : w.live.session.isClient = false :=
    hfollows.keeps.sameSide.symm.trans hserver
  exact hcounted.trans (hbefore.counted hside)

theorem reports_next {w' : WritingSession} {event : SessionEvent ⊕ Segment}
    (h : w.Inv) (hreports : w.ReportsReturn) (hclean : w.Clean event)
    (hnext : w.next event = some w') : w'.ReportsReturn := by
  cases event with
  | inl event =>
    obtain ⟨⟨live, packets⟩, hstep, heq⟩ := Option.map_eq_some_iff.mp hnext
    cases heq
    cases hevent : LiveSession.ofWriter event with
    | false =>
      rw [callAfter_other hevent]
      exact reports_other h hreports hevent hstep
    | true =>
      cases event with
      | write b => exact reports_write h hstep
      | writer env => exact reports_writer h hclean hstep
      | _ => cases hevent
  | inr seg =>
    obtain ⟨live, hreceive, heq⟩ := Option.map_eq_some_iff.mp hnext
    cases heq
    obtain ⟨-, rfl⟩ := LiveSession.receive_eq_some hreceive
    intro n err hreturned
    have hbefore := hreports n err hreturned
    exact ⟨hbefore.queued, hbefore.le_length, hbefore.counted⟩

/-- In a run in which nothing stops a `Write` between its fragments, it reports
what it queued. -/
theorem write_reports_queued {w : WritingSession} (h : writingSystem.ReachableBy Clean w) {n : Nat}
    {err : Option WriteError} (hreturned : w.live.writer = .returned n err) : w.Reports n := by
  have hinv : w.Inv ∧ w.ReportsReturn :=
    System.ReachableBy.invariant (P := fun w => Inv w ∧ ReportsReturn w)
      (fun _ hinit => ⟨inv_of_isInitial hinit, reports_of_isInitial hinit⟩)
      (fun _ _ _ hinv hclean hnext =>
        ⟨hinv.1.next hnext, reports_next hinv.1 hinv.2 hclean hnext⟩) h
  exact hinv.2 n err hreturned

instance (w : WritingSession) : (event : SessionEvent ⊕ Segment) → Decidable (w.Clean event)
  | .inl (.writer env) =>
    inferInstanceAs (Decidable (WritesOn w.live.session env w.live.writer))
  | .inl (.write _) | .inl (.read _) | .inl (.reader _) | .inl (.output _) | .inl (.input _)
  | .inl .close | .inl (.closer _) | .inr _ => isTrue trivial

def newClient : WritingSession where
  live := { session := Session.new 7 true 1280 .packetTransport "server" 0 }

theorem newClient_isInitial : newClient.IsInitial :=
  ⟨7, true, 1280, .packetTransport, "server", 0, by decide, rfl⟩

def secondWrite : List (SessionEvent ⊕ Segment) :=
  .inl (.write [1]) :: (List.replicate 6 (.inl (.output (.calm .notEmptyEvent))) ++
      .inl (.write [7, 8, 9]) :: List.replicate 5 (.inl (.writer (.calm .fallback))))

theorem write_reports_queued_secondWrite : ∃ w, writingSystem.ReachableBy Clean w ∧
      w.live.writer = .returned 3 none ∧ w.call.b = [7, 8, 9] ∧ w.Reports 3 := by
  obtain ⟨w, hreach, hreturned, hb⟩ : ∃ w, writingSystem.ReachableBy Clean w ∧
      w.live.writer = .returned 3 none ∧ w.call.b = [7, 8, 9] :=
    System.exists_reachableBy (fun _ _ => of_decide_eq_true) newClient_isInitial secondWrite
      (by decide +kernel)
  exact ⟨w, hreach, hreturned, hb, write_reports_queued hreach hreturned⟩

def expiringWrite : List (SessionEvent ⊕ Segment) :=
  .inl (.write (List.replicate 1193 0)) :: (List.replicate 3 (.inl (.writer (.calm .fallback))) ++
      [.inl (.writer (.calm .timeC))])

/-- `Write` returns 0 and 1192 bytes are in the send queue. -/
theorem write_reports_too_little : ∃ w, writingSystem.Reachable w ∧
      w.live.writer = .returned 0 (some .timeout) ∧
      (insertedBytes w.call.inserts).length = 1192 ∧ ¬ w.Reports 0 := by
  obtain ⟨w, hreach, hreturned, hlength⟩ : ∃ w, writingSystem.Reachable w ∧
      w.live.writer = .returned 0 (some .timeout) ∧
      (insertedBytes w.call.inserts).length = 1192 :=
    System.exists_reachable newClient_isInitial expiringWrite (by decide +kernel)
  refine ⟨w, hreach, hreturned, hlength, fun hreports => ?_⟩
  have hnone := congrArg List.length hreports.queued
  rw [hlength, List.take_zero, List.length_nil] at hnone
  cases hnone

end WritingSession

end Mieru.Protocol
