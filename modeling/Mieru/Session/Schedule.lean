import Mieru.Foundation.TransitionSystem
import Mieru.Session.Frames

/-!
# When the next pass comes

A pass over `sendBuf` sets `nextRetransmissionTime` to the earliest time at
which a segment was due when the pass came to it.  Later passes wait for that
time, so it has to come before the segments that are transmitted afterwards
are due.
-/

namespace Mieru.Protocol

open Mieru.Foundation

namespace Segment

def due (seg : Segment) : Int := seg.txTime + Session.txTimeoutMicros seg

/-- `txTime` plus `txTimeout` lies more than ten milliseconds before `t`. -/
def Expired (t : Int) (seg : Segment) : Prop :=
  seg.txTime * 1000 + seg.txTimeout + 10000000 < t * 1000

instance (t : Int) (seg : Segment) : Decidable (seg.Expired t) :=
  inferInstanceAs (Decidable (_ < _))

theorem Expired.due_le {t : Int} {seg : Segment} (h : seg.Expired t) : seg.due + 10000 ≤ t := by
  have hdiv : 1000 * seg.txTimeout.tdiv 1000 + seg.txTimeout.tmod 1000 =
      seg.txTimeout := Int.mul_tdiv_add_tmod seg.txTimeout 1000
  have hmod : -1000 < seg.txTimeout.tmod 1000 :=
    Int.lt_tmod_of_pos seg.txTimeout (by decide)
  unfold Expired at h
  unfold due Session.txTimeoutMicros
  omega

theorem due_countAck (unAckSeq : UInt32) (seg : Segment) :
    (seg.countAck unAckSeq).due = seg.due := by
  unfold countAck
  split <;> rfl

theorem seq_countAck (unAckSeq : UInt32) (seg : Segment) :
    (seg.countAck unAckSeq).seq = seg.seq := by
  unfold countAck
  split <;> rfl

end Segment

namespace Session

/-- Segments may leave `sendBuf`; the others are due when they were. -/
structure Thins (s t : Session) : Prop where
  scheduled : t.nextRetransmissionTime = s.nextRetransmissionTime
  outputHasErr : t.outputHasErr = s.outputHasErr
  sendBuf : ∀ seg ∈ t.sendBuf.items, ∃ before ∈ s.sendBuf.items,
    seg.seq = before.seq ∧ seg.due = before.due

variable {s t : Session} {env : Env} {seg : Segment} {sent : List Packet}

theorem thins_of_timing (h : t.timing = s.timing) : s.Thins t := by
  obtain ⟨hbuf, hrest⟩ := Prod.mk.inj h
  obtain ⟨hscheduled, herr⟩ := Prod.mk.inj hrest
  refine ⟨hscheduled, herr, fun seg hseg => ⟨seg, ?_, rfl, rfl⟩⟩
  rwa [← hbuf]

theorem timing_failInput : s.failInput.1.timing = s.timing :=
  timing_of_still still_failInput

theorem thins_countAck (unAckSeq : UInt32) : s.Thins (s.countAck unAckSeq) := by
  refine ⟨rfl, rfl, fun seg hseg => ?_⟩
  obtain ⟨before, hbefore, rfl⟩ := List.mem_map.mp hseg
  exact ⟨before, hbefore, Segment.seq_countAck unAckSeq before,
    Segment.due_countAck unAckSeq before⟩

theorem thins_inputStep {input input' : InputState}
    (h : s.inputStep env input = some (t, input', sent)) : s.Thins t := by
  cases inputStep_inv h with
  | ended | refused | panicked | taken =>
    exact thins_of_timing (congrArg Prod.snd (settled_idle h))
  | acked hdelete =>
    refine ⟨rfl, rfl, fun seg hseg => ⟨seg, ?_, rfl, rfl⟩⟩
    rw [(SegmentTree.deleteMinIf_eq_some hdelete).1]
    exact List.mem_cons_of_mem _ hseg
  | ackedData hdelete | ackedOnly hdelete =>
    refine ⟨rfl, rfl, fun seg hseg => ⟨seg, ?_, rfl, rfl⟩⟩
    rw [← (SegmentTree.deleteMinIf_eq_none hdelete).1]
    exact hseg
  | counted => exact thins_countAck _
  | advanced =>
    rename_i seg seg3
    have hsame := timing_of_still
      (({ s with nextRecv := s.nextRecv + 1 } : Session).still_storeWindow seg3.metadata)
    exact thins_of_timing hsame
  | overflow => exact thins_of_timing timing_failInput
  | overQuota | quotaPanicked | opened | openFailed | ordinary =>
    exact thins_of_timing (timing_of_still (still_responding h))
  | answered | unanswered | confirmed =>
    exact thins_of_timing (timing_of_still (still_closing h))
  | _ => exact thins_of_timing rfl

theorem thins_closerStep (h : s.closerStep env = some (t, sent)) : s.Thins t := by
  cases closerStep_inv h with
  | queued _ henqueue | full _ henqueue =>
    have hqueued := timing_of_still (still_enqueue henqueue)
    exact thins_of_timing hqueued
  | written _ houtput =>
    have hwritten := timing_of_still (still_output houtput)
    exact thins_of_timing hwritten
  | clearBuf => exact ⟨rfl, rfl, fun seg hseg => absurd hseg List.not_mem_nil⟩
  | finished =>
    have hsame := timing_of_still (s.still_forwardStateTo .sessionClosed)
    exact thins_of_timing hsame
  | _ => exact thins_of_timing rfl

end Session

namespace LiveSession

variable {l l' : LiveSession} {sent : List Packet}

def ofOutput : SessionEvent → Bool
  | .output _ => true
  | _ => false

theorem step_thins {event : SessionEvent} (h : l.step event = some (l', sent))
    (hevent : ofOutput event = false) : l'.output = l.output ∧ l.session.Thins l'.session := by
  cases step_inv h with
  | write hcall =>
    exact ⟨rfl, Session.thins_of_timing (Session.timing_of_still (Session.still_write hcall))⟩
  | writer hstep =>
    exact ⟨rfl, Session.thins_of_timing (Session.timing_of_still (Session.still_writerStep hstep))⟩
  | read hcall =>
    exact ⟨rfl, Session.thins_of_timing (congrArg Prod.snd (Session.aside_read hcall))⟩
  | reader hstep =>
    exact ⟨rfl, Session.thins_of_timing (congrArg Prod.snd (Session.aside_readerStep hstep))⟩
  | output => cases hevent
  | input hstep => exact ⟨rfl, Session.thins_inputStep hstep⟩
  | close =>
    exact ⟨rfl, Session.thins_of_timing
      (Session.timing_of_still (Session.still_closeWithError true))⟩
  | closer hstep => exact ⟨rfl, Session.thins_closerStep hstep⟩

end LiveSession

namespace ResendPass

def Visited (pass : ResendPass) (seg : Segment) : Prop :=
  ∃ cursor, pass.cursor = some cursor ∧ seg.seq ≤ cursor

def nextTXWith (pass : ResendPass) (iter : Segment) : Int :=
  pass.nextTX.elim iter.due fun nextTX => min nextTX iter.due

theorem nextTXWith_le_due (pass : ResendPass) (iter : Segment) :
    pass.nextTXWith iter ≤ iter.due := by
  unfold nextTXWith
  cases pass.nextTX with
  | none => exact Int.le_refl _
  | some nextTX => exact Int.min_le_right _ _

theorem nextTXWith_le_nextTX {pass : ResendPass} {nextTX : Int}
    (h : pass.nextTX = some nextTX) (iter : Segment) : pass.nextTXWith iter ≤ nextTX := by
  unfold nextTXWith
  rw [h]
  exact Int.min_le_left _ _

end ResendPass

namespace Session

/-- The next pass comes at most ten milliseconds after a segment is due; for
the segments that a pass has visited, `nextTX` takes the place of
`nextRetransmissionTime`. -/
def Covers (s : Session) : OutputState → Prop
  | .resending pass => pass.closing = false ∧ ∀ seg ∈ s.sendBuf.items, pass.Visited seg →
        ∃ nextTX, pass.nextTX = some nextTX ∧ nextTX ≤ seg.due + 10000
  | _ => ∀ seg ∈ s.sendBuf.items, s.nextRetransmissionTime ≤ seg.due + 10000

/-- What the output loop transmits in this step is due at most ten milliseconds
before the next pass. -/
def InTime (s : Session) (env : Env) : OutputState → Prop
  | .popped seg _ => s.nextRetransmissionTime ≤ (s.stampTransmission env seg).due + 10000
  | .resending pass => ∀ iter ∈ s.nextToVisit pass,
      mustResend env iter = true → pass.nextTXWith iter ≤ (s.stampTransmission env iter).due + 10000
  | _ => True

instance (s : Session) (env : Env) (output : OutputState) : Decidable (s.InTime env output) :=
  match output with
  | .popped seg _ => inferInstanceAs (Decidable (s.nextRetransmissionTime ≤
      (s.stampTransmission env seg).due + 10000))
  | .resending pass => inferInstanceAs (Decidable
      (∀ iter ∈ s.nextToVisit pass, mustResend env iter = true →
        pass.nextTXWith iter ≤ (s.stampTransmission env iter).due + 10000))
  | .idle | .ended | .streaming | .streamPopped _ | .checking _ | .sending _
  | .buffered _ _ | .acking | .acked => isTrue trivial

variable {s t : Session} {env : Env} {output output' : OutputState} {sent : List Packet}

theorem Thins.covers (h : s.Thins t) (hcovers : s.Covers output) : t.Covers output := by
  have hall : (∀ seg ∈ s.sendBuf.items, s.nextRetransmissionTime ≤ seg.due + 10000) →
      ∀ seg ∈ t.sendBuf.items, t.nextRetransmissionTime ≤ seg.due + 10000 := by
    intro hbefore seg hseg
    obtain ⟨before, hmem, _, hdue⟩ := h.sendBuf seg hseg
    rw [h.scheduled, hdue]
    exact hbefore before hmem
  cases output with
  | resending pass =>
    obtain ⟨hopen, hvisited⟩ := hcovers
    refine ⟨hopen, fun seg hseg hpast => ?_⟩
    obtain ⟨before, hmem, hseq, hdue⟩ := h.sendBuf seg hseg
    obtain ⟨cursor, hcursor, hle⟩ := hpast
    rw [hdue]
    exact hvisited before hmem ⟨cursor, hcursor, hseq ▸ hle⟩
  | _ => exact hall hcovers

theorem covers_startRun (h : ∀ seg ∈ s.sendBuf.items, s.nextRetransmissionTime ≤ seg.due + 10000) :
    s.Covers (s.startRun env) := by
  unfold startRun
  split
  · exact h
  · split
    · exact h
    · split
      · refine ⟨rfl, fun seg _ hpast => ?_⟩
        obtain ⟨cursor, hcursor, _⟩ := hpast
        cases hcursor
      · exact h

def unvisited (s : Session) (pass : ResendPass) : List Segment :=
  match pass.cursor with
  | none => s.sendBuf.items
  | some cursor => s.sendBuf.items.filter fun seg => decide (cursor < seg.seq)

variable {pass : ResendPass} {iter seg : Segment} {rest : List Segment}

theorem nextToVisit_eq (s : Session) (pass : ResendPass) :
    s.nextToVisit pass = (s.unvisited pass).head? := by
  unfold nextToVisit unvisited
  cases pass.cursor with
  | none => rfl
  | some cursor => exact List.head?_filter.symm

theorem mem_unvisited : seg ∈ s.unvisited pass ↔ seg ∈ s.sendBuf.items ∧ ¬ pass.Visited seg := by
  unfold unvisited ResendPass.Visited
  split
  · rename_i hcursor
    simp [hcursor]
  · rename_i cursor hcursor
    simp [hcursor]

theorem mem_of_unvisited (h : s.unvisited pass = iter :: rest) :
    iter ∈ s.sendBuf.items ∧ ¬ pass.Visited iter := by
  apply mem_unvisited.mp
  rw [h]
  exact List.mem_cons_self

theorem ascending_unvisited (s : Session) (pass : ResendPass) :
    Ascending Segment.key (s.unvisited pass) := by
  unfold unvisited
  split
  · exact s.sendBuf.ascending
  · exact List.Pairwise.filter _ s.sendBuf.ascending

theorem visited_of_lt (h : s.unvisited pass = iter :: rest)
    (hseg : seg ∈ s.sendBuf.items) (hlt : seg.seq < iter.seq) : pass.Visited seg := by
  by_contra hnot
  have hmem := mem_unvisited.mpr ⟨hseg, hnot⟩
  have hascending := s.ascending_unvisited pass
  rw [h] at hmem hascending
  rcases List.mem_cons.mp hmem with rfl | hrest
  · exact UInt32.lt_irrefl _ hlt
  · exact UInt32.lt_asymm hlt (hascending.head_lt hrest)

theorem visited_of_nil (h : s.unvisited pass = [])
    (hseg : seg ∈ s.sendBuf.items) : pass.Visited seg := by
  by_contra hnot
  have hmem := mem_unvisited.mpr ⟨hseg, hnot⟩
  rw [h] at hmem
  cases hmem

theorem endPass_of_open (h : pass.closing = false) : s.endPass env pass =
      { s with nextRetransmissionTime := pass.nextTX.getD (env.now + 10000) } := by
  simp [endPass, h]

theorem covers_endPass {total : Nat} (h : s.Covers (.resending pass))
    (hend : s.unvisited pass = []) : (s.endPass env pass).Covers (.checking total) := by
  obtain ⟨hopen, hvisited⟩ := h
  rw [endPass_of_open hopen]
  intro seg hseg
  obtain ⟨nextTX, hnext, hle⟩ := hvisited seg hseg (visited_of_nil hend hseg)
  simpa [hnext] using hle

structure Visits (s : Session) (env : Env) (pass : ResendPass) (iter : Segment)
    (t : Session) (pass' : ResendPass) : Prop where
  cursor : pass'.cursor = some iter.seq
  nextTX : pass'.nextTX = some (pass.nextTXWith iter)
  closing : pass'.closing = pass.closing
  sendBuf : t.sendBuf = if mustResend env iter then
    (s.restampSendBuf env iter).sendBuf else s.sendBuf
  outputHasErr : t.outputHasErr = s.outputHasErr

theorem visits_of_visit {pass' : ResendPass} (h : s.Visit env pass iter t pass' sent)
    (herr : t.outputHasErr = false) : s.Visits env pass iter t pass' := by
  cases h with
  | exhausted | unsent => cases herr
  | resent hresend houtput =>
    have htiming := timing_of_still (still_output houtput)
    refine ⟨rfl, rfl, rfl, ?_, congrArg (fun timing => timing.2.2) htiming⟩
    rw [if_pos hresend]
    exact congrArg Prod.fst htiming
  | early hresend => exact ⟨rfl, rfl, rfl, by simp [hresend], rfl⟩

theorem covered_before (hcovers : s.Covers (.resending pass))
    (hnext : s.unvisited pass = iter :: rest) (hseg : seg ∈ s.sendBuf.items)
    (hlt : seg.seq < iter.seq) : pass.nextTXWith iter ≤ seg.due + 10000 := by
  obtain ⟨nextTX, hnextTX, hle⟩ :=
    hcovers.2 seg hseg (visited_of_lt hnext hseg hlt)
  exact Int.le_trans (ResendPass.nextTXWith_le_nextTX hnextTX iter) hle

theorem covers_visitSegment {pass' : ResendPass} (hcovers : s.Covers (.resending pass))
    (hnext : s.unvisited pass = iter :: rest) (hintime : s.InTime env (.resending pass))
    (hvisits : s.Visits env pass iter t pass') : t.Covers (.resending pass') := by
  have hiter := (mem_of_unvisited hnext).1
  refine ⟨hvisits.closing.trans hcovers.1, fun seg hseg hpast => ?_⟩
  refine ⟨_, hvisits.nextTX, ?_⟩
  obtain ⟨cursor, hcursor, hle⟩ := hpast
  obtain rfl := Option.some.inj (hvisits.cursor.symm.trans hcursor)
  rw [hvisits.sendBuf] at hseg
  split at hseg
  · rename_i hresend
    obtain ⟨before, hbefore, rfl⟩ := List.mem_map.mp hseg
    unfold restamp at hle ⊢
    split
    · rename_i hseq
      obtain rfl := s.sendBuf.ascending.eq_of_key_eq hbefore hiter (congrArg UInt32.toNat hseq)
      apply hintime before _ hresend
      rw [nextToVisit_eq, hnext]
      rfl
    · rename_i hseq
      rw [if_neg hseq] at hle
      exact covered_before hcovers hnext hbefore (UInt32.lt_of_le_of_ne hle hseq)
  · by_cases hseq : seg.seq = iter.seq
    · obtain rfl := s.sendBuf.ascending.eq_of_key_eq hseg hiter (congrArg UInt32.toNat hseq)
      have hdue := pass.nextTXWith_le_due seg
      omega
    · exact covered_before hcovers hnext hseg (UInt32.lt_of_le_of_ne hle hseq)

theorem outputHasErr_failOutput (s : Session) : s.failOutput.outputHasErr = true :=
  congrArg (fun timing => timing.2.2) (timing_of_still (s.setOutputErr.still_closeWithError false))

theorem covers_of_timing (htiming : t.timing = s.timing) (herr : t.outputHasErr = false)
    (h : s.outputHasErr = false → s.Covers .idle) : t.Covers .idle := by
  have hthins := thins_of_timing htiming
  exact hthins.covers (h (hthins.outputHasErr ▸ herr))

theorem covers_popped {total : Nat} (h : s.Covers (.popped seg total))
    (hintime : s.InTime env (.popped seg total)) {sendBuf : SegmentTree}
    (hinsert : s.sendBuf.insert (s.stampTransmission env seg) = (true, sendBuf)) :
    { s with sendBuf := sendBuf }.Covers .idle := by
  intro other hother
  change other ∈ sendBuf.items at hother
  rw [(SegmentTree.insert_eq_true hinsert).2] at hother
  rcases mem_replaceOrInsert_of_mem hother with rfl | hbefore
  · exact hintime
  · exact h other hbefore

theorem outputHasErr_endPass (s : Session) (env : Env) (pass : ResendPass) :
    (s.endPass env pass).outputHasErr = s.outputHasErr := by
  unfold endPass
  dsimp only
  split
  · exact congrArg (fun timing => timing.2.2) (timing_of_still (still_closeWithError false))
  · rfl

theorem covers_outputStep (h : s.outputHasErr = false → s.Covers output)
    (hintime : s.InTime env output) (hstep : s.outputStep env output = some (t, output', sent))
    (herr : t.outputHasErr = false) : t.Covers output' := by
  cases outputStep_inv hstep with
  | woken =>
    have hthins : s.Thins { s with
        sendQueue := { s.sendQueue with chanNotEmptyEvent := false } } :=
      thins_of_timing rfl
    exact hthins.covers (covers_startRun (h herr))
  | ticked => exact covers_startRun (h herr)
  | passed hend =>
    have hcovers := h ((s.outputHasErr_endPass env _).symm.trans herr)
    have hend := hend.resolve_left (by simp [hcovers.1])
    rw [nextToVisit_eq] at hend
    exact covers_endPass hcovers (List.head?_eq_none_iff.mp hend)
  | visited hnext hvisit =>
    rw [nextToVisit_eq] at hnext
    obtain ⟨rest, hrest⟩ := List.head?_eq_some_iff.mp hnext
    have hvisits := visits_of_visit hvisit herr
    exact covers_visitSegment (h (hvisits.outputHasErr ▸ herr)) hrest hintime hvisits
  | buffered hinsert => exact covers_popped (h herr) hintime hinsert
  | streamSent houtput | written houtput | ack _ houtput =>
    exact covers_of_timing (timing_of_still (still_output houtput)) herr h
  | streamFailed | failed | ackFailed | overflow =>
    cases (outputHasErr_failOutput _).symm.trans herr
  | _ => exact covers_of_timing rfl herr h

end Session

namespace LiveSession

def next (l : LiveSession) : SessionEvent ⊕ Segment → Option LiveSession
  | .inl event => (l.step event).map Prod.fst
  | .inr seg => l.receive seg

def IsInitial (l : LiveSession) : Prop :=
  ∃ (id : UInt32) (isClient : Bool) (mtu : Nat)
    (transport : TransportProtocol) (addr : Addr) (now : Int),
    l = { session := Session.new id isClient mtu transport addr now }

def InTime (l : LiveSession) : SessionEvent ⊕ Segment → Prop
  | .inl (.output env) => l.session.InTime env l.output
  | _ => True

def checkInTime (l : LiveSession) (event : SessionEvent ⊕ Segment) : Bool :=
  match event with
  | .inl (.output env) => decide (l.session.InTime env l.output)
  | _ => true

theorem inTime_of_check (l : LiveSession) (event : SessionEvent ⊕ Segment)
    (h : l.checkInTime event = true) : l.InTime event := by
  unfold checkInTime at h
  unfold InTime
  split at h
  · exact of_decide_eq_true h
  · trivial

variable {l l' : LiveSession}

theorem covers_next {event : SessionEvent ⊕ Segment}
    (h : l.session.outputHasErr = false → l.session.Covers l.output) (hintime : l.InTime event)
    (hnext : l.next event = some l') (herr : l'.session.outputHasErr = false) :
    l'.session.Covers l'.output := by
  cases event with
  | inl event =>
    obtain ⟨⟨after, sent⟩, hstep, rfl⟩ := Option.map_eq_some_iff.mp hnext
    cases hevent : ofOutput event with
    | false =>
      obtain ⟨houtput, hthins⟩ := step_thins hstep hevent
      rw [houtput]
      exact hthins.covers (h (hthins.outputHasErr ▸ herr))
    | true =>
      cases step_inv hstep with
      | output houtput => exact Session.covers_outputStep h hintime houtput herr
      | _ => cases hevent
  | inr seg =>
    obtain ⟨-, rfl⟩ := receive_eq_some hnext
    have hthins : l.session.Thins { l.session with recvChan := l.session.recvChan ++ [seg] } :=
      Session.thins_of_timing rfl
    exact hthins.covers (h herr)

end LiveSession

def sessionSystem : System LiveSession (SessionEvent ⊕ Segment) :=
  System.ofNext LiveSession.IsInitial LiveSession.next

theorem covers_of_reachable {l : LiveSession} (h : sessionSystem.ReachableBy LiveSession.InTime l)
    (herr : l.session.outputHasErr = false) : l.session.Covers l.output := by
  have hinv : l.session.outputHasErr = false → l.session.Covers l.output :=
    System.ReachableBy.invariant (P := fun l => l.session.outputHasErr = false →
        l.session.Covers l.output)
      (by
        rintro _ ⟨id, isClient, mtu, transport, addr, now, rfl⟩ _ seg hseg
        cases hseg)
      (fun _ _ _ hcovers hintime hnext => LiveSession.covers_next hcovers hintime hnext) h
  exact hinv herr

end Mieru.Protocol
