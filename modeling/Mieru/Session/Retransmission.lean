import Mieru.Session.Schedule

/-!
# What a call sends again

`runOutputOncePacket` looks at the segments of `sendBuf` once
`nextRetransmissionTime` has passed.  If that time covers them, a call sends
every expired segment again.  A segment that is transmitted after a pass with
a shorter timeout than the segments of that pass waits too long.
-/

namespace Mieru.Protocol

open Mieru.Foundation
open ProtocolType

namespace Session

/-- The output loop takes steps one after the other; each environment answers
one of them. -/
def runOutput (s : Session) (output : OutputState) :
    List Env → Option (Session × OutputState × List Packet)
  | [] => some (s, output, [])
  | env :: envs =>
    (s.outputStep env output).bind fun (t, output, sent) =>
      (t.runOutput output envs).map fun (u, output, later) =>
        (u, output, sent ++ later)

def again (s : Session) (seg : Segment) : Packet :=
  ⟨seg.metadata.setUnAckSeq s.nextRecv, seg.payload⟩

variable {s t u : Session} {env : Env} {envs : List Env}
  {output output' output'' : OutputState} {sent later : List Packet}
  {pass pass' : ResendPass} {iter seg : Segment} {rest : List Segment}

theorem runOutput_cons (hstep : s.outputStep env output = some (t, output', sent))
    (hrun : t.runOutput output' envs = some (u, output'', later)) :
    s.runOutput output (env :: envs) = some (u, output'', sent ++ later) := by
  simp only [runOutput, hstep, Option.bind_some, hrun, Option.map_some]

theorem runOutput_singleton (hstep : s.outputStep env output = some (t, output', sent)) :
    s.runOutput output [env] = some (t, output', sent) := by
  have hrun := runOutput_cons hstep (rfl : t.runOutput output' [] = some (t, output', []))
  rwa [List.append_nil] at hrun

theorem outputStep_visit (hopen : pass.closing = false) (hnext : s.unvisited pass = iter :: rest)
    (hvisit : s.visitSegment env pass iter = (t, pass', sent)) :
    s.outputStep env (.resending pass) = some (t, .resending pass', sent) := by
  have hiter : s.nextToVisit pass = some iter := by
    rw [nextToVisit_eq, hnext]
    rfl
  simp only [outputStep, hopen, Bool.false_eq_true, if_false, hiter, hvisit]

theorem outputStep_endPass (env : Env) (hend : pass.closing = true ∨ s.unvisited pass = []) :
    s.outputStep env (.resending pass) = some (s.endPass env pass,
      .checking pass.totalTransmissionCount, []) := by
  have hnone : (if pass.closing then none else s.nextToVisit pass) = none := by
    rcases hend with hclosing | hnil
    · rw [if_pos hclosing]
    · rw [nextToVisit_eq, hnil]
      exact ite_self none
  simp only [outputStep, hnone]

theorem filter_after (hnext : s.unvisited pass = iter :: rest) :
    s.sendBuf.items.filter (fun seg => decide (iter.seq < seg.seq)) = rest := by
  have hlater : s.sendBuf.items.filter (fun seg => decide (iter.seq < seg.seq)) =
      (s.unvisited pass).filter fun seg => decide (iter.seq < seg.seq) := by
    have hiter := (mem_of_unvisited hnext).2
    unfold unvisited
    cases hcursor : pass.cursor with
    | none => rfl
    | some cursor =>
      have hlt : cursor < iter.seq := by
        simpa [ResendPass.Visited, hcursor] using hiter
      dsimp only
      rw [List.filter_filter]
      apply List.filter_congr
      intro seg _
      by_cases hseg : iter.seq < seg.seq
      · simp [hseg, UInt32.lt_trans hlt hseg]
      · simp [hseg]
  have hascending := s.ascending_unvisited pass
  rw [hnext] at hlater hascending
  rw [hlater, List.filter_cons_of_neg (by simp)]
  exact List.filter_eq_self.mpr fun seg hseg =>
    decide_eq_true (hascending.head_lt hseg)

theorem Visits.unvisited (h : s.Visits env pass iter t pass')
    (hnext : s.unvisited pass = iter :: rest) : t.unvisited pass' = rest := by
  have hrest := filter_after hnext
  unfold Session.unvisited
  rw [h.cursor, h.sendBuf]
  dsimp only
  split
  · have hseq : (fun seg => decide (iter.seq < seg.seq)) ∘ s.restamp env iter =
        fun seg => decide (iter.seq < seg.seq) := by
      funext seg
      have hsame : (s.restamp env iter seg).seq = seg.seq :=
        UInt32.toNat_inj.mp (s.key_restamp env iter seg)
      simp only [Function.comp_apply, hsame]
    change (s.sendBuf.items.map (s.restamp env iter)).filter _ = rest
    rw [List.filter_map, hseq, hrest]
    -- only `iter` is stamped again
    have hascending := s.ascending_unvisited pass
    rw [hnext] at hascending
    have hkept : ∀ seg ∈ rest, s.restamp env iter seg = seg := by
      intro seg hseg
      apply if_neg
      intro hseq
      exact Nat.ne_of_gt (hascending.head_lt hseg) (congrArg UInt32.toNat hseq)
    exact (List.map_congr_left hkept).trans (List.map_id' rest)
  · exact hrest

theorem visitSegment_limit (env : Env) (pass : ResendPass) (h : txCountLimit ≤ iter.txCount) :
    ∃ pass', s.visitSegment env pass iter = (s.setOutputErr, pass', []) ∧ pass'.closing = true := by
  unfold visitSegment
  dsimp only
  rw [if_pos h]
  exact ⟨_, rfl, rfl⟩

theorem visitSegment_sent (pass : ResendPass) (hanswer : env.writeAnswer = .sent)
    (hlimit : ¬ txCountLimit ≤ iter.txCount) :
    ∃ t pass' sent, s.visitSegment env pass iter = (t, pass', sent) ∧
      t.outputHasErr = s.outputHasErr ∧ (mustResend env iter = true → s.again iter ∈ sent) := by
  unfold visitSegment
  dsimp only
  rw [if_neg hlimit]
  split
  · have houtput : (s.restampSendBuf env iter).output env
        (s.stampTransmission env { iter with ackCount := 0 }) =
        (true, { s.restampSendBuf env iter with
          lastSend := (s.stampTransmission env { iter with ackCount := 0 }).seq
          lastTXTime := env.now }, [s.again iter]) := by
      unfold Session.output
      rw [hanswer]
      rfl
    rw [houtput]
    exact ⟨_, _, _, rfl, rfl, fun _ => List.mem_singleton_self _⟩
  · rename_i hresend
    exact ⟨_, _, _, rfl, rfl, fun h => absurd h hresend⟩

theorem mustResend_of_expired {now : Int} (h : iter.Expired now)
    (hclock : now ≤ env.now) : mustResend env iter = true := by
  have hdue := h.due_le
  unfold Segment.due at hdue
  have htimeout : txTimeoutMicros iter < env.now - iter.txTime := by omega
  simp [mustResend, htimeout]

/-- A pass comes to its end and sends every expired segment again, unless a
segment has been sent too often. -/
theorem run_pass {now : Int} (hrest : s.unvisited pass = rest) (hopen : pass.closing = false)
    (herr : s.outputHasErr = false) (hclock : ∀ env ∈ envs, now ≤ env.now)
    (hanswers : ∀ env ∈ envs, env.writeAnswer = .sent) (hlong : rest.length < envs.length) :
    ∃ used total u sent, used <+: envs ∧
      s.runOutput (.resending pass) used = some (u, .checking total, sent) ∧
      ((∀ seg ∈ rest, seg.Expired now → s.again seg ∈ sent) ∨
        ((∃ seg ∈ rest, txCountLimit ≤ seg.txCount) ∧ u.closeRequested = true)) := by
  -- the induction is on the segments that are still to be visited
  induction rest generalizing s pass envs with
  | nil =>
    cases envs with
    | nil => cases hlong
    | cons env envs =>
      refine ⟨[env], _, _, _, List.prefix_append [env] envs,
        runOutput_singleton (outputStep_endPass env (.inr hrest)), .inl ?_⟩
      exact fun seg hseg => absurd hseg List.not_mem_nil
  | cons iter rest ih =>
    cases envs with
    | nil => cases hlong
    | cons env envs =>
      obtain ⟨hnow, hlater⟩ := List.forall_mem_cons.mp hclock
      obtain ⟨hanswer, hothers⟩ := List.forall_mem_cons.mp hanswers
      have hmany : rest.length < envs.length := Nat.lt_of_succ_lt_succ hlong
      by_cases hlimit : txCountLimit ≤ iter.txCount
      · obtain ⟨pass', hvisit, hclosing⟩ :=
          s.visitSegment_limit env pass hlimit
        cases envs with
        | nil => cases hmany
        | cons env' envs =>
          have hstep := outputStep_visit hopen hrest hvisit
          have hend := runOutput_singleton (s.setOutputErr.outputStep_endPass env' (.inl hclosing))
          refine ⟨[env, env'], _, _, _, List.prefix_append [env, env'] envs,
            runOutput_cons hstep hend, .inr ⟨?_, ?_⟩⟩
          · exact ⟨iter, List.mem_cons_self, hlimit⟩
          · simp [endPass, hclosing]
      · obtain ⟨t, pass', sent, hvisit, hsame, hagain⟩ :=
          visitSegment_sent pass hanswer hlimit
        have hstep := outputStep_visit hopen hrest hvisit
        have hvisits := visits_of_visit (visit_of_visitSegment hvisit) (hsame.trans herr)
        have hrecv : t.nextRecv = s.nextRecv :=
          congrArg (fun incoming => incoming.1.nextRecv)
            (incoming_visit (visit_of_visitSegment hvisit))
        obtain ⟨used, total, u, later, hfront, hrun, hresult⟩ :=
          ih (hvisits.unvisited hrest) (hvisits.closing.trans hopen)
            (hsame.trans herr) hlater hothers hmany
        refine ⟨env :: used, total, u, sent ++ later, List.cons_prefix_cons.mpr ⟨rfl, hfront⟩,
          runOutput_cons hstep hrun, ?_⟩
        rcases hresult with hsent | ⟨⟨seg, hseg, hcount⟩, hclose⟩
        · left
          intro seg hseg hexpired
          rcases List.mem_cons.mp hseg with rfl | hseg
          · exact List.mem_append_left _ (hagain (mustResend_of_expired hexpired hnow))
          · have hmem := hsent seg hseg hexpired
            unfold again at hmem ⊢
            rw [hrecv] at hmem
            exact List.mem_append_right _ hmem
        · exact .inr ⟨⟨seg, List.mem_cons_of_mem _ hseg, hcount⟩, hclose⟩

def Called (s : Session) (env : Env) : Prop :=
  env.choice = .timeC ∨ (env.choice = .notEmptyEvent ∧ s.sendQueue.chanNotEmptyEvent = true)

theorem outputStep_called (h : s.Called env) (htransport : s.transportProtocol = .packetTransport) :
    ∃ t, s.outputStep env .idle = some (t, s.startRun env, []) ∧
      t.sendBuf = s.sendBuf ∧ t.nextRecv = s.nextRecv ∧ t.outputHasErr = s.outputHasErr := by
  rcases h with hchoice | ⟨hchoice, hevent⟩
  · refine ⟨s, ?_, rfl, rfl, rfl⟩
    simp [outputStep, beginOutput, hchoice, htransport]
  · refine ⟨{ s with
      sendQueue := { s.sendQueue with chanNotEmptyEvent := false } }, ?_, rfl,
      rfl, rfl⟩
    simp [outputStep, beginOutput, hchoice, hevent]

end Session

/-- If every transmission is due no more than ten milliseconds before the next
pass, a call sends again what has expired, unless a segment has been sent too
often. -/
theorem expired_resent {l : LiveSession} (h : sessionSystem.ReachableBy LiveSession.InTime l)
    (htransport : l.session.transportProtocol = .packetTransport) (hidle : l.output = .idle)
    (herr : l.session.outputHasErr = false) {t : Int} {env : Env} {envs : List Env}
    (hcalled : l.session.Called env) (hclock : ∀ env' ∈ env :: envs, t ≤ env'.now)
    (hanswers : ∀ env' ∈ env :: envs, env'.writeAnswer = .sent)
    (hlong : l.session.sendBuf.len < envs.length) :
    ∃ used total s sent, used <+: env :: envs ∧
      l.session.runOutput l.output used = some (s, .checking total, sent) ∧
      ((∀ seg ∈ l.session.sendBuf.items, seg.Expired t → l.session.again seg ∈ sent) ∨
        ((∃ seg ∈ l.session.sendBuf.items, txCountLimit ≤ seg.txCount) ∧
          s.closeRequested = true)) := by
  have hcovers := covers_of_reachable h herr
  rw [hidle] at hcovers ⊢
  obtain ⟨s, hstep, hbuf, hrecv, hsame⟩ :=
    Session.outputStep_called hcalled htransport
  obtain ⟨hnow, hlater⟩ := List.forall_mem_cons.mp hclock
  obtain ⟨_, hothers⟩ := List.forall_mem_cons.mp hanswers
  by_cases hpass : l.session.nextRetransmissionTime ≤ env.now
  · have hstart : l.session.startRun env = .resending {} := by
      simp [Session.startRun, herr, htransport, hpass]
    rw [hstart] at hstep
    have hrest : s.unvisited {} = l.session.sendBuf.items :=
      congrArg SegmentTree.items hbuf
    obtain ⟨used, total, u, sent, hfront, hrun, hresult⟩ :=
      Session.run_pass hrest rfl (hsame.trans herr) hlater hothers hlong
    refine ⟨env :: used, total, u, sent, List.cons_prefix_cons.mpr ⟨rfl, hfront⟩,
      Session.runOutput_cons hstep hrun, ?_⟩
    unfold Session.again at hresult ⊢
    rwa [hrecv] at hresult
  · have hstart : l.session.startRun env = .checking 0 := by
      simp [Session.startRun, herr, htransport, hpass]
    rw [hstart] at hstep
    refine ⟨[env], 0, s, [], List.prefix_append [env] envs,
      Session.runOutput_singleton hstep, .inl ?_⟩
    intro seg hseg hexpired
    have hle := hcovers seg hseg
    have hdue := hexpired.due_le
    omega

namespace Retransmission

def server : LiveSession where
  session := Session.new 7 false 1400 .packetTransport "client" 0

theorem server_isInitial : server.IsInitial :=
  ⟨7, false, 1400, .packetTransport, "client", 0, rfl⟩

def envAt (now rto : Int) : Env := { Env.calm .timeC with now := now, rto := rto }

def openRequest : Segment where
  metadata := .session {
    protocol := openSessionRequest
    sessionID := 7
    seq := 0 }

/-- The server takes the request and sends its response; the first timeout is
two seconds. -/
def opens : List (SessionEvent ⊕ Segment) :=
  Sum.inr openRequest :: (List.replicate 7 (Sum.inl (SessionEvent.input (envAt 0 2000000000))) ++
      List.replicate 9 (Sum.inl (SessionEvent.output (envAt 0 2000000000))))

/-- The response is not acknowledged for three seconds. -/
theorem expired_resent_opens : ∃ l, sessionSystem.ReachableBy LiveSession.InTime l ∧
      (∃ seg ∈ l.session.sendBuf.items, seg.Expired 3000000) ∧
      ∃ used total s sent, used <+: List.replicate 3 (envAt 3000000 2000000000) ∧
        l.session.runOutput l.output used = some (s, .checking total, sent) ∧
        ((∀ seg ∈ l.session.sendBuf.items, seg.Expired 3000000 → l.session.again seg ∈ sent) ∨
          ((∃ seg ∈ l.session.sendBuf.items, txCountLimit ≤ seg.txCount) ∧
            s.closeRequested = true)) := by
  have hrun : System.runEvents (System.checked LiveSession.checkInTime LiveSession.next) server
      opens = some _ := rfl
  have hreach : sessionSystem.ReachableBy LiveSession.InTime _ :=
    System.ReachableBy.runChecked LiveSession.inTime_of_check (.init server_isInitial) hrun
  refine ⟨_, hreach, by decide +kernel, ?_⟩
  refine expired_resent hreach rfl rfl rfl (.inl rfl) ?_ ?_
    (show _ < (List.replicate 2 (envAt 3000000 2000000000)).length by decide +kernel)
  · intro env henv
    rw [List.eq_of_mem_replicate (n := 3) henv]
    decide
  · intro env henv
    rw [List.eq_of_mem_replicate (n := 3) henv]
    rfl

def acknowledges : Segment where
  metadata := .dataAck {
    protocol := ackClientToServer
    sessionID := 7
    seq := 0
    unAckSeq := 1
    windowSize := 16 }

/-- A pass at 20 ms finds the response, which is due after two seconds.  It is
acknowledged at 50 ms, the timeout falls to 226.5 ms, and the application
writes a byte, which is sent at 60 ms. -/
def shortens : List (SessionEvent ⊕ Segment) :=
  opens ++ (List.replicate 5 (Sum.inl (SessionEvent.output (envAt 20000 2000000000))) ++
      (Sum.inr acknowledges :: (List.replicate 4
            (Sum.inl (SessionEvent.input (envAt 50000 2000000000))) ++
          (Sum.inl (SessionEvent.write [1]) :: (List.replicate 3 (Sum.inl (SessionEvent.writer
                { envAt 60000 226500000 with choice := .fallback })) ++
              List.replicate 7 (Sum.inl (SessionEvent.output (envAt 60000 226500000))))))))

/-- A call at 300 ms returns without having sent the byte again, which was due
at 286.5 ms. -/
theorem expired_not_resent : ∃ l, sessionSystem.Reachable l ∧ l.output = .idle ∧
      l.session.outputHasErr = false ∧ l.session.transportProtocol = .packetTransport ∧
      (∃ seg ∈ l.session.sendBuf.items, seg.Expired 300000) ∧
      ∃ s, l.session.runOutput l.output
          (List.replicate 3 (envAt 300000 226500000)) = some (s, .idle, []) ∧
        s.closeRequested = false := by
  have hrun : System.runEvents LiveSession.next server shortens = some _ := rfl
  exact ⟨_, System.Reachable.run (.init server_isInitial) hrun, rfl, rfl, rfl,
    by decide +kernel, _, rfl, rfl⟩

end Retransmission

end Mieru.Protocol
