import Mieru.Session.Steps

/-!
# What the steps of a session leave alone

The MTU is fixed when a session is made.  The user's download counter only
grows at the end of a `Write`, and the time of the next retransmission pass is
only set at the end of one.  A counter that is not registered yet counts as
zero.
-/

namespace Mieru.Protocol

open Mieru.Foundation

def IsValidMTU (mtu : Nat) : Prop := 1280 ≤ mtu ∧ mtu ≤ 1500

namespace Session

def counted (s : Session) : Nat := s.downloadBytes.getD 0

structure Steady (s t : Session) : Prop where
  mtu : t.mtu = s.mtu
  counted : t.counted = s.counted
  scheduled : t.nextRetransmissionTime = s.nextRetransmissionTime

theorem Steady.refl (s : Session) : s.Steady s := ⟨rfl, rfl, rfl⟩

theorem Steady.trans {s t u : Session} (h : s.Steady t) (h' : t.Steady u) : s.Steady u :=
  ⟨h'.mtu.trans h.mtu, h'.counted.trans h.counted, h'.scheduled.trans h.scheduled⟩

theorem Steady.after {s t u : Session} (h' : t.Steady u) (h : s.Steady t) : s.Steady u :=
  h.trans h'

variable (s : Session)

theorem steady_closeWithError (gracefulClose : Bool) :
    s.Steady (s.closeWithError gracefulClose) := by
  unfold closeWithError
  split <;> exact ⟨rfl, rfl, rfl⟩

theorem steady_forwardStateTo (next : SessionState) : s.Steady (s.forwardStateTo next) := by
  unfold forwardStateTo
  split <;> exact ⟨rfl, rfl, rfl⟩

theorem steady_failInput : s.Steady s.failInput.1 :=
  Steady.trans (t := s.setInputErr) ⟨rfl, rfl, rfl⟩ (steady_closeWithError _ false)

theorem steady_failOutput : s.Steady s.failOutput :=
  Steady.trans (t := s.setOutputErr) ⟨rfl, rfl, rfl⟩ (steady_closeWithError _ false)

theorem steady_enqueue (seg : Segment) : s.Steady (s.enqueue seg).2 :=
  ⟨rfl, rfl, rfl⟩

theorem steady_storeWindow (metadata : Metadata) : s.Steady (s.storeWindow metadata) := by
  cases metadata <;> exact ⟨rfl, rfl, rfl⟩

theorem steady_copyUnread (size : Nat) : s.Steady (s.copyUnread size).1 := by
  simp only [copyUnread, addUploadBytes]
  split <;> exact ⟨rfl, rfl, rfl⟩

theorem steady_appendUnread (seg : Segment) : s.Steady (s.appendUnread seg) := by
  obtain ⟨state, hstate⟩ := s.appendUnread_eq seg
  rw [hstate]
  exact ⟨rfl, rfl, rfl⟩

theorem steady_storeBlock (block : Cipher.BlockCipher) : s.Steady (s.storeBlock block) := by
  refine ⟨rfl, ?_, rfl⟩
  unfold counted storeBlock
  dsimp only
  split <;> rfl

variable {s}
variable {t : Session} {env : Env} {sent : List Packet} {seg : Segment}

theorem steady_of_enqueue {ok : Bool} (h : s.enqueue seg = (ok, t)) : s.Steady t := by
  have hsteady := s.steady_enqueue seg
  rwa [h] at hsteady

theorem steady_output {ok : Bool} (h : s.output env seg = (ok, t, sent)) : s.Steady t := by
  unfold output at h
  split at h <;> cases h <;> exact ⟨rfl, rfl, rfl⟩

theorem steady_read {size : Nat} {reader : ReaderState}
    (h : s.read size = (t, reader)) : s.Steady t := by
  unfold read at h
  split at h
  · obtain rfl : (s.copyUnread size).1 = t := congrArg Prod.fst h
    exact s.steady_copyUnread size
  · cases h
    exact Steady.refl s

theorem steady_readerStep {reader reader' : ReaderState}
    (h : s.readerStep env reader = some (t, reader')) : s.Steady t := by
  cases readerStep_inv h with
  | taken => exact (steady_appendUnread _ _).after ⟨rfl, rfl, rfl⟩
  | copied => exact (steady_copyUnread _ _).after ⟨rfl, rfl, rfl⟩
  | _ => exact ⟨rfl, rfl, rfl⟩

theorem steady_write {b : Bytes} {writer : WriterState}
    (h : s.write b = (t, writer)) : s.Steady t := by
  have hsent : s.Steady s.setOpenSessionRequestSent := ⟨rfl, rfl, rfl⟩
  cases writeStart h with
  | refused | begun => exact Steady.refl s
  | full _ _ henqueue | carried _ _ henqueue | requested _ _ henqueue =>
    exact hsent.trans (steady_of_enqueue henqueue)

theorem steady_writerStep {writer writer' : WriterState}
    (h : s.writerStep env writer = some (t, writer')) :
    (s.Steady t ∧ ∀ n, writer' ≠ .returned n none) ∨
      ∃ n, writer = .writing [] n ∧ writer' = .returned n none ∧ t = s.addDownloadBytes n := by
  cases writerStep_inv h with
  | done n => exact .inr ⟨n, rfl, rfl, rfl⟩
  | full _ henqueue | last _ henqueue | queued _ henqueue =>
    exact .inl ⟨steady_of_enqueue henqueue, by simp⟩
  | _ => exact .inl ⟨⟨rfl, rfl, rfl⟩, by simp⟩

theorem steady_endPass (pass : ResendPass) : Steady { s with
      nextRetransmissionTime := pass.nextTX.getD (env.now + 10000) }
      (s.endPass env pass) := by
  unfold endPass
  dsimp only
  split
  · exact steady_closeWithError _ false
  · exact Steady.refl _

theorem steady_visit {pass pass' : ResendPass} {iter : Segment}
    (h : s.Visit env pass iter t pass' sent) : s.Steady t := by
  have hstamped : s.Steady (s.restampSendBuf env iter) := ⟨rfl, rfl, rfl⟩
  cases h with
  | exhausted => exact ⟨rfl, rfl, rfl⟩
  | resent _ houtput => exact hstamped.trans (steady_output houtput)
  | unsent houtput =>
    exact (hstamped.trans (steady_output houtput)).trans ⟨rfl, rfl, rfl⟩
  | early => exact Steady.refl s

theorem steady_outputStep {output output' : OutputState}
    (h : s.outputStep env output = some (t, output', sent)) :
    s.Steady t ∨ ∃ pass, output = .resending pass ∧ t = s.endPass env pass := by
  cases outputStep_inv h with
  | passed => exact .inr ⟨_, rfl, rfl⟩
  | visited _ hvisit => exact .inl (steady_visit hvisit)
  | streamSent houtput | written houtput | ack _ houtput =>
    exact .inl (steady_output houtput)
  | streamFailed houtput | failed houtput | ackFailed _ houtput =>
    exact .inl ((steady_output houtput).trans (steady_failOutput _))
  | overflow => exact .inl ((steady_failOutput _).after ⟨rfl, rfl, rfl⟩)
  | _ => exact .inl ⟨rfl, rfl, rfl⟩

theorem steady_acceptBlock (h : s.acceptBlock seg = .ok t) : s.Steady t := by
  obtain rfl | ⟨block, -, rfl⟩ := acceptBlock_eq_ok h
  · exact Steady.refl t
  · exact s.steady_storeBlock block

theorem steady_inputStep {input input' : InputState}
    (h : s.inputStep env input = some (t, input', sent)) : s.Steady t := by
  have hreserve : s.Steady s.reserveSeq := ⟨rfl, rfl, rfl⟩
  cases inputStep_inv h with
  | refused | overflow => exact (steady_failInput _).after ⟨rfl, rfl, rfl⟩
  | taken _ hblock =>
    have haccept := steady_acceptBlock hblock
    exact ⟨haccept.mtu, haccept.counted, haccept.scheduled⟩
  | ackedData | ackedOnly | advanced =>
    exact (steady_storeWindow _ _).after ⟨rfl, rfl, rfl⟩
  | overQuota => exact (steady_closeWithError _ _).after ⟨rfl, rfl, rfl⟩
  | opened _ _ _ _ henqueue =>
    exact (steady_of_enqueue henqueue).trans (steady_forwardStateTo _ _)
  | openFailed _ _ _ henqueue =>
    exact (steady_of_enqueue henqueue).trans (steady_failInput _)
  | answered _ houtput =>
    exact hreserve.trans ((steady_output houtput).trans (steady_closeWithError _ true))
  | unanswered _ houtput =>
    exact hreserve.trans ((steady_output houtput).trans (steady_failInput _))
  | confirmed => exact s.steady_closeWithError true
  | _ => exact ⟨rfl, rfl, rfl⟩

theorem steady_closerStep (h : s.closerStep env = some (t, sent)) : s.Steady t := by
  cases closerStep_inv h with
  | queued _ henqueue | full _ henqueue =>
    exact (steady_of_enqueue henqueue).trans ⟨rfl, rfl, rfl⟩
  | written _ houtput => exact (steady_output houtput).trans ⟨rfl, rfl, rfl⟩
  | finished => exact (s.steady_forwardStateTo .sessionClosed).trans ⟨rfl, rfl, rfl⟩
  | _ => exact ⟨rfl, rfl, rfl⟩

end Session

namespace LiveSession

variable {l l' : LiveSession} {event : SessionEvent} {sent : List Packet}

/-- Two kinds of steps are not steady: a `Write` that returns what it wrote,
and the end of a retransmission pass. -/
theorem step_steady (h : l.step event = some (l', sent)) : l.session.Steady l'.session ∨
      (∃ env n, event = .writer env ∧ l.writer = .writing [] n ∧ l' = { l with
          session := l.session.addDownloadBytes n
          writer := .returned n none }) ∨
      ∃ env pass, event = .output env ∧ l.output = .resending pass ∧
        l'.session = l.session.endPass env pass := by
  cases step_inv h with
  | write hcall => exact .inl (Session.steady_write hcall)
  | writer hstep =>
    rcases Session.steady_writerStep hstep with
      ⟨hsteady, _⟩ | ⟨n, hwriting, rfl, rfl⟩
    · exact .inl hsteady
    · exact .inr (.inl ⟨_, n, rfl, hwriting, rfl⟩)
  | read hcall => exact .inl (Session.steady_read hcall)
  | reader hstep => exact .inl (Session.steady_readerStep hstep)
  | output hstep =>
    rcases Session.steady_outputStep hstep with hsteady | ⟨pass, hpass, rfl⟩
    · exact .inl hsteady
    · exact .inr (.inr ⟨_, pass, rfl, hpass, rfl⟩)
  | input hstep => exact .inl (Session.steady_inputStep hstep)
  | close => exact .inl (l.session.steady_closeWithError true)
  | closer hstep => exact .inl (Session.steady_closerStep hstep)

theorem mtu_step (h : l.step event = some (l', sent)) : l'.session.mtu = l.session.mtu := by
  rcases step_steady h with
    hsteady | ⟨env, n, _, _, rfl⟩ | ⟨env, pass, _, _, hend⟩
  · exact hsteady.mtu
  · simp only [Session.addDownloadBytes]
    split <;> rfl
  · rw [hend]
    exact Session.steady_endPass pass |>.mtu

theorem receive_steady {seg : Segment} (h : l.receive seg = some l') :
    l.session.Steady l'.session := by
  obtain ⟨-, rfl⟩ := receive_eq_some h
  exact ⟨rfl, rfl, rfl⟩

end LiveSession

end Mieru.Protocol
