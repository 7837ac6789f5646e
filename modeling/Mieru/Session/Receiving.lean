import Mieru.Session.Frames

/-!
# The receiving side of a session

What the steps of the input loop do to the fields that belong to it and to the
event loop of the underlay.
-/

namespace Mieru.Protocol

open Mieru.Foundation

namespace Session

variable {s s' : Session} {env : Env} {state state' : InputState} {sent : List Packet}
  {seg : Segment}

structure Works (s s' : Session) (state' : InputState) : Prop where
  recvChan : s'.recvChan = s.recvChan
  block : s'.block = s.block
  ended : state' = .ended → s'.closeRequested = true

theorem Works.of_receiving (hchan : s'.recvChan = s.recvChan) (hblock : s'.block = s.block)
    (hended : state' ≠ .ended) : s.Works s' state' where
  recvChan := hchan
  block := hblock
  ended h := absurd h hended

theorem receiving_closeWithError (graceful : Bool) :
    (s.closeWithError graceful).receiving = s.receiving :=
  receiving_of_still (still_closeWithError graceful)

theorem receiving_failInput : s.failInput.1.receiving = s.receiving :=
  receiving_of_still still_failInput

theorem Works.failInput {t : Session} (hchan : t.recvChan = s.recvChan)
    (hblock : t.block = s.block) : s.Works t.failInput.1 .ended where
  recvChan := (congrArg Receiving.recvChan receiving_failInput).trans hchan
  block := (congrArg Receiving.block receiving_failInput).trans hblock
  ended _ := t.closeRequested_failInput

theorem Works.idle (hsame : s'.receiving = s.receiving) : s.Works s' .idle :=
  .of_receiving (congrArg Receiving.recvChan hsame) (congrArg Receiving.block hsame)
    (by simp)

theorem receiving_storeWindow (metadata : Metadata) :
    (s.storeWindow metadata).receiving = s.receiving :=
  receiving_of_still (still_storeWindow metadata)

theorem works_inputStep (hbusy : state ≠ .idle)
    (h : s.inputStep env state = some (s', state', sent)) : s.Works s' state' := by
  cases inputStep_inv h with
  | ended | refused | panicked | taken => exact absurd rfl hbusy
  | advanced =>
    rename_i seg seg3
    have hwindow := receiving_storeWindow (s := { s with nextRecv := s.nextRecv + 1 }) seg3.metadata
    exact .of_receiving (congrArg Receiving.recvChan hwindow)
      (congrArg Receiving.block hwindow) (by simp)
  | overflow => exact .failInput rfl rfl
  | opened | overQuota | ordinary => exact .idle (receiving_of_still (still_responding h))
  | answered | confirmed => exact .idle (receiving_of_still (still_closing h))
  | openFailed _ _ _ henqueue =>
    have hsame := receiving_of_still (still_enqueue henqueue)
    exact .failInput (congrArg Receiving.recvChan hsame) (congrArg Receiving.block hsame)
  | unanswered _ houtput =>
    have hsame := receiving_of_still (still_output houtput)
    exact .failInput (congrArg Receiving.recvChan hsame) (congrArg Receiving.block hsame)
  | _ => exact .of_receiving rfl rfl (by simp)

/-- After the checks of `input` only the quota check can panic. -/
theorem inputStep_calm (hbusy : state ≠ .idle)
    (hquota : ∀ message, s.quotaAnswer env ≠ .panic message)
    (h : s.inputStep env state = some (s', state', sent)) :
    ∀ message seg, state' ≠ .panicked message seg := by
  cases inputStep_inv h with
  | panicked | taken => exact absurd rfl hbusy
  | quotaPanicked _ hpanics => exact absurd hpanics (hquota _)
  | _ => simp

/-- What `input` does up to the point where it hands the segment on. -/
structure Takes (s : Session) (seg : Segment) (s' : Session) (state' : InputState) : Prop where
  recvChan : s'.recvChan = s.recvChan
  block : s'.block = s.block ∨ s'.block = seg.block
  ended : state' = .ended → s'.closeRequested = true
  calm : seg.metadata.Typed → (∀ block, seg.block = some block → s.checkBlockUser block = .ok ()) →
    ∀ message other, state' ≠ .panicked message other

theorem dispatch_ne_ended (seg : Segment) : s.dispatch seg ≠ .ended := by
  unfold dispatch
  repeat' split
  all_goals simp

theorem dispatch_calm (htyped : seg.metadata.Typed) (message : String) (other : Option Segment) :
    s.dispatch seg ≠ .panicked message other := by
  unfold dispatch
  split
  · split <;> simp
  split
  · rename_i hack
    split
    · simp
    · simp
    · rename_i ss _ hmeta
      rw [hmeta] at htyped
      have hprotocol : seg.protocol = ss.protocol := by
        rw [Segment.protocol, hmeta]
        rfl
      rw [hprotocol] at hack
      rcases hack with hack | hack <;>
        simp [Metadata.Typed, hack, isSessionProtocol] at htyped
  · split <;> simp

theorem takes_acceptBlock (env : Env) (h : s.acceptBlock seg = .ok s') :
    s.Takes seg { s' with lastRXTime := env.now } (s'.dispatch seg) := by
  have hblock : s'.receiving = { s.receiving with
      block := s'.block, userName := s'.userName } ∧
      (s'.block = s.block ∨ s'.block = seg.block) := by
    obtain rfl | ⟨block, hblock, rfl⟩ := acceptBlock_eq_ok h
    · exact ⟨rfl, .inl rfl⟩
    · exact ⟨rfl, .inr hblock.symm⟩
  exact {
    recvChan := congrArg Receiving.recvChan hblock.1
    block := hblock.2
    ended := fun h => absurd h (dispatch_ne_ended seg)
    calm := fun htyped _ => dispatch_calm htyped }

theorem inputStep_idle (h : s.inputStep env .idle = some (s', state', sent)) :
    (env.choice = .closedChan ∧ s.closedChan = true ∧ s' = s ∧ state' = .ended) ∨
      ∃ seg rest, s.recvChan = seg :: rest ∧ { s with recvChan := rest }.Takes seg s' state' := by
  cases inputStep_inv h with
  | ended hchoice hclosed => exact .inl ⟨hchoice, hclosed, rfl, rfl⟩
  | taken hchan hblock => exact .inr ⟨_, _, hchan, takes_acceptBlock env hblock⟩
  | refused hchan =>
    rename_i seg rest _
    have hsame := receiving_failInput (s := { s with recvChan := rest })
    exact .inr ⟨seg, rest, hchan, {
      recvChan := congrArg Receiving.recvChan hsame
      block := .inl (congrArg Receiving.block hsame)
      ended := fun _ => closeRequested_failInput _
      calm := fun _ _ _ _ h => nomatch h }⟩
  | panicked hchan hblock =>
    refine .inr ⟨_, _, hchan, rfl, .inl rfl, by simp, ?_⟩
    intro _ hok
    unfold acceptBlock at hblock
    split at hblock
    · cases hblock
    · rename_i block hsome
      rw [hok block hsome] at hblock
      cases hblock

end Session

namespace LiveSession

variable {l l' : LiveSession} {event : SessionEvent} {sent : List Packet}

theorem step_receiving (h : l.step event = some (l', sent)) (hevent : ∀ env, event ≠ .input env) :
    l'.session.receiving = l.session.receiving ∧ l'.input = l.input := by
  cases step_inv h with
  | write hcall => exact ⟨Session.receiving_of_still (Session.still_write hcall), rfl⟩
  | writer hstep => exact ⟨Session.receiving_of_still (Session.still_writerStep hstep), rfl⟩
  | read hcall => exact ⟨(Prod.mk.inj (Session.aside_read hcall)).1, rfl⟩
  | reader hstep => exact ⟨(Prod.mk.inj (Session.aside_readerStep hstep)).1, rfl⟩
  | output hstep => exact ⟨(Prod.mk.inj (Session.incoming_outputStep hstep)).1, rfl⟩
  | input => exact absurd rfl (hevent _)
  | close => exact ⟨Session.receiving_closeWithError true, rfl⟩
  | closer hstep => exact ⟨(Prod.mk.inj (Session.incoming_closerStep hstep)).1, rfl⟩

end LiveSession

end Mieru.Protocol
