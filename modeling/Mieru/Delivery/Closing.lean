import Mieru.Delivery.Sending

/-!
# Why a session closes

Every call of `closeWithError`, by the program point from which it is made and
the state before the step.
-/

namespace Mieru.Protocol

open Mieru.Foundation
open ProtocolType

variable {seg : Segment} {ok : Bool}

namespace Session

def outputFails (s : Session) (env : Env) : Bool :=
  env.writeAnswer == .failed ||
    env.writeAnswer == .notReady && !s.isPacket

def OutputCloses (s : Session) (env : Env) : OutputState → Prop
  | .streamPopped _ => s.outputFails env = true
  | .resending pass => pass.closing = true
  | .popped _ _ => s.sendBuf.cap ≤ s.sendBuf.items.length
  | .buffered _ _ => s.outputFails env = true
  | .acking => s.outputFails env = true
  | _ => False

structure RefusesOpening (s : Session) (env : Env) (seg : Segment) : Prop where
  isServer : s.isClient = false
  request : seg.protocol = openSessionRequest
  attached : s.isState .sessionAttached = true
  refused : s.quotaAnswer env = .ok false ∨ s.sendQueue.cap ≤ s.sendQueue.items.length

def InputCloses (s : Session) (env : Env) : InputState → Prop
  | .idle => ∃ seg ∈ s.recvChan, s.acceptsProtocol seg.protocol = false
  | .holding _ _ => s.recvQueue.cap ≤ s.recvQueue.items.length
  | .responding seg => s.RefusesOpening env seg
  | .closing _ => True
  | _ => False

instance (s : Session) (env : Env) : (output : OutputState) → Decidable (s.OutputCloses env output)
  | .streamPopped _ => inferInstanceAs (Decidable (_ = true))
  | .resending _ => inferInstanceAs (Decidable (_ = true))
  | .popped _ _ => inferInstanceAs (Decidable (_ ≤ _))
  | .buffered _ _ => inferInstanceAs (Decidable (_ = true))
  | .acking => inferInstanceAs (Decidable (_ = true))
  | .idle | .ended | .streaming | .checking _ | .sending _ | .acked =>
    inferInstanceAs (Decidable False)

instance (s : Session) (env : Env) (seg : Segment) : Decidable (s.RefusesOpening env seg) :=
  decidable_of_iff (s.isClient = false ∧ seg.protocol = openSessionRequest ∧
      s.isState .sessionAttached = true ∧
      (s.quotaAnswer env = .ok false ∨ s.sendQueue.cap ≤ s.sendQueue.items.length))
    ⟨fun ⟨h₁, h₂, h₃, h₄⟩ => ⟨h₁, h₂, h₃, h₄⟩, fun ⟨h₁, h₂, h₃, h₄⟩ => ⟨h₁, h₂, h₃, h₄⟩⟩

instance (s : Session) (env : Env) : (input : InputState) → Decidable (s.InputCloses env input)
  | .idle =>
    inferInstanceAs (Decidable (∃ seg ∈ s.recvChan, s.acceptsProtocol seg.protocol = false))
  | .holding _ _ => inferInstanceAs (Decidable (_ ≤ _))
  | .responding seg =>
    inferInstanceAs (Decidable (s.RefusesOpening env seg))
  | .closing _ => inferInstanceAs (Decidable True)
  | .ended | .panicked _ _ | .deletingAcked _ _ | .countingAck _
  | .inserting _ | .moving _ | .queued _ _ => inferInstanceAs (Decidable False)

variable {s t : Session} {env : Env} {sent : List Packet}

@[simp] theorem closeRequested_forwardStateTo (next : SessionState) :
    (s.forwardStateTo next).closeRequested = s.closeRequested := by
  unfold forwardStateTo
  split <;> rfl

@[simp] theorem closeRequested_storeWindow (metadata : Metadata) :
    (s.storeWindow metadata).closeRequested = s.closeRequested := by
  cases metadata <;> rfl

theorem closeRequested_enqueue (h : s.enqueue seg = (ok, t)) :
    t.closeRequested = s.closeRequested := by
  cases h
  rfl

theorem closeRequested_output (h : s.output env seg = (ok, t, sent)) :
    t.closeRequested = s.closeRequested ∧ (ok = false → s.outputFails env = true) := by
  unfold output at h
  split at h
  · cases h
    exact ⟨rfl, by simp⟩
  · cases h
    exact ⟨rfl, by simp⟩
  · rename_i htransport hanswer
    cases h
    exact ⟨rfl, fun _ => by simp [outputFails, hanswer, isPacket, htransport]⟩
  · rename_i hanswer
    cases h
    exact ⟨rfl, fun _ => by simp [outputFails, hanswer]⟩

theorem closeRequested_write {b : Bytes} {writer : WriterState}
    (h : s.write b = (t, writer)) : t.closeRequested = s.closeRequested := by
  cases writeStart h with
  | refused | begun => rfl
  | full _ _ henqueue | carried _ _ henqueue | requested _ _ henqueue =>
    have hsame := closeRequested_enqueue henqueue
    exact hsame

theorem closeRequested_writerStep {writer writer' : WriterState}
    (h : s.writerStep env writer = some (t, writer')) : t.closeRequested = s.closeRequested := by
  cases writerStep_inv h with
  | done =>
    unfold addDownloadBytes
    split <;> rfl
  | full _ henqueue | last _ henqueue | queued _ henqueue =>
    exact closeRequested_enqueue henqueue
  | _ => rfl

theorem closeRequested_copyUnread (size : Nat) :
    (s.copyUnread size).1.closeRequested = s.closeRequested := by
  simp only [copyUnread, addUploadBytes]
  split <;> rfl

theorem closeRequested_readerStep {reader reader' : ReaderState}
    (h : s.readerStep env reader = some (t, reader')) : t.closeRequested = s.closeRequested := by
  cases readerStep_inv h with
  | taken =>
    simp only [appendUnread, openOnResponse]
    split <;> simp
  | copied => exact closeRequested_copyUnread _
  | _ => rfl

theorem closeRequested_visit {pass pass' : ResendPass} {iter : Segment}
    (h : s.Visit env pass iter t pass' sent) : t.closeRequested = s.closeRequested := by
  cases h with
  | exhausted | early => rfl
  | resent _ houtput | unsent houtput => exact (closeRequested_output houtput).1

theorem closes_outputStep {output output' : OutputState}
    (h : s.outputStep env output = some (t, output', sent)) :
    t.closeRequested = s.closeRequested ∨ s.OutputCloses env output := by
  cases outputStep_inv h with
  | streamSent houtput | written houtput | ack _ houtput =>
    exact .inl (closeRequested_output houtput).1
  | streamFailed houtput | failed houtput | ackFailed _ houtput =>
    exact .inr ((closeRequested_output houtput).2 rfl)
  | passed =>
    simp only [endPass]
    split
    · exact .inr ‹_›
    · exact .inl rfl
  | visited _ hvisit => exact .inl (closeRequested_visit hvisit)
  | overflow hinsert => exact .inr (SegmentTree.insert_eq_false hinsert).1
  | _ => exact .inl rfl

theorem closeRequested_acceptBlock (h : s.acceptBlock seg = .ok t) :
    t.closeRequested = s.closeRequested := by
  obtain rfl | ⟨block, -, rfl⟩ := acceptBlock_eq_ok h <;> rfl

theorem closes_inputStep {input input' : InputState}
    (h : s.inputStep env input = some (t, input', sent)) :
    t.closeRequested = s.closeRequested ∨ s.InputCloses env input := by
  cases inputStep_inv h with
  | refused hchan hprotocol => exact .inr ⟨_, by simp [hchan], hprotocol⟩
  | taken _ hblock =>
    have hsame := closeRequested_acceptBlock hblock
    exact .inl hsame
  | ackedData | ackedOnly | advanced => exact .inl (closeRequested_storeWindow _)
  | overflow hinsert => exact .inr (SegmentTree.insert_eq_false hinsert).1
  | overQuota hserver hrequest hattached hquota =>
    exact .inr ⟨hserver, hrequest, hattached, .inl hquota⟩
  | opened _ _ _ _ henqueue =>
    rw [closeRequested_forwardStateTo]
    exact .inl (closeRequested_enqueue henqueue)
  | openFailed hserver hrequest hattached henqueue =>
    exact .inr ⟨hserver, hrequest, hattached, .inr (full_of_enqueue henqueue)⟩
  | answered | unanswered | confirmed => exact .inr trivial
  | _ => exact .inl rfl

theorem closeRequested_closerStep (h : s.closerStep env = some (t, sent)) :
    t.closeRequested = s.closeRequested := by
  cases closerStep_inv h with
  | queued _ henqueue | full _ henqueue =>
    have hsame := closeRequested_enqueue henqueue
    exact hsame
  | written _ houtput => exact (closeRequested_output houtput).1
  | finished => exact closeRequested_forwardStateTo _
  | _ => rfl

theorem mem_enqueue {other : Segment} (h : s.enqueue seg = (ok, t))
    (hother : other ∈ t.sendQueue.items) : other ∈ s.sendQueue.items ∨ other = seg := by
  cases hinsert : s.sendQueue.insert seg with
  | mk inserted sendQueue =>
    simp only [enqueue, hinsert] at h
    cases h
    cases ok with
    | true =>
      rw [(SegmentTree.insert_eq_true hinsert).2] at hother
      exact (mem_replaceOrInsert_of_mem hother).symm
    | false =>
      rw [(SegmentTree.insert_eq_false hinsert).2] at hother
      exact .inl hother

/-- `closeWithError` makes one segment and sends no other. -/
structure ClosesWith (s : Session) (sent : List Packet) (t : Session) :
    Prop where
  called : s.closer.called = true
  queue : ∀ seg ∈ t.sendQueue.items, seg ∈ s.sendQueue.items ∨ seg = s.closeSegment
  buf : t.sendBuf.items ⊆ s.sendBuf.items
  held : ∀ seg ∈ t.closer.held, seg ∈ s.closer.held ∨ seg = s.closeSegment
  sent : ∀ p ∈ sent, ∃ seg ∈ s.closer.held, p = seg.packet

theorem closesWith_enqueue {closer : CloserState} (hcloser : s.closer = .starting true)
    (hheld : closer.held = [s.closeSegment]) (h : s.enqueue s.closeSegment = (ok, t)) :
    s.ClosesWith [] { t with closer := closer } := by
  have hbuf : s.sendBuf = t.sendBuf := congrArg (·.2.sendBuf) h
  refine ⟨by rw [hcloser]; rfl, fun seg hseg => mem_enqueue h hseg, ?_,
    fun seg hseg => .inr ?_, by simp⟩
  · rw [hbuf]
    exact List.Subset.refl _
  · exact List.mem_singleton.mp (hheld ▸ hseg)

theorem Quiet.queues (h : s.Quiet t) :
    t.sendQueue.items = s.sendQueue.items ∧ t.sendBuf.items = s.sendBuf.items :=
  ⟨congrArg Flow.sendQueue (h.flow [] .nothing), congrArg Flow.sendBuf (h.flow [] .nothing)⟩

theorem closesWith_closerStep (h : s.closerStep env = some (t, sent)) : s.ClosesWith sent t := by
  cases closerStep_inv h with
  | queued hcloser henqueue | full hcloser henqueue =>
    exact closesWith_enqueue hcloser rfl henqueue
  | direct hcloser =>
    exact ⟨by rw [hcloser]; rfl, fun _ => .inl, List.Subset.refl _,
      fun seg hseg => .inr (List.mem_singleton.mp hseg), by simp⟩
  | unsent hcloser | reached hcloser =>
    exact ⟨by rw [hcloser]; rfl, fun _ => .inl, List.Subset.refl _,
      fun seg hseg => (List.not_mem_nil hseg).elim, by simp⟩
  | expired hcloser | waits hcloser =>
    exact ⟨by rw [hcloser]; rfl, fun _ => .inl, List.Subset.refl _,
      fun other hother => .inl (by rw [hcloser]; exact hother), by simp⟩
  | written hcloser houtput =>
    obtain ⟨hquiet, hsent⟩ := s.output_spec houtput
    obtain ⟨hqueue, hbuf⟩ := hquiet.queues
    refine ⟨by rw [hcloser]; rfl, fun other hother => .inl (hqueue ▸ hother),
      fun other hother => hbuf ▸ hother,
      fun other hother => (List.not_mem_nil hother).elim, ?_⟩
    intro p hp
    rcases hsent with rfl | ⟨rfl, _⟩
    · exact ⟨_, by simp [hcloser, CloserState.held], List.mem_singleton.mp hp⟩
    · cases hp
  | clearQueue hcloser =>
    exact ⟨by rw [hcloser]; rfl, fun seg hseg => (List.not_mem_nil hseg).elim,
      List.Subset.refl _, fun seg hseg => (List.not_mem_nil hseg).elim,
      by simp⟩
  | clearBuf hcloser =>
    exact ⟨by rw [hcloser]; rfl, fun _ => .inl, List.nil_subset _,
      fun seg hseg => (List.not_mem_nil hseg).elim, by simp⟩
  | finished hcloser =>
    have hforward : s.Quiet (s.forwardStateTo .sessionClosed) :=
      s.quiet_forwardStateTo (by decide)
    obtain ⟨hqueue, hbuf⟩ := hforward.queues
    exact ⟨by rw [hcloser]; rfl, fun other hother => .inl (hqueue ▸ hother),
      fun other hother => hbuf ▸ hother,
      fun seg hseg => (List.not_mem_nil hseg).elim, by simp⟩

theorem ClosesWith.packets {P : Packet → Prop} {phase : SendPhase} (h : s.ClosesWith sent t)
    (hwaiting : ∀ seg ∈ (s.sendView phase).waiting, P seg.packet)
    (hheld : ∀ seg ∈ s.closer.held, P seg.packet) (hnew : P s.closeSegment.packet) :
    (∀ seg ∈ (t.sendView phase).waiting, P seg.packet) ∧
      (∀ seg ∈ t.closer.held, P seg.packet) ∧ ∀ p ∈ sent, P p := by
  refine ⟨?_, ?_, ?_⟩
  · intro seg hseg
    simp only [SendView.waiting, List.mem_append] at hseg hwaiting
    rcases hseg with (hphase | hqueue) | hbuf
    · exact hwaiting seg (.inl (.inl hphase))
    · rcases h.queue seg hqueue with hqueue | rfl
      · exact hwaiting seg (.inl (.inr hqueue))
      · exact hnew
    · exact hwaiting seg (.inr (h.buf hbuf))
  · intro seg hseg
    rcases h.held seg hseg with hseg | rfl
    · exact hheld seg hseg
    · exact hnew
  · intro p hp
    obtain ⟨seg, hseg, rfl⟩ := h.sent p hp
    exact hheld seg hseg

end Session

namespace LiveSession

variable {l l' : LiveSession} {event : SessionEvent} {sent : List Packet}

def Closes (l : LiveSession) : SessionEvent → Prop
  | .close => True
  | .output env => l.session.OutputCloses env l.output
  | .input env => l.session.InputCloses env l.input
  | _ => False

theorem step_closes (h : l.step event = some (l', sent)) :
    l'.session.closeRequested = l.session.closeRequested ∨ l.Closes event := by
  cases step_inv h with
  | write hcall => exact .inl (Session.closeRequested_write hcall)
  | writer hstep => exact .inl (Session.closeRequested_writerStep hstep)
  | read hcall =>
    left
    unfold Session.read at hcall
    split at hcall <;> cases hcall
    · exact Session.closeRequested_copyUnread _
    · rfl
  | reader hstep => exact .inl (Session.closeRequested_readerStep hstep)
  | output hstep => exact Session.closes_outputStep hstep
  | input hstep => exact Session.closes_inputStep hstep
  | close => exact .inr trivial
  | closer hstep => exact .inl (Session.closeRequested_closerStep hstep)

end LiveSession

end Mieru.Protocol
