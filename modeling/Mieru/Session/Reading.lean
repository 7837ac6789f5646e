import Mieru.Session.Frames

/-!
# The reading side of a session

Only `Read` touches `unreadBuf` and takes segments from `recvQueue`; the input
loop at most inserts a segment there.  `Read` looks for the end of the stream
after it has found the buffer empty.
-/

namespace Mieru.Protocol

namespace Session

/-- The step at most inserts a segment into `recvQueue`. -/
structure Supplies (s t : Session) : Prop where
  unreadBuf : t.unreadBuf = s.unreadBuf
  recvQueue : t.recvQueue = s.recvQueue ∨ ∃ seg, t.recvQueue = (s.recvQueue.insert seg).2

theorem supplies_of_readSide {s t : Session} (h : t.readSide = s.readSide) : s.Supplies t :=
  ⟨(Prod.mk.inj h).1, .inl (Prod.mk.inj h).2⟩

variable {s t : Session} {env : Env} {seg : Segment} {sent : List Packet}

theorem readSide_failInput : s.failInput.1.readSide = s.readSide :=
  readSide_of_still still_failInput

theorem readSide_storeWindow (metadata : Metadata) :
    (s.storeWindow metadata).readSide = s.readSide :=
  readSide_of_still (still_storeWindow metadata)

theorem supplies_inputStep {input input' : InputState}
    (h : s.inputStep env input = some (t, input', sent)) : s.Supplies t := by
  cases input with
  | idle => exact supplies_of_readSide (congrArg Prod.fst (settled_idle h))
  | responding seg => exact supplies_of_readSide (readSide_of_still (still_responding h))
  | closing seg => exact supplies_of_readSide (readSide_of_still (still_closing h))
  | inserting seg =>
    cases inputStep_inv h with
    | streamed _ hinsert => exact ⟨rfl, .inr ⟨seg, by rw [hinsert]⟩⟩
    | crowded | stored => exact supplies_of_readSide rfl
  | holding seg seg3 =>
    cases inputStep_inv h with
    | queued _ hinsert => exact ⟨rfl, .inr ⟨seg3, by rw [hinsert]⟩⟩
    | skipped => exact supplies_of_readSide rfl
    | overflow hinsert =>
      refine ⟨congrArg Prod.fst readSide_failInput, .inr ⟨seg3, ?_⟩⟩
      rw [hinsert]
      exact congrArg Prod.snd readSide_failInput
  | deletingAcked seg das =>
    cases inputStep_inv h with
    | acked => exact supplies_of_readSide rfl
    | ackedData | ackedOnly => exact supplies_of_readSide (readSide_storeWindow _)
  | queued seg seg3 =>
    cases h
    exact supplies_of_readSide (readSide_storeWindow _)
  | ended | panicked message seg => cases h
  | countingAck das | moving seg =>
    cases inputStep_inv h <;> exact supplies_of_readSide rfl

end Session

def ReaderState.isSeeking : ReaderState → Bool
  | .waiting _ => true
  | .selecting _ => true
  | _ => false

def ReaderState.isEOF : ReaderState → Bool
  | .returned _ (some .eof) => true
  | _ => false

namespace Session

variable {s t : Session} {env : Env} {reader reader' : ReaderState}

theorem isSeeking_read {size : Nat} (h : s.read size = (t, reader')) :
    reader'.isEOF = false ∧ (reader'.isSeeking = true → t.unreadBuf = []) := by
  unfold read at h
  split at h
  · cases h
    exact ⟨rfl, (nomatch ·)⟩
  · rename_i hunread
    cases h
    refine ⟨rfl, fun _ => ?_⟩
    simpa using hunread

theorem isSeeking_readerStep (hseeking : reader.isSeeking = true → s.unreadBuf = [])
    (h : s.readerStep env reader = some (t, reader')) :
    (reader'.isSeeking = true → t.unreadBuf = []) ∧
      (reader'.isEOF = true → t = s ∧ s.closedChan = true ∧
        env.choice = .closedChan ∧ ∃ size, reader = .selecting size) := by
  cases readerStep_inv h with
  | missed | announced => exact ⟨fun _ => hseeking rfl, Bool.noConfusion⟩
  | eof hchoice hclosed =>
    exact ⟨Bool.noConfusion, fun _ => ⟨rfl, hclosed, hchoice, _, rfl⟩⟩
  | nothing _ hunread => exact ⟨fun _ => hunread, Bool.noConfusion⟩
  | _ => exact ⟨Bool.noConfusion, Bool.noConfusion⟩

end Session

namespace LiveSession

variable {l l' : LiveSession} {event : SessionEvent} {sent : List Packet}

/-- While `Read` seeks, it has handed out everything it took. -/
def SeeksEmpty (l : LiveSession) : Prop :=
  l.reader.isSeeking = true → l.session.unreadBuf = []

/-- `Read` is about to return because the session is closed. -/
structure FindsEnd (l : LiveSession) (event : SessionEvent) : Prop where
  closedChan : l.session.closedChan = true
  unread : l.session.unreadBuf = []
  selects : ∃ env size, event = .reader env ∧ env.choice = .closedChan ∧ l.reader = .selecting size

def ofReader : SessionEvent → Bool
  | .read _ => true
  | .reader _ => true
  | _ => false

theorem step_supplies (h : l.step event = some (l', sent)) (hevent : ofReader event = false) :
    l'.reader = l.reader ∧ l.session.Supplies l'.session := by
  cases step_inv h with
  | read | reader => cases hevent
  | write hcall =>
    exact ⟨rfl, Session.supplies_of_readSide
      (Session.readSide_of_still (Session.still_write hcall))⟩
  | writer hstep =>
    exact ⟨rfl, Session.supplies_of_readSide
      (Session.readSide_of_still (Session.still_writerStep hstep))⟩
  | output hstep =>
    exact ⟨rfl, Session.supplies_of_readSide (Prod.mk.inj (Session.incoming_outputStep hstep)).2⟩
  | input hstep => exact ⟨rfl, Session.supplies_inputStep hstep⟩
  | close =>
    exact ⟨rfl, Session.supplies_of_readSide
      (Session.readSide_of_still (Session.still_closeWithError true))⟩
  | closer hstep =>
    exact ⟨rfl, Session.supplies_of_readSide (Prod.mk.inj (Session.incoming_closerStep hstep)).2⟩

theorem step_reader (h : l.step event = some (l', sent)) (hl : l.SeeksEmpty) :
    l'.SeeksEmpty ∧ (l'.reader.isEOF = true →
      l.reader.isEOF = true ∨ l'.session = l.session ∧ l.FindsEnd event) := by
  cases hevent : ofReader event with
  | false =>
    obtain ⟨hreader, hsupplies⟩ := step_supplies h hevent
    constructor
    · unfold SeeksEmpty
      rw [hreader, hsupplies.unreadBuf]
      exact hl
    · rw [hreader]
      exact .inl
  | true =>
    cases step_inv h with
    | read hcall =>
      obtain ⟨hend, hseeking⟩ := Session.isSeeking_read hcall
      exact ⟨hseeking, fun heof => nomatch hend.symm.trans heof⟩
    | reader hstep =>
      obtain ⟨hseeking, hend⟩ := Session.isSeeking_readerStep hl hstep
      refine ⟨hseeking, fun heof => .inr ?_⟩
      obtain ⟨hsame, hclosed, hchoice, size, hselecting⟩ := hend heof
      refine ⟨hsame, hclosed, hl ?_, _, size, rfl, hchoice, hselecting⟩
      rw [hselecting]
      rfl
    | _ => cases hevent

end LiveSession

end Mieru.Protocol
