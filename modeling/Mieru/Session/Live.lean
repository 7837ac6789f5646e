import Mieru.Session.Input
import Mieru.Session.Output
import Mieru.Session.ReadWrite

/-!
# A running session

A session together with the program points of its goroutines: one writer, one
reader, the output loop and the input loop.  The goroutine inside
`closeWithError` is part of the session record.
-/

namespace Mieru.Protocol

open Mieru.Foundation

structure LiveSession where
  session : Session
  writer : WriterState := .returned 0 none
  reader : ReaderState := .returned [] none
  output : OutputState := .idle
  input : InputState := .idle

inductive SessionEvent where
  | write (b : Bytes)
  | writer (env : Env)
  | read (size : Nat)
  | reader (env : Env)
  | output (env : Env)
  | input (env : Env)
  | close
  | closer (env : Env)

namespace LiveSession

/-- `Write` is called; `wLock` holds back a second caller. -/
def write (l : LiveSession) (b : Bytes) : Option LiveSession :=
  match l.writer with
  | .returned _ _ =>
    match l.session.write b with
    | (session, writer) => some { l with session := session, writer := writer }
  | _ => none

/-- `Read` is called; `rLock` holds back a second caller. -/
def read (l : LiveSession) (size : Nat) : Option LiveSession :=
  match l.reader with
  | .returned _ _ =>
    match l.session.read size with
    | (session, reader) => some { l with session := session, reader := reader }
  | _ => none

/-- The event loop of the underlay sends to `recvChan`; a full channel blocks. -/
def receive (l : LiveSession) (seg : Segment) : Option LiveSession :=
  if l.session.recvChan.length < segmentChanCapacity then
    some { l with session :=
      { l.session with recvChan := l.session.recvChan ++ [seg] } }
  else none

theorem receive_eq_some {l l' : LiveSession} {seg : Segment} (h : l.receive seg = some l') :
    l.session.recvChan.length < segmentChanCapacity ∧
      l' = { l with session := { l.session with recvChan := l.session.recvChan ++ [seg] } } := by
  obtain ⟨hroom, heq⟩ := Option.ite_none_right_eq_some.mp h
  exact ⟨hroom, (Option.some.inj heq).symm⟩

def step (l : LiveSession) : SessionEvent → Option (LiveSession × List Packet)
  | .write b => (l.write b).map fun l => (l, [])
  | .writer env =>
    (l.session.writerStep env l.writer).map fun (session, writer) =>
      ({ l with session := session, writer := writer }, [])
  | .read size => (l.read size).map fun l => (l, [])
  | .reader env =>
    (l.session.readerStep env l.reader).map fun (session, reader) =>
      ({ l with session := session, reader := reader }, [])
  | .output env =>
    (l.session.outputStep env l.output).map fun (session, output, sent) =>
      ({ l with session := session, output := output }, sent)
  | .input env =>
    (l.session.inputStep env l.input).map fun (session, input, sent) =>
      ({ l with session := session, input := input }, sent)
  | .close => some ({ l with session := l.session.close }, [])
  | .closer env =>
    (l.session.closerStep env).map fun (session, sent) =>
      ({ l with session := session }, sent)

end LiveSession

end Mieru.Protocol
