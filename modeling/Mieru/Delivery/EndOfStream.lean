import Mieru.Delivery.Datagram
import Mieru.Delivery.Room
import Mieru.Session.Reading

/-!
# The end of a stream over datagrams

`Close` queues its request behind the data, but the request is a datagram like
any other, and a session closes as soon as it gets one: `inputClose` does not
compare its number with `nextRecv`.  Meanwhile the side that closes forgets
what was not acknowledged.  `Read` in turn may find the session closed after
segments have arrived in a queue that it found empty.  If neither happens, the
end of the stream comes after all data.
-/

namespace Mieru.Protocol

open Mieru.Foundation
open Mieru.Cipher
open ProtocolType

/-! ## Close segments -/

def isCloseProtocol (p : ProtocolType) : Bool :=
  p == closeSessionRequest || p == closeSessionResponse

theorem isCloseProtocol_of_isOutputData {isClient : Bool} {p : ProtocolType}
    (h : isOutputData isClient p = true) : isCloseProtocol p = false := by
  revert h
  cases isClient <;> cases p <;> decide

theorem isCloseProtocol_of_isOutputAck {isClient : Bool} {p : ProtocolType}
    (h : isOutputAck isClient p = true) : isCloseProtocol p = false := by
  revert h
  cases isClient <;> cases p <;> decide

/--
A close segment is sent by a side that closes, and takes a number that was
free when that side called `Close`.
-/
def Packet.Late (requested : Bool) (mark : Option Nat) (p : Packet) : Prop :=
  isCloseProtocol p.metadata.protocol = true → requested = true ∧ ∀ n ∈ mark, n ≤ p.seq.toNat

variable {requested requested' : Bool} {mark mark' : Option Nat}

theorem Packet.Late.mono {p : Packet} (h : p.Late requested mark)
    (hrequested : requested = true → requested' = true ∧ mark' = mark) :
    p.Late requested' mark' := by
  intro hclose
  obtain ⟨hbefore, habove⟩ := h hclose
  obtain ⟨hafter, rfl⟩ := hrequested hbefore
  exact ⟨hafter, habove⟩

theorem Packet.Late.retouched {seg again : Segment} {nextRecv : UInt32}
    (htouch : seg.Retouched nextRecv again)
    (h : seg.packet.Late requested mark) : again.packet.Late requested mark := by
  intro hclose
  have hprotocol : isCloseProtocol seg.protocol = true := by
    rw [← htouch.protocol_eq]
    exact hclose
  obtain ⟨hrequested, habove⟩ := h hprotocol
  refine ⟨hrequested, fun n hn => ?_⟩
  have hkey : again.packet.seq.toNat = seg.packet.seq.toNat := htouch.key
  rw [hkey]
  exact habove n hn

/-! ## The side that closes -/

namespace LiveSession

variable {l l' : LiveSession} {event : SessionEvent} {sent : List Packet}

structure ClosesLate (mark : Option Nat) (l : LiveSession) : Prop where
  marked : ∀ n ∈ mark, l.session.closeRequested = true ∧ n ≤ l.session.history.queued.length
  waiting : ∀ seg ∈ l.sendView.waiting, seg.packet.Late l.session.closeRequested mark
  closer : ∀ seg ∈ l.session.closer.held, seg.packet.Late l.session.closeRequested mark

theorem ClosesLate.step (h : l.ClosesLate mark) (hl : l.WellFormed)
    (hnext : l.session.nextSend.toNat = l.session.history.queued.length)
    (hstep : l.step event = some (l', sent)) :
    l'.ClosesLate mark ∧ ∀ p ∈ sent, p.Late l'.session.closeRequested mark := by
  obtain ⟨hfollows, -⟩ := step_follows hl hstep
  have hmono : ∀ {p : Packet}, p.Late l.session.closeRequested mark →
      p.Late l'.session.closeRequested mark :=
    fun hp => hp.mono fun hbefore => ⟨hfollows.keeps.requested hbefore, rfl⟩
  have hmarked : ∀ n ∈ mark, l'.session.closeRequested = true ∧
      n ≤ l'.session.history.queued.length := by
    intro n hn
    obtain ⟨hbefore, hle⟩ := h.marked n hn
    exact ⟨hfollows.keeps.requested hbefore,
      Nat.le_trans hle hfollows.step.queued_isPrefix.length_le⟩
  -- A close segment that is made now takes the next number.
  have hnew : ∀ seg : Segment, seg.seq = l.session.nextSend → l'.session.closeRequested = true →
      seg.packet.Late l'.session.closeRequested mark := by
    intro seg hseq hrequested _
    refine ⟨hrequested, fun n hn => ?_⟩
    change n ≤ seg.seq.toNat
    rw [hseq, hnext]
    exact (h.marked n hn).2
  cases hevent : event.ofCloser with
  | false =>
    have hsending := step_sending hl hevent hstep
    obtain ⟨hwaiting, hsent⟩ := hsending.step.packets (Packet.Late l'.session.closeRequested mark)
      (Packet.Late l'.session.closeRequested mark) (fun _ hp => hp)
      Packet.Late.retouched
      (by
        intro seg _ hseq hdata hclose
        rcases hdata with hdata | hclosed
        · cases hclose.symm.trans (isCloseProtocol_of_isOutputData hdata)
        · exact hnew seg hseq hclosed hclose)
      (fun seg _ hack hclose =>
        nomatch hclose.symm.trans (isCloseProtocol_of_isOutputAck hack))
      (fun seg _ hclosed _ hseq => hnew seg hseq hclosed)
      (fun seg hseg => hmono (h.waiting seg hseg))
    refine ⟨⟨hmarked, hwaiting, ?_⟩, hsent⟩
    intro seg hseg
    cases hsending.closer with
    | same hcloser _ =>
      rw [hcloser] at hseg
      exact hmono (h.closer seg hseg)
    | called graceful _ hcloser _ =>
      rw [hcloser] at hseg
      cases hseg
  | true =>
    cases event with
    | closer env =>
      obtain ⟨⟨t, packets⟩, hcloser, heq⟩ := Option.map_eq_some_iff.mp hstep
      cases heq
      have hcloses := Session.closesWith_closerStep hcloser
      have hclose : l.session.closeSegment.packet.Late t.closeRequested
          mark := hnew _ rfl
        (hfollows.keeps.requested (hl.closer.requested hcloses.called))
      obtain ⟨hwaiting, hheld, hsent⟩ := hcloses.packets
        (fun seg hseg => hmono (h.waiting seg hseg)) (fun seg hseg => hmono (h.closer seg hseg))
        hclose
      exact ⟨⟨hmarked, hwaiting, hheld⟩, hsent⟩
    | _ => cases hevent

/-- If the step calls `Close`, the session is open. -/
def ClosesOpen (l : LiveSession) : SessionEvent → Prop
  | .close => l.session.closeRequested = false
  | _ => True

instance (l : LiveSession) : (event : SessionEvent) → Decidable (l.ClosesOpen event)
  | .close => inferInstanceAs (Decidable (_ = false))
  | .write _ | .writer _ | .read _ | .reader _ | .output _ | .input _
  | .closer _ => inferInstanceAs (Decidable True)

theorem ClosesLate.close (h : l.ClosesLate mark) (hopen : l.session.closeRequested = false) :
    ClosesLate (some l.session.history.queued.length) { l with session := l.session.close } where
  marked := by
    rintro n ⟨⟩
    refine ⟨Session.closeRequested_closeWithError _ _, ?_⟩
    have hqueued : l.session.close.history.queued =
        l.session.history.queued := congrArg Flow.queued
      ((l.session.quiet_closeWithError true).flow [] .nothing)
    exact Nat.le_of_eq (congrArg List.length hqueued.symm)
  waiting := by
    intro seg hseg
    have hview : LiveSession.sendView { l with session := l.session.close } =
        l.sendView := (l.session.idles_closeWithError true).view _
    rw [hview] at hseg
    exact (h.waiting seg hseg).mono fun hbefore =>
      nomatch hopen.symm.trans hbefore
  closer := by
    intro seg hseg
    simp only [Session.close, Session.closeWithError, hopen] at hseg
    cases hseg

/-! ## The side that reads -/

end LiveSession

namespace Session

/-- A close segment is taken only if no number before its own is missing, and
nothing else closes the session. -/
def InputEndsInOrder (s : Session) (env : Env) : InputState → Prop
  | .closing seg => seg.seq ≤ s.nextRecv
  | input => ¬s.InputCloses env input

/-- `Read` ends only while its queue is empty. -/
def ReaderEndsInOrder (s : Session) (env : Env) : ReaderState → Prop
  | .selecting _ => env.choice = .closedChan → s.recvQueue.items = []
  | _ => True

instance (s : Session) (env : Env) : (input : InputState) → Decidable (s.InputEndsInOrder env input)
  | .closing _ => inferInstanceAs (Decidable (_ ≤ _))
  | .idle | .ended | .panicked _ _ | .deletingAcked _ _ | .countingAck _
  | .inserting _ | .moving _ | .holding _ _ | .queued _ _
  | .responding _ => inferInstanceAs (Decidable (¬_))

instance (s : Session) (env : Env) :
    (reader : ReaderState) → Decidable (s.ReaderEndsInOrder env reader)
  | .selecting _ => inferInstanceAs (Decidable (_ → _))
  | .returned _ _ | .waiting _ | .draining _ => inferInstanceAs (Decidable True)

end Session

namespace LiveSession

variable {l l' : LiveSession} {event : SessionEvent} {sent : List Packet}

/-- The session closes, and its `Read` ends, only after everything before. -/
def EndsInOrder (l : LiveSession) : SessionEvent → Prop
  | .close => False
  | .output env => ¬l.session.OutputCloses env l.output
  | .input env => l.session.InputEndsInOrder env l.input
  | .reader env => l.session.ReaderEndsInOrder env l.reader
  | _ => True

instance (l : LiveSession) : (event : SessionEvent) → Decidable (l.EndsInOrder event)
  | .close => inferInstanceAs (Decidable False)
  | .output env =>
    inferInstanceAs (Decidable (¬l.session.OutputCloses env l.output))
  | .input env =>
    inferInstanceAs (Decidable (l.session.InputEndsInOrder env l.input))
  | .reader env =>
    inferInstanceAs (Decidable (l.session.ReaderEndsInOrder env l.reader))
  | .write _ | .writer _ | .read _ | .closer _ =>
    inferInstanceAs (Decidable True)

theorem EndsInOrder.closing (h : l.EndsInOrder event) (hcloses : l.Closes event) :
    ∃ seg, l.input = .closing seg ∧ seg.seq ≤ l.session.nextRecv := by
  cases event with
  | close => exact h.elim
  | output env => exact absurd hcloses h
  | input env =>
    have hends : l.session.InputEndsInOrder env l.input := h
    cases hinput : l.input with
    | closing seg =>
      rw [hinput] at hends
      exact ⟨seg, rfl, hends⟩
    | _ =>
      rw [hinput] at hends
      simp only [Closes, hinput] at hcloses
      exact absurd hcloses hends
  | _ => exact hcloses.elim

theorem EndsInOrder.drained (h : l.EndsInOrder event)
    (hend : l.FindsEnd event) : l.session.recvQueue.items = [] := by
  obtain ⟨env, size, rfl, hchoice, hreader⟩ := hend.selects
  have hends : l.session.ReaderEndsInOrder env l.reader := h
  rw [hreader] at hends
  exact hends hchoice

/--
What the reading side knows of a peer that closes: `requested` and `mark` are
the peer's, and `log` is what the peer has queued.
-/
structure EndsAfter (requested : Bool) (mark : Option Nat)
    (log : List (Option Bytes)) (l : LiveSession) : Prop where
  chan : ∀ seg ∈ l.session.recvChan, seg.packet.Late requested mark
  closing : ∀ seg, l.input = .closing seg → requested = true ∧ ∀ n ∈ mark, n ≤ seg.seq.toNat
  closed : l.session.closeRequested = true →
    requested = true ∧ ∀ n ∈ mark, n ≤ l.session.nextRecv.toNat
  seeks : l.SeeksEmpty
  ended : l.reader.isEOF = true → requested = true ∧
    ∀ n ∈ mark, loggedBytes (log.take n) <+: l.session.history.read

variable {log log' : List (Option Bytes)} {peerRecv : UInt32}

theorem EndsAfter.mono (h : l.EndsAfter requested mark log) (hmarked : ∀ n ∈ mark, n ≤ log.length)
    (hlog : log <+: log') (hrequested : requested = true → requested' = true ∧ mark' = mark) :
    l.EndsAfter requested' mark' log' where
  chan := fun seg hseg => (h.chan seg hseg).mono hrequested
  closing := by
    intro seg hinput
    obtain ⟨hbefore, habove⟩ := h.closing seg hinput
    obtain ⟨hafter, rfl⟩ := hrequested hbefore
    exact ⟨hafter, habove⟩
  closed := by
    intro hclosed
    obtain ⟨hbefore, habove⟩ := h.closed hclosed
    obtain ⟨hafter, rfl⟩ := hrequested hbefore
    exact ⟨hafter, habove⟩
  seeks := h.seeks
  ended := by
    intro hend
    obtain ⟨hbefore, hread⟩ := h.ended hend
    obtain ⟨hafter, rfl⟩ := hrequested hbefore
    refine ⟨hafter, fun n hn => ?_⟩
    obtain ⟨rest, rfl⟩ := hlog
    rw [List.take_append_of_le_length (hmarked n hn)]
    exact hread n hn

theorem loggedBytes_isPrefix {f : Flow} {n : Nat} (h : f.RecvInv log peerRecv)
    (hunread : f.unread = []) (hqueue : f.recvQueue = [])
    (hn : n ≤ f.nextRecv.toNat) : loggedBytes (log.take n) <+: f.read := by
  have hbytes := h.bytes
  rw [hunread, hqueue] at hbytes
  simp only [payloads, List.flatMap_nil, List.append_nil] at hbytes
  rw [hbytes]
  have htake : log.take n <+: log.take (f.nextRecv.toNat + f.intake.pending) :=
    List.take_prefix_take_left (Nat.le_add_right_of_le hn)
  obtain ⟨rest, hrest⟩ := htake
  rw [← hrest]
  simp only [loggedBytes, List.flatMap_append]
  exact List.prefix_append _ _

theorem EndsAfter.step (h : l.EndsAfter requested mark log) (hl : l.WellFormed)
    (hrecv : l.flow.RecvInv log peerRecv) (hlog : log.length ≤ 4294967295)
    (hguard : l.EndsInOrder event) (hstep : l.step event = some (l', sent)) :
    l'.EndsAfter requested mark log := by
  obtain ⟨hfollows, -⟩ := step_follows hl hstep
  have hnext : l.session.nextRecv.toNat ≤ l'.session.nextRecv.toNat :=
    hrecv.nextRecv_le hfollows.step hlog
  obtain ⟨hseeks, hend⟩ := step_reader hstep h.seeks
  refine ⟨fun seg hseg => h.chan seg (hfollows.step.recvChan_subset hseg), ?_, ?_, hseeks, ?_⟩
  · intro seg hclosing
    rcases (step_loops_eq hstep).2 with hinput | ⟨env, rfl⟩
    · exact h.closing seg (hinput ▸ hclosing)
    · obtain ⟨⟨t, input, packets⟩, hinput, heq⟩ :=
        Option.map_eq_some_iff.mp hstep
      cases heq
      have hstate : input = .closing seg := hclosing
      rcases Session.inputStep_next hinput with ⟨_, _, hholding, _⟩ |
        ⟨other, hother, hnext, hprotocol⟩ | hplain
      · cases hstate.symm.trans hholding
      · cases hstate.symm.trans hnext
        refine h.chan seg hother ?_
        change isCloseProtocol seg.protocol = true
        rcases hprotocol with hprotocol | hprotocol
        · rw [hprotocol]
          rfl
        · rw [hprotocol]
          rfl
      · rw [hstate] at hplain
        cases hplain
  · intro hclosed
    rcases step_closes hstep with hsame | hcloses
    · obtain ⟨hrequested, hbelow⟩ := h.closed (hsame ▸ hclosed)
      exact ⟨hrequested, fun n hn => Nat.le_trans (hbelow n hn) hnext⟩
    · obtain ⟨seg, hinput, hseq⟩ := hguard.closing hcloses
      obtain ⟨hrequested, hbelow⟩ := h.closing seg hinput
      refine ⟨hrequested, fun n hn => ?_⟩
      exact Nat.le_trans (hbelow n hn) (Nat.le_trans hseq hnext)
  · intro heof
    rcases hend heof with hbefore | ⟨hsame, hfinds⟩
    · obtain ⟨hrequested, hread⟩ := h.ended hbefore
      refine ⟨hrequested, fun n hn => ?_⟩
      exact (hread n hn).trans hfollows.step.read_isPrefix
    · obtain ⟨hrequested, hbelow⟩ :=
        h.closed (hl.closer.closed hfinds.closedChan)
      refine ⟨hrequested, fun n hn => ?_⟩
      rw [hsame]
      exact loggedBytes_isPrefix hrecv hfinds.unread (hguard.drained hfinds) (hbelow n hn)

end LiveSession

/-! ## The pair -/

/-- How much each side had queued when it called `Close`. -/
structure ClosingPair where
  pair : DatagramPair
  closedAt : Side → Option Nat := fun _ => none

namespace ClosingPair

def marks (c : ClosingPair) : PairEvent → Side → Option Nat
  | .act side .close => Function.update c.closedAt side
      (some (c.pair.session side).session.history.queued.length)
  | _ => c.closedAt

def next (c : ClosingPair) (event : PairEvent) : Option ClosingPair :=
  (c.pair.next event).map fun pair =>
    { pair := pair, closedAt := c.marks event }

def IsInitial (c : ClosingPair) : Prop :=
  ∃ pair : DatagramPair, pair.IsInitial ∧ c = { pair := pair }

end ClosingPair

def closingSystem : System ClosingPair PairEvent :=
  System.ofNext ClosingPair.IsInitial ClosingPair.next

namespace ClosingPair

def Orderly (side : Side) (c : ClosingPair) : PairEvent → Prop
  | .act actor event =>
    if actor = side then (c.pair.session actor).ClosesOpen event
    else (c.pair.session actor).EndsInOrder event
  | .deliver _ _ _ => True

instance (side : Side) (c : ClosingPair) : (event : PairEvent) → Decidable (c.Orderly side event)
  | .act actor event =>
    inferInstanceAs (Decidable (if actor = side then
      (c.pair.session actor).ClosesOpen event
      else (c.pair.session actor).EndsInOrder event))
  | .deliver _ _ _ => inferInstanceAs (Decidable True)

end ClosingPair

namespace DatagramPair

variable {pair : DatagramPair} {side : Side} {l : LiveSession}
  {packets : List Packet} {event : SessionEvent}

/-- The invariant: `side` closes late, and its peer ends after that. -/
structure Ends (side : Side) (mark : Option Nat) (pair : DatagramPair) :
    Prop where
  sender : (pair.session side).ClosesLate mark
  sent : ∀ p ∈ pair.sent side, p.Late (pair.session side).session.closeRequested mark
  receiver : (pair.session side.peer).EndsAfter (pair.session side).session.closeRequested mark
    (pair.session side).session.history.queued

theorem Ends.replace_sender (h : pair.Ends side mark) (hlate : l.ClosesLate mark')
    (hpackets : ∀ p ∈ packets, p.Late l.session.closeRequested mark')
    (hqueued : (pair.session side).session.history.queued <+: l.session.history.queued)
    (hrequested : (pair.session side).session.closeRequested = true →
      l.session.closeRequested = true ∧ mark' = mark) :
    (pair.replace side l packets).Ends side mark' := by
  refine ⟨?_, ?_, ?_⟩
  · rw [session_replace_self]
    exact hlate
  · intro p hp
    rw [session_replace_self]
    simp only [DatagramPair.replace, Function.update_self] at hp
    rcases List.mem_append.mp hp with hp | hp
    · exact (h.sent p hp).mono hrequested
    · exact hpackets p hp
  · rw [session_replace_self, session_replace_peer]
    exact h.receiver.mono (fun n hn => (h.sender.marked n hn).2) hqueued hrequested

theorem Ends.replace_receiver (h : pair.Ends side mark)
    (hends : l.EndsAfter (pair.session side).session.closeRequested mark
      (pair.session side).session.history.queued) :
    (pair.replace side.peer l packets).Ends side mark := by
  have hself : (pair.replace side.peer l packets).session side =
      pair.session side := Function.update_of_ne side.peer_ne.symm ..
  refine ⟨?_, ?_, ?_⟩
  · rw [hself]
    exact h.sender
  · intro p hp
    rw [hself]
    simp only [DatagramPair.replace, Function.update_of_ne side.peer_ne.symm] at hp
    exact h.sent p hp
  · rw [hself, session_replace_self]
    exact hends

theorem Ends.act_sender (h : pair.Ends side mark) (hinv : pair.Inv) (hfits : pair.Fits)
    (hstep : (pair.session side).step event = some (l, packets)) :
    (pair.replace side l packets).Ends side mark := by
  obtain ⟨hfollows, -⟩ := LiveSession.step_follows (hinv.wellFormed side) hstep
  obtain ⟨hlate, hpackets⟩ := h.sender.step (hinv.wellFormed side)
    (hinv.nextSend_eq hfits side) hstep
  exact h.replace_sender hlate hpackets hfollows.step.queued_isPrefix
    fun hbefore => ⟨hfollows.keeps.requested hbefore, rfl⟩

theorem Ends.close (h : pair.Ends side mark)
    (hopen : (pair.session side).session.closeRequested = false) :
    (pair.replace side { pair.session side with
      session := (pair.session side).session.close } []).Ends side
      (some (pair.session side).session.history.queued.length) := by
  have hqueued : (pair.session side).session.close.history.queued =
      (pair.session side).session.history.queued :=
    congrArg Flow.queued (((pair.session side).session.quiet_closeWithError true).flow [] .nothing)
  refine h.replace_sender (h.sender.close hopen) (by simp) ?_
    fun hbefore => nomatch hopen.symm.trans hbefore
  exact ⟨[], by rw [List.append_nil, hqueued]⟩

theorem Ends.act_receiver (h : pair.Ends side mark) (hinv : pair.Inv) (hfits : pair.Fits)
    (hguard : (pair.session side.peer).EndsInOrder event)
    (hstep : (pair.session side.peer).step event = some (l, packets)) :
    (pair.replace side.peer l packets).Ends side mark := by
  have hrecv := (hinv.delivers hfits).recv side.peer
  rw [side.peer_peer] at hrecv
  exact h.replace_receiver (h.receiver.step (hinv.wellFormed side.peer) hrecv
    (hfits side) hguard hstep)

theorem Ends.deliver {receiver : Side} {p : Packet} {block : Option BlockCipher}
    (h : pair.Ends side mark) (hp : p ∈ pair.sent receiver.peer)
    (hreceive : (pair.session receiver).receive (p.received block) = some l) :
    (pair.replace receiver l []).Ends side mark := by
  obtain ⟨-, rfl⟩ := LiveSession.receive_eq_some hreceive
  rcases side.eq_or_eq_peer receiver with rfl | rfl
  · refine h.replace_sender ⟨h.sender.marked, h.sender.waiting,
      h.sender.closer⟩ (by simp) List.prefix_rfl fun hbefore => ⟨hbefore, rfl⟩
  · rw [side.peer_peer] at hp
    refine h.replace_receiver ⟨?_, h.receiver.closing, h.receiver.closed,
      h.receiver.seeks, h.receiver.ended⟩
    intro seg hseg
    rcases List.mem_append.mp hseg with hseg | hseg
    · exact h.receiver.chan seg hseg
    · rw [List.mem_singleton.mp hseg]
      exact h.sent p hp

theorem ends_of_isInitial (h : pair.IsInitial) : pair.Ends side none := by
  obtain ⟨id, mtu, addr, now, rfl⟩ := h
  refine ⟨⟨?_, ?_, ?_⟩, ?_, ⟨?_, ?_, ?_, ?_, ?_⟩⟩
  · intro n hn
    cases hn
  · intro seg hseg
    cases hseg
  · intro seg hseg
    cases hseg
  · intro p hp
    cases hp
  · intro seg hseg
    cases hseg
  · intro seg hinput
    cases hinput
  · intro hclosed
    cases hclosed
  · intro hseeking
    cases hseeking
  · intro hend
    cases hend

end DatagramPair

namespace ClosingPair

variable {c : ClosingPair} {side : Side}

structure Inv (side : Side) (c : ClosingPair) : Prop where
  base : c.pair.Inv
  ends : c.pair.Fits → c.pair.Ends side (c.closedAt side)

theorem marks_peer (c : ClosingPair) (side : Side) (event : SessionEvent) :
    c.marks (.act side.peer event) side = c.closedAt side := by
  cases event with
  | close => exact Function.update_of_ne side.peer_ne.symm ..
  | _ => rfl

theorem Inv.act {actor : Side} {event : SessionEvent} {l : LiveSession} {packets : List Packet}
    (h : c.Inv side) (hguard : c.Orderly side (.act actor event))
    (hstep : (c.pair.session actor).step event = some (l, packets)) :
    Inv side { pair := c.pair.replace actor l packets
               closedAt := c.marks (.act actor event) } := by
  refine ⟨h.base.act hstep, fun hfits => ?_⟩
  obtain ⟨hfollows, -⟩ :=
    LiveSession.step_follows (h.base.wellFormed actor) hstep
  have hbefore : c.pair.Fits :=
    DatagramPair.fits_of_replace hfits hfollows.step.queued_isPrefix
  have hends := h.ends hbefore
  rcases side.eq_or_eq_peer actor with rfl | rfl
  · have hother := hends.act_sender h.base hbefore hstep
    cases event with
    | close =>
      rw [Orderly, if_pos rfl] at hguard
      cases hstep
      simp only [marks, Function.update_self]
      exact hends.close hguard
    | _ => exact hother
  · rw [Orderly, if_neg side.peer_ne] at hguard
    dsimp only
    rw [marks_peer]
    exact hends.act_receiver h.base hbefore hguard hstep

theorem inv_of_reachable (h : closingSystem.ReachableBy (Orderly side) c) : c.Inv side := by
  refine System.ReachableBy.invariant ?_ ?_ h
  · rintro c ⟨pair, hpair, rfl⟩
    exact ⟨DatagramPair.inv_of_isInitial hpair, fun _ => DatagramPair.ends_of_isInitial hpair⟩
  · intro c event c' hinv hguard hnext
    obtain ⟨pair, hpair, heq⟩ := Option.map_eq_some_iff.mp hnext
    cases heq
    cases event with
    | act actor event =>
      obtain ⟨⟨l, packets⟩, hstep, heq⟩ := Option.map_eq_some_iff.mp hpair
      cases heq
      exact hinv.act hguard hstep
    | deliver receiver p block =>
      obtain ⟨hp, hpair⟩ := Option.ite_none_right_eq_some.mp hpair
      obtain ⟨l, hreceive, heq⟩ := Option.map_eq_some_iff.mp hpair
      cases heq
      refine ⟨hinv.base.deliver hp hreceive, fun hfits => ?_⟩
      obtain ⟨hflow, -⟩ :=
        LiveSession.receive_spec (hinv.base.wellFormed receiver) hreceive
      have hqueued : (c.pair.flow receiver).queued <+: l.flow.queued := by
        rw [hflow]
        exact List.prefix_rfl
      exact (hinv.ends (DatagramPair.fits_of_replace hfits hqueued)).deliver hp hreceive

/--
In a run in which one side calls `Close` while it is open, and its peer closes
only for a close segment before which nothing is missing and ends a `Read` only
while its queue is empty, the peer's `Read` returns `io.EOF` only after it has
returned everything that was queued before that `Close`.
-/
theorem end_after_all_data (h : closingSystem.ReachableBy (Orderly side) c)
    (hqueued : ∀ side, (c.pair.session side).session.history.queued.length ≤ 4294967295) {n : Nat}
    (hclosed : c.closedAt side = some n) (heof : (c.pair.session side.peer).reader.isEOF = true) :
    loggedBytes ((c.pair.session side).session.history.queued.take n) <+:
      (c.pair.session side.peer).session.history.read := by
  have hends := (inv_of_reachable h).ends hqueued
  exact (hends.receiver.ended heof).2 n hclosed

def freshClosingPair : ClosingPair where
  pair := freshPair

theorem isInitial_freshClosingPair : freshClosingPair.IsInitial :=
  ⟨freshPair, ⟨1, fun _ => 1400, fun _ => "", fun _ => 0, rfl⟩, rfl⟩

def closingDatagram (seq : UInt32) : Packet where
  metadata := .session {
    protocol := closeSessionRequest
    sessionID := 1
    seq := seq }
  payload := []

def clientCloses : List PairEvent :=
  [PairEvent.act .client .close, .act .client (.closer calmEnv)] ++
    List.replicate 6 (PairEvent.act .client (.output calmEnv))

def serverEnds (seq : UInt32) : List PairEvent :=
  [PairEvent.deliver .server (closingDatagram seq) none] ++
    List.replicate 4 (PairEvent.act .server (.input calmEnv)) ++
    [PairEvent.act .server (.closer calmEnv)] ++
    List.replicate 9 (PairEvent.act .server (.output calmEnv)) ++
    List.replicate 4 (PairEvent.act .server (.closer calmEnv)) ++
    [PairEvent.act .server (.read 10), .act .server (.reader calmEnv),
      .act .server (.reader { calmEnv with choice := .closedChan })]

theorem end_after_all_data_opening : ∃ c, closingSystem.ReachableBy (Orderly .client) c ∧ (∀ side,
        (c.pair.session side).session.history.queued.length ≤ 4294967295) ∧
      c.closedAt .client = some 1 ∧ (c.pair.session .server).reader.isEOF = true ∧
      loggedBytes ((c.pair.session .client).session.history.queued.take 1) <+:
        (c.pair.session .server).session.history.read := by
  obtain ⟨c, hreach, hqueued, hclosed, heof⟩ : ∃ c,
      closingSystem.ReachableBy (Orderly .client) c ∧
      (∀ side, (c.pair.session side).session.history.queued.length ≤ 4294967295) ∧
      c.closedAt .client = some 1 ∧ (c.pair.session .server).reader.isEOF = true :=
    System.exists_reachableBy (fun _ _ => of_decide_eq_true) isInitial_freshClosingPair
      (openingRun ++ clientCloses ++ serverEnds 1) (by decide +kernel)
  exact ⟨c, hreach, hqueued, hclosed, heof, end_after_all_data hreach hqueued hclosed heof⟩

def freeEnv : Env := .calm .fallback

def clientWrites : List PairEvent :=
  [PairEvent.act .client (.write [1, 2, 3])] ++
    List.replicate 5 (PairEvent.act .client (.writer freeEnv))

/--
The client writes six bytes and closes.  The datagram with the last three is
lost, the close request is not: the server reads three bytes and then the end.
-/
theorem end_before_all_data : ∃ c, closingSystem.Reachable c ∧ c.closedAt .client = some 2 ∧
      (c.pair.session .client).writer = .returned 3 none ∧
      loggedBytes ((c.pair.session .client).session.history.queued.take 2) = [7, 8, 9, 1, 2, 3] ∧
      (c.pair.session .server).session.history.read = [7, 8, 9] ∧
      (c.pair.session .server).reader = .returned [] (some .eof) := by
  exact System.exists_reachable isInitial_freshClosingPair
    (openingRun ++ clientWrites ++ clientCloses ++ serverEnds 2) (by decide +kernel)

end ClosingPair

end Mieru.Protocol
