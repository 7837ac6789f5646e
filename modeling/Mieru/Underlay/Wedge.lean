import Mieru.Delivery.Room
import Mieru.Session.Receiving
import Mieru.Underlay.EventLoop

/-!
# A full channel and the event loop

The event loop waits when the `recvChan` of a session is full.  It waits for
ever when the input loop of that session takes nothing from the channel any
more: because it has ended, or because `inputData` waits for space in a
`recvBuf` whose first segment comes after a missing one.  `cleanSessions`
cannot help, it runs in the loop that waits.

What arrives decides: data within the window of the receiver leaves `recvBuf`
a free place, and an input loop only ends in a session that is being closed.
-/

namespace Mieru.Protocol

open Mieru.Foundation
open ProtocolType

/-- The input loop is inside `inputData` and has not inserted its segment. -/
def InputState.Inserts : InputState → Prop
  | .deletingAcked seg _ => isInputData seg.protocol = true
  | .inserting _ => True
  | _ => False

/-- No space in `recvBuf`, and the segment expected next is not in it. -/
def Session.Stalled (s : Session) : Prop :=
  s.recvBuf.remaining ≤ 1 ∧ ∃ seq, s.recvBuf.minSeq = some seq ∧ s.nextRecv < seq

/-- The input loop will not take another segment from `recvChan`. -/
def LiveSession.Stopped (l : LiveSession) : Prop :=
  l.input = .ended ∨ l.input.Inserts ∧ l.session.Stalled

structure Underlay.WedgedBy (u : Underlay) (id : UInt32) (seg : Segment)
    (entry : SessionEntry) : Prop where
  loop : u.loop = .sending id seg
  session : u.sessions id = some entry
  full : segmentChanCapacity ≤ entry.live.session.recvChan.length
  stopped : entry.live.Stopped

def Underlay.Wedged (u : Underlay) : Prop :=
  ∃ id seg entry, u.WedgedBy id seg entry

/-- The numbers a receiver that expects `nextRecv` has a place for. -/
def InWindow (nextRecv : UInt32) (n : Nat) : Prop :=
  n < nextRecv.toNat + (segmentTreeCapacity - 1) ∧ n + 1 < 2 ^ 32

def Underlay.expects (u : Underlay) (id : UInt32) : UInt32 :=
  (u.sessions.load id).elim 0 (·.session.nextRecv)

structure Underlay.Admits (u : Underlay) (event : UnderlayEvent) : Prop where
  /-- Data arrives within the window of its session. -/
  window : ∀ addr now answer seg, event = .read addr now answer seg →
    isInputData seg.protocol = true → InWindow (u.expects seg.sessionID) seg.key
  /-- A segment for a session that is closed, or has a close segment to handle,
  finds a free place. -/
  room : ∀ addr now answer seg live, event = .read addr now answer seg →
    u.sessions.load seg.sessionID = some live → ¬ live.Unclosed →
    live.session.recvChan.length < segmentChanCapacity
  /-- A session whose full channel is waited for is not closed from its own side. -/
  keepsOpen : ∀ id own seg entry, event = .act id own → u.loop = .sending id seg →
    u.sessions id = some entry → segmentChanCapacity ≤ entry.live.session.recvChan.length →
    entry.live.KeepsOpen own

/-! ## The numbers of the segments that were received -/

def Intake.Numbered (P : Nat → Prop) (nextRecv : UInt32) : Intake → Prop
  | .acking seg _ => isInputData seg.protocol = true → P seg.key
  | .inserting seg => P seg.key
  | .holding seg3 => P seg3.key
  | .queued => P nextRecv.toNat
  | _ => True

namespace Flow

/-- The numbers of the data a session has received and not yet moved. -/
structure Numbered (P : Nat → Prop) (f : Flow) : Prop where
  chan : ∀ seg ∈ f.recvChan, isInputData seg.protocol = true → P seg.key
  intake : f.intake.Numbered P f.nextRecv
  buf : ∀ seg ∈ f.recvBuf, P seg.key

variable {f f' : Flow} {mode : Mode} {sent : List Packet} {P Q : Nat → Prop}

theorem Numbered.mono (h : f.Numbered P) (himp : ∀ n, P n → Q n) : f.Numbered Q where
  chan seg hseg hdata := himp _ (h.chan seg hseg hdata)
  intake := by
    have hintake := h.intake
    revert hintake
    cases f.intake with
    | acking seg das => exact fun hseg hdata => himp _ (hseg hdata)
    | inserting seg | holding seg | queued => exact himp _
    | nothing | stuck seg => exact fun _ => trivial
  buf seg hseg := himp _ (h.buf seg hseg)

theorem Numbered.step (h : f.Numbered P) (hstep : Step mode f sent f') : f'.Numbered P := by
  have hchan : ∀ seg ∈ f'.recvChan, isInputData seg.protocol = true → P seg.key :=
    fun seg hseg => h.chan seg (hstep.recvChan_subset hseg)
  have hheld := h.intake
  cases hstep with
  | @take seg _ _ hintake hrecvChan htaken =>
    have hseg := h.chan seg (by simp [hrecvChan])
    cases htaken with
    | dropped | stuck => exact ⟨hchan, trivial, h.buf⟩
    | inserting hdata => exact ⟨hchan, hseg hdata, h.buf⟩
    | acking => exact ⟨hchan, hseg, h.buf⟩
  | @ackDone seg _ hintake =>
    rw [hintake] at hheld
    refine ⟨hchan, ?_, h.buf⟩
    dsimp only
    split
    · exact hheld ‹_›
    · trivial
  | storeBuf _ hintake =>
    rw [hintake] at hheld
    refine ⟨hchan, trivial, fun other hother => ?_⟩
    rcases mem_replaceOrInsert_of_mem hother with rfl | hother
    · exact hheld
    · exact h.buf other hother
  | hold _ _ hbuf =>
    refine ⟨hchan, h.buf _ (by simp [hbuf]), fun other hother => ?_⟩
    exact h.buf other (by simp [hbuf, hother])
  | queue _ hintake hseq =>
    rw [hintake] at hheld
    refine ⟨hchan, ?_, h.buf⟩
    rw [Intake.Numbered, ← hseq]
    exact hheld
  | abandon | storeQueue | skip | advance => exact ⟨hchan, trivial, h.buf⟩
  | _ => exact ⟨hchan, hheld, h.buf⟩

theorem Numbered.nextRecv_le (h : f.Numbered P) (hlast : ∀ n, P n → n + 1 < 2 ^ 32)
    (hstep : Step mode f sent f') : f.nextRecv.toNat ≤ f'.nextRecv.toNat := by
  cases hstep with
  | advance _ hintake =>
    have hheld := h.intake
    rw [hintake] at hheld
    have hfits := hlast _ hheld
    simp only [UInt32.toNat_add, UInt32.toNat_one]
    omega
  | _ => exact Nat.le_refl _

end Flow

theorem InWindow.mono {nextRecv later : UInt32} {n : Nat} (h : InWindow nextRecv n)
    (hle : nextRecv.toNat ≤ later.toNat) : InWindow later n :=
  ⟨Nat.lt_of_lt_of_le h.1 (Nat.add_le_add_right hle _), h.2⟩

/-- As many numbers fit between the expected one and the end of the window as
`recvBuf` can hold, less two. -/
theorem Session.not_stalled {s : Session} (hcap : s.recvBuf.cap = segmentTreeCapacity)
    (hbuf : ∀ seg ∈ s.recvBuf.items, InWindow s.nextRecv seg.key) : ¬ s.Stalled := by
  rintro ⟨hfull, seq, hmin, hgap⟩
  have habove : ∀ seg ∈ s.recvBuf.items, s.nextRecv.toNat + 1 ≤ seg.key := by
    have hascending := s.recvBuf.ascending
    unfold SegmentTree.minSeq at hmin
    cases hitems : s.recvBuf.items with
    | nil => simp
    | cons first rest =>
      rw [hitems] at hmin hascending
      have hfirst : s.nextRecv.toNat < first.key := by
        cases hmin
        exact hgap
      intro seg hseg
      rcases List.mem_cons.mp hseg with rfl | hrest
      · exact hfirst
      · exact Nat.lt_trans hfirst (hascending.head_lt hrest)
  have hlength := s.recvBuf.ascending.length_le habove fun seg hseg => (hbuf seg hseg).1
  unfold SegmentTree.remaining at hfull
  unfold segmentTreeCapacity at hcap hlength
  omega

/-! ## A session drains its channel -/

/-- The input loop only ends in a session that is being closed, and there is
always a free place in `recvBuf`. -/
structure LiveSession.Drains (l : LiveSession) : Prop where
  wellFormed : l.WellFormed
  capacity : l.session.recvChan.length ≤ segmentChanCapacity
  ended : l.input = .ended → l.session.closeRequested = true
  roomy : l.session.closeRequested = false → l.Roomy
  bufCap : l.session.recvBuf.cap = segmentTreeCapacity
  window : l.flow.Numbered (InWindow l.session.nextRecv)

/-- The event loop waits for a place that is free, or that an input loop will
make. -/
structure LiveSession.Awaited (l : LiveSession) (seg : Segment) : Prop where
  window : isInputData seg.protocol = true → InWindow l.session.nextRecv seg.key
  room : ¬ l.Unclosed → l.session.recvChan.length < segmentChanCapacity

structure Underlay.Drains (u : Underlay) : Prop where
  sessions : ∀ id entry, u.sessions id = some entry → entry.live.Drains
  waits : ∀ id seg, u.loop = .sending id seg →
    ∃ live, u.sessions.load id = some live ∧ live.Awaited seg

variable {u : Underlay}

theorem Underlay.Drains.awaited (h : u.Drains) {id : UInt32} {seg : Segment} {entry : SessionEntry}
    (hloop : u.loop = .sending id seg) (hentry : u.sessions id = some entry) :
    entry.registered = true ∧ entry.live.Awaited seg := by
  obtain ⟨live, hload, hawaited⟩ := h.waits id seg hloop
  cases hentry.symm.trans (SessionMap.load_eq_some hload)
  exact ⟨rfl, hawaited⟩

theorem Underlay.Drains.not_wedged (h : u.Drains) : ¬ u.Wedged := by
  rintro ⟨id, seg, entry, hwedged⟩
  have hlive := h.sessions id entry hwedged.session
  rcases hwedged.stopped with hended | ⟨-, hstalled⟩
  · have hclosed : ¬ entry.live.Unclosed := by
      intro hunclosed
      cases (hlive.ended hended).symm.trans hunclosed.isOpen
    have hroom := (h.awaited hwedged.loop hwedged.session).2.room hclosed
    have hfull := hwedged.full
    omega
  · exact Session.not_stalled hlive.bufCap hlive.window.buf hstalled

namespace LiveSession

variable {l l' : LiveSession} {event : SessionEvent} {sent : List Packet}
  {seg : Segment}

/-- What the input loop does to the channel, and when it may have ended. -/
theorem step_recvChan (hl : l.Drains) (h : l.step event = some (l', sent)) :
    (l'.input = .ended → l'.session.closeRequested = true) ∧
      (l'.session.recvChan.length < l.session.recvChan.length ∨
        l'.session.recvChan = l.session.recvChan ∧
          (l.session.closeRequested = false → ∀ env, event = .input env → l.input ≠ .idle)) := by
  by_cases hevent : ∃ env, event = .input env
  · obtain ⟨env, rfl⟩ := hevent
    cases step_inv h with | @input _ session input _ hstep =>
    by_cases hidle : l.input = .idle
    · rw [hidle] at hstep
      rcases Session.inputStep_idle hstep with ⟨-, hclosed, rfl, rfl⟩ | ⟨seg, rest, hchan, htakes⟩
      · have hrequested := hl.wellFormed.closer.closed hclosed
        exact ⟨fun _ => hrequested, .inr ⟨rfl, fun hopen => by simp [hrequested] at hopen⟩⟩
      · refine ⟨htakes.ended, .inl ?_⟩
        rw [hchan, show session.recvChan = rest from htakes.recvChan]
        simp
    · have hworks := Session.works_inputStep hidle hstep
      exact ⟨hworks.ended, .inr ⟨hworks.recvChan, fun _ _ _ => hidle⟩⟩
  · obtain ⟨hsame, hinput⟩ := step_receiving h fun env henv => hevent ⟨env, henv⟩
    refine ⟨fun hended => ?_, .inr ⟨congrArg Receiving.recvChan hsame, fun _ env henv => ?_⟩⟩
    · exact (step_follows hl.wellFormed h).1.keeps.requested (hl.ended (hinput ▸ hended))
    · exact absurd ⟨env, henv⟩ hevent

theorem step_recvBuf_cap (hl : l.WellFormed) (h : l.step event = some (l', sent)) :
    l'.session.recvBuf.cap = l.session.recvBuf.cap := by
  by_cases hevent : ∃ env, event = .input env
  · obtain ⟨env, rfl⟩ := hevent
    exact (step_sending hl rfl h).step.caps_eq.2.2.1
  · have hsame := (step_receiving h fun env henv => hevent ⟨env, henv⟩).1
    exact congrArg SegmentTree.cap (congrArg Receiving.recvBuf hsame)

theorem Drains.nextRecv_le (hl : l.Drains) (h : l.step event = some (l', sent)) :
    l.session.nextRecv.toNat ≤ l'.session.nextRecv.toNat :=
  hl.window.nextRecv_le (fun _ hn => hn.2) (step_follows hl.wellFormed h).1.step

theorem Drains.step (hl : l.Drains) (h : l.step event = some (l', sent)) : l'.Drains := by
  obtain ⟨hfollows, hwellFormed⟩ := step_follows hl.wellFormed h
  obtain ⟨hended, hchan⟩ := step_recvChan hl h
  refine ⟨hwellFormed, ?_, hended, ?_, ?_, ?_⟩
  · have hcapacity := hl.capacity
    rcases hchan with hshorter | ⟨hsame, -⟩
    · omega
    · rw [hsame]
      exact hcapacity
  · intro hopen
    exact (hl.roomy (hfollows.keeps.open_of hopen)).step hl.wellFormed h hopen
  · exact (step_recvBuf_cap hl.wellFormed h).trans hl.bufCap
  · have hle := hl.nextRecv_le h
    exact (hl.window.step hfollows.step).mono fun _ hn => hn.mono hle

theorem Drains.close (hl : l.Drains) : Drains { l with session := l.session.close } := by
  have hstep : l.step .close = some ({ l with session := l.session.close }, []) := rfl
  exact hl.step hstep

theorem Drains.receive (hl : l.Drains) (h : l.receive seg = some l')
    (hseg : isInputData seg.protocol = true → InWindow l.session.nextRecv seg.key) : l'.Drains := by
  have hspec := receive_spec hl.wellFormed h
  have hroomy := fun hopen => (hl.roomy hopen).receive h
  obtain ⟨hroom, rfl⟩ := receive_eq_some h
  refine ⟨hspec.2.2, ?_, hl.ended, hroomy, hl.bufCap, ?_, hl.window.intake, hl.window.buf⟩
  · simp only [List.length_append, List.length_singleton]
    omega
  · intro other hother
    rcases List.mem_append.mp hother with hother | hother
    · exact hl.window.chan other hother
    · rw [List.mem_singleton.mp hother]
      exact hseg

theorem drains_new (id : UInt32) (isClient : Bool) (mtu : Nat)
    (transport : TransportProtocol) (addr : Addr) (now : Int) :
    Drains { session := Session.new id isClient mtu transport addr now } where
  wellFormed := wellFormed_new
  capacity := Nat.zero_le _
  ended h := by cases h
  roomy _ := roomy_new
  bufCap := rfl
  window := by
    refine ⟨?_, trivial, ?_⟩ <;> intro seg hseg <;> cases hseg

/-- A step leaves a full channel only to a session that stays open. -/
theorem Awaited.step (h : l.Awaited seg) (hl : l.Drains)
    (hstep : l.step event = some (l', sent))
    (hkeeps : segmentChanCapacity ≤ l.session.recvChan.length → l.KeepsOpen event) :
    l'.Awaited seg := by
  refine ⟨fun hdata => (h.window hdata).mono (hl.nextRecv_le hstep), fun hclosed => ?_⟩
  have hcapacity := hl.capacity
  by_cases hfull : segmentChanCapacity ≤ l.session.recvChan.length
  · -- The session was open, so only a step that takes a segment can have closed it.
    have hunclosed : l.Unclosed := by
      by_contra hno
      have hroom := h.room hno
      omega
    by_contra hstill
    apply hclosed
    refine hunclosed.step hl.wellFormed ?_ hstep
    refine (hl.roomy hunclosed.isOpen).not_closes (hkeeps hfull) hunclosed.input ?_
    intro env henv hidle
    rcases (step_recvChan hl hstep).2 with hshorter | ⟨-, hbusy⟩
    · omega
    · exact absurd hidle (hbusy hunclosed.isOpen env henv)
  · rcases (step_recvChan hl hstep).2 with hshorter | ⟨hsame, -⟩
    · omega
    · rw [hsame]
      omega

end LiveSession

namespace Underlay

variable {u u' : Underlay} {event : UnderlayEvent}

theorem Drains.setSession {id : UInt32} {entry : SessionEntry}
    (hu : u.Drains) (hentry : entry.live.Drains)
    (hwaits : ∀ seg, u.loop = .sending id seg →
      entry.registered = true ∧ entry.live.Awaited seg) : (u.setSession id entry).Drains := by
  constructor
  · intro other found h
    rcases SessionMap.set_eq_some h with ⟨-, rfl⟩ | ⟨-, hfound⟩
    · exact hentry
    · exact hu.sessions other found hfound
  · intro other seg hloop
    by_cases hother : other = id
    · subst hother
      obtain ⟨hregistered, hawaited⟩ := hwaits seg hloop
      exact ⟨entry.live, by simp [Underlay.setSession, SessionMap.load, hregistered], hawaited⟩
    · obtain ⟨live, hload, hawaited⟩ := hu.waits other seg hloop
      refine ⟨live, ?_, hawaited⟩
      simpa [Underlay.setSession, SessionMap.load, SessionMap.set_of_ne _ _ hother] using hload

theorem Drains.setLoop {loop : LoopState} (hu : u.Drains)
    (hloop : ∀ id seg, loop ≠ .sending id seg) : Drains { u with loop := loop } :=
  ⟨hu.sessions, fun id seg h => absurd h (hloop id seg)⟩

theorem Drains.handle {addr : Addr} {now : Int} {answer : WriteAnswer} {seg : Segment}
    (hu : u.Drains) (hreading : u.loop = .reading) (hguard : u.Admits (.read addr now answer seg)) :
    (u.handle addr now answer seg).1.Drains := by
  have hdecides := u.handling_decides seg
  have hwindow := hguard.window addr now answer seg rfl
  unfold Underlay.handle
  split
  · rename_i id hhandling
    rw [hhandling] at hdecides
    obtain ⟨rfl, hfound⟩ := hdecides
    refine ⟨hu.sessions, ?_⟩
    intro id' seg' hloop
    cases hloop
    obtain ⟨live, hload⟩ := Option.isSome_iff_exists.mp hfound
    rw [expects, hload] at hwindow
    exact ⟨live, hload, hwindow, hguard.room addr now answer seg live rfl hload⟩
  · rename_i id hhandling
    rw [hhandling] at hdecides
    obtain ⟨rfl, hfound, -⟩ := hdecides
    have hopened : (LiveSession.receive
        { session := Session.new seg.sessionID false u.mtu u.transport addr now } seg) =
          some (u.openedSession seg.sessionID addr now seg) := rfl
    have hnone : u.sessions.load seg.sessionID = none := by simpa [found] using hfound
    rw [expects, hnone] at hwindow
    refine hu.setSession ((LiveSession.drains_new ..).receive hopened hwindow) ?_
    intro seg' hloop
    rw [hreading] at hloop
    cases hloop
  · split
    · exact hu
    · exact hu.setLoop (by simp)
  · exact hu
  · exact hu.setLoop (by simp)

theorem Drains.cleanSessions {now : Int} (hu : u.Drains)
    (hreading : u.loop = .reading) : (u.cleanSessions now).Drains := by
  constructor
  · intro id entry h
    obtain ⟨before, hbefore, rfl⟩ := Option.map_eq_some_iff.mp h
    have hlive := hu.sessions id before hbefore
    split
    · exact hlive.close
    · exact hlive
  · intro id seg hloop
    cases hreading.symm.trans (show u.loop = .sending id seg from hloop)

theorem Drains.next (hu : u.Drains) (hguard : u.Admits event)
    (h : u.next event = some u') : u'.Drains := by
  cases next_inv h with
  | read hreading => exact hu.handle hreading hguard
  | pass hloop hentry hreceive =>
    have hawaited := (hu.awaited hloop hentry).2
    have hlive := (hu.sessions _ _ hentry).receive hreceive hawaited.window
    have hreading : Drains { u with loop := .reading } := hu.setLoop (by simp)
    exact hreading.setSession hlive (by simp)
  | add _ hfree =>
    refine hu.setSession (LiveSession.drains_new ..) ?_
    intro seg hloop
    obtain ⟨live, hload, -⟩ := hu.waits _ seg hloop
    exact absurd (.inr (by simp [found, hload])) hfree
  | act hentry hstep =>
    have hlive := hu.sessions _ _ hentry
    refine hu.setSession (hlive.step hstep) ?_
    intro seg hloop
    obtain ⟨hregistered, hawaited⟩ := hu.awaited hloop hentry
    refine ⟨hregistered, hawaited.step hlive hstep ?_⟩
    exact hguard.keepsOpen _ _ seg _ rfl hloop hentry
  | clean hreading => exact hu.cleanSessions hreading

end Underlay

theorem eventLoop_not_wedged {u : Underlay}
    (h : underlaySystem.ReachableBy Underlay.Admits u) : ¬ u.Wedged := by
  refine Underlay.Drains.not_wedged (h.invariant ?_ ?_)
  · rintro state ⟨hsessions, hloop⟩
    refine ⟨fun id entry hentry => ?_, fun id seg hsending => ?_⟩
    · rw [hsessions] at hentry
      cases hentry
    · rw [hloop] at hsending
      cases hsending
  · intro state event next hstate hguard hnext
    exact hstate.next hguard hnext

/-!
## A burst

A client adds a session, and segments for it arrive until its channel is full
and the event loop waits with the next one.
-/

def idleClient : Underlay where
  transport := .packetTransport
  isClient := true
  mtu := 1400

def clientData (id : UInt32) : Segment where
  metadata := .dataAck { protocol := dataServerToClient, sessionID := id }

def LiveSession.flooded (live : LiveSession) (id : UInt32) (n : Nat) : LiveSession :=
  { live with session := { live.session with recvChan := List.replicate n (clientData id) } }

structure Underlay.Floods (guard : Underlay → UnderlayEvent → Prop) (u : Underlay) (id : UInt32)
    (live : LiveSession) (n : Nat) : Prop where
  reachable : underlaySystem.ReachableBy guard u
  loop : u.loop = .reading
  session : u.sessions id = some ⟨live.flooded id n, true⟩

namespace Underlay.Floods

variable {guard : Underlay → UnderlayEvent → Prop} {id : UInt32} {live : LiveSession} {n : Nat}

theorem sends (h : u.Floods guard id live n)
    (hread : guard u (.read "" 0 .sent (clientData id))) :
    underlaySystem.ReachableBy guard { u with loop := .sending id (clientData id) } := by
  have hfound : u.found id = true := by
    simp [Underlay.found, SessionMap.load, h.session]
  have hhandling : u.handling (clientData id) = .deliver id := by
    simp [Underlay.handling, clientData, isDataAckProtocol, Underlay.onDataAck, hfound]
  apply h.reachable.step hread
  change u.next _ = _
  simp only [Underlay.next, h.loop, Underlay.handle, hhandling]

theorem passes (h : u.Floods guard id live n) (hread : guard u (.read "" 0 .sent (clientData id)))
    (hpass : ∀ u, guard u .pass) (hroom : n < segmentChanCapacity) :
    ∃ after : Underlay, after.Floods guard id live (n + 1) := by
  have hreceive : (live.flooded id n).receive (clientData id) = some (live.flooded id (n + 1)) := by
    simp [LiveSession.receive, LiveSession.flooded, hroom, List.replicate_succ']
  have hnext : Underlay.next { u with loop := .sending id (clientData id) } .pass =
      some { u.setSession id ⟨live.flooded id (n + 1), true⟩ with loop := .reading } := by
    simp only [Underlay.next, Underlay.pass, h.session, hreceive, Option.map_some]
    rfl
  exact ⟨_, (h.sends hread).step (hpass _) hnext, rfl, SessionMap.set_self ..⟩

theorem fills (h : u.Floods guard id live 0)
    (hread : ∀ (u : Underlay) n, u.sessions id = some ⟨live.flooded id n, true⟩ →
      guard u (.read "" 0 .sent (clientData id)))
    (hpass : ∀ u, guard u .pass) (hn : n ≤ segmentChanCapacity) :
    ∃ after : Underlay, after.Floods guard id live n := by
  induction n with
  | zero => exact ⟨u, h⟩
  | succ n ih =>
    obtain ⟨after, hafter⟩ := ih (Nat.le_of_succ_le hn)
    exact hafter.passes (hread after n hafter.session) hpass hn

end Underlay.Floods

def addedLive : LiveSession := idleClient.newSession 1 "" 0

def addedClient : Underlay := idleClient.setSession 1 { live := addedLive }

theorem admits_flood {n : Nat} (h : u.sessions 1 = some ⟨addedLive.flooded 1 n, true⟩) :
    u.Admits (.read "" 0 .sent (clientData 1)) where
  window addr now answer seg hevent hdata := by
    cases hevent
    simp [InWindow, Segment.key, Segment.seq, clientData, Metadata.seq, segmentTreeCapacity]
  room addr now answer seg live hevent hload hclosed := by
    cases hevent
    cases (SessionMap.load_eq_some hload).symm.trans h
    refine absurd ⟨rfl, ?_, by simp [LiveSession.flooded, addedLive, Underlay.newSession]⟩ hclosed
    intro other hother
    rw [List.eq_of_mem_replicate hother]
    decide
  keepsOpen id own seg entry hevent := by cases hevent

theorem eventLoop_not_wedged_flooded : ∃ u, underlaySystem.ReachableBy Underlay.Admits u ∧
    u.loop = .sending 1 (clientData 1) ∧
    u.sessions 1 = some ⟨addedLive.flooded 1 segmentChanCapacity, true⟩ ∧ ¬ u.Wedged := by
  have hquiet : ∀ (u : Underlay) event, (∀ addr now answer seg,
      event ≠ .read addr now answer seg) → (∀ id own, event ≠ .act id own) → u.Admits event :=
    fun u event hread hact => ⟨fun addr now answer seg h => absurd h (hread addr now answer seg),
      fun addr now answer seg live h => absurd h (hread addr now answer seg),
      fun id own seg entry h => absurd h (hact id own)⟩
  have hadded : underlaySystem.ReachableBy Underlay.Admits addedClient :=
    .step (.init ⟨rfl, rfl⟩) (hquiet idleClient (.add 1 "" 0) (by simp) (by simp)) rfl
  have hstart : addedClient.Floods Underlay.Admits 1 addedLive 0 := ⟨hadded, rfl, rfl⟩
  obtain ⟨u, hfull⟩ := hstart.fills (fun u n => admits_flood)
    (fun u => hquiet u .pass (by simp) (by simp)) (Nat.le_refl _)
  have hreach := hfull.sends (admits_flood hfull.session)
  exact ⟨_, hreach, rfl, hfull.session, eventLoop_not_wedged hreach⟩

/-!
## A burst after Close

A client closes a session before anything was sent.  Its input loop ends, and
the session stays registered until the next `cleanSessions`.  The 1024 segments
that arrive before fill the channel, and the loop waits with the next one.
-/

def closingEvents : List UnderlayEvent :=
  [UnderlayEvent.add 1 "" 0, .act 1 .close] ++
    List.replicate 5 (UnderlayEvent.act 1 (.closer (Env.calm .fallback))) ++
    [UnderlayEvent.act 1 (.input (Env.calm .closedChan))]

def closedClient : Underlay :=
  (System.runEvents Underlay.next idleClient closingEvents).getD idleClient

def closedEntry : SessionEntry :=
  (closedClient.sessions 1).getD { live := addedLive }

theorem eventLoop_wedged_after_close : ∃ u, underlaySystem.Reachable u ∧ u.Wedged := by
  have hinit : underlaySystem.Reachable idleClient := .init ⟨rfl, rfl⟩
  have hrun : System.runEvents Underlay.next idleClient closingEvents =
      some closedClient := rfl
  have hclosed : closedClient.Floods (fun _ _ => True) 1 closedEntry.live 0 :=
    ⟨hinit.run hrun, rfl, rfl⟩
  obtain ⟨u, hfull⟩ := hclosed.fills (fun _ _ _ => trivial) (fun _ => trivial) (Nat.le_refl _)
  refine ⟨_, hfull.sends trivial, 1, clientData 1, _, rfl, hfull.session, ?_, .inl rfl⟩
  simp [LiveSession.flooded]

end Mieru.Protocol
