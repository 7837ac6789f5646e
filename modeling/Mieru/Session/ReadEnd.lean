import Mieru.Foundation.TransitionSystem
import Mieru.Session.Reading

/-!
# The end that `Read` reports

`Read` looks whether `recvQueue` is empty and then waits on four channels at
once.  A segment that is queued in between is announced on
`chanNotEmptyEvent`, but if the session is closed too, `select` may take either
case.
-/

namespace Mieru.Protocol

open Mieru.Foundation
open ProtocolType

/-- `chanNotEmptyEvent` is ready if there is something in the tree. -/
def SegmentTree.Announced (t : SegmentTree) : Prop :=
  t.items ≠ [] → t.chanNotEmptyEvent = true

theorem SegmentTree.announced_insert {t : SegmentTree} (h : t.Announced)
    (seg : Segment) : (t.insert seg).2.Announced := by
  unfold insert
  split
  · exact fun _ => rfl
  · dsimp only
    split
    · rename_i hlength
      -- the segment replaces one with its number
      intro _
      apply h
      intro hnil
      rw [hnil] at hlength
      cases hlength
    · exact fun _ => rfl

def Session.unread (s : Session) : Bytes :=
  s.recvQueue.items.flatMap (·.payload) ++ s.unreadBuf

namespace ReaderState

def isSelecting : ReaderState → Bool
  | .selecting _ => true
  | _ => false

def isEnd : ReaderState → Bool
  | .returned _ (some .eof) => true
  | .returned _ (some .unexpectedEOF) => true
  | _ => false

end ReaderState

namespace Session

variable {s t : Session} {env : Env} {reader reader' : ReaderState}

theorem readerStep_ends (h : s.readerStep env reader = some (t, reader')) :
    (reader'.isSelecting = true → t.recvQueue.items = []) ∧
      (reader'.isEnd = true → t = s ∧ reader.isSelecting = true ∧
        (env.choice = .closedChan ∨ env.choice = .inputErr)) := by
  cases readerStep_inv h with
  | missed hempty => exact ⟨fun _ => hempty, Bool.noConfusion⟩
  | eof hchoice => exact ⟨Bool.noConfusion, fun _ => ⟨rfl, rfl, .inl hchoice⟩⟩
  | unexpectedEOF hchoice => exact ⟨Bool.noConfusion, fun _ => ⟨rfl, rfl, .inr hchoice⟩⟩
  | _ => exact ⟨Bool.noConfusion, Bool.noConfusion⟩

end Session

structure ReadingSession where
  live : LiveSession
  ends : List Bytes := []

namespace ReadingSession

def reports (event : SessionEvent) (live : LiveSession) : List Bytes :=
  match event with
  | .reader _ => if live.reader.isEnd then [live.session.unread] else []
  | _ => []

def next (w : ReadingSession) : SessionEvent ⊕ Segment → Option ReadingSession
  | .inl event =>
    (w.live.step event).map fun (live, _) =>
      { live := live, ends := w.ends ++ reports event live }
  | .inr seg => (w.live.receive seg).map fun live => { w with live := live }

def IsInitial (w : ReadingSession) : Prop :=
  ∃ (id : UInt32) (isClient : Bool) (mtu : Nat)
    (transport : TransportProtocol) (addr : Addr) (now : Int),
    w = {
      live := { session := Session.new id isClient mtu transport addr now } }

end ReadingSession

def readingSystem : System ReadingSession (SessionEvent ⊕ Segment) :=
  System.ofNext ReadingSession.IsInitial ReadingSession.next

namespace ReadingSession

/-- `select` takes `closedChan` or `inputErr` only if `chanNotEmptyEvent` is
not ready. -/
def DataFirst (w : ReadingSession) : SessionEvent ⊕ Segment → Prop
  | .inl (.reader env) => w.live.reader.isSelecting = true →
      env.choice = .closedChan ∨ env.choice = .inputErr →
      w.live.session.recvQueue.chanNotEmptyEvent = false
  | _ => True

structure Inv (w : ReadingSession) : Prop where
  seeks : w.live.SeeksEmpty
  announced : w.live.reader.isSelecting = true → w.live.session.recvQueue.Announced
  ends : ∀ bytes ∈ w.ends, bytes = []

theorem isSeeking_of_isSelecting {reader : ReaderState}
    (h : reader.isSelecting = true) : reader.isSeeking = true := by
  cases reader with
  | selecting size => rfl
  | _ => cases h

variable {w : ReadingSession} {l : LiveSession} {sent : List Packet}

theorem Inv.other {event : SessionEvent} (h : w.Inv) (hevent : LiveSession.ofReader event = false)
    (hstep : w.live.step event = some (l, sent)) :
    Inv { live := l, ends := w.ends ++ reports event l } := by
  obtain ⟨hreader, hsupplies⟩ := LiveSession.step_supplies hstep hevent
  have hnone : reports event l = [] := by
    cases event with
    | reader env => cases hevent
    | _ => rfl
  refine ⟨(LiveSession.step_reader hstep h.seeks).1, ?_, ?_⟩
  · intro hselecting
    have hbefore := h.announced (hreader ▸ hselecting)
    change l.session.recvQueue.Announced
    rcases hsupplies.recvQueue with hsame | ⟨seg, hinsert⟩
    · rw [hsame]
      exact hbefore
    · rw [hinsert]
      exact SegmentTree.announced_insert hbefore seg
  · rw [hnone, List.append_nil]
    exact h.ends

theorem Inv.reader {env : Env} (h : w.Inv) (hfirst : w.DataFirst (.inl (.reader env)))
    (hstep : w.live.step (.reader env) = some (l, sent)) :
    Inv { live := l, ends := w.ends ++ reports (.reader env) l } := by
  have hseeks := (LiveSession.step_reader hstep h.seeks).1
  obtain ⟨⟨t, reader⟩, hreader, heq⟩ := Option.map_eq_some_iff.mp hstep
  cases heq
  obtain ⟨hselects, hends⟩ := Session.readerStep_ends hreader
  refine ⟨hseeks, fun hselecting hnonempty => ?_, fun bytes hbytes => ?_⟩
  · exact absurd (hselects hselecting) hnonempty
  · rcases List.mem_append.mp hbytes with hbytes | hbytes
    · exact h.ends bytes hbytes
    · simp only [reports] at hbytes
      split at hbytes
      · rename_i hend
        obtain ⟨rfl, hselecting, hchoice⟩ := hends hend
        have hquiet := hfirst hselecting hchoice
        have hqueue : w.live.session.recvQueue.items = [] := by
          by_contra hsome
          cases hquiet.symm.trans (h.announced hselecting hsome)
        have hbuffer := h.seeks (isSeeking_of_isSelecting hselecting)
        rw [List.mem_singleton.mp hbytes]
        simp [Session.unread, hqueue, hbuffer]
      · cases hbytes

theorem Inv.next {w' : ReadingSession} {event : SessionEvent ⊕ Segment} (h : w.Inv)
    (hfirst : w.DataFirst event) (hnext : w.next event = some w') : w'.Inv := by
  cases event with
  | inl event =>
    obtain ⟨⟨live, packets⟩, hstep, heq⟩ := Option.map_eq_some_iff.mp hnext
    cases heq
    cases hevent : LiveSession.ofReader event with
    | false => exact h.other hevent hstep
    | true =>
      cases event with
      | read size =>
        have hseeks := (LiveSession.step_reader hstep h.seeks).1
        refine ⟨hseeks, ?_, ?_⟩
        · obtain ⟨l, hread, heq⟩ := Option.map_eq_some_iff.mp hstep
          cases heq
          simp only [LiveSession.read, Session.read] at hread
          split at hread
          · split at hread
            · cases hread
              exact Bool.noConfusion
            · cases hread
              exact Bool.noConfusion
          · cases hread
        · change ∀ bytes ∈ w.ends ++ [], bytes = []
          rw [List.append_nil]
          exact h.ends
      | reader env => exact h.reader hfirst hstep
      | _ => cases hevent
  | inr seg =>
    obtain ⟨live, hreceive, heq⟩ := Option.map_eq_some_iff.mp hnext
    cases heq
    obtain ⟨-, rfl⟩ := LiveSession.receive_eq_some hreceive
    exact ⟨h.seeks, h.announced, h.ends⟩

/-- In a run in which `select` prefers data, `Read` reports an end only when it
has returned everything. -/
theorem no_premature_end {w : ReadingSession} (h : readingSystem.ReachableBy DataFirst w) :
    ∀ bytes ∈ w.ends, bytes = [] := by
  have hinv : w.Inv :=
    System.ReachableBy.invariant (P := Inv) (by
        rintro _ ⟨id, isClient, mtu, transport, addr, now, rfl⟩
        refine ⟨?_, ?_, ?_⟩
        · exact Bool.noConfusion
        · exact Bool.noConfusion
        · exact fun _ hbytes => absurd hbytes List.not_mem_nil)
      (fun _ _ _ hinv hfirst hnext => hinv.next hfirst hnext) h
  exact hinv.ends

def checkDataFirst (w : ReadingSession) (event : SessionEvent ⊕ Segment) : Bool :=
  match event with
  | .inl (.reader env) =>
    !w.live.reader.isSelecting ||
      !(env.choice == .closedChan || env.choice == .inputErr) ||
      !w.live.session.recvQueue.chanNotEmptyEvent
  | _ => true

theorem dataFirst_of_check (w : ReadingSession)
    (event : SessionEvent ⊕ Segment) (h : w.checkDataFirst event = true) : w.DataFirst event := by
  unfold checkDataFirst at h
  unfold DataFirst
  split at h
  · rintro hselecting (hchoice | hchoice) <;>
      simpa [hselecting, hchoice] using h
  · trivial

def readingServer : ReadingSession where
  live := { session := Session.new 7 false 1400 .streamTransport "client" 0 }

theorem readingServer_isInitial : readingServer.IsInitial :=
  ⟨7, false, 1400, .streamTransport, "client", 0, rfl⟩

def requestWithData : Segment where
  metadata := .session {
    protocol := openSessionRequest
    sessionID := 7
    seq := 0
    payloadLen := 3 }
  payload := [1, 2, 3]

def closesSession : List (SessionEvent ⊕ Segment) :=
  .inl .close :: List.replicate 5 (.inl (.closer (.calm .fallback)))

def readsThenEnds : List (SessionEvent ⊕ Segment) :=
  .inr requestWithData :: (List.replicate 2 (.inl (.input (.calm .fallback))) ++
      .inl (.read 10) :: (List.replicate 3 (.inl (.reader (.calm .notEmptyEvent))) ++
          (closesSession ++ [.inl (.read 10), .inl (.reader (.calm .notEmptyEvent)),
              .inl (.reader (.calm .notEmptyEvent)),
              .inl (.reader (.calm .notEmptyEvent)),
              .inl (.reader (.calm .closedChan))])))

theorem no_premature_end_readsThenEnds : ∃ w, readingSystem.ReachableBy DataFirst w ∧
      w.live.session.history.read = [1, 2, 3] ∧ w.ends = [[]] ∧ ∀ bytes ∈ w.ends, bytes = [] := by
  obtain ⟨w, hreach, hread, hends⟩ : ∃ w, readingSystem.ReachableBy DataFirst w ∧
      w.live.session.history.read = [1, 2, 3] ∧ w.ends = [[]] :=
    System.exists_reachableBy dataFirst_of_check readingServer_isInitial readsThenEnds
      (by decide +kernel)
  exact ⟨w, hreach, hread, hends, no_premature_end hreach⟩

/-- The input loop queues a segment after `Read` has found the queue empty and
before it looks at `closedChan`. -/
def endsBeforeData : List (SessionEvent ⊕ Segment) :=
  .inr requestWithData :: .inl (.input (.calm .fallback)) :: (closesSession ++
      [.inl (.read 10), .inl (.reader (.calm .closedChan)), .inl (.input (.calm .fallback)),
        .inl (.reader (.calm .closedChan))])

/-- `Read` returns `io.EOF` with three bytes in `recvQueue`. -/
theorem premature_end : ∃ w, readingSystem.Reachable w ∧ w.live.reader = .returned [] (some .eof) ∧
      w.live.session.unread = [1, 2, 3] ∧ w.ends = [[1, 2, 3]] := by
  exact System.exists_reachable readingServer_isInitial endsBeforeData (by decide +kernel)

end ReadingSession

end Mieru.Protocol
