import Mieru.Delivery.GracefulClose
import Mieru.Delivery.Room

/-!
# Nothing is forgotten

An open session over datagrams keeps every segment that it has queued until
its peer has received it, whatever the network does.  When nothing waits any
more, the peer has received every byte.
-/

namespace Mieru.Protocol

open Mieru.Foundation

namespace SendView

/-- The numbers that wait to be sent or acknowledged. -/
def unacked (v : SendView) : List Nat :=
  (v.phase.unbuffered ++ v.queue ++ v.buf).map Segment.key

def Retains (received : Nat) (v : SendView) : Prop :=
  ∀ i payload, v.queued[i]? = some (some payload) → i < received ∨ i ∈ v.unacked

variable {v v' : SendView} {mode : SendMode} {sent : List Packet} {received : Nat}

theorem Retains.step (h : v.Retains received) (hordered : v.Ordered)
    (hstep : SendStep mode v sent v') (hpacket : mode.packet = true) (hopen : mode.closed = false)
    (hfits : v'.Fits)
    (hacked : ∀ unAckSeq, mode.acking = some unAckSeq → unAckSeq.toNat ≤ received) :
    v'.Retains received := by
  cases hstep with
  | stay | ack => exact h
  | @enqueue seg _ hseq =>
    simp only [Fits, List.length_append, List.length_singleton] at hfits
    have hkey := hordered.key_eq hseq (by omega)
    have hqueue := hordered.queue_eq hseq (by omega)
    intro i payload hget
    have hkept := h i payload
    simp [unacked, hqueue] at hkept ⊢
    grind
  | overflow =>
    intro i payload hget
    exact h i payload (by grind)
  | popStream hstream => cases hpacket.symm.trans hstream
  | popPacket hidle hqueue => simpa [Retains, unacked, hidle, hqueue, SendPhase.unbuffered] using h
  | @buffer seg again _ hpopped htouch =>
    have hbuf : replaceOrInsert Segment.key again v.buf = v.buf ++ [again] := by
      apply replaceOrInsert_of_forall_lt
      intro other hother
      rw [htouch.key]
      exact hordered.buf_lt_pending other hother seg (by simp [hpopped, SendPhase.unbuffered])
    simp [Retains, unacked, hpopped, SendPhase.unbuffered, hbuf, htouch.key] at h ⊢
    grind
  | bufferFull hpopped hfull =>
    have hspace := hordered.space _ hpopped
    omega
  | emit hready => simpa [Retains, unacked, hready, SendPhase.unbuffered] using h
  | resend _ _ htouch =>
    have hkeys : Segment.key ∘ _ = Segment.key := funext fun seg => (htouch seg).key
    simpa [Retains, unacked, hkeys] using h
  | @count unAckSeq =>
    have hkeys : Segment.key ∘ _ = Segment.key := funext fun seg => seg.key_countAck unAckSeq
    simpa [Retains, unacked, hkeys] using h
  | @acked first _ _ hacking hbuf hlt =>
    -- The peer has received what it acknowledges.
    have hle : first.key < received := Nat.lt_of_lt_of_le hlt (hacked _ hacking)
    intro i payload hget
    have hkept := h i payload hget
    simp [unacked, hbuf] at hkept ⊢
    grind
  | answerClose _ hclosed => cases hopen.symm.trans hclosed

end SendView

namespace DatagramPair

variable {pair : DatagramPair} {side : Side}

def Retains (pair : DatagramPair) (side : Side) : Prop :=
  (pair.session side).session.closeRequested = false → (pair.session side).sendView.Ordered ∧
    (pair.session side).sendView.Retains (pair.session side.peer).session.nextRecv.toNat

theorem Inv.acked_le (h : pair.Inv) (hfits : pair.Fits) {unAckSeq : UInt32}
    (hacking : (pair.session side).input.acking = some unAckSeq) :
    unAckSeq.toNat ≤ (pair.session side.peer).session.nextRecv.toNat := by
  have hintake := ((h.delivers hfits).recv side).intake
  cases hinput : (pair.session side).input with
  | deletingAcked seg das =>
    rw [hinput] at hacking
    cases hacking
    have hacked : (pair.flow side).intake = .acking seg das := by
      simp [flow, LiveSession.flow, Session.flow, hinput, InputState.intake]
    rw [hacked] at hintake
    exact hintake.1.acked das hintake.2
  | _ =>
    rw [hinput] at hacking
    cases hacking

theorem Retains.replace {actor : Side} {l : LiveSession} {packets : List Packet}
    (h : ∀ side, pair.Retains side)
    (hself : l.session.closeRequested = false → l.sendView.Ordered ∧
      l.sendView.Retains (pair.session actor.peer).session.nextRecv.toNat)
    (hnext : (pair.session actor).session.nextRecv ≤ l.session.nextRecv) (side : Side) :
    (pair.replace actor l packets).Retains side := by
  rcases actor.eq_or_eq_peer side with rfl | rfl
  · simpa [DatagramPair.Retains] using hself
  · intro hopen
    rw [session_replace_peer] at hopen
    obtain ⟨hordered, hretains⟩ := h _ hopen
    rw [actor.peer_peer] at hretains
    rw [actor.peer_peer, session_replace_self, session_replace_peer]
    exact ⟨hordered, fun i payload hget =>
      (hretains i payload hget).imp_left fun hlt => Nat.lt_of_lt_of_le hlt hnext⟩

theorem Retains.act {actor : Side} {event : SessionEvent} {l : LiveSession} {packets : List Packet}
    (h : ∀ side, pair.Retains side) (hinv : pair.Inv) (hbefore : pair.Fits)
    (hfits : l.sendView.Fits)
    (hstep : (pair.session actor).step event = some (l, packets)) (side : Side) :
    (pair.replace actor l packets).Retains side := by
  have hwell := hinv.wellFormed actor
  obtain ⟨hfollows, -⟩ := LiveSession.step_follows hwell hstep
  refine Retains.replace h (fun hopen => ?_)
    (((hinv.delivers hbefore).recv actor).nextRecv_le hfollows.step (hbefore actor.peer)) side
  have hwas := hfollows.keeps.open_of hopen
  have hsending := (LiveSession.step_sending hwell
    (LiveSession.ofCloser_of_open hwell hwas hstep) hstep).step
  obtain ⟨hordered, hretains⟩ := h actor hwas
  exact ⟨hordered.step hsending hfits, hretains.step hordered hsending (hinv.packet actor) hopen
    hfits fun _ hacking => hinv.acked_le hbefore hacking⟩

theorem retains_of_reachable (h : datagramSystem.Reachable pair) (hfits : pair.Fits) (side : Side) :
    pair.Retains side := by
  induction h generalizing side with
  | init hinit =>
    obtain ⟨id, mtu, addr, now, rfl⟩ := hinit
    intro _
    constructor
    · refine ⟨rfl, .nil, ?_, ?_, ?_, Nat.zero_le _, ?_⟩ <;>
        · intro _ hmem
          cases hmem
    · simp [SendView.Retains, LiveSession.sendView, Session.sendView, Session.new]
  | @step _ _ event hreach _ hnext ih =>
    have hinv := inv_of_reachable hreach
    cases event with
    | act actor event =>
      obtain ⟨⟨l, packets⟩, hstep, rfl⟩ := Option.map_eq_some_iff.mp hnext
      obtain ⟨hfollows, -⟩ := LiveSession.step_follows (hinv.wellFormed actor) hstep
      have hbefore := fits_of_replace hfits hfollows.step.queued_isPrefix
      have hself := hfits actor
      rw [flow_replace_self] at hself
      exact Retains.act (ih hbefore) hinv hbefore hself hstep side
    | deliver receiver p block =>
      obtain ⟨-, hnext⟩ := Option.ite_none_right_eq_some.mp hnext
      obtain ⟨l, hreceive, rfl⟩ := Option.map_eq_some_iff.mp hnext
      obtain ⟨-, rfl⟩ := LiveSession.receive_eq_some hreceive
      have hbefore := fits_of_replace hfits List.prefix_rfl
      apply Retains.replace (ih hbefore)
      · exact ih hbefore receiver
      · exact UInt32.le_refl _

theorem loggedBytes_take {log : List (Option Bytes)} {n : Nat}
    (h : ∀ i payload, log[i]? = some (some payload) → i < n) :
    loggedBytes (log.take n) = loggedBytes log := by
  have hnone : loggedBytes (log.drop n) = [] := by
    refine List.flatMap_eq_nil_iff.mpr fun entry hentry => ?_
    obtain ⟨i, hi⟩ := List.mem_iff_getElem?.mp hentry
    rw [List.getElem?_drop] at hi
    cases entry with
    | none => rfl
    | some payload => exact absurd (h _ payload hi) (by omega)
  conv_rhs => rw [← List.take_append_drop n log]
  simp only [loggedBytes, List.flatMap_append] at hnone ⊢
  rw [hnone, List.append_nil]

/-- Every segment that an open session has queued waits there, or its peer has
received it in order; and when none waits, the peer has every byte. -/
theorem nothing_forgotten (h : datagramSystem.Reachable pair)
    (hqueued : ∀ side, (pair.session side).session.history.queued.length ≤ 4294967295)
    (hopen : (pair.session side).session.closeRequested = false) :
    (∀ i payload, (pair.session side).session.history.queued[i]? = some (some payload) →
      i < (pair.session side.peer).session.nextRecv.toNat ∨
        i ∈ (pair.session side).sendView.unacked) ∧
    ((pair.session side).sendView.unacked = [] →
      (pair.flow side.peer).read ++ (pair.flow side.peer).unread ++
          payloads (pair.flow side.peer).recvQueue =
        loggedBytes (pair.session side).session.history.queued) := by
  obtain ⟨-, hkept⟩ := retains_of_reachable h hqueued side hopen
  refine ⟨hkept, fun hnone => ?_⟩
  have hrecv := ((inv_of_reachable h).delivers hqueued).recv side.peer
  rw [side.peer_peer] at hrecv
  rw [hrecv.bytes]
  refine loggedBytes_take fun i payload hget => ?_
  rcases hkept i payload hget with hlt | hmem
  · exact Nat.lt_of_lt_of_le hlt (Nat.le_add_right _ _)
  · rw [hnone] at hmem
    cases hmem

def ackDatagram : Packet where
  payload := []
  metadata := .dataAck {
    protocol := .ackServerToClient
    sessionID := 1
    unAckSeq := 1
    windowSize := 16 }

/-- The server acknowledges what the client wrote. -/
def answeredRun : List PairEvent :=
  openingRun ++ [PairEvent.act .server (.input calmEnv)] ++
    List.replicate 4 (PairEvent.act .server (.output calmEnv))

def ackedRun : List PairEvent :=
  answeredRun ++ [PairEvent.deliver .client ackDatagram none] ++
    List.replicate 2 (PairEvent.act .client (.input calmEnv))

/-- The client sends its datagram again before the acknowledgement arrives. -/
def resentRun : List PairEvent :=
  answeredRun ++
    List.replicate 5 (PairEvent.act .client (.output { calmEnv with now := 100000000 }))

theorem nothing_forgotten_ackedRun : ∃ pair, datagramSystem.Reachable pair ∧
    (pair.session .client).sendView.unacked = [] ∧
    (pair.flow .server).read ++ (pair.flow .server).unread ++
      payloads (pair.flow .server).recvQueue = loggedBytes [some [7, 8, 9]] := by
  obtain ⟨pair, hreach, hqueued, hclient, hopen, hunacked⟩ : ∃ pair,
      datagramSystem.Reachable pair ∧
      (∀ side, (pair.session side).session.history.queued.length ≤ 4294967295) ∧
      (pair.session .client).session.history.queued = [some [7, 8, 9]] ∧
      (pair.session .client).session.closeRequested = false ∧
      (pair.session .client).sendView.unacked = [] :=
    System.exists_reachable isInitial_freshPair ackedRun (by decide)
  rw [← hclient]
  exact ⟨pair, hreach, hunacked, (nothing_forgotten hreach hqueued hopen).2 hunacked⟩

/-- A number stands for the same bytes in every datagram that carries it, and
what a datagram acknowledges has been received. -/
theorem datagrams_sound (h : datagramSystem.Reachable pair)
    (hqueued : ∀ side, (pair.session side).session.history.queued.length ≤ 4294967295) :
    (∀ p ∈ pair.sent side, ∀ q ∈ pair.sent side, isInputData p.metadata.protocol = true →
      isInputData q.metadata.protocol = true → p.seq = q.seq → p.payload = q.payload) ∧
    ∀ p ∈ pair.sent side, ∀ das, p.metadata = .dataAck das →
      loggedBytes ((pair.session side.peer).session.history.queued.take das.unAckSeq.toNat) <+:
        (pair.flow side).read ++ (pair.flow side).unread ++
          payloads (pair.flow side).recvQueue := by
  have hdelivers := (inv_of_reachable h).delivers hqueued
  constructor
  · intro p hp q hq hdata hdata' hseq
    have hlogged := (hdelivers.sent side p hp).logged hdata
    rw [hseq, (hdelivers.sent side q hq).logged hdata'] at hlogged
    simpa using hlogged.symm
  · intro p hp das hdas
    have hle : das.unAckSeq.toNat ≤ (pair.flow side).nextRecv.toNat :=
      (hdelivers.sent side p hp).acked das hdas
    rw [(hdelivers.recv side).bytes]
    obtain ⟨rest, hrest⟩ := List.take_prefix_take_left
      (l := (pair.flow side.peer).queued) (Nat.le_add_right_of_le hle)
    rw [← hrest, loggedBytes, loggedBytes, List.flatMap_append]
    exact List.prefix_append _ _

theorem datagrams_sound_resentRun : ∃ pair, datagramSystem.Reachable pair ∧
    (pair.sent .client).count openingDatagram = 2 ∧ ackDatagram ∈ pair.sent .server ∧
    (∀ q ∈ pair.sent .client, isInputData q.metadata.protocol = true →
      openingDatagram.seq = q.seq → openingDatagram.payload = q.payload) ∧
    [7, 8, 9] <+: (pair.flow .server).read ++ (pair.flow .server).unread ++
      payloads (pair.flow .server).recvQueue := by
  obtain ⟨pair, hreach, hqueued, hclient, htwice, hack⟩ : ∃ pair,
      datagramSystem.Reachable pair ∧
      (∀ side, (pair.session side).session.history.queued.length ≤ 4294967295) ∧
      (pair.session Side.server.peer).session.history.queued = [some [7, 8, 9]] ∧
      (pair.sent .client).count openingDatagram = 2 ∧ ackDatagram ∈ pair.sent .server :=
    System.exists_reachable isInitial_freshPair resentRun (by decide)
  have hfirst : openingDatagram ∈ pair.sent .client :=
    List.count_pos_iff.mp (by rw [htwice]; decide)
  have hbytes := (datagrams_sound hreach hqueued).2 ackDatagram hack _ rfl
  rw [hclient] at hbytes
  exact ⟨pair, hreach, htwice, hack, fun q hq hdata =>
    (datagrams_sound hreach hqueued).1 _ hfirst q hq rfl hdata, hbytes⟩

end DatagramPair

end Mieru.Protocol
