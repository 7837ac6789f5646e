import Mieru.Delivery.Closing
import Mieru.Session.Steady
import Mieru.Underlay.NewPadding
import Mieru.Wire.PacketRoundTrip

/-!
# Datagrams fit the MTU

Every segment that a session over the packet transport makes tells the length
of its payload, and the payload leaves room for the packet overhead.  This
stays true of the segment while it waits, is sent and is sent again, so that
the paddings drawn for it fill at most what is left of the MTU.
-/

namespace Mieru.Protocol

open Mieru.Foundation
open Mieru.Cipher
open ProtocolType

variable {mtu : Nat} {seg : Segment} {s : Session} {state : InputState} {w : SendingSession}

structure Packet.Sized (mtu : Nat) (p : Packet) : Prop where
  payloadLen : p.metadata.payloadLen.toNat = p.payload.length
  room : p.payload.length + packetOverhead ≤ mtu

theorem Metadata.payloadLen_setUnAckSeq (unAckSeq : UInt32) (m : Metadata) :
    (m.setUnAckSeq unAckSeq).payloadLen = m.payloadLen := by
  cases m with
  | session ss => rfl
  | dataAck das =>
    simp only [Metadata.setUnAckSeq]
    split <;> rfl

theorem Packet.Sized.retouched {again : Segment}
    {nextRecv : UInt32} (htouch : seg.Retouched nextRecv again)
    (h : seg.packet.Sized mtu) : again.packet.Sized mtu := by
  have hlength : again.metadata.payloadLen = seg.metadata.payloadLen := by
    rcases htouch.metadata with hmeta | hmeta
    · rw [hmeta]
    · rw [hmeta, Metadata.payloadLen_setUnAckSeq]
  have hpayload := htouch.payload
  constructor
  · change again.metadata.payloadLen.toNat = again.payload.length
    rw [hlength, hpayload]
    exact h.payloadLen
  · change again.payload.length + packetOverhead ≤ mtu
    rw [hpayload]
    exact h.room

namespace Session

/-! ## The segments a session makes -/

inductive Makes (s : Session) : Segment → Prop
  | openRequest (b : Bytes) : Makes s (s.openRequest b)
  | openResponse : Makes s s.openResponse
  | data (env : Env) (job : ChunkJob) : Makes s (s.dataSegment env job)
  | ack (env : Env) : Makes s (s.ackSegment env)
  | closeRequest : Makes s s.closeSegment
  | closeResponse : Makes s s.closeResponse

theorem sized_of_empty (hmtu : IsValidMTU mtu) (hlength : seg.metadata.payloadLen = 0)
    (hpayload : seg.payload = []) : seg.packet.Sized mtu := by
  constructor
  · change seg.metadata.payloadLen.toNat = seg.payload.length
    rw [hlength, hpayload]
    rfl
  · change seg.payload.length + packetOverhead ≤ mtu
    rw [hpayload]
    exact Nat.le_trans (by decide) hmtu.1

theorem sized_of_length (hmtu : IsValidMTU mtu)
    (hlength : seg.metadata.payloadLen = UInt16.ofNat seg.payload.length)
    (hroom : seg.payload.length + packetOverhead ≤ mtu) : seg.packet.Sized mtu := by
  constructor
  · change seg.metadata.payloadLen.toNat = seg.payload.length
    have hmax := hmtu.2
    rw [hlength, UInt16.toNat_ofNat']
    omega
  · exact hroom

theorem Makes.sized (h : s.Makes seg) (hmtu : IsValidMTU s.mtu) (hpacket : s.isPacket = true) :
    seg.packet.Sized s.mtu := by
  have hlow := hmtu.1
  cases h with
  | openRequest b =>
    refine sized_of_length hmtu rfl ?_
    change (if b.length ≤ maxSessionOpenPayload then b else []).length + packetOverhead ≤ s.mtu
    have hbound : maxSessionOpenPayload + packetOverhead ≤ 1280 := by decide
    split
    · omega
    · rw [List.length_nil]
      omega
  | data env job =>
    refine sized_of_length hmtu rfl ?_
    have htransport : s.transportProtocol = .packetTransport := by
      simpa [isPacket] using hpacket
    have hfragment : maxFragmentSize s.mtu s.transportProtocol =
        s.mtu - packetOverhead := by rw [htransport]; rfl
    change (job.ptr.take (maxFragmentSize s.mtu s.transportProtocol)).length +
      packetOverhead ≤ s.mtu
    have hoverhead : packetOverhead ≤ 1280 := by decide
    rw [hfragment, List.length_take]
    omega
  | openResponse => exact sized_of_empty hmtu rfl rfl
  | ack env => exact sized_of_empty hmtu rfl rfl
  | closeRequest => exact sized_of_empty hmtu rfl rfl
  | closeResponse => exact sized_of_empty hmtu rfl rfl

inductive Queues (s t : Session) : Prop
  | none : s.Idles t → Queues s t
  | made {u v : Session} {seg : Segment} {ok : Bool} : s.Makes seg →
      s.Idles u → u.enqueue seg = (ok, v) → v.Idles t → Queues s t

variable {s t : Session} {env : Env} {sent : List Packet}

theorem queues_write {b : Bytes} {writer : WriterState}
    (h : s.write b = (t, writer)) : s.Queues t := by
  have hmark : s.Idles s.setOpenSessionRequestSent :=
    ⟨fun _ => rfl, .same rfl rfl⟩
  cases writeStart h with
  | refused | begun => exact .none (Idles.refl s)
  | full _ _ henqueue | carried _ _ henqueue | requested _ _ henqueue =>
    exact .made (.openRequest b) hmark henqueue (Idles.refl _)

theorem queues_queueing {job : ChunkJob} {writer' : WriterState}
    (h : s.writerStep env (.queueing job) = some (t, writer')) : s.Queues t := by
  cases writerStep_inv h with
  | broken => exact .none (Idles.refl s)
  | full _ henqueue | last _ henqueue | queued _ henqueue =>
    exact .made (.data env job) (Idles.refl s) henqueue (Idles.refl _)

theorem queues_responding (h : s.inputStep env (.responding seg) = some (t, state, sent)) :
    s.Queues t := by
  cases inputStep_inv h with
  | overQuota => exact .none ((idles_closeWithError _ _).after ⟨fun _ => rfl, .same rfl rfl⟩)
  | opened _ _ _ _ henqueue =>
    exact .made .openResponse (Idles.refl s) henqueue (idles_forwardStateTo _ _)
  | openFailed _ _ _ henqueue =>
    exact .made .openResponse (Idles.refl s) henqueue (idles_failInput _)
  | quotaPanicked | ordinary => exact .none (Idles.refl s)

theorem sent_responding (h : s.inputStep env (.responding seg) = some (t, state, sent)) : sent =
    [] := by
  cases inputStep_inv h <;> rfl

theorem sent_output {ok : Bool}
    (h : s.output env seg = (ok, t, sent)) : ∀ p ∈ sent, p = seg.packet := by
  obtain ⟨lastSend, hwrote, _⟩ := output_wrote h
  exact hwrote.sends rfl

theorem sent_acking {output' : OutputState}
    (h : s.outputStep env .acking = some (t, output', sent)) :
    ∀ p ∈ sent, p = (s.ackSegment env).packet := by
  cases outputStep_inv h with
  | ack _ houtput | ackFailed _ houtput => exact sent_output houtput
  | silent => simp

theorem sent_closing (h : s.inputStep env (.closing seg) = some (t, state, sent)) :
    ∀ p ∈ sent, p = s.closeResponse.packet := by
  cases inputStep_inv h with
  | answered _ houtput | unanswered _ houtput => exact sent_output houtput
  | confirmed => simp

end Session

/-! ## Sizes in a running session -/

namespace LiveSession

variable {l l' : LiveSession} {event : SessionEvent} {sent : List Packet} {mtu : Nat}

structure Sized (mtu : Nat) (l : LiveSession) : Prop where
  waiting : ∀ seg ∈ l.sendView.waiting, seg.packet.Sized mtu
  closer : ∀ seg ∈ l.session.closer.held, seg.packet.Sized mtu

theorem sized_closer {t : Session} (hcalled : s.CloserCalled t)
    (h : ∀ seg ∈ s.closer.held, seg.packet.Sized mtu) :
    ∀ seg ∈ t.closer.held, seg.packet.Sized mtu := by
  cases hcalled with
  | same hcloser _ =>
    rw [hcloser]
    exact h
  | called graceful _ hcloser _ =>
    rw [hcloser]
    intro seg hseg
    cases hseg

theorem Sized.queues (h : l.Sized mtu) (hqueues : l.session.Queues s)
    (hmade : ∀ seg, l.session.Makes seg → seg.packet.Sized mtu) :
    (∀ seg ∈ (s.sendView l.output.phase).waiting, seg.packet.Sized mtu) ∧
      ∀ seg ∈ s.closer.held, seg.packet.Sized mtu := by
  have hwaits := h.waiting
  cases hqueues with
  | none hidles =>
    rw [hidles.view]
    exact ⟨hwaits, sized_closer hidles.closer h.closer⟩
  | @made u v new ok hmakes hbefore henqueue hafter =>
    have hcloser : v.closer = u.closer := by cases henqueue; rfl
    have hbuf : v.sendBuf = u.sendBuf := by cases henqueue; rfl
    have hview := hbefore.view l.output.phase
    constructor
    · rw [hafter.view]
      intro seg hseg
      simp only [SendView.waiting, List.mem_append] at hseg
      have hmem : seg ∈ (u.sendView l.output.phase).waiting ∨ seg = new := by
        rcases hseg with (hheld | hqueue) | hbuffered
        · left
          simp only [SendView.waiting, Session.sendView, List.mem_append] at hheld ⊢
          exact .inl (.inl hheld)
        · rcases Session.mem_enqueue henqueue hqueue with hqueue | hnew
          · exact .inl (by simp [SendView.waiting, Session.sendView, hqueue])
          · exact .inr hnew
        · have hsame : seg ∈ u.sendBuf.items := hbuf ▸ hbuffered
          exact .inl (by simp [SendView.waiting, Session.sendView, hsame])
      rcases hmem with hmem | rfl
      · rw [hview] at hmem
        exact hwaits seg hmem
      · exact hmade seg hmakes
    · refine sized_closer hafter.closer ?_
      rw [hcloser]
      exact sized_closer hbefore.closer h.closer

theorem queues_of_enqueues (henqueues : l.enqueues event = true)
    (h : l.step event = some (l', sent)) :
    l.session.Queues l'.session ∧ l'.output = l.output ∧ sent = [] := by
  cases step_inv h with
  | write hcall => exact ⟨Session.queues_write hcall, rfl, rfl⟩
  | writer hstep =>
    cases hwriter : l.writer with
    | queueing job =>
      rw [hwriter] at hstep
      exact ⟨Session.queues_queueing hstep, rfl, rfl⟩
    | _ => simp [enqueues, hwriter, WriterState.isQueueing] at henqueues
  | input hstep =>
    cases hinput : l.input with
    | responding seg =>
      rw [hinput] at hstep
      exact ⟨Session.queues_responding hstep, rfl, Session.sent_responding hstep⟩
    | _ => simp [enqueues, hinput, Session.responds] at henqueues
  | _ => cases henqueues

theorem sent_made (h : l.step event = some (l', sent))
    (hdirect : l.acknowledges event = true ∨ l.answersClose event = true) :
    ∀ p ∈ sent, ∃ seg, l.session.Makes seg ∧ p = seg.packet := by
  rcases hdirect with hacks | hanswers
  · cases step_inv h with
    | output hstep =>
      cases houtput : l.output with
      | acking =>
        rw [houtput] at hstep
        exact fun p hp => ⟨_, .ack _, Session.sent_acking hstep p hp⟩
      | _ => simp [acknowledges, houtput, Session.acknowledges] at hacks
    | _ => cases hacks
  · cases step_inv h with
    | input hstep =>
      cases hinput : l.input with
      | closing seg =>
        rw [hinput] at hstep
        exact fun p hp => ⟨_, .closeResponse, Session.sent_closing hstep p hp⟩
      | _ => simp [answersClose, hinput, Session.answersClose] at hanswers
    | _ => cases hanswers

theorem Sized.step (h : l.Sized mtu) (hl : l.WellFormed)
    (hmade : ∀ seg, l.session.Makes seg → seg.packet.Sized mtu)
    (hstep : l.step event = some (l', sent)) : l'.Sized mtu ∧ ∀ p ∈ sent, p.Sized mtu := by
  cases hevent : event.ofCloser with
  | true =>
    cases event with
    | closer env =>
      obtain ⟨⟨t, packets⟩, hcloser, heq⟩ := Option.map_eq_some_iff.mp hstep
      cases heq
      obtain ⟨hwaiting, hheld, hsent⟩ := (Session.closesWith_closerStep hcloser).packets
        h.waiting h.closer (hmade _ .closeRequest)
      exact ⟨⟨hwaiting, hheld⟩, hsent⟩
    | _ => cases hevent
  | false =>
    cases henqueues : l.enqueues event with
    | true =>
      obtain ⟨hqueues, houtput, rfl⟩ := queues_of_enqueues henqueues hstep
      obtain ⟨hwaiting, hcloser⟩ := h.queues hqueues hmade
      refine ⟨⟨?_, hcloser⟩, by simp⟩
      simp only [sendView, houtput]
      exact hwaiting
    | false =>
      have hsending := step_sending hl hevent hstep
      -- what is sent from the queues, unless it is made in this step
      obtain ⟨hwaiting, hsent⟩ := hsending.step.packets (Packet.Sized mtu)
        (fun p => l.acknowledges event = false → l.answersClose event = false → p.Sized mtu)
        (fun _ hp _ _ => hp) Packet.Sized.retouched
        (fun _ hmode => by cases henqueues.symm.trans hmode)
        (fun _ hmode _ hnot => by cases hnot.symm.trans hmode)
        (fun _ hmode _ _ _ _ hnot => by cases hnot.symm.trans hmode)
        h.waiting
      refine ⟨⟨hwaiting, sized_closer hsending.closer h.closer⟩, ?_⟩
      intro p hp
      by_cases hdirect : l.acknowledges event = true ∨ l.answersClose event = true
      · obtain ⟨seg, hmakes, rfl⟩ := sent_made hstep hdirect p hp
        exact hmade seg hmakes
      · simp only [not_or, Bool.not_eq_true] at hdirect
        exact hsent p hp hdirect.1 hdirect.2

end LiveSession

/-! ## A session over the packet transport -/

structure SendingSession where
  live : LiveSession
  sent : List Packet := []

namespace SendingSession

def next (w : SendingSession) : SessionEvent ⊕ Segment → Option SendingSession
  | .inl event =>
    (w.live.step event).map fun (live, packets) =>
      { live := live, sent := w.sent ++ packets }
  | .inr seg => (w.live.receive seg).map fun live => { w with live := live }

def IsInitial (mtu : Nat) (w : SendingSession) : Prop :=
  ∃ (id : UInt32) (isClient : Bool) (addr : Addr) (now : Int),
    w = { live :=
      { session := Session.new id isClient mtu .packetTransport addr now } }

end SendingSession

def sendingSystem (mtu : Nat) : System SendingSession (SessionEvent ⊕ Segment) :=
  System.ofNext (SendingSession.IsInitial mtu) SendingSession.next

namespace SendingSession

structure Inv (mtu : Nat) (w : SendingSession) : Prop where
  wellFormed : w.live.WellFormed
  sameMTU : w.live.session.mtu = mtu
  packet : w.live.session.isPacket = true
  sized : w.live.Sized mtu
  sent : ∀ p ∈ w.sent, p.Sized mtu

theorem inv_of_isInitial (h : w.IsInitial mtu) : w.Inv mtu := by
  obtain ⟨id, isClient, addr, now, rfl⟩ := h
  refine ⟨LiveSession.wellFormed_new, rfl, rfl, ⟨?_, ?_⟩, by simp⟩
  · intro seg hseg
    simp [LiveSession.sendView, Session.sendView, SendView.waiting,
      Session.new, SegmentTree.new, OutputState.phase, SendPhase.held] at hseg
  · intro seg hseg
    cases hseg

theorem Inv.next (hmtu : IsValidMTU mtu) {w' : SendingSession} {event : SessionEvent ⊕ Segment}
    (h : w.Inv mtu) (hnext : w.next event = some w') : w'.Inv mtu := by
  cases event with
  | inl event =>
    obtain ⟨⟨live, packets⟩, hstep, heq⟩ := Option.map_eq_some_iff.mp hnext
    cases heq
    have hmade : ∀ seg, w.live.session.Makes seg → seg.packet.Sized mtu := by
      intro seg hseg
      have hsized := hseg.sized (by rw [h.sameMTU]; exact hmtu) h.packet
      rwa [h.sameMTU] at hsized
    obtain ⟨hfollows, hwell⟩ := LiveSession.step_follows h.wellFormed hstep
    obtain ⟨hsized, hsent⟩ := h.sized.step h.wellFormed hmade hstep
    refine ⟨hwell, (LiveSession.mtu_step hstep).trans h.sameMTU,
      hfollows.keeps.isPacket.trans h.packet, hsized, ?_⟩
    intro p hp
    rcases List.mem_append.mp hp with hp | hp
    · exact h.sent p hp
    · exact hsent p hp
  | inr seg =>
    obtain ⟨live, hreceive, heq⟩ := Option.map_eq_some_iff.mp hnext
    cases heq
    obtain ⟨_, hkeeps, hwell⟩ :=
      LiveSession.receive_spec h.wellFormed hreceive
    have hsteady := LiveSession.receive_steady hreceive
    obtain ⟨-, rfl⟩ := LiveSession.receive_eq_some hreceive
    exact ⟨hwell, hsteady.mtu.trans h.sameMTU,
      hkeeps.isPacket.trans h.packet, ⟨h.sized.waiting, h.sized.closer⟩,
      h.sent⟩

theorem inv_of_reachable (hmtu : IsValidMTU mtu)
    (h : (sendingSystem mtu).Reachable w) : w.Inv mtu :=
  h.invariant (fun _ => inv_of_isInitial) fun _ _ _ hinv hnext =>
    hinv.next hmtu hnext

end SendingSession

/-- The paddings of a datagram and the length fields of its metadata. -/
structure Padded.Fits (padded : Padded) (seg : Segment) : Prop where
  prefixLen : padded.metadata.prefixLen.toNat = padded.padding1.length
  suffixLen : padded.metadata.suffixLen.toNat = padded.padding2.length
  payloadLen : padded.metadata.payloadLen.toNat = seg.payload.length

/-- Whatever a session sends over an underlay with the same MTU, and whatever
is drawn for it: no padding panics, all lengths fit their fields, and the
datagram is within the MTU. -/
theorem datagrams_fit_mtu {crypto : Crypto} (hcrypto : crypto.Lawful) {mtu : Nat}
    (hmtu : IsValidMTU mtu) {w : SendingSession} (hw : (sendingSystem mtu).Reachable w)
    {seg : Segment} (hseg : seg.packet ∈ w.sent) {u : PacketUnderlay} (hu : u.base.mtu = mtu)
    (addr : Addr) (choices : WriteChoices) (draws : PacketDraws) :
    (∀ userName, ∃ padded, draws.padSegment userName mtu seg = .ok padded ∧ padded.Fits seg) ∧
      ∀ datagram, (u.writeDrawing crypto addr choices draws seg).outcome =
        .ok datagram → datagram.length ≤ mtu := by
  have hsized : seg.packet.Sized mtu :=
    (SendingSession.inv_of_reachable hmtu hw).sent _ hseg
  constructor
  · intro userName
    obtain ⟨paddings, hpad⟩ := draws.padSegment_eq userName mtu seg
    have hdescribes := seg.pad_describes mtu .packetTransport paddings
    refine ⟨_, hpad, hdescribes.prefixLen, hdescribes.suffixLen, ?_⟩
    rw [hdescribes.payloadLen]
    exact hsized.payloadLen
  · intro datagram hdatagram
    obtain ⟨paddings, hwrite⟩ := u.writeDrawing_eq crypto addr choices draws seg
    rw [hwrite] at hdatagram
    subst hu
    exact PacketUnderlay.length_writeOneSegment_le hcrypto hsized.payloadLen hsized.room hdatagram

def largestDraws : PaddingDraws where
  intn n := n - 1
  intn_lt _ h := Nat.sub_lt h Nat.one_pos
  mathIntn _ _ := 0
  mathIntn_lt _ _ h := h
  read n := List.replicate n 0x55
  length_read _ := List.length_replicate
  printable _ := 0
  missingBits _ _ := 0
  targetBits _ := 0

def largestPacketDraws : PacketDraws where
  host := { recommendedConsecutiveASCIILen := 24, fixedIntV := fun _ _ => 0 }
  first := largestDraws
  second := largestDraws

def firstWrite : List (SessionEvent ⊕ Segment) :=
  .inl (.write [104, 105]) :: List.replicate 6 (.inl (.output (.calm .notEmptyEvent)))

def firstRequest : Segment where
  metadata := .session {
    protocol := openSessionRequest
    sessionID := 7
    payloadLen := 2 }
  payload := [104, 105]

theorem datagrams_fit_mtu_firstWrite : ∃ w datagram, (sendingSystem 1400).Reachable w ∧
      firstRequest.packet ∈ w.sent ∧ (aliceClient.writeDrawing tagCrypto "server" (choicesAt 0)
        largestPacketDraws firstRequest).outcome = .ok datagram ∧ datagram.length ≤ 1400 := by
  obtain ⟨w, hreach, hmem⟩ : ∃ w, (sendingSystem 1400).Reachable w ∧
      firstRequest.packet ∈ w.sent :=
    System.exists_reachable ⟨7, true, "server", 0, rfl⟩ firstWrite (by decide +kernel)
  have hwrites : (aliceClient.writeDrawing tagCrypto "server" (choicesAt 0)
      largestPacketDraws firstRequest).outcome.isOk = true := by
    decide +kernel
  obtain ⟨datagram, hdatagram⟩ := Outcome.exists_of_isOk hwrites
  exact ⟨w, datagram, hreach, hmem, hdatagram,
    (datagrams_fit_mtu tagCrypto_lawful ⟨by decide, by decide⟩ hreach hmem
      (u := aliceClient) rfl "server" (choicesAt 0)
      largestPacketDraws).2 datagram hdatagram⟩

end Mieru.Protocol
