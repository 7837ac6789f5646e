import Mieru.Delivery.Datagram
import Mieru.Delivery.Sending

/-!
# Detection of a graceful close

`closeWithError` queues a close request and then watches `lastSend`: once it
has reached the number of the request, everything queued up to it counts as
sent.  But `lastSend` starts at the number of the first segment,
acknowledgements carry the number before `nextSend`, and a close response takes
a number of its own.  The conclusion is right as long as none of these three
can stand for the request.
-/

namespace Mieru.Protocol

open Mieru.Foundation
open ProtocolType

variable {seg : Segment} {passed handed : List Segment}

namespace SendView

/-- What was queued and has not been passed to `output`. -/
def pending (v : SendView) : List Segment := v.phase.held ++ v.queue

/--
Numbers are taken in order: what is pending ascends, and what waits to be
acknowledged precedes what has not been buffered.
-/
structure Ordered (v : SendView) : Prop where
  nextSend : v.nextSend = UInt32.ofNat v.queued.length
  ascending : Ascending Segment.key v.pending
  pending_lt : ∀ seg ∈ v.pending, seg.key < v.queued.length
  buf_lt : ∀ seg ∈ v.buf, seg.key < v.queued.length
  buf_lt_pending : ∀ seg ∈ v.buf, ∀ other ∈ v.phase.unbuffered ++ v.queue, seg.key < other.key
  lastSend : v.lastSend.toNat ≤ v.queued.length - 1
  space : ∀ seg, v.phase = .popped seg → v.buf.length < v.bufCap

def Fits (v : SendView) : Prop := v.queued.length ≤ 4294967295

end SendView

theorem Segment.Retouched.packet_eq {nextRecv : UInt32}
    {again request : Segment} (h : seg.Retouched nextRecv again)
    (hrequest : request.IsCloseRequest) (hseg : seg.packet = request.packet) :
    again.packet = request.packet := by
  obtain ⟨ss, hmeta, _⟩ := hrequest
  obtain ⟨hsame, hpayload⟩ := Packet.mk.injEq .. ▸ hseg
  have hagain : again.metadata = seg.metadata := by
    rcases h.metadata with htouch | htouch
    · exact htouch
    · rw [htouch, hsame, hmeta]
      rfl
  rw [← hseg, Segment.packet, Segment.packet, hagain, h.payload]

theorem Segment.Wrote.toNat_le {before after : UInt32} {sent : List Packet} {bound : Nat}
    (h : seg.Wrote before sent after) (hseg : seg.key ≤ bound) (hbefore : before.toNat ≤ bound) :
    after.toNat ≤ bound := by
  rcases h with ⟨_, rfl⟩ | ⟨_, rfl⟩
  · exact hseg
  · exact hbefore

theorem Segment.Wrote.toNat_lt {before after : UInt32} {sent : List Packet} {bound : Nat}
    (h : seg.Wrote before sent after) (hseg : seg.key < bound) (hbefore : before.toNat < bound) :
    after.toNat < bound := by
  have hle := h.toNat_le (Nat.le_sub_one_of_lt hseg) (Nat.le_sub_one_of_lt hbefore)
  omega

namespace SendView

variable {v v' : SendView} {mode : SendMode} {sent : List Packet}

theorem pending_of_held (hheld : v.phase.held = [seg]) : v.pending = seg :: v.queue := by
  rw [pending, hheld]
  rfl

theorem Ordered.nextSend_succ (h : v.Ordered) (entry : Option Bytes) :
    v.nextSend + 1 = UInt32.ofNat (v.queued ++ [entry]).length := by
  rw [h.nextSend, List.length_append, List.length_singleton, UInt32.ofNat_add]
  rfl

theorem Ordered.key_eq (h : v.Ordered)
    (hseq : seg.seq = v.nextSend) (hfits : v.queued.length < 4294967296) :
    seg.key = v.queued.length := by
  unfold Segment.key
  rw [hseq, h.nextSend]
  exact UInt32.toNat_ofNat_of_lt hfits

theorem Ordered.queue_eq (h : v.Ordered)
    (hseq : seg.seq = v.nextSend) (hfits : v.queued.length < 4294967296) :
    replaceOrInsert Segment.key seg v.queue = v.queue ++ [seg] := by
  apply replaceOrInsert_of_forall_lt
  intro other hother
  rw [h.key_eq hseq hfits]
  exact h.pending_lt other (List.mem_append_right _ hother)

theorem Ordered.enqueue (h : v.Ordered)
    (hseq : seg.seq = v.nextSend) (hfits : v.queued.length < 4294967296) : Ordered { v with
      nextSend := v.nextSend + 1
      queued := v.queued ++ [some seg.payload]
      queue := replaceOrInsert Segment.key seg v.queue } := by
  have hkey := h.key_eq hseq hfits
  have hlast := h.lastSend
  rw [h.queue_eq hseq hfits]
  refine ⟨h.nextSend_succ _, ?_, ?_, ?_, ?_, ?_, h.space⟩
  · change Ascending Segment.key (v.phase.held ++ (v.queue ++ [seg]))
    rw [← List.append_assoc]
    refine List.pairwise_append.mpr ⟨h.ascending, by simp, ?_⟩
    intro first hfirst second hsecond
    rw [List.mem_singleton.mp hsecond, hkey]
    exact h.pending_lt first hfirst
  · intro other hother
    simp only [pending, List.length_append, List.length_singleton] at hother ⊢
    rw [← List.append_assoc] at hother
    rcases List.mem_append.mp hother with hother | hother
    · have := h.pending_lt other hother
      omega
    · rw [List.mem_singleton.mp hother]
      omega
  · intro other hother
    have := h.buf_lt other hother
    simp only [List.length_append, List.length_singleton]
    omega
  · intro first hfirst second hsecond
    rw [← List.append_assoc] at hsecond
    rcases List.mem_append.mp hsecond with hsecond | hsecond
    · exact h.buf_lt_pending first hfirst second hsecond
    · rw [List.mem_singleton.mp hsecond, hkey]
      exact h.buf_lt first hfirst
  · simp only [List.length_append, List.length_singleton]
    omega

theorem Ordered.reserve {lastSend : UInt32} (h : v.Ordered)
    (hlast : lastSend.toNat ≤ v.queued.length) : Ordered { v with
      nextSend := v.nextSend + 1
      queued := v.queued ++ [none]
      lastSend := lastSend } := by
  refine ⟨h.nextSend_succ _, h.ascending, ?_, ?_, h.buf_lt_pending, ?_, h.space⟩
  · intro other hother
    have := h.pending_lt other hother
    simp only [List.length_append, List.length_singleton]
    omega
  · intro other hother
    have := h.buf_lt other hother
    simp only [List.length_append, List.length_singleton]
    omega
  · simp only [List.length_append, List.length_singleton]
    omega

theorem Ordered.setLastSend {lastSend : UInt32} (h : v.Ordered)
    (hlast : lastSend.toNat ≤ v.queued.length - 1) : Ordered { v with lastSend := lastSend } :=
  ⟨h.nextSend, h.ascending, h.pending_lt, h.buf_lt, h.buf_lt_pending, hlast, h.space⟩

theorem Ordered.touch {touch : Segment → Segment} (h : v.Ordered)
    (hkey : ∀ seg : Segment, (touch seg).key = seg.key) :
    Ordered { v with buf := v.buf.map touch } := by
  refine ⟨h.nextSend, h.ascending, h.pending_lt, ?_, ?_, h.lastSend, ?_⟩
  · intro other hother
    obtain ⟨seg, hseg, rfl⟩ := List.mem_map.mp hother
    rw [hkey]
    exact h.buf_lt seg hseg
  · intro first hfirst second hsecond
    obtain ⟨seg, hseg, rfl⟩ := List.mem_map.mp hfirst
    rw [hkey]
    exact h.buf_lt_pending seg hseg second hsecond
  · intro seg hseg
    simp only [List.length_map]
    exact h.space seg hseg

theorem Ordered.pop {rest : List Segment} {phase : SendPhase} (h : v.Ordered)
    (hidle : v.phase = .idle) (hqueue : v.queue = seg :: rest) (hheld : phase.held = [seg])
    (hunbuffered : phase.unbuffered ++ rest ⊆ seg :: rest)
    (hspace : ∀ other, phase = .popped other → v.buf.length < v.bufCap) :
    Ordered { v with queue := rest, phase := phase } := by
  have hpending : v.pending = phase.held ++ rest := by
    rw [pending, hidle, hqueue, hheld]
    rfl
  have hascending := h.ascending
  have hlt := h.pending_lt
  rw [hpending] at hascending hlt
  refine ⟨h.nextSend, hascending, hlt, h.buf_lt, ?_, h.lastSend, hspace⟩
  intro first hfirst second hsecond
  apply h.buf_lt_pending first hfirst
  rw [hqueue]
  exact List.mem_append_right _ (hunbuffered hsecond)

theorem Ordered.step (h : v.Ordered) (hstep : SendStep mode v sent v')
    (hfits : v'.Fits) : v'.Ordered := by
  have hlast := h.lastSend
  cases hstep with
  | stay => exact h
  | enqueue _ hseq _ _ =>
    refine h.enqueue hseq ?_
    simp only [Fits, List.length_append, List.length_singleton] at hfits
    omega
  | overflow _ _ => exact h.reserve (by omega)
  | popStream _ hidle hqueue =>
    exact h.pop hidle hqueue rfl (by simp [SendPhase.unbuffered]) (by simp)
  | popPacket hidle hqueue hspace =>
    exact h.pop hidle hqueue rfl (by simp [SendPhase.unbuffered])
      fun _ _ => Nat.lt_of_succ_lt hspace
  | @buffer seg again _ hpopped htouch hspace =>
    have hkey : again.key = seg.key := htouch.key
    have hpending : v.pending = seg :: v.queue := pending_of_held (by rw [hpopped]; rfl)
    have hascending := h.ascending
    have hlt := h.pending_lt
    rw [hpending] at hascending hlt
    refine ⟨h.nextSend, ?_, ?_, ?_, ?_, hlast, by simp⟩
    · refine List.pairwise_cons.mpr ⟨?_, hascending.tail⟩
      intro other hother
      rw [hkey]
      exact hascending.head_lt hother
    · intro other hother
      rcases List.mem_cons.mp hother with rfl | hother
      · rw [hkey]
        exact hlt seg (by simp)
      · exact hlt other (List.mem_cons_of_mem _ hother)
    · intro other hother
      rcases mem_replaceOrInsert_of_mem hother with rfl | hother
      · rw [hkey]
        exact hlt seg (by simp)
      · exact h.buf_lt other hother
    · intro first hfirst second hsecond
      rcases mem_replaceOrInsert_of_mem hfirst with rfl | hfirst
      · rw [hkey]
        exact hascending.head_lt hsecond
      · exact h.buf_lt_pending first hfirst second (List.mem_append_right _ hsecond)
  | bufferFull hpopped hfull =>
    have hspace := h.space _ hpopped
    omega
  | @emit seg _ _ hready hwrote =>
    have hpending : v.pending = seg :: v.queue := pending_of_held (by rw [hready]; rfl)
    have hascending := h.ascending
    have hlt := h.pending_lt
    rw [hpending] at hascending hlt
    refine ⟨h.nextSend, hascending.tail, ?_, h.buf_lt, ?_, ?_, by simp⟩
    · intro other hother
      exact hlt other (List.mem_cons_of_mem _ hother)
    · intro first hfirst second hsecond
      exact h.buf_lt_pending first hfirst second (List.mem_append_right _ hsecond)
    · have hseg : seg.key < v.queued.length := hlt seg (by simp)
      exact hwrote.toNat_le (Nat.le_sub_one_of_lt hseg) hlast
  | @resend iter touch _ _ _ _ hiter htouch hwrote =>
    refine (h.touch fun seg => (htouch seg).key).setLastSend ?_
    refine hwrote.toNat_le ?_ hlast
    rw [(htouch iter).key]
    exact Nat.le_sub_one_of_lt (h.buf_lt iter hiter)
  | count => exact h.touch fun seg => seg.key_countAck _
  | ack _ _ hseq hwrote =>
    refine h.setLastSend (hwrote.toNat_le ?_ hlast)
    simp only [Segment.key, hseq, h.nextSend]
    have hsmall : v.queued.length < 4294967296 := Nat.lt_succ_of_le hfits
    have hlen : (UInt32.ofNat v.queued.length).toNat = v.queued.length :=
      UInt32.toNat_ofNat_of_lt hsmall
    rw [hlen]
    exact Nat.le_of_eq (UInt32.toNat_ofNat_of_lt (Nat.sub_lt_of_lt hsmall))
  | @acked first rest _ _ hbuf _ =>
    have hmem : ∀ seg ∈ rest, seg ∈ v.buf := by
      intro seg hseg
      rw [hbuf]
      exact List.mem_cons_of_mem _ hseg
    refine ⟨h.nextSend, h.ascending, h.pending_lt, fun seg hseg => h.buf_lt seg (hmem seg hseg),
      fun seg hseg => h.buf_lt_pending seg (hmem seg hseg), hlast, ?_⟩
    intro seg hseg
    have hspace := h.space seg hseg
    rw [hbuf, List.length_cons] at hspace
    exact Nat.lt_of_succ_lt hspace
  | answerClose _ _ _ hseq hwrote =>
    refine h.reserve (hwrote.toNat_le ?_ (by omega))
    simp only [Fits, List.length_append, List.length_singleton] at hfits
    exact Nat.le_of_eq (h.key_eq hseq (by omega))

theorem Ordered.pending_step (h : v.Ordered) (hstep : SendStep mode v sent v') (hfits : v'.Fits)
    (hseg : seg ∈ v.pending) : (∃ again ∈ v'.pending, ∃ nextRecv, seg.Retouched nextRecv again) ∨
      v.phase = .ready seg ∧ v'.phase = .idle := by
  have hsame : seg.Retouched 0 seg := ⟨rfl, .inl rfl⟩
  cases hstep with
  | enqueue _ hseq _ _ =>
    simp only [Fits, List.length_append, List.length_singleton] at hfits
    refine .inl ⟨seg, ?_, 0, hsame⟩
    simp only [pending, h.queue_eq hseq (by omega)]
    rw [← List.append_assoc]
    exact List.mem_append_left _ hseg
  | popStream _ hidle hqueue | popPacket hidle hqueue _ =>
    refine .inl ⟨seg, ?_, 0, hsame⟩
    simpa [pending, hidle, SendPhase.held, hqueue] using hseg
  | @buffer held again nextRecv hpopped htouch _ =>
    rw [pending, hpopped] at hseg
    rcases List.mem_append.mp hseg with hheld | hqueue
    · rw [List.mem_singleton.mp hheld]
      exact .inl ⟨again, by simp [pending, SendPhase.held], nextRecv, htouch⟩
    · exact .inl ⟨seg, List.mem_append_right _ hqueue, 0, hsame⟩
  | bufferFull hpopped hfull =>
    have hspace := h.space _ hpopped
    omega
  | emit hready _ =>
    rw [pending, hready] at hseg
    rcases List.mem_append.mp hseg with hheld | hqueue
    · rw [List.mem_singleton.mp hheld]
      exact .inr ⟨hready, rfl⟩
    · exact .inl ⟨seg, List.mem_append_right _ hqueue, 0, hsame⟩
  | stay | overflow | resend | count | ack | acked | answerClose =>
    exact .inl ⟨seg, hseg, 0, hsame⟩

theorem Ordered.handed_step (h : v.Ordered) (hstep : SendStep mode v sent v') (hfits : v'.Fits)
    (hhanded : v.phase ≠ v'.phase → v.phase.handed ⊆ handed) (hseg : seg ∈ passed ++ v.pending) :
    ∃ again ∈ (passed ++ handed) ++ v'.pending, ∃ nextRecv, seg.Retouched nextRecv again := by
  rcases List.mem_append.mp hseg with hpassed | hpending
  · exact ⟨seg, by simp [hpassed], 0, rfl, .inl rfl⟩
  · rcases h.pending_step hstep hfits hpending with ⟨again, hmem, htouch⟩ |
      ⟨hready, hidle⟩
    · exact ⟨again, List.mem_append_right _ hmem, htouch⟩
    · have hnew : seg ∈ handed := by
        apply hhanded (by simp [hready, hidle])
        simp [hready, SendPhase.handed]
      exact ⟨seg, by simp [hnew], 0, rfl, .inl rfl⟩

def Covered (v : SendView) (passed : List Segment) : Prop :=
  ∀ i payload, v.queued[i]? = some (some payload) →
    ∃ seg ∈ passed ++ v.pending, seg.key = i ∧ seg.payload = payload

theorem Ordered.queued_step (h : v.Ordered) (hstep : SendStep mode v sent v') (hfits : v'.Fits)
    {i : Nat} {payload : Bytes} (hget : v'.queued[i]? = some (some payload)) :
    v.queued[i]? = some (some payload) ∨
      ∃ seg ∈ v'.pending, seg.key = i ∧ seg.payload = payload := by
  -- An entry of the log with one more number.
  have hconcat : ∀ {entry : Option Bytes}, (v.queued ++ [entry])[i]? = some (some payload) →
      v.queued[i]? = some (some payload) ∨ i = v.queued.length ∧ entry = some payload := by
    intro entry hentry
    rw [List.getElem?_append] at hentry
    split at hentry
    · exact .inl hentry
    · rename_i hlt
      obtain ⟨hindex, hvalue⟩ := List.getElem?_eq_some_iff.mp hentry
      simp only [List.length_singleton] at hindex
      simp only [List.getElem_singleton] at hvalue
      exact .inr ⟨by omega, hvalue⟩
  cases hstep with
  | @enqueue seg _ hseq _ _ =>
    rcases hconcat hget with hold | ⟨rfl, hentry⟩
    · exact .inl hold
    · simp only [Fits, List.length_append, List.length_singleton] at hfits
      refine .inr ⟨seg, ?_, h.key_eq hseq (by omega), Option.some.inj hentry⟩
      simp only [pending]
      exact List.mem_append_right _ (item_mem_replaceOrInsert seg _)
  | overflow _ _ | answerClose _ _ _ _ _ =>
    rcases hconcat hget with hold | ⟨_, hentry⟩
    · exact .inl hold
    · cases hentry
  | stay | popStream | popPacket | buffer | bufferFull | emit | resend | count
  | ack | acked => exact .inl hget

theorem Covered.step (hcovered : v.Covered passed) (h : v.Ordered) (hstep : SendStep mode v sent v')
    (hfits : v'.Fits) (hhanded : v.phase ≠ v'.phase → v.phase.handed ⊆ handed) :
    v'.Covered (passed ++ handed) := by
  intro i payload hget
  rcases h.queued_step hstep hfits hget with hold | ⟨seg, hmem, hseg⟩
  · obtain ⟨seg, hmem, hkey, hpayload⟩ := hcovered i payload hold
    obtain ⟨again, hagain, nextRecv, htouch⟩ :=
      h.handed_step hstep hfits hhanded hmem
    exact ⟨again, hagain, htouch.key.trans hkey, htouch.payload.trans hpayload⟩
  · exact ⟨seg, List.mem_append_right _ hmem, hseg⟩

/-- `closeWithError` has queued `request` and watches `lastSend`. -/
structure Awaits (v : SendView) (passed : List Segment) (request : Segment) :
    Prop where
  numbered : request.key < v.queued.length
  handed : ∃ seg ∈ passed ++ v.pending, seg.packet = request.packet
  lastSend : ∀ seg ∈ v.pending, seg.key ≤ request.key → v.lastSend.toNat < request.key

theorem Awaits.step {request : Segment} (hawaits : v.Awaits passed request) (h : v.Ordered)
    (hrequest : request.IsCloseRequest) (hstep : SendStep mode v sent v') (hfits : v'.Fits)
    (hhanded : v.phase ≠ v'.phase → v.phase.handed ⊆ handed)
    (hquiet : mode.acknowledges = true ∨ mode.answersClose = true → v.pending = []) :
    v'.Awaits (passed ++ handed) request := by
  have hnumbered := hawaits.numbered
  refine ⟨?_, ?_, ?_⟩
  · cases hstep with
    | enqueue | overflow | answerClose =>
      simp only [List.length_append, List.length_singleton]
      omega
    | _ => exact hnumbered
  · obtain ⟨seg, hmem, hseg⟩ := hawaits.handed
    obtain ⟨again, hagain, nextRecv, htouch⟩ :=
      h.handed_step hstep hfits hhanded hmem
    exact ⟨again, hagain, htouch.packet_eq hrequest hseg⟩
  · intro other hother hle
    cases hstep with
    | stay | overflow | count | acked => exact hawaits.lastSend other hother hle
    | enqueue _ hseq _ _ =>
      simp only [Fits, List.length_append, List.length_singleton] at hfits
      have hkey := h.key_eq hseq (by omega)
      rcases List.mem_append.mp hother with hheld | hqueue
      · exact hawaits.lastSend other (List.mem_append_left _ hheld) hle
      · rcases mem_replaceOrInsert_of_mem hqueue with rfl | hqueue
        · omega
        · exact hawaits.lastSend other (List.mem_append_right _ hqueue) hle
    | popStream _ hidle hqueue | popPacket hidle hqueue _ =>
      refine hawaits.lastSend other ?_ hle
      simpa [pending, hidle, SendPhase.held, hqueue] using hother
    | @buffer seg again _ hpopped htouch _ =>
      rcases List.mem_append.mp hother with hheld | hqueue
      · obtain rfl : other = again := List.mem_singleton.mp hheld
        rw [htouch.key] at hle
        exact hawaits.lastSend seg (by simp [pending, hpopped, SendPhase.held]) hle
      · exact hawaits.lastSend other (List.mem_append_right _ hqueue) hle
    | bufferFull hpopped hfull =>
      have hspace := h.space _ hpopped
      omega
    | @emit seg _ _ hready hwrote =>
      -- The segment passed precedes everything that is still pending.
      have hascending := h.ascending
      have hpending : v.pending = seg :: v.queue := pending_of_held (by rw [hready]; rfl)
      rw [hpending] at hascending
      have hlt : seg.key < other.key := hascending.head_lt hother
      have hbefore := hawaits.lastSend other (List.mem_append_right _ hother) hle
      exact hwrote.toNat_lt (Nat.lt_of_lt_of_le hlt hle) hbefore
    | @resend iter touch _ _ _ hidle hiter htouch hwrote =>
      have hlt : (touch iter).key < other.key := by
        rw [(htouch iter).key]
        refine h.buf_lt_pending iter hiter other ?_
        simpa [pending, hidle, SendPhase.held, SendPhase.unbuffered] using hother
      have hbefore := hawaits.lastSend other hother hle
      exact hwrote.toNat_lt (Nat.lt_of_lt_of_le hlt hle) hbefore
    | ack hacks _ _ _ =>
      have hnone := hquiet (.inl hacks)
      exact absurd (hnone ▸ hother : other ∈ []) (by simp)
    | answerClose hanswers _ _ _ _ =>
      have hnone := hquiet (.inr hanswers)
      exact absurd (hnone ▸ hother : other ∈ []) (by simp)

end SendView

/-- A running session and the segments its output loop passed to `output`. -/
structure WatchedSession where
  live : LiveSession
  passed : List Segment := []

inductive WatchedEvent where
  | act (event : SessionEvent)
  | receive (seg : Segment)

def LiveSession.hands (l : LiveSession) : SessionEvent → List Segment
  | .output _ => l.output.phase.handed
  | _ => []

def CloserState.isWaiting : CloserState → Bool
  | .waiting _ _ => true
  | _ => false

/-- `closeWithError` has not drawn its conclusion yet. -/
def CloserState.isEarly : CloserState → Bool
  | .notCalled => true
  | .starting _ => true
  | .waiting _ _ => true
  | _ => false

namespace WatchedSession

def next (w : WatchedSession) : WatchedEvent → Option WatchedSession
  | .act event =>
    (w.live.step event).map fun (live, _) =>
      { live := live, passed := w.passed ++ w.live.hands event }
  | .receive seg =>
    (w.live.receive seg).map fun live => { w with live := live }

def IsInitial (w : WatchedSession) : Prop :=
  ∃ (id : UInt32) (isClient : Bool) (mtu : Nat)
    (transport : TransportProtocol) (addr : Addr) (now : Int),
    w = {
      live := { session := Session.new id isClient mtu transport addr now } }

end WatchedSession

def watchedSystem : System WatchedSession WatchedEvent :=
  System.ofNext WatchedSession.IsInitial WatchedSession.next

namespace WatchedSession

/--
Nothing but the close request and what was queued before it can bring
`lastSend` to the number of the request.
-/
structure Telling (w : WatchedSession) (event : WatchedEvent) : Prop where
  numbered : ∀ env, event = .act (.closer env) →
    w.live.session.closer = .starting true → w.live.session.nextSend ≠ 0
  acks : ∀ e, event = .act e → w.live.session.closer.isWaiting = true →
    w.live.acknowledges e = true → w.live.session.sendQueue.items = []
  answers : ∀ e, event = .act e → w.live.session.closer.isWaiting = true →
    w.live.answersClose e = true →
    w.live.session.sendQueue.items = [] ∧ w.live.output.held = []

/-- The invariant until `closeWithError` draws its conclusion. -/
structure Tracked (w : WatchedSession) : Prop where
  ordered : w.live.sendView.Ordered
  covered : w.live.sendView.Covered w.passed
  awaits : ∀ request tries, w.live.session.closer = .waiting request tries →
    w.live.sendView.Awaits w.passed request

structure Inv (w : WatchedSession) : Prop where
  wellFormed : w.live.WellFormed
  tracked : w.live.sendView.Fits → w.live.session.closer.isEarly = true → w.Tracked

end WatchedSession

theorem OutputState.held_phase (output : OutputState) : output.phase.held = output.held := by
  cases output <;> rfl

namespace LiveSession

variable {l l' : LiveSession} {event : SessionEvent} {sent : List Packet}

theorem held_of_acknowledges (h : l.acknowledges event = true) : l.output.held = [] := by
  cases event with
  | output env =>
    cases houtput : l.output with
    | acking => rfl
    | _ => simp [acknowledges, Session.acknowledges, houtput] at h
  | _ => cases h

theorem handed_subset_hands (h : l.step event = some (l', sent))
    (hphase : l.output.phase ≠ l'.output.phase) : l.output.phase.handed ⊆ l.hands event := by
  rcases (step_loops_eq h).1 with heq | ⟨env, rfl⟩
  · rw [heq] at hphase
    exact absurd rfl hphase
  · exact List.Subset.refl _

theorem reached_of_concludes {request : Segment} {tries : Nat} {env : Env}
    (hwaiting : l.session.closer = .waiting request tries)
    (h : l.step (.closer env) = some (l', sent))
    (hconcludes : l'.session.closer = .clearingSendQueue) :
    request.key ≤ l.session.lastSend.toNat := by
  cases step_inv h with | closer hstep =>
  cases Session.closerStep_inv hstep with
  | reached hcloser hreached =>
    cases hwaiting.symm.trans hcloser
    exact hreached
  | unsent hcloser | written hcloser => cases hwaiting.symm.trans hcloser
  | _ => cases hconcludes

theorem fits_of_step (hl : l.WellFormed) (h : l.step event = some (l', sent))
    (hfits : l'.sendView.Fits) : l.sendView.Fits := by
  have hstep := (step_follows hl h).1.step
  have hlen : l.session.history.queued.length ≤
      l'.session.history.queued.length := hstep.queued_isPrefix.length_le
  exact Nat.le_trans hlen hfits

end LiveSession

namespace Session

variable {s t : Session} {env : Env} {sent : List Packet}

theorem closerStep_early (h : s.closerStep env = some (t, sent))
    (hearly : t.closer.isEarly = true) :
    (∃ u, s.closer = .starting true ∧ s.enqueue s.closeSegment = (true, u) ∧
      t = { u with closer := .waiting s.closeSegment closeTries }) ∨
    ∃ request tries, s.closer = .waiting request (tries + 1) ∧
      t = { s with closer := .waiting request tries } := by
  cases closerStep_inv h with
  | queued hcloser henqueue => exact .inl ⟨_, hcloser, henqueue, rfl⟩
  | waits hcloser => exact .inr ⟨_, _, hcloser, rfl⟩
  | _ => cases hearly

theorem isEarly_of_closerCalled (hok : s.CloserOK) (h : s.CloserCalled t)
    (hearly : t.closer.isEarly = true) : s.closer.isEarly = true := by
  cases h with
  | same hcloser _ =>
    rw [← hcloser]
    exact hearly
  | called _ hopen _ _ =>
    cases hcloser : s.closer with
    | notCalled => rfl
    | starting g => rfl
    | waiting request tries => rfl
    | _ =>
      have hrequested := hok.requested (by rw [hcloser]; rfl)
      cases hrequested.symm.trans hopen

end Session

namespace WatchedSession

variable {w w' : WatchedSession} {event : SessionEvent} {l' : LiveSession} {sent : List Packet}

theorem inv_of_isInitial (h : w.IsInitial) : w.Inv := by
  obtain ⟨id, isClient, mtu, transport, addr, now, rfl⟩ := h
  refine ⟨LiveSession.wellFormed_new, fun _ _ => ⟨?_, ?_, ?_⟩⟩
  · constructor <;> simp [LiveSession.sendView, Session.sendView, Session.new,
      SegmentTree.new, OutputState.phase, SendView.pending, SendPhase.held,
      Ascending]
  · intro i payload hget
    cases hget
  · intro request tries hcloser
    cases hcloser

theorem Tracked.step (h : w.Tracked) (hl : w.live.WellFormed)
    (hguard : w.Telling (.act event)) (hevent : event.ofCloser = false)
    (hstep : w.live.step event = some (l', sent)) (hfits : l'.sendView.Fits) :
    Tracked { live := l', passed := w.passed ++ w.live.hands event } := by
  have hsending := LiveSession.step_sending hl hevent hstep
  have hhanded : w.live.sendView.phase ≠ l'.sendView.phase →
      w.live.sendView.phase.handed ⊆ w.live.hands event :=
    LiveSession.handed_subset_hands hstep
  refine ⟨h.ordered.step hsending.step hfits,
    h.covered.step h.ordered hsending.step hfits hhanded, ?_⟩
  intro request tries hwaiting
  -- Only the goroutine inside closeWithError starts to wait.
  have hcloser : w.live.session.closer = .waiting request tries := by
    cases hsending.closer with
    | same hcloser _ => exact hcloser.symm.trans hwaiting
    | called g _ hcloser _ => cases hcloser.symm.trans hwaiting
  have hrequest : request.IsCloseRequest :=
    hl.closer.held request (by simp [hcloser, CloserState.held])
  have hisWaiting : w.live.session.closer.isWaiting = true := by
    rw [hcloser]
    rfl
  refine (h.awaits request tries hcloser).step h.ordered hrequest hsending.step hfits hhanded ?_
  rintro (hacks | hanswers)
  · have hqueue := hguard.acks event rfl hisWaiting hacks
    have hheld := LiveSession.held_of_acknowledges hacks
    change w.live.output.phase.held ++ w.live.session.sendQueue.items = []
    rw [OutputState.held_phase, hheld, hqueue]
    rfl
  · obtain ⟨hqueue, hheld⟩ := hguard.answers event rfl hisWaiting hanswers
    change w.live.output.phase.held ++ w.live.session.sendQueue.items = []
    rw [OutputState.held_phase, hheld, hqueue]
    rfl

theorem Tracked.request {u : Session} (h : w.Tracked) (hnumbered : w.live.session.nextSend ≠ 0)
    (henqueue : w.live.session.enqueue w.live.session.closeSegment = (true, u))
    (hfits : (u.sendView w.live.output.phase).Fits) :
    Tracked { w with live := { w.live with session :=
      { u with closer :=
        .waiting w.live.session.closeSegment Session.closeTries } } } := by
  have hmode : SendStep ⟨true, true, none, true, false, false⟩ w.live.sendView []
      (u.sendView w.live.output.phase) :=
    (Session.sending_enqueue rfl henqueue rfl (.inr rfl)).step
  have hview : u.sendView w.live.output.phase =
      { w.live.sendView with
        nextSend := w.live.session.nextSend + 1
        queued := w.live.session.history.queued ++ [some []]
        queue := replaceOrInsert Segment.key w.live.session.closeSegment
          w.live.session.sendQueue.items } :=
    Session.sendView_enqueue henqueue
  have hsame : w.live.sendView.phase ≠ (u.sendView w.live.output.phase).phase →
      w.live.sendView.phase.handed ⊆ [] := fun hne => absurd rfl hne
  have hcovered := h.covered.step h.ordered hmode hfits hsame
  rw [List.append_nil] at hcovered
  refine ⟨h.ordered.step hmode hfits, hcovered, ?_⟩
  intro request tries hwaiting
  cases hwaiting
  change SendView.Awaits (u.sendView w.live.output.phase) w.passed w.live.session.closeSegment
  rw [hview] at hfits ⊢
  have hsmall : w.live.sendView.queued.length < 4294967296 := by
    simp only [SendView.Fits, List.length_append, List.length_singleton] at hfits
    change w.live.session.history.queued.length < _
    omega
  have hkey : w.live.session.closeSegment.key =
      w.live.session.history.queued.length := h.ordered.key_eq rfl hsmall
  have hlast : w.live.session.lastSend.toNat ≤
      w.live.session.history.queued.length - 1 := h.ordered.lastSend
  have hpositive : w.live.session.history.queued.length ≠ 0 := by
    intro hzero
    apply hnumbered
    have hnext : w.live.session.nextSend =
        UInt32.ofNat w.live.session.history.queued.length := h.ordered.nextSend
    rw [hnext, hzero]
    rfl
  refine ⟨?_, ⟨w.live.session.closeSegment, ?_, rfl⟩, ?_⟩
  · simp only [List.length_append, List.length_singleton]
    omega
  · exact List.mem_append_right _ (List.mem_append_right _ (item_mem_replaceOrInsert _ _))
  · intro _ _ _
    change w.live.session.lastSend.toNat < _
    omega

theorem Inv.act (h : w.Inv) (hguard : w.Telling (.act event))
    (hstep : w.live.step event = some (l', sent)) :
    Inv { live := l', passed := w.passed ++ w.live.hands event } := by
  refine ⟨(LiveSession.step_follows h.wellFormed hstep).2, ?_⟩
  intro hfits hearly
  have hbefore := LiveSession.fits_of_step h.wellFormed hstep hfits
  cases hevent : event.ofCloser with
  | false =>
    have hsending := LiveSession.step_sending h.wellFormed hevent hstep
    have htracked := h.tracked hbefore (Session.isEarly_of_closerCalled
      h.wellFormed.closer hsending.closer hearly)
    exact htracked.step h.wellFormed hguard hevent hstep hfits
  | true =>
    cases event with
    | closer env =>
      obtain ⟨⟨t, packets⟩, hcloser, heq⟩ := Option.map_eq_some_iff.mp hstep
      cases heq
      change Tracked { live := _, passed := w.passed ++ [] }
      rw [List.append_nil]
      rcases Session.closerStep_early hcloser hearly with
        ⟨u, hstarting, henqueue, rfl⟩ | ⟨request, tries, hwaiting, rfl⟩
      · have htracked := h.tracked hbefore (by rw [hstarting]; rfl)
        exact htracked.request (hguard.numbered env rfl hstarting) henqueue hfits
      · have htracked := h.tracked hbefore (by rw [hwaiting]; rfl)
        refine ⟨htracked.ordered, htracked.covered, ?_⟩
        intro other left heq
        cases heq
        exact htracked.awaits request (tries + 1) hwaiting
    | _ => cases hevent

theorem Inv.receive (h : w.Inv)
    (hreceive : w.live.receive seg = some l') : Inv { w with live := l' } := by
  obtain ⟨hview, hcloser⟩ := LiveSession.sendView_receive hreceive
  refine ⟨(LiveSession.receive_spec h.wellFormed hreceive).2.2, ?_⟩
  intro hfits hearly
  rw [hview] at hfits
  have htracked := h.tracked hfits
    (Session.isEarly_of_closerCalled h.wellFormed.closer hcloser hearly)
  refine ⟨?_, ?_, ?_⟩
  · rw [hview]
    exact htracked.ordered
  · rw [hview]
    exact htracked.covered
  · intro request tries hwaiting
    rw [hview]
    refine htracked.awaits request tries ?_
    cases hcloser with
    | same hsame _ => exact hsame.symm.trans hwaiting
    | called g _ hstarting _ => cases hstarting.symm.trans hwaiting

theorem inv_of_reachable (h : watchedSystem.ReachableBy Telling w) : w.Inv := by
  refine System.ReachableBy.invariant (fun _ => inv_of_isInitial) ?_ h
  intro w event w' hinv hguard hnext
  cases event with
  | act event =>
    obtain ⟨⟨l', sent⟩, hstep, heq⟩ := Option.map_eq_some_iff.mp hnext
    cases heq
    exact hinv.act hguard hstep
  | receive seg =>
    obtain ⟨l', hreceive, heq⟩ := Option.map_eq_some_iff.mp hnext
    cases heq
    exact hinv.receive hreceive

/--
In a run in which only the close request and what precedes it can bring
`lastSend` to its number, `closeWithError` concludes that it closed gracefully
only after `output` was called with the request and with every segment queued
before it.
-/
theorem graceful_close_sound (h : watchedSystem.ReachableBy Telling w)
    (hfits : w.live.sendView.Fits) {request : Segment} {tries : Nat} {env : Env}
    {live : LiveSession} {packets : List Packet}
    (hwaiting : w.live.session.closer = .waiting request tries)
    (hstep : w.live.step (.closer env) = some (live, packets))
    (hconcludes : live.session.closer = .clearingSendQueue) :
    (∃ seg ∈ w.passed, seg.packet = request.packet) ∧ ∀ i payload, i < request.key →
        w.live.session.history.queued[i]? = some (some payload) →
        ∃ seg ∈ w.passed, seg.key = i ∧ seg.payload = payload := by
  have htracked := (inv_of_reachable h).tracked hfits (by rw [hwaiting]; rfl)
  have hawaits := htracked.awaits request tries hwaiting
  have hreached : request.key ≤ w.live.session.lastSend.toNat :=
    LiveSession.reached_of_concludes hwaiting hstep hconcludes
  -- Nothing up to the request is pending any more.
  have hnone : ∀ seg ∈ w.live.sendView.pending, request.key < seg.key := by
    intro seg hseg
    by_contra hle
    have hlast : w.live.session.lastSend.toNat < request.key :=
      hawaits.lastSend seg hseg (Nat.le_of_not_lt hle)
    omega
  constructor
  · obtain ⟨seg, hmem, hseg⟩ := hawaits.handed
    rcases List.mem_append.mp hmem with hpassed | hpending
    · exact ⟨seg, hpassed, hseg⟩
    · have hlt := hnone seg hpending
      have hkey : seg.key = request.key := congrArg (·.seq.toNat) hseg
      omega
  · intro i payload hlt hget
    obtain ⟨seg, hmem, hkey, hpayload⟩ := htracked.covered i payload hget
    rcases List.mem_append.mp hmem with hpassed | hpending
    · exact ⟨seg, hpassed, hkey, hpayload⟩
    · have hlater := hnone seg hpending
      omega

def checkEvent (w : WatchedSession) : WatchedEvent → Bool
  | .act event =>
    (!event.ofCloser || w.live.session.nextSend != 0) &&
      !w.live.acknowledges event && !w.live.answersClose event
  | .receive _ => true

theorem telling_of_checkEvent (w : WatchedSession) (event : WatchedEvent)
    (h : w.checkEvent event = true) : w.Telling event where
  numbered := by
    rintro env rfl _
    simpa [checkEvent, SessionEvent.ofCloser, LiveSession.acknowledges,
      LiveSession.answersClose] using h
  acks := by
    rintro e rfl _ hacks
    simp [checkEvent, hacks] at h
  answers := by
    rintro e rfl _ hanswers
    simp [checkEvent, hanswers] at h

def newClient : WatchedSession where
  live := { session := Session.new 1 true 1400 .packetTransport "" 0 }

theorem isInitial_newClient : newClient.IsInitial := ⟨_, _, _, _, _, _, rfl⟩

def requestClose : List WatchedEvent :=
  [.act .close, .act (.closer calmEnv)]

/-- A client opens its session, sends three bytes and closes. -/
theorem graceful_close_sound_client : ∃ w request tries live packets,
      watchedSystem.ReachableBy Telling w ∧ w.live.session.closer = .waiting request tries ∧
      w.live.step (.closer calmEnv) = some (live, packets) ∧
      live.session.closer = .clearingSendQueue ∧ (∃ seg ∈ w.passed, seg.packet = request.packet) ∧
      ∃ seg ∈ w.passed, seg.key = 0 ∧ seg.payload = [7, 8, 9] := by
  have hrun : System.runEvents (System.checked checkEvent next) newClient
      ([WatchedEvent.act (.write [7, 8, 9])] ++
        List.replicate 6 (WatchedEvent.act (.output calmEnv)) ++
        requestClose ++
        List.replicate 3 (WatchedEvent.act (.output calmEnv))) = some _ := rfl
  have hreachable : watchedSystem.ReachableBy Telling _ :=
    System.ReachableBy.runChecked telling_of_checkEvent (.init isInitial_newClient) hrun
  obtain ⟨hrequest, hbefore⟩ := graceful_close_sound hreachable
    (Nat.le_of_ble_eq_true rfl) rfl
    (show LiveSession.step _ (.closer calmEnv) = some _ from rfl) rfl
  exact ⟨_, _, _, _, _, hreachable, rfl, rfl, rfl, hrequest,
    hbefore 0 [7, 8, 9] (by decide +kernel) (by decide +kernel)⟩

def openAnswer : Segment where
  metadata := .session { protocol := openSessionResponse, sessionID := 1 }

def fullAnswer : Segment where
  metadata := .dataAck {
    protocol := ackServerToClient
    sessionID := 1
    seq := 0
    unAckSeq := 1
    windowSize := 0 }

/--
A session that has sent nothing concludes at once that it closed gracefully.
So does one whose peer has no space but whose acknowledgements go out: the two
bytes of segment 1 and the request are dropped.
-/
theorem graceful_close_unsound : (∃ w request tries live packets, watchedSystem.Reachable w ∧
      w.live.session.closer = .waiting request tries ∧
      w.live.step (.closer calmEnv) = some (live, packets) ∧
      live.session.closer = .clearingSendQueue ∧ w.passed.map Segment.key = [] ∧
      w.live.session.history.queued = [some []]) ∧
    ∃ w request tries live packets, watchedSystem.Reachable w ∧
      w.live.session.closer = .waiting request tries ∧
      w.live.step (.closer calmEnv) = some (live, packets) ∧
      live.session.closer = .clearingSendQueue ∧ w.passed.map Segment.key = [0] ∧
      w.live.session.history.queued = [some [7, 8, 9], some [1, 2], some []] := by
  constructor
  · have hrun : System.runEvents next newClient requestClose = some _ := rfl
    exact ⟨_, _, _, _, _, System.Reachable.run (.init isInitial_newClient) hrun, rfl, rfl, rfl,
      rfl, rfl⟩
  · have hrun : System.runEvents next newClient ([WatchedEvent.act (.write [7, 8, 9])] ++
        List.replicate 8 (WatchedEvent.act (.output calmEnv)) ++
        [WatchedEvent.act (.write [1, 2])] ++
        List.replicate 3 (WatchedEvent.act (.writer (Env.calm .fallback))) ++
        [WatchedEvent.receive fullAnswer, .receive openAnswer] ++
        List.replicate 11 (WatchedEvent.act (.input calmEnv)) ++
        requestClose ++
        List.replicate 3 (WatchedEvent.act (.output calmEnv))) = some _ := rfl
    exact ⟨_, _, _, _, _, System.Reachable.run (.init isInitial_newClient) hrun, rfl, rfl, rfl,
      by decide +kernel, by decide +kernel⟩

end WatchedSession

end Mieru.Protocol
