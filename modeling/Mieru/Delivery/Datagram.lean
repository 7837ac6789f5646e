import Mieru.Delivery.Simulation
import Mieru.Foundation.TransitionSystem

/-!
# Reliable delivery over datagrams

A client session and a server session with the same ID over a network that
loses, duplicates, delays and reorders datagrams but forges none: a datagram
can be delivered at any time after it was sent, any number of times.

The sender's log has one entry for each sequence number.  Every data segment
that exists anywhere agrees with the log of its sender, and no acknowledgement
exceeds what its sender has received in order.  The receiver accepts exactly
the number it expects next, so what it has read follows the log.
-/

namespace Mieru.Protocol

open Mieru.Foundation
open Mieru.Cipher
open ProtocolType

variable {log : List (Option Bytes)} {nextRecv : UInt32} {p : Packet} {seg : Segment}

def Segment.Logged (log : List (Option Bytes)) (seg : Segment) : Prop :=
  log[seg.key]? = some (some seg.payload)

structure Packet.Genuine (log : List (Option Bytes)) (nextRecv : UInt32) (p : Packet) : Prop where
  logged : isInputData p.metadata.protocol = true → log[p.seq.toNat]? = some (some p.payload)
  acked : ∀ das, p.metadata = .dataAck das → das.unAckSeq ≤ nextRecv

theorem getElem?_of_prefix {α : Type} {front whole : List α} {i : Nat}
    {value : α} (h : front <+: whole) (hget : front[i]? = some value) : whole[i]? = some value := by
  obtain ⟨rest, rfl⟩ := h
  obtain ⟨hlt, _⟩ := List.getElem?_eq_some_iff.mp hget
  rw [List.getElem?_append_left hlt]
  exact hget

theorem Packet.Genuine.mono {log' : List (Option Bytes)} {nextRecv' : UInt32}
    (h : p.Genuine log nextRecv) (hlog : log <+: log') (hrecv : nextRecv ≤ nextRecv') :
    p.Genuine log' nextRecv' where
  logged := fun hdata => getElem?_of_prefix hlog (h.logged hdata)
  acked := fun das hdas => UInt32.le_trans (h.acked das hdas) hrecv

theorem Packet.IsControl.genuine (h : p.IsControl nextRecv) (log : List (Option Bytes)) :
    p.Genuine log nextRecv where
  logged := by
    rw [h.protocol]
    intro hdata
    cases hdata
  acked := fun das hdas => UInt32.le_of_eq (h.acked das hdas)

theorem Packet.Genuine.retouched {again : Segment} (h : seg.packet.Genuine log nextRecv)
    (htouch : seg.Retouched nextRecv again) : again.packet.Genuine log nextRecv := by
  rcases htouch.metadata with hmeta | hmeta
  · have hpacket : again.packet = seg.packet := by
      simp only [Segment.packet, hmeta, htouch.payload]
    rw [hpacket]
    exact h
  · constructor
    · intro hdata
      simp only [Segment.packet, hmeta, Metadata.protocol_setUnAckSeq] at hdata
      simp only [Segment.packet, Packet.seq, hmeta, htouch.payload, Metadata.seq_setUnAckSeq]
      exact h.logged hdata
    · intro das hdas
      simp only [Segment.packet, hmeta] at hdas
      cases hseg : seg.metadata with
      | session ss =>
        rw [hseg] at hdas
        cases hdas
      | dataAck old =>
        rw [hseg] at hdas
        simp only [Metadata.setUnAckSeq] at hdas
        split at hdas
        · cases hdas
          exact UInt32.le_refl _
        · cases hdas
          exact h.acked _ hseg

namespace Flow

/-! ## The sending half -/

def Sends (f : Flow) (p : Packet) : Prop := p.Genuine f.queued f.nextRecv

structure SendInv (f : Flow) : Prop where
  nextSend : f.nextSend = UInt32.ofNat f.queued.length
  queue : ∀ seg ∈ f.sendQueue, f.Sends seg.packet
  buf : ∀ seg ∈ f.sendBuf, f.Sends seg.packet
  held : ∀ seg ∈ f.sendHeld, f.Sends seg.packet

variable {f f' : Flow} {sent : List Packet} {mode : Mode}

def Fits (f : Flow) : Prop := f.queued.length ≤ 4294967295

theorem SendInv.nextSend_succ (h : f.SendInv) (entry : Option Bytes) :
    f.nextSend + 1 = UInt32.ofNat (f.queued ++ [entry]).length := by
  rw [h.nextSend, List.length_append, List.length_singleton, UInt32.ofNat_add]
  rfl

theorem SendInv.sends_fresh (h : f.SendInv)
    (hfresh : f.Fresh seg) (hfits : f.queued.length < 4294967296) :
    seg.packet.Genuine (f.queued ++ [some seg.payload]) f.nextRecv where
  logged := by
    intro _
    have hseq : seg.packet.seq.toNat = f.queued.length := by
      change seg.seq.toNat = f.queued.length
      rw [hfresh.seq, h.nextSend]
      exact UInt32.toNat_ofNat_of_lt hfits
    rw [hseq, List.getElem?_concat_length]
    rfl
  acked := fun das hdas => UInt32.le_of_eq (hfresh.acked das hdas)

theorem SendInv.step (h : f.SendInv) (hstep : Step mode f sent f')
    (hfits : f'.Fits) (hrecv : f.nextRecv ≤ f'.nextRecv) : f'.SendInv ∧ ∀ p ∈ sent, f'.Sends p := by
  have hmono : ∀ {p : Packet}, f.Sends p → f'.Sends p :=
    fun hp => hp.mono hstep.queued_isPrefix hrecv
  cases hstep with
  | control hp _ =>
    refine ⟨⟨h.nextSend, h.queue, h.buf, h.held⟩, ?_⟩
    intro p hmem
    rw [List.mem_singleton.mp hmem]
    exact hp.genuine _
  | enqueue hfresh _ _ =>
    have hlen : f.queued.length < 4294967296 := by
      simp only [Fits, List.length_append, List.length_singleton] at hfits
      omega
    refine ⟨⟨h.nextSend_succ _, ?_, fun seg hseg => hmono (h.buf seg hseg),
      fun seg hseg => hmono (h.held seg hseg)⟩, by simp⟩
    intro other hother
    rcases mem_replaceOrInsert_of_mem hother with rfl | hother
    · exact h.sends_fresh hfresh hlen
    · exact hmono (h.queue other hother)
  | reserve hsent =>
    refine ⟨⟨h.nextSend_succ _, fun seg hseg => hmono (h.queue seg hseg),
      fun seg hseg => hmono (h.buf seg hseg),
      fun seg hseg => hmono (h.held seg hseg)⟩, ?_⟩
    intro p hp
    exact hmono ((hsent p hp).1.genuine _)
  | pop hheld hqueue =>
    refine ⟨⟨h.nextSend, fun other hother => h.queue other (by
      rw [hqueue]
      exact List.mem_cons_of_mem _ hother), h.buf, ?_⟩, by simp⟩
    intro other hother
    rw [List.mem_singleton.mp hother]
    exact h.queue _ (by simp [hqueue])
  | buffer _ hheld htouch =>
    have hagain := (h.held _ (by simp [hheld])).retouched htouch
    refine ⟨⟨h.nextSend, h.queue, ?_, ?_⟩, by simp⟩
    · intro other hother
      rcases mem_replaceOrInsert_of_mem hother with rfl | hother
      · exact hagain
      · exact h.buf other hother
    · intro other hother
      rw [List.mem_singleton.mp hother]
      exact hagain
  | emit hheld =>
    refine ⟨⟨h.nextSend, h.queue, h.buf, by simp⟩, ?_⟩
    intro p hp
    rw [List.mem_singleton.mp hp]
    exact h.held _ (by simp [hheld])
  | withhold _ => exact ⟨⟨h.nextSend, h.queue, h.buf, by simp⟩, by simp⟩
  | resend _ htouch hsent =>
    refine ⟨⟨h.nextSend, h.queue, ?_, h.held⟩, ?_⟩
    · intro other hother
      obtain ⟨seg, hseg, rfl⟩ := List.mem_map.mp hother
      exact (h.buf seg hseg).retouched (htouch seg)
    · intro p hp
      obtain ⟨seg, hseg, rfl⟩ := hsent p hp
      exact (h.buf seg hseg).retouched (htouch seg)
  | acked _ hbuf _ =>
    exact ⟨⟨h.nextSend, h.queue, fun seg hseg => h.buf seg (by
      rw [hbuf]
      exact List.mem_cons_of_mem _ hseg), h.held⟩, by simp⟩
  | clearQueue _ => exact ⟨⟨h.nextSend, by simp, h.buf, h.held⟩, by simp⟩
  | clearBuf _ => exact ⟨⟨h.nextSend, h.queue, by simp, h.held⟩, by simp⟩
  | advance _ _ =>
    exact ⟨⟨h.nextSend, fun seg hseg => hmono (h.queue seg hseg),
      fun seg hseg => hmono (h.buf seg hseg),
      fun seg hseg => hmono (h.held seg hseg)⟩, by simp⟩
  | stay | take | ackDone | abandon | storeBuf | storeQueue | hold
  | queue | skip | drain | copy =>
    exact ⟨⟨h.nextSend, h.queue, h.buf, h.held⟩, by simp⟩

end Flow

/-! ## The receiving half -/

/-- Between the insertion into `recvQueue` and the increment of `nextRecv`. -/
def Intake.pending : Intake → Nat
  | .queued => 1
  | _ => 0

def Intake.Genuine (log : List (Option Bytes)) (nextRecv : UInt32) : Intake → Prop
  | .acking seg das => seg.packet.Genuine log nextRecv ∧ seg.metadata = .dataAck das
  | .inserting seg => seg.Logged log
  | .holding seg3 => seg3.Logged log
  | _ => True

namespace Flow

/-- `log` and `peerRecv` are the peer's log and its next number to receive. -/
structure RecvInv (log : List (Option Bytes)) (peerRecv : UInt32) (f : Flow) :
    Prop where
  chan : ∀ seg ∈ f.recvChan, seg.packet.Genuine log peerRecv
  intake : f.intake.Genuine log peerRecv
  buf : ∀ seg ∈ f.recvBuf, seg.Logged log
  bytes : f.read ++ f.unread ++ payloads f.recvQueue =
    loggedBytes (log.take (f.nextRecv.toNat + f.intake.pending))
  below : ∀ seg ∈ f.recvQueue, seg.key < f.nextRecv.toNat + f.intake.pending
  within : f.nextRecv.toNat + f.intake.pending ≤ log.length

variable {log log' : List (Option Bytes)} {peerRecv peerRecv' : UInt32}
variable {f f' : Flow} {sent : List Packet} {mode : Mode}

theorem RecvInv.mono (h : f.RecvInv log peerRecv) (hlog : log <+: log')
    (hrecv : peerRecv ≤ peerRecv') : f.RecvInv log' peerRecv' where
  chan := fun seg hseg => (h.chan seg hseg).mono hlog hrecv
  intake := by
    have hintake := h.intake
    revert hintake
    cases f.intake with
    | acking seg das => exact fun hseg => ⟨hseg.1.mono hlog hrecv, hseg.2⟩
    | inserting seg => exact getElem?_of_prefix hlog
    | holding seg3 => exact getElem?_of_prefix hlog
    | nothing | stuck | queued => exact fun _ => trivial
  buf := fun seg hseg => getElem?_of_prefix hlog (h.buf seg hseg)
  bytes := by
    obtain ⟨rest, rfl⟩ := hlog
    rw [List.take_append_of_le_length h.within]
    exact h.bytes
  below := h.below
  within := Nat.le_trans h.within hlog.length_le

theorem loggedBytes_take_succ (h : seg.Logged log) :
    loggedBytes (log.take (seg.key + 1)) = loggedBytes (log.take seg.key) ++ seg.payload := by
  rw [List.take_add_one, h]
  simp [loggedBytes]

theorem RecvInv.nextRecv_le (h : f.RecvInv log peerRecv)
    (hstep : Step mode f sent f') (hlog : log.length ≤ 4294967295) : f.nextRecv ≤ f'.nextRecv := by
  cases hstep with
  | advance _ hintake =>
    have hwithin := h.within
    rw [hintake] at hwithin
    simp only [Intake.pending] at hwithin
    rw [UInt32.le_iff_toNat_le, UInt32.toNat_add]
    change f.nextRecv.toNat ≤ (f.nextRecv.toNat + 1) % 4294967296
    omega
  | _ => exact UInt32.le_refl _

theorem RecvInv.step (h : f.RecvInv log peerRecv) (hmode : mode.packet = true)
    (hstep : Step mode f sent f') (hlog : log.length ≤ 4294967295) : f'.RecvInv log peerRecv := by
  have hchan : ∀ seg ∈ f'.recvChan, seg.packet.Genuine log peerRecv :=
    fun seg hseg => h.chan seg (hstep.recvChan_subset hseg)
  have hheld := h.intake
  have hbytes := h.bytes
  have hbelow := h.below
  have hwithin := h.within
  cases hstep with
  | @take seg _ _ hintake hrecvChan htaken =>
    have hseg := h.chan seg (by simp [hrecvChan])
    rw [hintake] at hbytes hbelow hwithin
    cases htaken with
    | dropped _ => exact ⟨hchan, trivial, h.buf, hbytes, hbelow, hwithin⟩
    | stuck => exact ⟨hchan, trivial, h.buf, hbytes, hbelow, hwithin⟩
    | inserting hdata =>
      exact ⟨hchan, hseg.logged hdata, h.buf, hbytes, hbelow, hwithin⟩
    | acking _ hmeta =>
      exact ⟨hchan, ⟨hseg, hmeta⟩, h.buf, hbytes, hbelow, hwithin⟩
  | @ackDone seg _ hintake =>
    rw [hintake] at hheld hbytes hbelow hwithin
    by_cases hdata : isInputData seg.protocol = true
    · simp only [hdata, if_true]
      exact ⟨hchan, hheld.1.logged hdata, h.buf, hbytes, hbelow, hwithin⟩
    · simp only [hdata]
      exact ⟨hchan, trivial, h.buf, hbytes, hbelow, hwithin⟩
  | abandon _ hintake =>
    have hpending : f.intake.pending = 0 := by
      cases hcase : f.intake with
      | queued => exact absurd hcase hintake
      | _ => rfl
    rw [hpending] at hbytes hbelow hwithin
    exact ⟨hchan, trivial, h.buf, hbytes, hbelow, hwithin⟩
  | storeBuf _ hintake =>
    rw [hintake] at hheld hbytes hbelow hwithin
    refine ⟨hchan, trivial, ?_, hbytes, hbelow, hwithin⟩
    intro other hother
    rcases mem_replaceOrInsert_of_mem hother with rfl | hother
    · exact hheld
    · exact h.buf other hother
  | storeQueue hstream _ => cases hmode.symm.trans hstream
  | @hold seg3 rest _ hintake hbuf =>
    rw [hintake] at hbytes hbelow hwithin
    exact ⟨hchan, h.buf seg3 (by simp [hbuf]),
      fun other hother => h.buf other (by simp [hbuf, hother]), hbytes,
      hbelow, hwithin⟩
  | @queue seg3 _ hintake hseq =>
    rw [hintake] at hheld hbytes hbelow hwithin
    have hkey : seg3.key = f.nextRecv.toNat := congrArg UInt32.toNat hseq
    have hlogged : seg3.Logged log := hheld
    obtain ⟨hlt, _⟩ := List.getElem?_eq_some_iff.mp hlogged
    -- Everything queued before has a smaller number.
    have hqueue : replaceOrInsert Segment.key seg3 f.recvQueue = f.recvQueue ++ [seg3] :=
      replaceOrInsert_of_forall_lt fun other hother => by
        rw [hkey]
        exact hbelow other hother
    refine ⟨hchan, trivial, h.buf, ?_, ?_, by rw [← hkey]; exact hlt⟩
    · simp only [hqueue, payloads, List.flatMap_append, Intake.pending]
      rw [← hkey, loggedBytes_take_succ hlogged, hkey, ← List.append_assoc]
      rw [show List.flatMap Segment.payload [seg3] = seg3.payload by simp]
      exact congrArg (· ++ seg3.payload) hbytes
    · intro other hother
      change other.key < f.nextRecv.toNat + 1
      rw [hqueue, List.mem_append, List.mem_singleton] at hother
      rcases hother with hother | rfl
      · exact Nat.lt_succ_of_lt (hbelow other hother)
      · rw [hkey]
        exact Nat.lt_succ_self _
  | skip hintake =>
    rw [hintake] at hbytes hbelow hwithin
    exact ⟨hchan, trivial, h.buf, hbytes, hbelow, hwithin⟩
  | advance _ hintake =>
    rw [hintake] at hbytes hbelow hwithin
    have hsucc : (f.nextRecv + 1).toNat = f.nextRecv.toNat + 1 := by
      rw [UInt32.toNat_add]
      change (f.nextRecv.toNat + 1) % 4294967296 = f.nextRecv.toNat + 1
      simp only [Intake.pending] at hwithin
      omega
    refine ⟨hchan, trivial, h.buf, ?_, ?_, ?_⟩
    · simp only [hsucc]
      exact hbytes
    · simp only [hsucc]
      exact hbelow
    · simp only [hsucc]
      exact hwithin
  | @drain seg rest hqueue =>
    refine ⟨hchan, h.intake, h.buf, ?_,
      fun other hother => hbelow other (by simp [hqueue, hother]), hwithin⟩
    rw [hqueue] at hbytes
    simpa [payloads] using hbytes
  | copy size =>
    refine ⟨hchan, h.intake, h.buf, ?_, hbelow, hwithin⟩
    simpa using hbytes
  | stay | control | enqueue | reserve | pop | buffer | emit | withhold
  | resend | acked | clearQueue | clearBuf =>
    exact ⟨hchan, h.intake, h.buf, hbytes, hbelow, hwithin⟩

end Flow

/-! ## The pair of sessions -/

/-- Both sessions, and every datagram each of them has sent. -/
structure DatagramPair where
  session : Side → LiveSession
  sent : Side → List Packet

inductive PairEvent where
  | act (side : Side) (event : SessionEvent)
  /-- The network delivers `p` to a side, whose underlay adds its cipher. -/
  | deliver (side : Side) (p : Packet) (block : Option BlockCipher)

namespace DatagramPair

def replace (pair : DatagramPair) (side : Side) (l : LiveSession)
    (packets : List Packet) : DatagramPair where
  session := Function.update pair.session side l
  sent := Function.update pair.sent side (pair.sent side ++ packets)

def next (pair : DatagramPair) : PairEvent → Option DatagramPair
  | .act side event =>
    ((pair.session side).step event).map fun (l, packets) =>
      pair.replace side l packets
  | .deliver side p block =>
    if p ∈ pair.sent side.peer then
      ((pair.session side).receive (p.received block)).map fun l =>
        pair.replace side l []
    else none

def IsInitial (pair : DatagramPair) : Prop :=
  ∃ (id : UInt32) (mtu : Side → Nat) (addr : Side → Addr) (now : Side → Int),
    pair = {
      session := fun side =>
        { session := Session.new id (side == .client) (mtu side)
            .packetTransport (addr side) (now side) }
      sent := fun _ => [] }

end DatagramPair

def datagramSystem : System DatagramPair PairEvent :=
  System.ofNext DatagramPair.IsInitial DatagramPair.next

namespace DatagramPair

def flow (pair : DatagramPair) (side : Side) : Flow := (pair.session side).flow

def Fits (pair : DatagramPair) : Prop := ∀ side, (pair.flow side).Fits

structure Delivers (pair : DatagramPair) : Prop where
  send : ∀ side, (pair.flow side).SendInv
  sent : ∀ side, ∀ p ∈ pair.sent side, (pair.flow side).Sends p
  recv : ∀ side, (pair.flow side).RecvInv (pair.flow side.peer).queued
    (pair.flow side.peer).nextRecv

/-- The invariant: the sessions are well formed and, unless a side has used up
its sequence numbers, the pair delivers. -/
structure Inv (pair : DatagramPair) : Prop where
  wellFormed : ∀ side, (pair.session side).WellFormed
  packet : ∀ side, (pair.session side).session.isPacket = true
  delivers : pair.Fits → pair.Delivers

theorem inv_of_isInitial {pair : DatagramPair} (h : pair.IsInitial) : pair.Inv := by
  obtain ⟨id, mtu, addr, now, rfl⟩ := h
  refine ⟨?_, fun _ => rfl, fun _ => ⟨?_, ?_, ?_⟩⟩
  · intro side
    exact LiveSession.wellFormed_new
  · intro side
    constructor <;> simp [flow, LiveSession.flow, Session.flow, Session.new,
      SegmentTree.new, OutputState.held]
  · intro side p hp
    cases hp
  · intro side
    constructor <;> simp [flow, LiveSession.flow, Session.flow, Session.new,
      SegmentTree.new, InputState.intake, Intake.Genuine, Intake.pending,
      payloads, loggedBytes]

variable {pair : DatagramPair} {side : Side} {l : LiveSession} {packets : List Packet}

@[simp] theorem session_replace_self : (pair.replace side l packets).session side = l :=
  Function.update_self ..

@[simp] theorem session_replace_peer :
    (pair.replace side l packets).session side.peer = pair.session side.peer :=
  Function.update_of_ne side.peer_ne ..

@[simp] theorem flow_replace_self : (pair.replace side l packets).flow side = l.flow := by
  simp [flow]

@[simp] theorem flow_replace_peer :
    (pair.replace side l packets).flow side.peer = pair.flow side.peer := by
  simp [flow]

theorem Delivers.replace (h : pair.Delivers) (hqueued : (pair.flow side).queued <+: l.flow.queued)
    (hrecv : (pair.flow side).nextRecv ≤ l.flow.nextRecv)
    (hsend : l.flow.SendInv) (hsent : ∀ p ∈ packets, l.flow.Sends p)
    (hrecvInv : l.flow.RecvInv (pair.flow side.peer).queued (pair.flow side.peer).nextRecv) :
    (pair.replace side l packets).Delivers := by
  refine ⟨?_, ?_, ?_⟩
  · intro other
    rcases side.eq_or_eq_peer other with rfl | rfl
    · rw [flow_replace_self]
      exact hsend
    · rw [flow_replace_peer]
      exact h.send _
  · intro other p hp
    rcases side.eq_or_eq_peer other with rfl | rfl
    · rw [flow_replace_self]
      simp only [DatagramPair.replace, Function.update_self] at hp
      rcases List.mem_append.mp hp with hp | hp
      · exact (h.sent _ p hp).mono hqueued hrecv
      · exact hsent p hp
    · rw [flow_replace_peer]
      simp only [DatagramPair.replace, Function.update_of_ne side.peer_ne] at hp
      exact h.sent _ p hp
  · intro other
    rcases side.eq_or_eq_peer other with rfl | rfl
    · rw [flow_replace_self, flow_replace_peer]
      exact hrecvInv
    · have hpeerRecv := h.recv side.peer
      rw [side.peer_peer] at hpeerRecv ⊢
      rw [flow_replace_self, flow_replace_peer]
      exact hpeerRecv.mono hqueued hrecv

theorem fits_of_replace (h : (pair.replace side l packets).Fits)
    (hqueued : (pair.flow side).queued <+: l.flow.queued) : pair.Fits := by
  intro other
  have hother := h other
  rcases side.eq_or_eq_peer other with rfl | rfl
  · rw [flow_replace_self] at hother
    exact Nat.le_trans hqueued.length_le hother
  · rw [flow_replace_peer] at hother
    exact hother

theorem Inv.replace (h : pair.Inv) (hwell : l.WellFormed)
    (hkeeps : (pair.session side).session.Keeps l.session)
    (hdelivers : (pair.replace side l packets).Fits → (pair.replace side l packets).Delivers) :
    (pair.replace side l packets).Inv := by
  refine ⟨?_, ?_, hdelivers⟩
  · intro other
    rcases side.eq_or_eq_peer other with rfl | rfl
    · rw [session_replace_self]
      exact hwell
    · rw [session_replace_peer]
      exact h.wellFormed _
  · intro other
    rcases side.eq_or_eq_peer other with rfl | rfl
    · rw [session_replace_self, hkeeps.isPacket]
      exact h.packet _
    · rw [session_replace_peer]
      exact h.packet _

theorem Inv.act {event : SessionEvent} (h : pair.Inv)
    (hstep : (pair.session side).step event = some (l, packets)) :
    (pair.replace side l packets).Inv := by
  obtain ⟨hfollows, hwell⟩ :=
    LiveSession.step_follows (h.wellFormed side) hstep
  have hflow := hfollows.step
  refine h.replace hwell hfollows.keeps fun hfits => ?_
  have hpair := fits_of_replace hfits hflow.queued_isPrefix
  have hself : l.flow.Fits := by
    have hself := hfits side
    rwa [flow_replace_self] at hself
  have hdelivers := h.delivers hpair
  have hrecv := (hdelivers.recv side).nextRecv_le hflow (hpair side.peer)
  obtain ⟨hsend, hsent⟩ := (hdelivers.send side).step hflow hself hrecv
  exact hdelivers.replace hflow.queued_isPrefix hrecv hsend hsent
    ((hdelivers.recv side).step (h.packet side) hflow (hpair side.peer))

theorem Inv.deliver {block : Option BlockCipher} (h : pair.Inv) (hp : p ∈ pair.sent side.peer)
    (hreceive : (pair.session side).receive (p.received block) = some l) :
    (pair.replace side l []).Inv := by
  obtain ⟨hflow, hkeeps, hwell⟩ :=
    LiveSession.receive_spec (h.wellFormed side) hreceive
  refine h.replace hwell hkeeps fun hfits => ?_
  have hqueued : (pair.flow side).queued <+: l.flow.queued := by
    rw [hflow]
    exact List.prefix_rfl
  have hdelivers := h.delivers (fits_of_replace hfits hqueued)
  have hsend := hdelivers.send side
  have hrecv := hdelivers.recv side
  refine hdelivers.replace hqueued ?_ ?_ (by simp) ?_
  · rw [hflow]
    exact UInt32.le_refl _
  · rw [hflow]
    exact ⟨hsend.nextSend, hsend.queue, hsend.buf, hsend.held⟩
  · rw [hflow]
    refine ⟨?_, hrecv.intake, hrecv.buf, hrecv.bytes, hrecv.below, hrecv.within⟩
    intro seg hseg
    rcases List.mem_append.mp hseg with hseg | hseg
    · exact hrecv.chan seg hseg
    · rw [List.mem_singleton.mp hseg]
      exact hdelivers.sent side.peer p hp

theorem inv_of_reachable (h : datagramSystem.Reachable pair) : pair.Inv := by
  refine System.Reachable.invariant (P := Inv) (fun _ hinit => inv_of_isInitial hinit) ?_ h
  intro state event after hinv hnext
  cases event with
  | act side event =>
    obtain ⟨⟨l, packets⟩, hstep, rfl⟩ := Option.map_eq_some_iff.mp hnext
    exact hinv.act hstep
  | deliver side p block =>
    simp only [datagramSystem, System.ofNext, next] at hnext
    split at hnext
    · obtain ⟨l, hreceive, rfl⟩ := Option.map_eq_some_iff.mp hnext
      exact hinv.deliver ‹_› hreceive
    · cases hnext

theorem Inv.nextSend_eq (h : pair.Inv) (hfits : pair.Fits) (side : Side) :
    (pair.session side).session.nextSend.toNat =
      (pair.session side).session.history.queued.length := by
  have hlen : (pair.session side).session.history.queued.length <
      4294967296 := Nat.lt_succ_of_le (hfits side)
  have hnext : (pair.session side).session.nextSend =
      UInt32.ofNat (pair.session side).session.history.queued.length :=
    ((h.delivers hfits).send side).nextSend
  rw [hnext]
  exact UInt32.toNat_ofNat_of_lt hlen

end DatagramPair

/-! ## What the pair guarantees -/

theorem Flow.RecvInv.read_isPrefix {peerRecv : UInt32} {f : Flow} (h : f.RecvInv log peerRecv) :
    f.read <+: loggedBytes log := by
  have hread : f.read <+: f.read ++ f.unread ++ payloads f.recvQueue := by
    rw [List.append_assoc]
    exact List.prefix_append _ _
  have htake : loggedBytes (log.take (f.nextRecv.toNat + f.intake.pending)) <+:
      loggedBytes log := by
    conv_rhs => rw [← List.take_append_drop (f.nextRecv.toNat + f.intake.pending) log]
    simp only [loggedBytes, List.flatMap_append]
    exact List.prefix_append _ _
  exact hread.trans (h.bytes ▸ htake)

theorem Flow.Step.acked_of_left {mode : Flow.Mode} {f f' : Flow} {sent : List Packet}
    (h : Flow.Step mode f sent f') (hmode : mode.closed = false) (hseg : seg ∈ f.sendBuf)
    (hleft : ∀ other ∈ f'.sendBuf, other.seq ≠ seg.seq) :
    ∃ ack das, f.intake = .acking ack das ∧ seg.seq < das.unAckSeq := by
  cases h with
  | @buffer _ again _ _ _ =>
    by_cases hkey : seg.key = again.key
    · exact absurd (UInt32.toNat_inj.mp hkey.symm) (hleft again (item_mem_replaceOrInsert _ _))
    · exact absurd rfl (hleft seg (mem_replaceOrInsert_of_key_ne hseg hkey))
  | @resend touch _ _ htouch _ =>
    refine absurd ?_ (hleft (touch seg) (List.mem_map_of_mem hseg))
    rcases (htouch seg).metadata with hmeta | hmeta
    · simp only [Segment.seq, hmeta]
    · simp only [Segment.seq, hmeta, Metadata.seq_setUnAckSeq]
  | @acked ack first das rest hintake hbuf hlt =>
    rw [hbuf] at hseg
    rcases List.mem_cons.mp hseg with rfl | hseg
    · exact ⟨ack, das, hintake, hlt⟩
    · exact absurd rfl (hleft seg hseg)
  | clearBuf hclosed => cases hmode.symm.trans hclosed
  | _ => exact absurd rfl (hleft seg hseg)

/--
In every reachable state, what each side has read is a prefix of what the other
side has queued, and an open session forgets a segment in flight only if its
peer has already received it in order.
-/
theorem datagram_delivery {pair : DatagramPair} (hreach : datagramSystem.Reachable pair)
    (hqueued : ∀ side, (pair.session side).session.history.queued.length ≤ 4294967295) :
    (∀ side, (pair.session side).session.history.read <+:
      loggedBytes (pair.session side.peer).session.history.queued) ∧
    ∀ side event next seg, datagramSystem.step pair event next →
      (next.session side).session.closeRequested = false →
      seg ∈ (pair.session side).session.sendBuf.items →
      (∀ other ∈ (next.session side).session.sendBuf.items, other.seq ≠ seg.seq) →
      seg.seq < (pair.session side.peer).session.nextRecv := by
  have hinv := DatagramPair.inv_of_reachable hreach
  have hdelivers := hinv.delivers hqueued
  refine ⟨fun side => (hdelivers.recv side).read_isPrefix, ?_⟩
  intro side event next seg hstep hopen hseg hleft
  cases event with
  | act actor event =>
    obtain ⟨⟨l, packets⟩, hl, rfl⟩ := Option.map_eq_some_iff.mp hstep
    rcases actor.eq_or_eq_peer side with rfl | rfl
    · rw [DatagramPair.session_replace_self] at hopen hleft
      obtain ⟨hfollows, _⟩ := LiveSession.step_follows (hinv.wellFormed _) hl
      obtain ⟨ack, das, hintake, hlt⟩ :=
        hfollows.step.acked_of_left hopen hseg hleft
      have hheld := (hdelivers.recv side).intake
      rw [show (pair.flow side).intake = .acking ack das from hintake] at hheld
      exact UInt32.lt_of_lt_of_le hlt (hheld.1.acked das hheld.2)
    · rw [DatagramPair.session_replace_peer] at hleft
      exact absurd rfl (hleft seg hseg)
  | deliver receiver p block =>
    obtain ⟨-, hstep⟩ := Option.ite_none_right_eq_some.mp hstep
    obtain ⟨l, hl, rfl⟩ := Option.map_eq_some_iff.mp hstep
    rcases receiver.eq_or_eq_peer side with rfl | rfl
    · rw [DatagramPair.session_replace_self] at hleft
      obtain ⟨hflow, _⟩ := LiveSession.receive_spec (hinv.wellFormed _) hl
      have hbuf : l.session.sendBuf.items = (pair.session side).session.sendBuf.items :=
        congrArg Flow.sendBuf hflow
      rw [hbuf] at hleft
      exact absurd rfl (hleft seg hseg)
    · rw [DatagramPair.session_replace_peer] at hleft
      exact absurd rfl (hleft seg hseg)

/-! A run in which the server reads what the client wrote. -/

def calmEnv : Env := .calm .timeC

def freshPair : DatagramPair where
  session := fun side =>
    { session := Session.new 1 (side == .client) 1400 .packetTransport "" 0 }
  sent := fun _ => []

def openingDatagram : Packet where
  metadata := .session {
    protocol := openSessionRequest
    sessionID := 1
    payloadLen := 3 }
  payload := [7, 8, 9]

def openingRun : List PairEvent :=
  [PairEvent.act .client (.write [7, 8, 9])] ++
    List.replicate 6 (PairEvent.act .client (.output calmEnv)) ++
    [PairEvent.deliver .server openingDatagram none] ++
    List.replicate 5 (PairEvent.act .server (.input calmEnv)) ++
    [PairEvent.act .server (.read 10)] ++
    List.replicate 3 (PairEvent.act .server (.reader calmEnv))

theorem DatagramPair.isInitial_freshPair : IsInitial freshPair :=
  ⟨1, fun _ => 1400, fun _ => "", fun _ => 0, rfl⟩

theorem datagram_delivery_openingRun : ∃ pair, datagramSystem.Reachable pair ∧ (∀ side,
        (pair.session side).session.history.queued.length ≤ 4294967295) ∧
      (pair.session .server).session.history.read = [7, 8, 9] ∧
      (pair.session .server).session.history.read <+:
        loggedBytes (pair.session .client).session.history.queued := by
  obtain ⟨pair, hreach, hqueued, hread⟩ : ∃ pair, datagramSystem.Reachable pair ∧
      (∀ side, (pair.session side).session.history.queued.length ≤ 4294967295) ∧
      (pair.session .server).session.history.read = [7, 8, 9] :=
    System.exists_reachable DatagramPair.isInitial_freshPair openingRun (by decide)
  exact ⟨pair, hreach, hqueued, hread, (datagram_delivery hreach hqueued).1 .server⟩

end Mieru.Protocol
