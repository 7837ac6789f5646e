import Mieru.Delivery.Opening
import Mieru.Delivery.Room

/-!
# The first datagrams of a session

The server answers data of a session it does not know with a close session
request.  Apart from that, no order in which the datagrams of an open session
arrive makes the server close it: every segment is one that the session
accepts, and all its insertions succeed.
-/

namespace Mieru.Protocol

open Mieru.Foundation
open Mieru.Cipher
open ProtocolType

variable {p : ProtocolType} {seg : Segment} {id : UInt32} {addr : Addr} {now : Int}
  {packets : List Packet} {server : Underlay}

def isOrdinary (isClient : Bool) (p : ProtocolType) : Bool :=
  isOutputData isClient p || isOutputAck isClient p

theorem ne_closeRequest_of_isOrdinary {isClient : Bool} (h : isOrdinary isClient p = true) :
    p ≠ closeSessionRequest := by
  rintro rfl
  cases isClient <;> cases h

theorem isServerInput_of_isOrdinary (h : isOrdinary true p = true) : isServerInput p = true := by
  revert h
  cases p <;> decide

namespace SendView

def DataOnly (v : SendView) : Prop :=
  ∀ seg ∈ v.phase.held ++ v.queue ++ v.buf, isOutputData v.isClient seg.protocol = true

end SendView

theorem isOrdinary_of_isOutputData {isClient : Bool} (h : isOutputData isClient p = true) :
    isOrdinary isClient p = true := by
  simp [isOrdinary, h]

theorem SendStep.dataOnly {mode : SendMode} {v v' : SendView} {sent : List Packet}
    (h : SendStep mode v sent v') (hopen : mode.closed = false) (hv : v.DataOnly) :
    v'.DataOnly ∧ v'.isClient = v.isClient ∧
      ∀ p ∈ sent, isOrdinary v.isClient p.metadata.protocol = true := by
  have htouch : ∀ {seg again : Segment} {nextRecv : UInt32}, seg.Retouched nextRecv again →
      isOutputData v.isClient seg.protocol = true →
      isOutputData v.isClient again.protocol = true := by
    intro seg again nextRecv htouch hseg
    rw [htouch.protocol_eq]
    exact hseg
  have hfresh : ∀ seg : Segment, mode.enqueues = true → seg.seq = v.nextSend →
      isOutputData v.isClient seg.protocol = true ∨ mode.closed = true →
      isOutputData v.isClient seg.protocol = true :=
    fun seg _ _ hdata => hdata.resolve_right (by simp [hopen])
  have hack : ∀ seg : Segment, mode.acknowledges = true →
      isOutputAck v.isClient seg.protocol = true →
      isOrdinary v.isClient seg.protocol = true :=
    fun seg _ hack => by simp [isOrdinary, hack]
  obtain ⟨hwaiting, hsent⟩ := h.packets
    (fun p => isOutputData v.isClient p.metadata.protocol = true)
    (fun p => isOrdinary v.isClient p.metadata.protocol = true)
    (fun _ => isOrdinary_of_isOutputData) htouch hfresh hack
    (fun _ _ hclosed => nomatch hopen.symm.trans hclosed) hv
  have hside := h.isClient_eq
  refine ⟨?_, hside, hsent⟩
  intro seg hseg
  rw [hside]
  exact hwaiting seg hseg

namespace Session

variable {s t : Session} {env : Env} {sent : List Packet}

def passes (output : OutputState) : Prop :=
  ∀ pass, output = .resending pass → pass.closing = false

theorem passes_outputStep {output output' : OutputState}
    (hpasses : passes output) (hwrites : s.outputFails env = false)
    (hlimit : ∀ seg ∈ s.sendBuf.items, seg.txCount < txCountLimit)
    (h : s.outputStep env output = some (t, output', sent)) : passes output' := by
  cases outputStep_inv h with
  | woken | ticked =>
    unfold startRun
    split
    · simp [passes]
    · split
      · simp [passes]
      · split
        · rintro pass ⟨⟩
          rfl
        · simp [passes]
  | visited hnext hvisit =>
    rintro other ⟨⟩
    have hpass := hpasses _ rfl
    cases hvisit with
    | resent | early => exact hpass
    | exhausted hreached =>
      exact absurd (hlimit _ (mem_of_nextToVisit hnext)) (UInt8.not_lt.mpr hreached)
    | unsent houtput =>
      have hfails : s.outputFails env = true := (closeRequested_output houtput).2 rfl
      cases hwrites.symm.trans hfails
  | _ => simp [passes]

end Session

namespace LiveSession

variable {l l' : LiveSession} {event : SessionEvent} {sent : List Packet}

structure Healthy (l : LiveSession) : Prop where
  wellFormed : l.WellFormed
  roomy : l.Roomy
  isOpen : l.session.closeRequested = false
  isServer : l.session.isClient = false
  packet : l.session.isPacket = true
  data : l.sendView.DataOnly
  chan : ∀ seg ∈ l.session.recvChan, isOrdinary true seg.protocol = true
  input : ∀ seg, l.input ≠ .closing seg
  output : Session.passes l.output

/--
The step does not close the session by itself: its application does not call
`Close`, the underlay takes what is written, no segment has reached its
transmission limit and the user's quota is not exhausted.
-/
structure Untroubled (l : LiveSession) (event : SessionEvent) : Prop where
  notClosed : event ≠ .close
  writes : ∀ env, event = .output env → env.writeAnswer ≠ .failed
  limit : ∀ env, event = .output env → ∀ seg ∈ l.session.sendBuf.items, seg.txCount < txCountLimit
  quota : ∀ env, event = .input env → env.quota = .ok true

theorem Untroubled.outputFails {env : Env} (h : l.Untroubled (.output env))
    (hpacket : l.session.isPacket = true) : l.session.outputFails env = false := by
  simp [Session.outputFails, h.writes env rfl, hpacket]

theorem Healthy.unclosed (h : l.Healthy) : l.Unclosed where
  isOpen := h.isOpen
  chan := by
    intro seg hseg
    have hordinary := h.chan seg hseg
    constructor <;> intro hprotocol <;> rw [hprotocol] at hordinary <;> cases hordinary
  input := h.input

theorem Healthy.not_closes (h : l.Healthy) (huntroubled : l.Untroubled event) :
    ¬l.Closes event := by
  refine h.roomy.not_closes ?_ h.input ?_
  · refine ⟨huntroubled.notClosed, ?_, ?_, ?_⟩
    · rintro env rfl
      exact huntroubled.outputFails h.packet
    · intro env pass _ hresending
      exact h.output pass hresending
    · rintro env rfl
      simp [Session.quotaAnswer, huntroubled.quota env rfl]
  · intro env _ _ seg hseg
    simp [Session.acceptsProtocol, h.isServer, isServerInput_of_isOrdinary (h.chan seg hseg)]

theorem Healthy.step (h : l.Healthy) (huntroubled : l.Untroubled event)
    (hstep : l.step event = some (l', sent)) :
    l'.Healthy ∧ ∀ p ∈ sent, isOrdinary false p.metadata.protocol = true := by
  have hunclosed := h.unclosed.step h.wellFormed (h.not_closes huntroubled) hstep
  have hopen := hunclosed.isOpen
  obtain ⟨hfollows, hwell⟩ := step_follows h.wellFormed hstep
  have hkeeps := hfollows.keeps
  have hsending := step_sending h.wellFormed (ofCloser_of_open h.wellFormed h.isOpen hstep) hstep
  obtain ⟨hdata, -, hsent⟩ := hsending.step.dataOnly hopen h.data
  have hside : l.sendView.isClient = false := h.isServer
  refine ⟨⟨hwell, h.roomy.step h.wellFormed hstep hopen, hopen,
    hkeeps.sameSide.trans h.isServer, hkeeps.isPacket.trans h.packet, hdata,
    fun seg hseg => h.chan seg (hfollows.step.recvChan_subset hseg), hunclosed.input, ?_⟩,
    fun p hp => hside ▸ hsent p hp⟩
  rcases (step_loops_eq hstep).1 with houtput | ⟨env, rfl⟩
  · rw [houtput]
    exact h.output
  · obtain ⟨⟨t, output, packets⟩, houtput, heq⟩ :=
      Option.map_eq_some_iff.mp hstep
    cases heq
    exact Session.passes_outputStep h.output
      (huntroubled.outputFails h.packet) (huntroubled.limit env rfl) houtput

theorem Healthy.receive (h : l.Healthy) (hseg : isOrdinary true seg.protocol = true)
    (hreceive : l.receive seg = some l') : l'.Healthy := by
  have hwell := (receive_spec h.wellFormed hreceive).2.2
  have hroomy := h.roomy.receive hreceive
  obtain ⟨-, rfl⟩ := receive_eq_some hreceive
  refine ⟨hwell, hroomy, h.isOpen, h.isServer, h.packet, h.data, ?_, h.input, h.output⟩
  intro other hother
  rcases List.mem_append.mp hother with hother | hother
  · exact h.chan other hother
  · rw [List.mem_singleton.mp hother]
    exact hseg

theorem healthy_new {mtu : Nat} :
    Healthy { session := Session.new id false mtu .packetTransport addr now } where
  wellFormed := wellFormed_new
  roomy := roomy_new
  isOpen := rfl
  isServer := rfl
  packet := rfl
  data := by
    intro seg hseg
    cases hseg
  chan := by
    intro seg hseg
    cases hseg
  input := by simp
  output := by simp [Session.passes]

end LiveSession

namespace Handshake

variable {o o' : Handshake}

/--
Data and acknowledgements arrive while the server has the session registered,
and the server does not close it: neither its application nor a cleaning of
idle sessions nor an error of its own.
-/
structure Undisturbed (o : Handshake) (event : HandshakeEvent) : Prop where
  registered : ∀ addr now answer p block, event = .arrive addr now answer p block →
    isDataAckProtocol p.metadata.protocol = true →
    o.server.found p.metadata.sessionID = true
  untroubled : ∀ e, event = .act o.id e → ∀ l, o.current = some l → l.Untroubled e
  kept : ∀ now, event = .clean now → ∀ l, o.current = some l →
    o.server.mustClean now l.session = false

structure Alive (o : Handshake) : Prop where
  wellFormed : o.client.WellFormed
  isClient : o.client.session.isClient = true
  packet : o.server.transport = .packetTransport
  data : o.client.session.closeRequested = false → o.client.sendView.DataOnly
  sent : o.client.session.closeRequested = false →
    ∀ p ∈ o.sent, isOrdinary true p.metadata.protocol = true
  loop : o.client.session.closeRequested = false → ∀ seg, o.server.loop = .sending o.id seg →
      isOrdinary true seg.protocol = true
  healthy : o.client.session.closeRequested = false → ∀ l, o.current = some l → l.Healthy
  replies : o.client.session.closeRequested = false →
    ∀ p ∈ o.replies, p.metadata.protocol ≠ closeSessionRequest

theorem alive_of_isInitial (h : o.IsInitial) : o.Alive := by
  obtain ⟨⟨id, mtu, addr, now, hclient⟩, htransport, hserver, hloop, hnone,
    hsent, hreplies, hearlier⟩ := h
  refine ⟨?_, ?_, htransport, ?_, ?_, ?_, ?_, ?_⟩
  · rw [hclient]
    exact LiveSession.wellFormed_new
  · rw [hclient]
    rfl
  · intro _ seg hseg
    rw [hclient] at hseg
    cases hseg
  · simp [hsent]
  · simp [hloop]
  · simp [current, hnone]
  · simp [hreplies]

theorem Alive.setClient {client : LiveSession} (h : o.Alive) (hwell : client.WellFormed)
    (hkeeps : o.client.session.Keeps client.session)
    (hdata : o.client.session.closeRequested = false →
      client.session.closeRequested = false → client.sendView.DataOnly ∧
        ∀ p ∈ packets, isOrdinary true p.metadata.protocol = true) :
    Alive { o with client := client, sent := o.sent ++ packets } := by
  have hopen : client.session.closeRequested = false →
      o.client.session.closeRequested = false := hkeeps.open_of
  have hid : client.session.id = o.client.session.id := hkeeps.sameID
  refine ⟨hwell, hkeeps.sameSide.trans h.isClient, h.packet,
    fun hafter => (hdata (hopen hafter) hafter).1, ?_, ?_, ?_,
    fun hafter => h.replies (hopen hafter)⟩
  · intro hafter p hp
    rcases List.mem_append.mp hp with hp | hp
    · exact h.sent (hopen hafter) p hp
    · exact (hdata (hopen hafter) hafter).2 p hp
  · intro hafter seg hsending
    refine h.loop (hopen hafter) seg ?_
    unfold Handshake.id at hsending ⊢
    rwa [hid] at hsending
  · intro hafter l hcurrent
    refine h.healthy (hopen hafter) l ?_
    unfold current Handshake.id at hcurrent ⊢
    rwa [hid] at hcurrent

theorem Alive.client {event : SessionEvent} {client : LiveSession} (h : o.Alive)
    (hstep : o.client.step event = some (client, packets)) :
    Alive { o with client := client, sent := o.sent ++ packets } := by
  obtain ⟨hfollows, hwell⟩ := LiveSession.step_follows h.wellFormed hstep
  refine h.setClient hwell hfollows.keeps ?_
  intro hopen hafter
  have hsending := LiveSession.step_sending h.wellFormed
    (LiveSession.ofCloser_of_open h.wellFormed hopen hstep) hstep
  obtain ⟨hdata, -, hsent⟩ := hsending.step.dataOnly hafter (h.data hopen)
  have hside : o.client.sendView.isClient = true := h.isClient
  exact ⟨hdata, fun p hp => hside ▸ hsent p hp⟩

theorem Alive.reply {p : Packet} {block : Option BlockCipher} {client : LiveSession} (h : o.Alive)
    (hreceive : o.client.receive (p.received block) = some client) :
    Alive { o with client := client } := by
  obtain ⟨-, hkeeps, hwell⟩ := LiveSession.receive_spec h.wellFormed hreceive
  have halive : Alive { o with client := client, sent := o.sent ++ [] } := by
    refine h.setClient hwell hkeeps ?_
    intro hopen _
    rw [(LiveSession.sendView_receive hreceive).1]
    exact ⟨h.data hopen, by simp⟩
  rwa [List.append_nil] at halive

theorem Alive.setServer {earlier : List LiveSession} (h : o.Alive)
    (htransport : server.transport = o.server.transport)
    (hloop : o.client.session.closeRequested = false → ∀ seg, server.loop = .sending o.id seg →
        isOrdinary true seg.protocol = true) (hhealthy : o.client.session.closeRequested = false →
      ∀ entry, server.sessions o.id = some entry → entry.live.Healthy)
    (hpackets : o.client.session.closeRequested = false →
      ∀ p ∈ packets, p.metadata.protocol ≠ closeSessionRequest) : Alive { o with
      server := server
      replies := o.replies ++ packets
      earlier := earlier } := by
  refine ⟨h.wellFormed, h.isClient, htransport.trans h.packet, h.data, h.sent, hloop, ?_, ?_⟩
  · intro hopen l hcurrent
    obtain ⟨entry, hentry, rfl⟩ := Option.map_eq_some_iff.mp hcurrent
    exact hhealthy hopen entry hentry
  · intro hopen p hp
    rcases List.mem_append.mp hp with hp | hp
    · exact h.replies hopen p hp
    · exact hpackets hopen p hp

theorem Alive.healthy_entry (h : o.Alive) (hopen : o.client.session.closeRequested = false)
    {entry : SessionEntry} (hentry : o.server.sessions o.id = some entry) : entry.live.Healthy := by
  refine h.healthy hopen entry.live ?_
  unfold current
  rw [hentry]
  rfl

theorem healthy_openedSession {u : Underlay} (hpacket : u.transport = .packetTransport)
    (hseg : isOrdinary true seg.protocol = true) : (u.openedSession id addr now seg).Healthy := by
  have hnew : LiveSession.Healthy {
      session := Session.new id false u.mtu .packetTransport addr now } :=
    LiveSession.healthy_new
  refine hnew.receive hseg ?_
  unfold LiveSession.receive Underlay.openedSession
  rw [hpacket]
  rfl

theorem Alive.read {answer : WriteAnswer} (h : o.Alive)
    (hseg : o.client.session.closeRequested = false → seg.sessionID = o.id →
      isOrdinary true seg.protocol = true)
    (hregistered : seg.sessionID = o.id → isDataAckProtocol seg.protocol = true →
      o.server.found seg.sessionID = true)
    (hread : o.read addr now answer seg = some o') : o'.Alive := by
  unfold Handshake.read at hread
  split at hread
  · rename_i hloop
    have hidle : o.client.session.closeRequested = false →
        ∀ other, o.server.loop = .sending o.id other →
          isOrdinary true other.protocol = true := h.loop
    have hsame : o.client.session.closeRequested = false →
        ∀ entry, o.server.sessions o.id = some entry → entry.live.Healthy :=
      fun hopen entry hentry => h.healthy_entry hopen hentry
    have hdecides := o.server.handling_decides seg
    cases hdecision : o.server.handling seg with
    | deliver id =>
      rw [hdecision] at hdecides
      simp only [Underlay.handle, hdecision] at hread
      cases hread
      refine h.setServer rfl ?_ hsame (by simp)
      intro hopen other hsending
      cases hsending
      exact hseg hopen hdecides.1.symm
    | create id =>
      rw [hdecision] at hdecides
      simp only [Underlay.handle, hdecision] at hread
      cases hread
      refine h.setServer rfl hidle ?_ (by simp)
      intro hopen entry hentry
      rcases SessionMap.set_eq_some hentry with ⟨hid, rfl⟩ | ⟨_, hold⟩
      · have hordinary := hseg hopen (hdecides.1.symm.trans hid.symm)
        exact healthy_openedSession h.packet hordinary
      · exact hsame hopen entry hold
    | requestClose reply =>
      rw [hdecision] at hdecides
      obtain ⟨hfound, -, hid, hprotocol⟩ := hdecides
      cases answer with
      | sent =>
        simp only [Underlay.handle, hdecision] at hread
        cases hread
        refine h.setServer rfl hidle hsame ?_
        intro _ p hp
        obtain ⟨hreply, hfilter⟩ := List.mem_filter.mp hp
        rw [List.mem_singleton.mp hreply, beq_iff_eq] at hfilter
        have hsession : seg.sessionID = o.id := hid.symm.trans hfilter
        have hregistered := hregistered hsession hprotocol
        cases hfound.symm.trans hregistered
      | notReady | failed =>
        simp only [Underlay.handle, hdecision] at hread
        cases hread
        exact h.setServer rfl (by simp) hsame (by simp)
    | ignore =>
      simp only [Underlay.handle, hdecision] at hread
      cases hread
      exact h.setServer rfl hidle hsame (by simp)
    | fail err =>
      simp only [Underlay.handle, hdecision] at hread
      cases hread
      exact h.setServer rfl (by simp) hsame (by simp)
  · cases hread

theorem Alive.silent (h : o.Alive) (htransport : server.transport = o.server.transport)
    (hloop : o.client.session.closeRequested = false → ∀ seg, server.loop = .sending o.id seg →
        isOrdinary true seg.protocol = true) (hhealthy : o.client.session.closeRequested = false →
      ∀ entry, server.sessions o.id = some entry → entry.live.Healthy) :
    Alive { o with server := server } := by
  have hset : Alive { o with
      server := server
      replies := o.replies ++ []
      earlier := o.earlier } :=
    h.setServer htransport hloop hhealthy (by simp)
  rwa [List.append_nil] at hset

theorem Alive.pass (h : o.Alive) (hpass : o.server.pass = some server) :
    Alive { o with server := server } := by
  obtain ⟨id, seg, entry, live, hloop, hentry, hreceive, rfl⟩ := Underlay.pass_eq_some hpass
  refine h.silent rfl (by simp) ?_
  intro hopen entry' hentry'
  rcases SessionMap.set_eq_some hentry' with ⟨rfl, rfl⟩ | ⟨-, hold⟩
  · exact (h.healthy_entry hopen hentry).receive (h.loop hopen seg hloop) hreceive
  · exact h.healthy_entry hopen hold

theorem Alive.act {event : SessionEvent} (h : o.Alive)
    (huntroubled : id = o.id → ∀ l, o.current = some l → l.Untroubled event)
    (hact : o.server.act id event = some (server, packets)) : Alive { o with
      server := server
      replies := if id = o.id then o.replies ++ packets else o.replies } := by
  obtain ⟨entry, live, hentry, hstep, rfl⟩ := Underlay.act_eq_some hact
  by_cases hid : id = o.id
  · subst hid
    rw [if_pos rfl]
    have hcurrent : o.current = some entry.live := by
      unfold current
      rw [hentry]
      rfl
    have hsteps : o.client.session.closeRequested = false → live.Healthy ∧
          ∀ p ∈ packets, isOrdinary false p.metadata.protocol = true :=
      fun hopen => (h.healthy hopen _ hcurrent).step (huntroubled rfl _ hcurrent) hstep
    refine h.setServer rfl h.loop ?_ ?_
    · intro hopen entry' hentry'
      rcases SessionMap.set_eq_some hentry' with ⟨-, rfl⟩ | ⟨hne, -⟩
      · exact (hsteps hopen).1
      · exact absurd rfl hne
    · intro hopen p hp
      exact ne_closeRequest_of_isOrdinary ((hsteps hopen).2 p hp)
  · rw [if_neg hid]
    refine h.silent rfl h.loop ?_
    intro hopen entry' hentry'
    rcases SessionMap.set_eq_some hentry' with ⟨hsame, -⟩ | ⟨-, hold⟩
    · exact absurd hsame.symm hid
    · exact h.healthy_entry hopen hold

theorem Alive.clean (h : o.Alive)
    (hkept : ∀ l, o.current = some l → o.server.mustClean now l.session = false) :
    Alive { o with server := o.server.cleanSessions now } := by
  refine h.silent rfl h.loop ?_
  intro hopen entry' hentry'
  obtain ⟨entry, hentry, rfl⟩ := Option.map_eq_some_iff.mp hentry'
  have hcurrent : o.current = some entry.live := by
    unfold current
    rw [hentry]
    rfl
  simp only [hkept _ hcurrent, Bool.and_false, Bool.false_eq_true, if_false]
  exact h.healthy hopen _ hcurrent

theorem alive_of_reachable (h : handshakeSystem.ReachableBy Undisturbed o) : o.Alive := by
  refine System.ReachableBy.invariant (fun _ => alive_of_isInitial) ?_ h
  intro o event o' halive hguard hnext
  cases event with
  | client event =>
    obtain ⟨⟨client, packets⟩, hstep, rfl⟩ := Option.map_eq_some_iff.mp hnext
    exact halive.client hstep
  | reply p block =>
    obtain ⟨-, hnext⟩ := Option.ite_none_right_eq_some.mp hnext
    obtain ⟨client, hreceive, rfl⟩ := Option.map_eq_some_iff.mp hnext
    exact halive.reply hreceive
  | arrive addr now answer p block =>
    obtain ⟨hp, hnext⟩ := Option.ite_none_right_eq_some.mp hnext
    refine halive.read ?_ ?_ hnext
    · intro hopen _
      exact halive.sent hopen p hp
    · intro _
      exact hguard.registered addr now answer p block rfl
  | other addr now answer seg =>
    obtain ⟨hother, hnext⟩ := Option.ite_none_left_eq_some.mp hnext
    exact halive.read (fun _ h => absurd h hother) (fun h => absurd h hother) hnext
  | pass =>
    obtain ⟨server, hpass, rfl⟩ := Option.map_eq_some_iff.mp hnext
    exact halive.pass hpass
  | act id event =>
    obtain ⟨⟨server, packets⟩, hact, rfl⟩ := Option.map_eq_some_iff.mp hnext
    refine halive.act ?_ hact
    rintro rfl
    exact hguard.untroubled event rfl
  | clean now =>
    simp only [handshakeSystem, System.ofNext, next] at hnext
    split at hnext
    · cases hnext
      exact halive.clean (hguard.kept now rfl)
    · cases hnext

/--
In a run in which data and acknowledgements arrive while the server has the
session registered and neither side closes it, the session of the server stays
open and the server sends no close session request for it.
-/
theorem reordering_keeps_session (h : handshakeSystem.ReachableBy Undisturbed o)
    (hopen : o.client.session.closeRequested = false) :
    (∀ l, o.current = some l → l.session.closeRequested = false) ∧
      ∀ p ∈ o.replies, p.metadata.protocol ≠ closeSessionRequest := by
  have halive := alive_of_reachable h
  exact ⟨fun l hl => (halive.healthy hopen l hl).isOpen, halive.replies hopen⟩

/-- The data segment of a second `Write`. -/
def dataDatagram : Packet where
  metadata := .dataAck {
    protocol := dataClientToServer
    sessionID := 1
    seq := 1
    unAckSeq := 0
    windowSize := 16
    fragment := 0
    payloadLen := 1 }
  payload := [4]

def sendRequestAndData : List HandshakeEvent :=
  sendRequest ++ [HandshakeEvent.client (.write [4])] ++ List.replicate 3
      (HandshakeEvent.client (.writer (Env.calm .fallback))) ++
    List.replicate 9 (HandshakeEvent.client (.output calmEnv))

def checkUndisturbed (o : Handshake) : HandshakeEvent → Bool
  | .arrive _ _ _ p _ => !isDataAckProtocol p.metadata.protocol ||
      o.server.found p.metadata.sessionID
  | .act _ (.input env) => env.quota == .ok true
  | .act .. | .clean _ => false
  | _ => true

theorem undisturbed_of_check (o : Handshake) (event : HandshakeEvent)
    (h : o.checkUndisturbed event = true) : o.Undisturbed event where
  registered := by
    rintro addr now answer p block rfl hprotocol
    simpa [checkUndisturbed, hprotocol] using h
  untroubled := by
    rintro e rfl l -
    cases e with
    | input env =>
      refine ⟨by simp, by simp, by simp, ?_⟩
      rintro env' heq
      cases heq
      exact beq_iff_eq.mp h
    | _ => cases h
  kept := by
    rintro now rfl
    cases h

structure Exchange where
  sent : List Packet
  replies : List Packet
  received : List Segment
  clientOpen : Bool
  deriving DecidableEq

def exchange (o : Handshake) : Exchange where
  sent := o.sent
  replies := o.replies
  received := o.current.toList.flatMap fun l => l.session.recvQueue.items
  clientOpen := !o.client.session.closeRequested

/-- Both datagrams arrive in order, and the server's session takes them in. -/
theorem reordering_keeps_session_inOrder :
    ∃ o, handshakeSystem.ReachableBy Undisturbed o ∧ o.exchange =
        ⟨[openingDatagram, dataDatagram], [],
          [openingDatagram.received none, dataDatagram.received none], true⟩ ∧
      (∀ l, o.current = some l → l.session.closeRequested = false) ∧
      ∀ p ∈ o.replies, p.metadata.protocol ≠ closeSessionRequest := by
  obtain ⟨o, hreachable, hexchange, hopen⟩ : ∃ o, handshakeSystem.ReachableBy Undisturbed o ∧
      o.exchange = ⟨[openingDatagram, dataDatagram], [],
        [openingDatagram.received none, dataDatagram.received none], true⟩ ∧
      o.client.session.closeRequested = false :=
    System.exists_reachableBy undisturbed_of_check isInitial_newHandshake
      (sendRequestAndData ++ [HandshakeEvent.arrive "" 0 .sent openingDatagram none] ++
        List.replicate 5 (HandshakeEvent.act 1 (.input calmEnv)) ++
        [HandshakeEvent.arrive "" 0 .sent dataDatagram none, .pass] ++
        List.replicate 7 (HandshakeEvent.act 1 (.input calmEnv))) (by decide +kernel)
  exact ⟨o, hreachable, hexchange, reordering_keeps_session hreachable hopen⟩

def closingReply : Packet where
  metadata := .session {
    protocol := closeSessionRequest
    sessionID := 1 }
  payload := []

/--
The data segment overtakes the open session request.  The server answers it
with a close session request, although nobody has closed the session.
-/
theorem reordering_kills_session : ∃ o, handshakeSystem.Reachable o ∧ o.exchange =
      ⟨[openingDatagram, dataDatagram], [closingReply], [], true⟩ := by
  exact System.exists_reachable isInitial_newHandshake (sendRequestAndData ++
    [.arrive "" 0 .sent dataDatagram (some { key := [1] })]) (by decide +kernel)

end Handshake

end Mieru.Protocol
