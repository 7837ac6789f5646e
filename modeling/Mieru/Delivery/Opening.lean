import Mieru.Delivery.Datagram
import Mieru.Delivery.Sending
import Mieru.Underlay.EventLoop

/-!
# Opening a session over datagrams

A client session, the packet underlay of the server and a network between them
that loses, duplicates, delays and reorders the datagrams of the session.  The
server may have any other sessions; segments with other session IDs may come
from anywhere.

The server recognises an open session request by its session map alone.  So a
request that arrives after the session was removed opens a second one.
-/

namespace Mieru.Protocol

open Mieru.Foundation
open Mieru.Cipher
open ProtocolType

variable {packets : List Packet} {server : Underlay} {now : Int}

structure Handshake where
  client : LiveSession
  sent : List Packet := []
  server : Underlay
  replies : List Packet := []
  earlier : List LiveSession := []

inductive HandshakeEvent where
  | client (event : SessionEvent)
  | reply (p : Packet) (block : Option BlockCipher)
  | arrive (addr : Addr) (now : Int) (answer : WriteAnswer) (p : Packet)
      (block : Option BlockCipher)
  /-- A segment of another session reaches the server. -/
  | other (addr : Addr) (now : Int) (answer : WriteAnswer) (seg : Segment)
  | pass
  | act (id : UInt32) (event : SessionEvent)
  | clean (now : Int)

namespace Handshake

def id (o : Handshake) : UInt32 := o.client.session.id

def current (o : Handshake) : Option LiveSession :=
  (o.server.sessions o.id).map SessionEntry.live

def created (o : Handshake) : List LiveSession := o.earlier ++ o.current.toList

def handed (o : Handshake) : Bytes :=
  o.created.flatMap fun l => l.session.history.read

def replaced (o : Handshake) (seg : Segment) : List LiveSession :=
  match o.server.handling seg with
  | .create id => if id = o.id then o.current.toList else []
  | _ => []

def read (o : Handshake) (addr : Addr) (now : Int) (answer : WriteAnswer)
    (seg : Segment) : Option Handshake :=
  match o.server.loop with
  | .reading =>
    match o.server.handle addr now answer seg with
    | (server, packets) => some { o with
        server := server
        replies := o.replies ++ packets.filter fun p => p.metadata.sessionID == o.id
        earlier := o.earlier ++ o.replaced seg }
  | _ => none

def next (o : Handshake) : HandshakeEvent → Option Handshake
  | .client event =>
    (o.client.step event).map fun (client, packets) =>
      { o with client := client, sent := o.sent ++ packets }
  | .reply p block =>
    if p ∈ o.replies then
      (o.client.receive (p.received block)).map fun client =>
        { o with client := client }
    else none
  | .arrive addr now answer p block =>
    if p ∈ o.sent then o.read addr now answer (p.received block) else none
  | .other addr now answer seg =>
    if seg.sessionID = o.id then none else o.read addr now answer seg
  | .pass => o.server.pass.map fun server => { o with server := server }
  | .act id event =>
    (o.server.act id event).map fun (server, packets) =>
      { o with
        server := server
        replies := if id = o.id then o.replies ++ packets else o.replies }
  | .clean now =>
    match o.server.loop with
    | .reading => some { o with server := o.server.cleanSessions now }
    | _ => none

def IsInitial (o : Handshake) : Prop :=
  (∃ id mtu addr now, o.client = { session := Session.new id true mtu .packetTransport addr now }) ∧
  o.server.transport = .packetTransport ∧ o.server.isClient = false ∧
  o.server.loop = .reading ∧ o.server.sessions o.id = none ∧
  o.sent = [] ∧ o.replies = [] ∧ o.earlier = []

end Handshake

def handshakeSystem : System Handshake HandshakeEvent :=
  System.ofNext Handshake.IsInitial Handshake.next

namespace Handshake

variable {o : Handshake} {l : LiveSession}

def pair (o : Handshake) (l : LiveSession) : DatagramPair where
  session := fun
    | .client => o.client
    | .server => l
  sent := fun
    | .client => o.sent
    | .server => o.replies

theorem pair_replace_client {client : LiveSession} : (o.pair l).replace .client client packets =
      { o with client := client, sent := o.sent ++ packets }.pair l := by
  unfold pair DatagramPair.replace
  congr 1
  · funext side
    cases side <;> simp [Function.update]
  · funext side
    cases side <;> simp [Function.update]

theorem pair_replace_server {live : LiveSession} : (o.pair l).replace .server live packets =
      { o with replies := o.replies ++ packets }.pair live := by
  unfold pair DatagramPair.replace
  congr 1
  · funext side
    cases side <;> simp [Function.update]
  · funext side
    cases side <;> simp [Function.update]

def newSession (o : Handshake) (addr : Addr) (now : Int) : LiveSession where
  session := Session.new o.id false o.server.mtu .packetTransport addr now

/--
The server's side of the pair: its session, or any new session as long as it
has none.
-/
def IsSide (o : Handshake) (l : LiveSession) : Prop :=
  match o.server.sessions o.id with
  | some entry => l = entry.live
  | none => ∃ addr now, l = o.newSession addr now

theorem exists_isSide (o : Handshake) : ∃ l, o.IsSide l := by
  unfold IsSide
  cases o.server.sessions o.id with
  | none => exact ⟨_, "", 0, rfl⟩
  | some entry => exact ⟨entry.live, rfl⟩

structure Inv (o : Handshake) : Prop where
  packet : o.server.transport = .packetTransport
  isServer : o.server.isClient = false
  loop : ∀ seg, o.server.loop = .sending o.id seg → ∃ p ∈ o.sent, ∃ block, seg = p.received block
  pair : ∀ l, o.IsSide l → (o.pair l).Inv
  earlier : o.earlier = []

/--
An open session request arrives before the server has had the session, or
while it is registered.
-/
def Remembered (o : Handshake) (event : HandshakeEvent) : Prop :=
  ∀ addr now answer p block, event = .arrive addr now answer p block →
    p.metadata.protocol = openSessionRequest →
    o.server.sessions p.metadata.sessionID = none ∨ o.server.found p.metadata.sessionID = true

theorem inv_of_isInitial (h : o.IsInitial) : o.Inv := by
  obtain ⟨⟨id, mtu, addr, now, hclient⟩, htransport, hserver, hloop, hnone,
    hsent, hreplies, hearlier⟩ := h
  refine ⟨htransport, hserver, ?_, ?_, hearlier⟩
  · intro seg hsending
    cases hloop.symm.trans hsending
  · intro l hside
    unfold IsSide at hside
    rw [hnone] at hside
    obtain ⟨addr', now', rfl⟩ := hside
    have hid : o.id = id := by
      unfold Handshake.id
      rw [hclient]
      rfl
    refine DatagramPair.inv_of_isInitial ⟨id,
      fun side => if side = .client then mtu else o.server.mtu,
      fun side => if side = .client then addr else addr',
      fun side => if side = .client then now else now', ?_⟩
    unfold pair newSession
    rw [hclient, hsent, hreplies, hid]
    congr 1
    · funext side
      cases side <;> rfl
    · funext side
      cases side <;> rfl

end Handshake

theorem DatagramPair.Inv.extend {pair : DatagramPair} {side : Side} (h : pair.Inv)
    (hcontrol : ∀ p ∈ packets, ∀ nextRecv, p.IsControl nextRecv) :
    (pair.replace side (pair.session side) packets).Inv := by
  refine h.replace (h.wellFormed side) (Session.Keeps.refl _) fun hfits => ?_
  have hdelivers := h.delivers (fits_of_replace hfits List.prefix_rfl)
  exact hdelivers.replace List.prefix_rfl (UInt32.le_refl _) (hdelivers.send side)
    (fun p hp => (hcontrol p hp _).genuine _) (hdelivers.recv side)

namespace Handshake

variable {o : Handshake} {l : LiveSession}

theorem Inv.client_wellFormed (h : o.Inv) : o.client.WellFormed := by
  obtain ⟨l, hside⟩ := o.exists_isSide
  exact (h.pair l hside).wellFormed .client

theorem Inv.setClient {client : LiveSession} (h : o.Inv)
    (hid : client.session.id = o.client.session.id)
    (hpair : ∀ l, (o.pair l).Inv → ((o.pair l).replace .client client packets).Inv) :
    Inv { o with client := client, sent := o.sent ++ packets } := by
  refine ⟨h.packet, h.isServer, ?_, ?_, h.earlier⟩
  · intro seg hloop
    unfold Handshake.id at hloop
    rw [hid] at hloop
    obtain ⟨p, hp, hseg⟩ := h.loop seg hloop
    exact ⟨p, List.mem_append_left _ hp, hseg⟩
  · intro l hside
    unfold IsSide newSession Handshake.id at hside
    rw [hid] at hside
    have hold : o.IsSide l := hside
    rw [← pair_replace_client]
    exact hpair l (h.pair l hold)

theorem Inv.client {event : SessionEvent} {client : LiveSession} (h : o.Inv)
    (hstep : o.client.step event = some (client, packets)) :
    Inv { o with client := client, sent := o.sent ++ packets } := by
  have hfollows := LiveSession.step_follows h.client_wellFormed hstep
  refine h.setClient hfollows.1.keeps.sameID ?_
  intro l hinv
  exact hinv.act hstep

theorem Inv.reply {p : Packet} {block : Option BlockCipher} {client : LiveSession} (h : o.Inv)
    (hp : p ∈ o.replies) (hreceive : o.client.receive (p.received block) = some client) :
    Inv { o with client := client } := by
  have hkeeps := (LiveSession.receive_spec h.client_wellFormed hreceive).2.1
  have hinv : Inv { o with client := client, sent := o.sent ++ [] } := by
    refine h.setClient hkeeps.sameID ?_
    intro l hinv
    exact hinv.deliver hp hreceive
  rwa [List.append_nil] at hinv

theorem Inv.elsewhere (h : o.Inv) (hrole : o.server.SameRole server)
    (hsame : server.sessions o.id = o.server.sessions o.id)
    (hloop : ∀ seg, server.loop = .sending o.id seg →
      ∃ p ∈ o.sent, ∃ block, seg = p.received block) : Inv { o with server := server } := by
  refine ⟨hrole.transport.trans h.packet, hrole.isClient.trans h.isServer, hloop, ?_, h.earlier⟩
  intro l hside
  refine h.pair l ?_
  unfold IsSide newSession Handshake.id at hside ⊢
  rw [hrole.mtu] at hside
  unfold Handshake.id at hsame
  rwa [hsame] at hside

theorem Inv.setServer {entry : SessionEntry} (h : o.Inv) (hrole : o.server.SameRole server)
    (hentry : server.sessions o.id = some entry)
    (hpair : ((o.pair l).replace .server entry.live packets).Inv)
    (hloop : ∀ seg, server.loop = .sending o.id seg →
      ∃ p ∈ o.sent, ∃ block, seg = p.received block) :
    Inv { o with server := server, replies := o.replies ++ packets } := by
  refine ⟨hrole.transport.trans h.packet, hrole.isClient.trans h.isServer, hloop, ?_, h.earlier⟩
  intro other hside
  unfold IsSide Handshake.id at hside
  unfold Handshake.id at hentry
  rw [hentry] at hside
  rw [pair_replace_server] at hpair
  rw [hside]
  exact hpair

theorem Inv.extend (h : o.Inv) (hcontrol : ∀ p ∈ packets, ∀ nextRecv, p.IsControl nextRecv) :
    Inv { o with replies := o.replies ++ packets } := by
  refine ⟨h.packet, h.isServer, h.loop, ?_, h.earlier⟩
  intro l hside
  rw [← pair_replace_server (l := l)]
  exact (h.pair l hside).extend hcontrol

theorem Inv.create {addr : Addr} {seg : Segment} (h : o.Inv) (hnone : o.server.sessions o.id = none)
    (hloop : o.server.loop = .reading) (hsource : ∃ p ∈ o.sent, ∃ block, seg = p.received block) :
    Inv { o with
      server := o.server.setSession o.id {
        live := o.server.openedSession o.id addr now seg } } := by
  obtain ⟨p, hp, block, rfl⟩ := hsource
  have hside : o.IsSide (o.newSession addr now) := by
    unfold IsSide
    rw [hnone]
    exact ⟨addr, now, rfl⟩
  have hreceive : (o.newSession addr now).receive (p.received block) =
      some (o.server.openedSession o.id addr now (p.received block)) := by
    unfold LiveSession.receive newSession Underlay.openedSession
    rw [h.packet]
    rfl
  have hinv : Inv { o with
      server := o.server.setSession o.id
        { live := o.server.openedSession o.id addr now (p.received block) }
      replies := o.replies ++ [] } := by
    refine h.setServer ⟨rfl, rfl, rfl⟩ (SessionMap.set_self ..)
      ((h.pair _ hside).deliver hp hreceive) ?_
    intro seg hsending
    cases hloop.symm.trans hsending
  rwa [List.append_nil] at hinv

theorem Inv.read {addr : Addr} {answer : WriteAnswer} {seg : Segment} (h : o.Inv)
    (hsource : seg.sessionID = o.id → ∃ p ∈ o.sent, ∃ block, seg = p.received block)
    (hopen : seg.sessionID = o.id → seg.protocol = openSessionRequest →
      o.server.sessions seg.sessionID = none ∨ o.server.found seg.sessionID = true)
    (hread : o.read addr now answer seg = some o') : o'.Inv := by
  unfold Handshake.read at hread
  split at hread
  · rename_i hloop
    have hidle : ∀ other, o.server.loop ≠ .sending o.id other := by
      intro other hsending
      cases hloop.symm.trans hsending
    have hdecides := o.server.handling_decides seg
    cases hdecision : o.server.handling seg with
    | deliver id =>
      simp only [Underlay.handle, hdecision, replaced, List.filter_nil, List.append_nil] at hread
      rw [hdecision] at hdecides
      cases hread
      refine h.elsewhere ⟨rfl, rfl, rfl⟩ rfl ?_
      intro other hsending
      cases hsending
      exact hsource hdecides.1.symm
    | create id =>
      rw [hdecision] at hdecides
      obtain ⟨hid, hfound, hprotocol, -, -⟩ := hdecides
      simp only [Underlay.handle, hdecision, replaced, List.filter_nil, List.append_nil] at hread
      by_cases hsame : id = o.id
      · subst hsame
        have hnone : o.server.sessions o.id = none := by
          rw [← hid] at hopen
          refine (hopen rfl hprotocol).resolve_right ?_
          simp [hfound]
        have hcurrent : o.current = none := by
          unfold current
          rw [hnone]
          rfl
        simp only [hcurrent, Option.toList_none, if_true, List.append_nil] at hread
        cases hread
        exact h.create hnone hloop (hsource hid.symm)
      · simp only [if_neg hsame, List.append_nil] at hread
        cases hread
        refine h.elsewhere ⟨rfl, rfl, rfl⟩ (SessionMap.set_of_ne _ _ (Ne.symm hsame)) ?_
        intro other hsending
        exact absurd hsending (hidle other)
    | requestClose reply =>
      obtain ⟨das, block, rfl⟩ := Underlay.requestClose_eq hdecision
      cases answer with
      | sent =>
        simp only [Underlay.handle, hdecision, replaced, List.append_nil] at hread
        cases hread
        refine h.extend ?_
        intro p hp nextRecv
        have hreply := List.mem_singleton.mp (List.mem_filter.mp hp).1
        rw [hreply]
        refine ⟨rfl, ?_⟩
        intro das' hdas
        cases hdas
      | notReady | failed =>
        simp only [Underlay.handle, hdecision, replaced, List.filter_nil, List.append_nil] at hread
        cases hread
        exact h.elsewhere ⟨rfl, rfl, rfl⟩ rfl (by simp)
    | ignore =>
      simp only [Underlay.handle, hdecision, replaced, List.filter_nil, List.append_nil] at hread
      cases hread
      exact h
    | fail err =>
      simp only [Underlay.handle, hdecision, replaced, List.filter_nil, List.append_nil] at hread
      cases hread
      exact h.elsewhere ⟨rfl, rfl, rfl⟩ rfl (by simp)
  · cases hread

theorem Inv.pass (h : o.Inv)
    (hpass : o.server.pass = some server) : Inv { o with server := server } := by
  obtain ⟨id, seg, entry, live, hloop, hentry, hreceive, rfl⟩ := Underlay.pass_eq_some hpass
  by_cases hid : id = o.id
  · subst hid
    obtain ⟨p, hp, block, rfl⟩ := h.loop seg hloop
    have hside : o.IsSide entry.live := by
      unfold IsSide
      rw [hentry]
    have hinv : Inv { o with
        server := { o.server.setSession o.id { entry with live := live } with
          loop := .reading }
        replies := o.replies ++ [] } :=
      h.setServer ⟨rfl, rfl, rfl⟩ (SessionMap.set_self ..)
        ((h.pair _ hside).deliver hp hreceive) (by simp)
    rwa [List.append_nil] at hinv
  · exact h.elsewhere ⟨rfl, rfl, rfl⟩ (SessionMap.set_of_ne _ _ (Ne.symm hid)) (by simp)

theorem Inv.act {id : UInt32} {event : SessionEvent} (h : o.Inv)
    (hact : o.server.act id event = some (server, packets)) : Inv { o with
      server := server
      replies := if id = o.id then o.replies ++ packets else o.replies } := by
  obtain ⟨entry, live, hentry, hstep, rfl⟩ := Underlay.act_eq_some hact
  by_cases hid : id = o.id
  · subst hid
    rw [if_pos rfl]
    have hside : o.IsSide entry.live := by
      unfold IsSide
      rw [hentry]
    exact h.setServer ⟨rfl, rfl, rfl⟩ (SessionMap.set_self ..) ((h.pair _ hside).act hstep) h.loop
  · rw [if_neg hid]
    exact h.elsewhere ⟨rfl, rfl, rfl⟩ (SessionMap.set_of_ne _ _ (Ne.symm hid)) h.loop

theorem Inv.clean (h : o.Inv) (hloop : o.server.loop = .reading) :
    Inv { o with server := o.server.cleanSessions now } := by
  have hidle : ∀ seg, (o.server.cleanSessions now).loop = .sending o.id seg →
      ∃ p ∈ o.sent, ∃ block, seg = p.received block := by
    intro seg hsending
    cases hloop.symm.trans hsending
  cases hentry : o.server.sessions o.id with
  | none =>
    refine h.elsewhere ⟨rfl, rfl, rfl⟩ ?_ hidle
    simp [Underlay.cleanSessions, hentry]
  | some entry =>
    have hafter : (o.server.cleanSessions now).sessions o.id = some (if entry.registered &&
            o.server.mustClean now entry.live.session then
          Underlay.removeSession entry else entry) := by
      simp [Underlay.cleanSessions, hentry]
    split at hafter
    · have hside : o.IsSide entry.live := by
        unfold IsSide
        rw [hentry]
      have hclosed : (entry.live.step .close) =
          some ((Underlay.removeSession entry).live, []) := rfl
      have hinv : Inv { o with
          server := o.server.cleanSessions now
          replies := o.replies ++ [] } :=
        h.setServer ⟨rfl, rfl, rfl⟩ hafter ((h.pair _ hside).act hclosed) hidle
      rwa [List.append_nil] at hinv
    · exact h.elsewhere ⟨rfl, rfl, rfl⟩ (hafter.trans hentry.symm) hidle

theorem inv_of_reachable (h : handshakeSystem.ReachableBy Remembered o) : o.Inv := by
  refine System.ReachableBy.invariant (fun _ => inv_of_isInitial) ?_ h
  intro o event o' hinv hguard hnext
  cases event with
  | client event =>
    obtain ⟨⟨client, packets⟩, hstep, rfl⟩ := Option.map_eq_some_iff.mp hnext
    exact hinv.client hstep
  | reply p block =>
    simp only [handshakeSystem, System.ofNext, next] at hnext
    split at hnext
    · obtain ⟨client, hreceive, rfl⟩ := Option.map_eq_some_iff.mp hnext
      exact hinv.reply ‹_› hreceive
    · cases hnext
  | arrive addr now answer p block =>
    obtain ⟨hp, hnext⟩ := Option.ite_none_right_eq_some.mp hnext
    exact hinv.read (fun _ => ⟨p, hp, block, rfl⟩)
      (fun _ => hguard addr now answer p block rfl) hnext
  | other addr now answer seg =>
    obtain ⟨hother, hnext⟩ := Option.ite_none_left_eq_some.mp hnext
    exact hinv.read (fun h => absurd h hother) (fun h => absurd h hother) hnext
  | pass =>
    obtain ⟨server, hpass, rfl⟩ := Option.map_eq_some_iff.mp hnext
    exact hinv.pass hpass
  | act id event =>
    obtain ⟨⟨server, packets⟩, hact, rfl⟩ := Option.map_eq_some_iff.mp hnext
    exact hinv.act hact
  | clean now =>
    simp only [handshakeSystem, System.ofNext, next] at hnext
    split at hnext
    · cases hnext
      exact hinv.clean ‹_›
    · cases hnext

def Fits (o : Handshake) : Prop :=
  o.client.session.history.queued.length ≤ 4294967295 ∧
    ∀ l ∈ o.created, l.session.history.queued.length ≤ 4294967295

/--
In a run in which open session requests arrive before the server has had the
session or while it is registered, the server creates at most one session, and
its application reads a part of what was written to the client session, in
order and without repetition.
-/
theorem opened_at_most_once (h : handshakeSystem.ReachableBy Remembered o) : o.created.length ≤ 1 ∧
      (o.Fits → o.handed <+: loggedBytes o.client.session.history.queued) := by
  have hinv := inv_of_reachable h
  have hcreated : o.created = o.current.toList := by
    unfold created
    rw [hinv.earlier]
    rfl
  refine ⟨?_, ?_⟩
  · rw [hcreated]
    cases o.current <;> simp
  · intro hfits
    unfold handed
    unfold Fits at hfits
    rw [hcreated] at hfits ⊢
    cases hentry : o.server.sessions o.id with
    | none => simp [current, hentry]
    | some entry =>
      have hside : o.IsSide entry.live := by
        unfold IsSide
        rw [hentry]
      have hpair : (o.pair entry.live).Fits := by
        intro side
        cases side with
        | client => exact hfits.1
        | server => exact hfits.2 entry.live (by simp [current, hentry])
      have hrecv := ((hinv.pair _ hside).delivers hpair).recv .server
      simp only [current, hentry, Option.map_some, Option.toList_some,
        List.flatMap_cons, List.flatMap_nil, List.append_nil]
      exact hrecv.read_isPrefix

def newHandshake : Handshake where
  client := { session := Session.new 1 true 1400 .packetTransport "" 0 }
  server := { transport := .packetTransport, isClient := false, mtu := 1400 }

theorem isInitial_newHandshake : newHandshake.IsInitial :=
  ⟨⟨_, _, _, _, rfl⟩, rfl, rfl, rfl, rfl, rfl, rfl, rfl⟩

def arriveAndRead (now : Int) : List HandshakeEvent :=
  [HandshakeEvent.arrive "" now .sent openingDatagram none] ++
    List.replicate 5 (HandshakeEvent.act 1 (.input { calmEnv with now := now })) ++
    [HandshakeEvent.act 1 (.read 10)] ++ List.replicate 3 (HandshakeEvent.act 1 (.reader calmEnv))

def sendRequest : List HandshakeEvent :=
  [HandshakeEvent.client (.write [7, 8, 9])] ++
    List.replicate 8 (HandshakeEvent.client (.output calmEnv))

def report (o : Handshake) : Nat × Bytes × List Packet :=
  (o.created.length, o.handed, o.sent)

def checkEvent (o : Handshake) : HandshakeEvent → Bool
  | .arrive _ _ _ p _ =>
    (o.server.sessions p.metadata.sessionID).isNone ||
      o.server.found p.metadata.sessionID
  | _ => true

theorem remembered_of_checkEvent (o : Handshake) (event : HandshakeEvent)
    (h : o.checkEvent event = true) : o.Remembered event := by
  rintro addr now answer p block rfl _
  simpa [checkEvent] using h

/-- The request arrives twice while the session is registered. -/
theorem opened_at_most_once_twice : ∃ o, handshakeSystem.ReachableBy Remembered o ∧
      o.report = (1, [7, 8, 9], [openingDatagram]) ∧ o.created.length ≤ 1 ∧
      (o.Fits → o.handed <+: loggedBytes o.client.session.history.queued) := by
  obtain ⟨o, hreachable, hreport⟩ : ∃ o, handshakeSystem.ReachableBy Remembered o ∧
      o.report = (1, [7, 8, 9], [openingDatagram]) :=
    System.exists_reachableBy remembered_of_checkEvent isInitial_newHandshake
      (sendRequest ++ arriveAndRead 0 ++ [.arrive "" 0 .sent openingDatagram none])
      (by decide +kernel)
  exact ⟨o, hreachable, hreport, opened_at_most_once hreachable⟩

/--
The answers of the server are lost.  After a minute the server removes the
session, and the client's next retransmission opens it again.
-/
theorem opened_twice : ∃ o, handshakeSystem.Reachable o ∧ o.report =
      (2, [7, 8, 9, 7, 8, 9], [openingDatagram, openingDatagram]) := by
  exact System.exists_reachable isInitial_newHandshake
    (sendRequest ++ arriveAndRead 0 ++ [HandshakeEvent.clean 61000000] ++ List.replicate 2
      (HandshakeEvent.client (.output { calmEnv with now := 61000000 })) ++
      arriveAndRead 61000000) (by decide +kernel)

end Handshake

end Mieru.Protocol
