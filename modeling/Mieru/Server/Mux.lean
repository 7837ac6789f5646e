import Mieru.Underlay.PacketRun
import Mieru.Underlay.StreamRead

/-!
# The server multiplexer

`Mux` on a server: its listening endpoints, and the underlays that it makes for
them.  A packet underlay copies the users when it is made and is known to the
mux only some steps later; a stream underlay copies them when its connection is
accepted.  Each goroutine takes one step at a time, and what `readOneSegment`
returns is handled in a later step.
-/

namespace Mieru.Protocol

open Mieru.Foundation
open Mieru.Cipher

variable {now : Int} {index : Nat}

structure UnderlayProperties where
  mtu : Nat
  transportProtocol : TransportProtocol
  localAddr : Addr
  deriving DecidableEq, Repr

def Underlay.openings (u : Underlay) (seg : Segment) : List Opening :=
  match u.handling seg with
  | .create id => [⟨id, seg.userName⟩]
  | _ => []

structure PacketServer where
  underlay : PacketUnderlay
  held : Option (Addr × Segment) := none
  halted : Bool := false

structure StreamServer where
  input : StreamInput
  base : Underlay
  remoteAddr : Addr
  /-- Whether it was accepted after the users were last set. -/
  current : Bool := true
  halted : Bool := false

structure Mux where
  endpoints : List UnderlayProperties := []
  used : Bool := false
  done : Bool := false
  acceptHasErr : Bool := false
  users : List User := []
  userHintIsMandatory : Bool := false
  streamListeners : List UnderlayProperties := []
  packetListeners : List UnderlayProperties := []
  made : List PacketUnderlay := []
  packets : List PacketServer := []
  streams : List StreamServer := []
  /--
  The sessions that open session requests have created since the users were
  last set, without those of the stream underlays that were there before.
  -/
  opened : List Opening := []

inductive MuxTask where
  | makePacket (p : UnderlayProperties)
  | addPacket (index : Nat)
  | acceptStream (p : UnderlayProperties) (remoteAddr : Addr)
  | dropPacket (index : Nat)
  | dropStream (index : Nat)
  | packetRead (index : Nat) (cache : ReplayCache) (order : List UInt32) (now : Int) (d : Datagram)
  | packetHandle (index : Nat) (now : Int) (answer : WriteAnswer)
  | packet (index : Nat) (event : UnderlayEvent)
  | streamArrive (index : Nat) (bytes : Bytes)
  | streamRead (index : Nat) (cache : ReplayCache) (now : Int) (answer : WriteAnswer)
  | stream (index : Nat) (event : UnderlayEvent)

/-- `listens` says on which endpoints the system lets the mux listen. -/
inductive MuxEvent where
  | setEndpoints (endpoints : List UnderlayProperties) (listens : UnderlayProperties → Bool)
  | setServerUsers (users : List User)
  | setServerUserHintIsMandatory (userHintIsMandatory : Bool)
  | start (listens : UnderlayProperties → Bool)
  | close
  | task (task : MuxTask)

section

variable (crypto : Crypto) (keys : Int → Bytes → List Bytes)

namespace PacketServer

def setBase (p : PacketServer) (base : Underlay) : PacketServer :=
  { p with underlay := { p.underlay with base := base } }

def read (p : PacketServer) (cache : ReplayCache) (order : List UInt32)
    (now : Int) (d : Datagram) : Option PacketServer :=
  match p.underlay.base.loop, p.held, p.halted with
  | .reading, none, false =>
    match (p.underlay.readOneSegment crypto (keys now) cache order now d).1
    with
    | .ok none => some p
    | .ok (some seg) => some { p with held := some (d.addr, seg) }
    | _ => some { p with halted := true }
  | _, _, _ => none

def handle (p : PacketServer) (now : Int) (answer : WriteAnswer) :
    Option (PacketServer × List Opening) :=
  match p.held with
  | some (addr, seg) =>
    some ({ p.setBase (p.underlay.base.handle addr now answer seg).1 with
      held := none }, p.underlay.base.openings seg)
  | none => none

def next (p : PacketServer) : UnderlayEvent → Option PacketServer
  | .read _ _ _ _ => none
  | .clean now =>
    if p.held.isSome then none
    else (p.underlay.base.next (.clean now)).map p.setBase
  | event => (p.underlay.base.next event).map p.setBase

end PacketServer

namespace StreamServer

def arrive (s : StreamServer) (bytes : Bytes) : StreamServer :=
  { s with input := { s.input with conn := s.input.conn ++ [bytes] } }

def read (s : StreamServer) (cache : ReplayCache) (now : Int)
    (answer : WriteAnswer) : Option (StreamServer × List Opening) :=
  match s.base.loop, s.halted with
  | .reading, false =>
    match ({ s.input with cache := cache }.readOneSegment crypto (keys now) now).outcome with
    | .ok (none, input) => some ({ s with input := input }, [])
    | .ok (some seg, input) =>
      some ({ s with
        input := input
        base := (s.base.handle s.remoteAddr (now / 1000) answer seg).1 },
        if s.current then s.base.openings seg else [])
    | _ => some ({ s with halted := true }, [])
  | _, _ => none

def next (s : StreamServer) : UnderlayEvent → Option StreamServer
  | .read _ _ _ _ => none
  | event => (s.base.next event).map fun base => { s with base := base }

end StreamServer

namespace Mux

def newEndpoints (old new : List UnderlayProperties) : List UnderlayProperties :=
  new.filter fun n => !old.contains n

/-- `acceptUnderlayLoop` up to the point where its caller goes on. -/
def acceptUnderlayLoop (listens : UnderlayProperties → Bool) (m : Mux)
    (p : UnderlayProperties) : Mux :=
  if p.localAddr = "" ∨ listens p = false then { m with acceptHasErr := true }
  else
    match p.transportProtocol with
    | .streamTransport =>
      { m with streamListeners := m.streamListeners ++ [p] }
    | .packetTransport =>
      { m with packetListeners := m.packetListeners ++ [p] }

def listen (m : Mux) (listens : UnderlayProperties → Bool)
    (endpoints : List UnderlayProperties) : Mux :=
  endpoints.foldl (acceptUnderlayLoop listens) m

def setEndpoints (m : Mux) (endpoints : List UnderlayProperties)
    (listens : UnderlayProperties → Bool) : Mux :=
  let new := newEndpoints m.endpoints endpoints
  if new = [] then m
  else if m.used then
    if m.done then m
    else { m.listen listens new with endpoints := endpoints }
  else { m with endpoints := new }

/-- The packet underlays in `underlays` get the users, others do not. -/
def setServerUsers (m : Mux) (users : List User) : Mux :=
  { m with
    users := users
    packets :=
      if m.used then
        m.packets.map fun p => { p with underlay :=
          { p.underlay with users := users } }
      else m.packets
    streams := m.streams.map fun s => { s with current := false }
    opened := [] }

def setServerUserHintIsMandatory (m : Mux) (userHintIsMandatory : Bool) : Mux :=
  { m with userHintIsMandatory := userHintIsMandatory }

def start (m : Mux) (listens : UnderlayProperties → Bool) : Outcome String Mux :=
  if m.users = [] then .error "no user found"
  else if m.endpoints = [] then .error "no server listening endpoint found"
  else if m.endpoints.any (·.localAddr == "") then
    .error "endpoint local address is not set"
  else .ok ({ m with used := true }.listen listens m.endpoints)

def close (m : Mux) : Mux :=
  if m.done then m
  else { m with packets := [], streams := [], streamListeners := [], done := true }

def packetUnderlay (m : Mux) (p : UnderlayProperties) : PacketUnderlay where
  base := { transport := .packetTransport, isClient := false, mtu := p.mtu }
  users := m.users
  userHintIsMandatory := m.userHintIsMandatory

def streamServer (m : Mux) (p : UnderlayProperties) (remoteAddr : Addr)
    (cache : ReplayCache) : StreamServer where
  input := {
    t := {
      isClient := false
      mtu := p.mtu
      users := m.users
      userHintIsMandatory := m.userHintIsMandatory }
    conn := []
    cache := cache }
  base := { transport := .streamTransport, isClient := false, mtu := p.mtu }
  remoteAddr := remoteAddr

def onPacket (m : Mux) (index : Nat)
    (f : PacketServer → Option (PacketServer × List Opening)) : Option Mux :=
  match m.packets[index]? with
  | some p =>
    (f p).map fun (p, openings) =>
      { m with
        packets := m.packets.set index p
        opened := openings ++ m.opened }
  | none => none

def onStream (m : Mux) (index : Nat)
    (f : StreamServer → Option (StreamServer × List Opening)) : Option Mux :=
  match m.streams[index]? with
  | some s =>
    (f s).map fun (s, openings) =>
      { m with
        streams := m.streams.set index s
        opened := openings ++ m.opened }
  | none => none

def noCache : ReplayCache :=
  { capacity := 0, expireTime := 0, expireInterval := 0 }

def runTask (m : Mux) : MuxTask → Option Mux
  | .makePacket p =>
    if p ∈ m.packetListeners then
      some { m with
        packetListeners := m.packetListeners.erase p
        made := m.made ++ [m.packetUnderlay p] }
    else none
  | .addPacket index =>
    match m.made[index]? with
    | some underlay =>
      some { m with
        made := m.made.eraseIdx index
        packets := m.packets ++ [{ underlay := underlay }] }
    | none => none
  | .acceptStream p remoteAddr =>
    if p ∈ m.streamListeners then
      some { m with
        streams := m.streams ++ [m.streamServer p remoteAddr noCache] }
    else none
  | .dropPacket index => some { m with packets := m.packets.eraseIdx index }
  | .dropStream index => some { m with streams := m.streams.eraseIdx index }
  | .packetRead index cache order now d =>
    m.onPacket index fun p =>
      (p.read crypto keys cache order now d).map fun p => (p, [])
  | .packetHandle index now answer =>
    m.onPacket index fun p => p.handle now answer
  | .packet index event =>
    m.onPacket index fun p => (p.next event).map fun p => (p, [])
  | .streamArrive index bytes =>
    m.onStream index fun s => some (s.arrive bytes, [])
  | .streamRead index cache now answer =>
    m.onStream index fun s => s.read crypto keys cache now answer
  | .stream index event =>
    m.onStream index fun s => (s.next event).map fun s => (s, [])

def next (m : Mux) : MuxEvent → Option Mux
  | .setEndpoints endpoints listens => some (m.setEndpoints endpoints listens)
  | .setServerUsers users => some (m.setServerUsers users)
  | .setServerUserHintIsMandatory userHintIsMandatory =>
    some (m.setServerUserHintIsMandatory userHintIsMandatory)
  | .start listens =>
    match m.start listens with
    | .ok m => some m
    | _ => none
  | .close => some m.close
  | .task task => m.runTask crypto keys task

end Mux

end

section

variable {crypto : Crypto} {keys : Int → Bytes → List Bytes}

namespace PacketServer

variable {p p' : PacketServer}

structure SameSettings (p p' : PacketServer) : Prop where
  isClient : p'.underlay.isClient = p.underlay.isClient
  users : p'.underlay.users = p.underlay.users
  userHintIsMandatory : p'.underlay.userHintIsMandatory = p.underlay.userHintIsMandatory

theorem SameSettings.refl (p : PacketServer) : p.SameSettings p :=
  ⟨rfl, rfl, rfl⟩

theorem read_eq_some {cache : ReplayCache} {order : List UInt32} {d : Datagram}
    (h : p.read crypto keys cache order now d = some p') :
    p' = p ∨ p' = { p with halted := true } ∨
      ∃ seg, (p.underlay.readOneSegment crypto (keys now) cache order now d).1 = .ok (some seg) ∧
        p' = { p with held := some (d.addr, seg) } := by
  unfold read at h
  split at h
  · split at h
    · cases h
      exact .inl rfl
    · rename_i seg hread
      cases h
      exact .inr (.inr ⟨seg, hread, rfl⟩)
    · cases h
      exact .inr (.inl rfl)
  · cases h

theorem sameSettings_read {cache : ReplayCache} {order : List UInt32} {d : Datagram}
    (h : p.read crypto keys cache order now d = some p') : p.SameSettings p' := by
  obtain rfl | rfl | ⟨seg, -, rfl⟩ := read_eq_some h
  · exact ⟨rfl, rfl, rfl⟩
  · exact ⟨rfl, rfl, rfl⟩
  · exact ⟨rfl, rfl, rfl⟩

theorem handle_eq_some {answer : WriteAnswer}
    {openings : List Opening} (h : p.handle now answer = some (p', openings)) :
    ∃ addr seg, p.held = some (addr, seg) ∧ openings = p.underlay.base.openings seg ∧
      p' = { p.setBase (p.underlay.base.handle addr now answer seg).1 with
        held := none } := by
  unfold handle at h
  split at h
  · rename_i addr seg hheld
    cases h
    exact ⟨addr, seg, hheld, rfl, rfl⟩
  · cases h

theorem sameSettings_handle {answer : WriteAnswer}
    {openings : List Opening} (h : p.handle now answer = some (p', openings)) :
    p.SameSettings p' := by
  obtain ⟨addr, seg, -, -, rfl⟩ := handle_eq_some h
  exact ⟨(p.underlay.base.sameRole_handle addr now answer seg).isClient, rfl, rfl⟩

theorem next_eq_some {event : UnderlayEvent} (h : p.next event = some p') :
    ∃ base, p.underlay.base.next event = some base ∧ p' = p.setBase base := by
  have hnext : (p.underlay.base.next event).map p.setBase = some p' := by
    cases event with
    | read addr now answer seg => cases h
    | pass => exact h
    | add id addr now => exact h
    | act id event => exact h
    | clean now =>
      simp only [next] at h
      split at h
      · cases h
      · exact h
  obtain ⟨base, hbase, rfl⟩ := Option.map_eq_some_iff.mp hnext
  exact ⟨base, hbase, rfl⟩

theorem sameSettings_next {event : UnderlayEvent}
    (h : p.next event = some p') : p.SameSettings p' := by
  obtain ⟨base, hbase, rfl⟩ := next_eq_some h
  exact ⟨(Underlay.sameRole_next hbase).isClient, rfl, rfl⟩

end PacketServer

namespace Mux

variable {m m' : Mux} {f : PacketServer → Option (PacketServer × List Opening)}
  {listens : UnderlayProperties → Bool}

theorem onPacket_eq_some (h : m.onPacket index f = some m') :
    ∃ p ∈ m.packets, ∃ p' openings, m.packets[index]? = some p ∧ f p = some (p', openings) ∧
      m' = { m with
        packets := m.packets.set index p'
        opened := openings ++ m.opened } := by
  unfold onPacket at h
  split at h
  · rename_i p hp
    obtain ⟨⟨p', openings⟩, hf, rfl⟩ := Option.map_eq_some_iff.mp h
    exact ⟨p, List.mem_of_getElem? hp, p', openings, hp, hf, rfl⟩
  · cases h

theorem onStream_eq_some {f : StreamServer → Option (StreamServer × List Opening)}
    (h : m.onStream index f = some m') :
    ∃ s ∈ m.streams, ∃ s' openings, f s = some (s', openings) ∧ m' = { m with
        streams := m.streams.set index s'
        opened := openings ++ m.opened } := by
  unfold onStream at h
  split at h
  · rename_i s hs
    obtain ⟨⟨s', openings⟩, hf, rfl⟩ := Option.map_eq_some_iff.mp h
    exact ⟨s, List.mem_of_getElem? hs, s', openings, hf, rfl⟩
  · cases h

structure KeepsSettings (m m' : Mux) : Prop where
  users : m'.users = m.users
  userHintIsMandatory : m'.userHintIsMandatory = m.userHintIsMandatory
  used : m'.used = m.used
  made : ∀ u ∈ m'.made, u ∈ m.made ∨ ∃ p, u = m.packetUnderlay p
  packets : ∀ p ∈ m'.packets, (∃ before ∈ m.packets, before.SameSettings p) ∨ p.underlay ∈ m.made

theorem keepsSettings_of_eq (husers : m'.users = m.users)
    (hhint : m'.userHintIsMandatory = m.userHintIsMandatory) (hused : m'.used = m.used)
    (hmade : m'.made = m.made) (hpackets : m'.packets ⊆ m.packets) : m.KeepsSettings m' where
  users := husers
  userHintIsMandatory := hhint
  used := hused
  made := by
    intro u hu
    rw [hmade] at hu
    exact .inl hu
  packets := by
    intro p hp
    exact .inl ⟨p, hpackets hp, .refl p⟩

theorem keepsSettings_onPacket (hf : ∀ p p' openings, f p = some (p', openings) → p.SameSettings p')
    (h : m.onPacket index f = some m') : m.KeepsSettings m' := by
  obtain ⟨p, hp, p', openings, -, hstep, rfl⟩ := onPacket_eq_some h
  refine ⟨rfl, rfl, rfl, fun u hu => .inl hu, ?_⟩
  intro q hq
  obtain hq | rfl := List.mem_or_eq_of_mem_set hq
  · exact .inl ⟨q, hq, .refl q⟩
  · exact .inl ⟨p, hp, hf p q openings hstep⟩

theorem keepsSettings_onStream {f : StreamServer → Option (StreamServer × List Opening)}
    (h : m.onStream index f = some m') : m.KeepsSettings m' := by
  obtain ⟨s, -, s', openings, -, rfl⟩ := onStream_eq_some h
  exact keepsSettings_of_eq rfl rfl rfl rfl (List.Subset.refl _)

theorem keepsSettings_runTask {task : MuxTask}
    (h : m.runTask crypto keys task = some m') : m.KeepsSettings m' := by
  cases task with
  | makePacket p =>
    obtain ⟨-, h⟩ := Option.ite_none_right_eq_some.mp h
    cases h
    refine ⟨rfl, rfl, rfl, ?_, fun q hq => .inl ⟨q, hq, .refl q⟩⟩
    intro u hu
    obtain hu | hu := List.mem_append.mp hu
    · exact .inl hu
    · exact .inr ⟨p, List.mem_singleton.mp hu⟩
  | addPacket index =>
    simp only [runTask] at h
    split at h
    · rename_i underlay hunderlay
      cases h
      refine ⟨rfl, rfl, rfl, fun u hu => .inl (List.mem_of_mem_eraseIdx hu), ?_⟩
      intro q hq
      obtain hq | hq := List.mem_append.mp hq
      · exact .inl ⟨q, hq, .refl q⟩
      · rw [List.mem_singleton.mp hq]
        exact .inr (List.mem_of_getElem? hunderlay)
    · cases h
  | acceptStream p remoteAddr =>
    simp only [runTask] at h
    split at h
    · cases h
      exact keepsSettings_of_eq rfl rfl rfl rfl (List.Subset.refl _)
    · cases h
  | dropPacket index =>
    cases h
    exact keepsSettings_of_eq rfl rfl rfl rfl fun p hp => List.mem_of_mem_eraseIdx hp
  | dropStream index =>
    cases h
    exact keepsSettings_of_eq rfl rfl rfl rfl (List.Subset.refl _)
  | packetRead index cache order now d =>
    apply keepsSettings_onPacket _ h
    intro p p' openings hread
    obtain ⟨after, hafter, heq⟩ := Option.map_eq_some_iff.mp hread
    cases heq
    exact PacketServer.sameSettings_read hafter
  | packetHandle index now answer =>
    apply keepsSettings_onPacket _ h
    intro p p' openings hhandle
    exact PacketServer.sameSettings_handle hhandle
  | packet index event =>
    apply keepsSettings_onPacket _ h
    intro p p' openings hnext
    obtain ⟨after, hafter, heq⟩ := Option.map_eq_some_iff.mp hnext
    cases heq
    exact PacketServer.sameSettings_next hafter
  | streamArrive index bytes => exact keepsSettings_onStream h
  | streamRead index cache now answer => exact keepsSettings_onStream h
  | stream index event => exact keepsSettings_onStream h

structure SameUnderlays (m m' : Mux) : Prop where
  users : m'.users = m.users
  userHintIsMandatory : m'.userHintIsMandatory = m.userHintIsMandatory
  made : m'.made = m.made
  packets : m'.packets = m.packets
  streams : m'.streams = m.streams
  opened : m'.opened = m.opened

theorem listen_eq (listens : UnderlayProperties → Bool) (endpoints : List UnderlayProperties)
    (m : Mux) : ∃ streamListeners packetListeners acceptHasErr, m.listen listens endpoints =
      { m with
        streamListeners := streamListeners
        packetListeners := packetListeners
        acceptHasErr := acceptHasErr } := by
  induction endpoints generalizing m with
  | nil => exact ⟨_, _, _, rfl⟩
  | cons p rest ih =>
    change ∃ _ _ _, listen (acceptUnderlayLoop listens m p) listens rest = _
    obtain ⟨_, _, _, hrest⟩ := ih (acceptUnderlayLoop listens m p)
    rw [hrest, acceptUnderlayLoop]
    split
    · exact ⟨_, _, _, rfl⟩
    · split <;> exact ⟨_, _, _, rfl⟩

theorem setEndpoints_eq (m : Mux) (endpoints : List UnderlayProperties)
    (listens : UnderlayProperties → Bool) :
    ∃ known streamListeners packetListeners acceptHasErr, m.setEndpoints endpoints listens =
      { m with
        endpoints := known
        streamListeners := streamListeners
        packetListeners := packetListeners
        acceptHasErr := acceptHasErr } ∧
      (m.used = false → packetListeners = m.packetListeners) := by
  unfold setEndpoints
  dsimp only
  split
  · exact ⟨_, _, _, _, rfl, fun _ => rfl⟩
  split
  · rename_i hused
    split
    · exact ⟨_, _, _, _, rfl, fun _ => rfl⟩
    · obtain ⟨_, _, _, hlisten⟩ := listen_eq listens (newEndpoints m.endpoints endpoints) m
      rw [hlisten]
      exact ⟨_, _, _, _, rfl, fun hunused => nomatch hused.symm.trans hunused⟩
  · exact ⟨_, _, _, _, rfl, fun _ => rfl⟩

theorem setEndpoints_frame (m : Mux) (endpoints : List UnderlayProperties)
    (listens : UnderlayProperties → Bool) : (m.setEndpoints endpoints listens).used = m.used ∧
      (m.setEndpoints endpoints listens).done = m.done := by
  obtain ⟨_, _, _, _, hset, -⟩ := m.setEndpoints_eq endpoints listens
  rw [hset]
  exact ⟨rfl, rfl⟩

theorem start_eq_ok (h : m.start listens = .ok m') :
    ∃ streamListeners packetListeners acceptHasErr, m' =
      { m with
        used := true
        streamListeners := streamListeners
        packetListeners := packetListeners
        acceptHasErr := acceptHasErr } := by
  unfold start at h
  split at h
  · cases h
  split at h
  · cases h
  split at h
  · cases h
  · cases h
    exact listen_eq listens m.endpoints { m with used := true }

theorem sameUnderlays_setEndpoints (m : Mux) (endpoints : List UnderlayProperties)
    (listens : UnderlayProperties → Bool) : m.SameUnderlays (m.setEndpoints endpoints listens) := by
  obtain ⟨_, _, _, _, hset, -⟩ := m.setEndpoints_eq endpoints listens
  rw [hset]
  exact ⟨rfl, rfl, rfl, rfl, rfl, rfl⟩

theorem sameUnderlays_start (h : m.start listens = .ok m') : m.SameUnderlays m' := by
  obtain ⟨_, _, _, rfl⟩ := start_eq_ok h
  exact ⟨rfl, rfl, rfl, rfl, rfl, rfl⟩

end Mux

end

def muxSystem (crypto : Crypto) (keys : Int → Bytes → List Bytes) : System Mux MuxEvent :=
  .ofNext (fun m => m = {}) (Mux.next crypto keys)

end Mieru.Protocol
