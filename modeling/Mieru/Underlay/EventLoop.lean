import Mieru.Foundation.TransitionSystem
import Mieru.Session.Live

/-!
# The event loop of an underlay

What `RunEventLoop` does with a segment once `readOneSegment` has returned it.
The packet and the stream underlay run the same loop and differ in two places:
an open session request for a session that is already there, and data without a
session when the cipher is not known.

A send on a session's `recvChan` is a step of its own, so a full channel leaves
the loop where it stands.
-/

namespace Mieru.Protocol

open Mieru.Foundation
open Mieru.Cipher
open ProtocolType

variable {id : UInt32} {sessions : SessionMap}

/--
A session an underlay has had.  Its goroutines and callers go on when it is no
longer in `sessionMap`.
-/
structure SessionEntry where
  live : LiveSession
  registered : Bool := true

abbrev SessionMap : Type := UInt32 → Option SessionEntry

namespace SessionMap

def empty : SessionMap := fun _ => none

def load (sessions : SessionMap) (id : UInt32) : Option LiveSession :=
  match sessions id with
  | some entry => if entry.registered then some entry.live else none
  | none => none

def set (sessions : SessionMap) (id : UInt32) (entry : SessionEntry) : SessionMap :=
  Function.update sessions id (some entry)

@[simp] theorem set_self (sessions : SessionMap) (id : UInt32)
    (entry : SessionEntry) : sessions.set id entry id = some entry :=
  Function.update_self ..

theorem set_of_ne (sessions : SessionMap) {other : UInt32} (entry : SessionEntry) (h : other ≠ id) :
    sessions.set id entry other = sessions other :=
  Function.update_of_ne h ..

theorem set_eq_some {other : UInt32} {entry found : SessionEntry}
    (h : sessions.set id entry other = some found) :
    other = id ∧ found = entry ∨ other ≠ id ∧ sessions other = some found := by
  by_cases hother : other = id
  · subst hother
    rw [set_self] at h
    exact .inl ⟨rfl, (Option.some.inj h).symm⟩
  · rw [set_of_ne _ _ hother] at h
    exact .inr ⟨hother, h⟩

theorem load_eq_some {live : LiveSession} (h : sessions.load id = some live) :
    sessions id = some ⟨live, true⟩ := by
  unfold load at h
  split at h
  · rename_i entry hentry
    split at h
    · rename_i hregistered
      cases h
      rw [hentry, ← hregistered]
    · cases h
  · cases h

end SessionMap

/-- Why `RunEventLoop` returns an error after reading a segment. -/
inductive LoopError where
  | invalidOperation
  | reservedSessionID (id : UInt32)
  | sessionIDUsed (id : UInt32)
  | sessionIDNotFound (id : UInt32)
  | writeFailed
  deriving DecidableEq, Repr

inductive LoopState where
  | reading
  | sending (id : UInt32) (seg : Segment)
  | returned (err : LoopError) (seg : Segment)

def idleSessionTimeout : Int := 60000000

structure Underlay where
  transport : TransportProtocol
  isClient : Bool
  mtu : Nat
  sessions : SessionMap := SessionMap.empty
  loop : LoopState := .reading

inductive Handling where
  | deliver (id : UInt32)
  | create (id : UInt32)
  | requestClose (reply : Segment)
  | ignore
  | fail (err : LoopError)

namespace Underlay

def found (u : Underlay) (id : UInt32) : Bool := (u.sessions.load id).isSome

def onOpenSessionRequest (u : Underlay) (sessionID : UInt32) : Handling :=
  if u.isClient then .fail .invalidOperation
  else if sessionID = 0 then .fail (.reservedSessionID sessionID)
  else if u.found sessionID then
    match u.transport with
    | .streamTransport => .fail (.sessionIDUsed sessionID)
    | .packetTransport => .ignore
  else .create sessionID

def onOpenSessionResponse (u : Underlay) (sessionID : UInt32) : Handling :=
  if !u.isClient then .fail .invalidOperation
  else if u.found sessionID then .deliver sessionID
  else .fail (.sessionIDNotFound sessionID)

def onCloseSession (u : Underlay) (sessionID : UInt32) : Handling :=
  if u.found sessionID then .deliver sessionID else .ignore

def closeReq (das : DataAckStruct) (block : Option BlockCipher) : Segment :=
  { metadata := .session {
      protocol := closeSessionRequest
      sessionID := das.sessionID
      seq := das.unAckSeq
      statusCode := 0 }
    block := block }

def onDataAck (u : Underlay) (das : DataAckStruct) (block : Option BlockCipher) : Handling :=
  if u.found das.sessionID then .deliver das.sessionID
  else
    match u.transport, block with
    | .packetTransport, none => .ignore
    | .packetTransport, some block => .requestClose (closeReq das (some block))
    | .streamTransport, _ => .requestClose (closeReq das none)

/-- The branches of `RunEventLoop` after a segment was read. -/
def handling (u : Underlay) (seg : Segment) : Handling :=
  match seg.metadata with
  | .session ss =>
    match ss.protocol with
    | openSessionRequest => u.onOpenSessionRequest ss.sessionID
    | openSessionResponse => u.onOpenSessionResponse ss.sessionID
    | closeSessionRequest => u.onCloseSession ss.sessionID
    | closeSessionResponse => u.onCloseSession ss.sessionID
    | _ => .ignore
  | .dataAck das =>
    if isDataAckProtocol das.protocol then u.onDataAck das seg.block
    else .ignore

def Decides (u : Underlay) (seg : Segment) : Handling → Prop
  | .deliver id => id = seg.sessionID ∧ u.found id = true
  | .create id => id = seg.sessionID ∧ u.found id = false ∧
      seg.protocol = openSessionRequest ∧ u.isClient = false ∧ id ≠ 0
  | .requestClose reply => u.found seg.sessionID = false ∧ reply.protocol = closeSessionRequest ∧
      reply.sessionID = seg.sessionID ∧ isDataAckProtocol seg.protocol = true
  | .ignore => u.transport = .streamTransport → seg.metadata.Typed →
      isInputData seg.protocol = false
  | .fail _ => isSessionProtocol seg.protocol = true

theorem handling_decides (u : Underlay) (seg : Segment) : u.Decides seg (u.handling seg) := by
  unfold handling
  cases hmeta : seg.metadata with
  | session ss =>
    have hid : ss.sessionID = seg.sessionID := by
      rw [Segment.sessionID, hmeta]
      rfl
    have hprotocol : seg.protocol = ss.protocol := by
      rw [Segment.protocol, hmeta]
      rfl
    have hclose : u.Decides seg (u.onCloseSession ss.sessionID) ∨
        isInputData seg.protocol = true := by
      unfold onCloseSession
      cases hdata : isInputData seg.protocol with
      | true => exact .inr rfl
      | false =>
        split
        · exact .inl ⟨hid, ‹_›⟩
        · exact .inl fun _ _ => hdata
    dsimp only
    split
    · rename_i hopens
      rw [hopens] at hprotocol
      unfold onOpenSessionRequest
      split
      · simp [Decides, hprotocol, isSessionProtocol]
      · split
        · simp [Decides, hprotocol, isSessionProtocol]
        · split
          · split
            · simp [Decides, hprotocol, isSessionProtocol]
            · rename_i htransport
              simp [Decides, htransport]
          · rename_i hclient hzero hfound
            exact ⟨hid, by simpa using hfound, hprotocol, by simpa using hclient, hzero⟩
    · rename_i hopens
      rw [hopens] at hprotocol
      unfold onOpenSessionResponse
      split
      · simp [Decides, hprotocol, isSessionProtocol]
      · split
        · exact ⟨hid, ‹_›⟩
        · simp [Decides, hprotocol, isSessionProtocol]
    · rename_i hcloses
      refine hclose.resolve_right ?_
      simp [hprotocol, hcloses, isInputData]
    · rename_i hcloses
      refine hclose.resolve_right ?_
      simp [hprotocol, hcloses, isInputData]
    · rename_i hrequest hresponse _ _
      intro _ htyped
      rw [hmeta] at htyped
      simp only [Metadata.Typed] at htyped
      rw [hprotocol]
      revert htyped hrequest hresponse
      cases ss.protocol <;> simp [isSessionProtocol, isInputData]
  | dataAck das =>
    have hid : das.sessionID = seg.sessionID := by
      rw [Segment.sessionID, hmeta]
      rfl
    have hprotocol : seg.protocol = das.protocol := by
      rw [Segment.protocol, hmeta]
      rfl
    dsimp only
    split
    · rename_i hdata
      unfold onDataAck
      split
      · exact ⟨hid, ‹_›⟩
      · rename_i hfound
        have hfound : u.found seg.sessionID = false := by
          rw [← hid]
          simpa using hfound
        split
        · rename_i htransport _
          simp [Decides, htransport]
        · exact ⟨hfound, rfl, hid, hprotocol ▸ hdata⟩
        · exact ⟨hfound, rfl, hid, hprotocol ▸ hdata⟩
    · rename_i hdata
      intro _ htyped
      rw [hmeta] at htyped
      exact absurd htyped hdata

theorem requestClose_eq {u : Underlay} {seg reply : Segment}
    (h : u.handling seg = .requestClose reply) :
    ∃ das block, reply = closeReq das block := by
  unfold handling at h
  split at h
  · split at h
    · unfold onOpenSessionRequest at h
      split at h
      · cases h
      · split at h
        · cases h
        · split at h
          · split at h <;> cases h
          · cases h
    · unfold onOpenSessionResponse at h
      split at h
      · cases h
      · split at h <;> cases h
    · unfold onCloseSession at h
      split at h <;> cases h
    · unfold onCloseSession at h
      split at h <;> cases h
    · cases h
  · split at h
    · unfold onDataAck at h
      split at h
      · cases h
      · split at h
        · cases h
        · cases h
          exact ⟨_, _, rfl⟩
        · cases h
          exact ⟨_, _, rfl⟩
    · cases h

def setSession (u : Underlay) (id : UInt32) (entry : SessionEntry) : Underlay :=
  { u with sessions := u.sessions.set id entry }

def openedSession (u : Underlay) (id : UInt32) (addr : Addr) (now : Int)
    (seg : Segment) : LiveSession :=
  { session := { Session.new id false u.mtu u.transport addr now with
      recvChan := [seg] } }

/-- The underlay after a segment from `addr` was read, and what it writes. -/
def handle (u : Underlay) (addr : Addr) (now : Int) (answer : WriteAnswer)
    (seg : Segment) : Underlay × List Packet :=
  match u.handling seg with
  | .deliver id => ({ u with loop := .sending id seg }, [])
  | .create id =>
    (u.setSession id { live := u.openedSession id addr now seg }, [])
  | .requestClose reply =>
    match answer with
    | .sent => (u, [reply.packet])
    | _ => ({ u with loop := .returned .writeFailed seg }, [])
  | .ignore => (u, [])
  | .fail err => ({ u with loop := .returned err seg }, [])

def pass (u : Underlay) : Option Underlay :=
  match u.loop with
  | .sending id seg =>
    match u.sessions id with
    | some entry =>
      (entry.live.receive seg).map fun live =>
        { u.setSession id { entry with live := live } with
          loop := .reading }
    | none => none
  | _ => none

def newSession (u : Underlay) (id : UInt32) (addr : Addr) (now : Int) : LiveSession :=
  { session := Session.new id u.isClient u.mtu u.transport addr now }

def addSession (u : Underlay) (id : UInt32) (addr : Addr) (now : Int) : Option Underlay :=
  if id = 0 ∨ u.found id then none
  else some (u.setSession id { live := u.newSession id addr now })

def act (u : Underlay) (id : UInt32) (event : SessionEvent) : Option (Underlay × List Packet) :=
  match u.sessions id with
  | some entry =>
    (entry.live.step event).map fun (live, sent) =>
      (u.setSession id { entry with live := live }, sent)
  | none => none

/-- `RemoveSession`, without waiting for the goroutines to end. -/
def removeSession (entry : SessionEntry) : SessionEntry where
  live := { entry.live with session := entry.live.session.close }
  registered := false

def mustClean (u : Underlay) (now : Int) (session : Session) : Bool :=
  session.closedChan ||
    (u.transport == .packetTransport && decide (idleSessionTimeout < now - session.lastRXTime))

def cleanSessions (u : Underlay) (now : Int) : Underlay :=
  { u with sessions := fun id =>
      (u.sessions id).map fun entry =>
        if entry.registered && u.mustClean now entry.live.session then
          removeSession entry
        else entry }

end Underlay

inductive UnderlayEvent where
  /-- The event loop has read a segment; `answer` is for what it writes. -/
  | read (addr : Addr) (now : Int) (answer : WriteAnswer) (seg : Segment)
  | pass
  | add (id : UInt32) (addr : Addr) (now : Int)
  | act (id : UInt32) (event : SessionEvent)
  | clean (now : Int)

namespace Underlay

def next (u : Underlay) : UnderlayEvent → Option Underlay
  | .read addr now answer seg =>
    match u.loop with
    | .reading => some (u.handle addr now answer seg).1
    | _ => none
  | .pass => u.pass
  | .add id addr now => if u.isClient then u.addSession id addr now else none
  | .act id event => (u.act id event).map Prod.fst
  | .clean now =>
    match u.loop with
    | .reading => some (u.cleanSessions now)
    | _ => none

structure SameRole (u u' : Underlay) : Prop where
  transport : u'.transport = u.transport
  isClient : u'.isClient = u.isClient
  mtu : u'.mtu = u.mtu

theorem sameRole_handle (u : Underlay) (addr : Addr) (now : Int)
    (answer : WriteAnswer) (seg : Segment) : u.SameRole (u.handle addr now answer seg).1 := by
  unfold handle
  split
  · exact ⟨rfl, rfl, rfl⟩
  · exact ⟨rfl, rfl, rfl⟩
  · split <;> exact ⟨rfl, rfl, rfl⟩
  · exact ⟨rfl, rfl, rfl⟩
  · exact ⟨rfl, rfl, rfl⟩

variable {u u' : Underlay}

theorem pass_eq_some (h : u.pass = some u') : ∃ id seg entry live,
    u.loop = .sending id seg ∧ u.sessions id = some entry ∧ entry.live.receive seg = some live ∧
      u' = { u.setSession id { entry with live := live } with loop := .reading } := by
  unfold pass at h
  split at h
  · rename_i id seg hloop
    split at h
    · rename_i entry hentry
      obtain ⟨live, hreceive, rfl⟩ := Option.map_eq_some_iff.mp h
      exact ⟨id, seg, entry, live, hloop, hentry, hreceive, rfl⟩
    · cases h
  · cases h

theorem act_eq_some {event : SessionEvent} {sent : List Packet}
    (h : u.act id event = some (u', sent)) :
    ∃ entry live, u.sessions id = some entry ∧ entry.live.step event = some (live, sent) ∧
      u' = u.setSession id { entry with live := live } := by
  unfold act at h
  split at h
  · rename_i entry hentry
    obtain ⟨⟨live, packets⟩, hstep, heq⟩ := Option.map_eq_some_iff.mp h
    cases heq
    exact ⟨entry, live, hentry, hstep, rfl⟩
  · cases h

/-- Everything that a step of the underlay can do. -/
inductive Next (u : Underlay) : UnderlayEvent → Underlay → Prop
  | read (hloop : u.loop = .reading) :
      Next u (.read addr now answer seg) (u.handle addr now answer seg).1
  | pass {id : UInt32} (hloop : u.loop = .sending id seg) (hentry : u.sessions id = some entry)
      (hreceive : entry.live.receive seg = some live) :
      Next u .pass { u.setSession id { entry with live := live } with loop := .reading }
  | add {id : UInt32} (hclient : u.isClient = true) (hfree : ¬(id = 0 ∨ u.found id = true)) :
      Next u (.add id addr now) (u.setSession id { live := u.newSession id addr now })
  | act {id : UInt32} (hentry : u.sessions id = some entry)
      (hstep : entry.live.step event = some (live, sent)) :
      Next u (.act id event) (u.setSession id { entry with live := live })
  | clean (hloop : u.loop = .reading) : Next u (.clean now) (u.cleanSessions now)

theorem next_inv {event : UnderlayEvent} (h : u.next event = some u') : u.Next event u' := by
  cases event with
  | read addr now answer seg =>
    simp only [next] at h
    split at h
    · cases h
      exact .read ‹_›
    · cases h
  | pass =>
    obtain ⟨id, seg, entry, live, hloop, hentry, hreceive, rfl⟩ := pass_eq_some h
    exact .pass hloop hentry hreceive
  | add id addr now =>
    simp only [next, addSession] at h
    split at h
    · split at h
      · cases h
      · cases h
        exact .add ‹_› ‹_›
    · cases h
  | act id event =>
    obtain ⟨⟨after, sent⟩, hact, rfl⟩ := Option.map_eq_some_iff.mp h
    obtain ⟨entry, live, hentry, hstep, rfl⟩ := act_eq_some hact
    exact .act hentry hstep
  | clean now =>
    simp only [next] at h
    split at h
    · cases h
      exact .clean ‹_›
    · cases h

theorem sameRole_next {event : UnderlayEvent} (h : u.next event = some u') : u.SameRole u' := by
  cases next_inv h with
  | read => exact u.sameRole_handle ..
  | _ => exact ⟨rfl, rfl, rfl⟩

def IsInitial (u : Underlay) : Prop :=
  u.sessions = SessionMap.empty ∧ u.loop = .reading

end Underlay

def underlaySystem : System Underlay UnderlayEvent :=
  System.ofNext Underlay.IsInitial Underlay.next

end Mieru.Protocol
