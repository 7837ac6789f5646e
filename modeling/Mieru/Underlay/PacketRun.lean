import Mieru.Underlay.PacketRead

/-!
# Runs of a packet underlay

The event loop of a packet underlay fed with datagrams: each datagram goes
through `readOneSegment`, and what it makes is handled by the loop.  The
goroutines and callers of the sessions, the cleaning of sessions, a change of
the registered users and other uses of the replay cache happen in between.
-/

namespace Mieru.Protocol

open Mieru.Foundation
open Mieru.Cipher

variable {blockCipher : Option BlockCipher} {seg : Segment} {nonce : Bytes}

def Segment.userName (seg : Segment) : String :=
  match seg.block with
  | some block => block.ctx.userName
  | none => ""

inductive Halt where
  | readFailed (err : String)
  | panicked (message : String)
  deriving DecidableEq, Repr

structure Opening where
  id : UInt32
  userName : String
  deriving DecidableEq, Repr

structure PacketRun where
  underlay : PacketUnderlay
  cache : ReplayCache
  halted : Option Halt := none
  /-- The sessions created by open session requests, newest first. -/
  opened : List Opening := []

inductive PacketEvent where
  | datagram (order : List UInt32) (now : Int) (answer : WriteAnswer) (d : Datagram)
  | loop (event : UnderlayEvent)
  | seen (data : Bytes) (tag : String) (now : Int)
  | setUsers (users : List User)

/-- The underlay sends what the event loop writes. -/
def PacketEvent.Writes : PacketEvent → Prop
  | .datagram _ _ answer _ => answer = .sent
  | _ => True

namespace Datagram

def front (d : Datagram) : Bytes :=
  (d.bytes.take readBufferSize).take packetNonHeaderPosition

def remaining (d : Datagram) : Bytes :=
  (d.bytes.take readBufferSize).drop packetNonHeaderPosition

end Datagram

section

variable (crypto : Crypto) (keyList : Bytes → List Bytes)

namespace PacketUnderlay

variable {crypto keyList} {u : PacketUnderlay}

/-- A key that the underlay tries opens the metadata of the datagram. -/
structure Opens (crypto : Crypto) (keyList : Bytes → List Bytes)
    (u : PacketUnderlay) (order : List UInt32) (d : Datagram) (nonce : Nonce)
    (blockCipher : Option BlockCipher) (plain : Bytes) : Prop where
  addr : u.isClient = true → d.addr = u.serverAddr
  nonce_eq : nonce.bytes = d.front.take defaultNonceSize
  opened : u.decryptMetadata crypto keyList d.addr order d.front nonce = .ok (blockCipher, plain)

theorem readChecked_cases (u : PacketUnderlay) (addr : Addr) (order : List UInt32) (now : Int)
    (isNewSessionReplay : Bool) (nonce : Nonce) (encryptedMeta remaining : Bytes) :
    let result := u.readChecked crypto keyList addr order now
      isNewSessionReplay nonce encryptedMeta remaining
    result = .ok none ∨ (∃ message, u.decryptMetadata crypto keyList addr order encryptedMeta
        nonce = .panic message ∧ result = .panic message) ∨
      ∃ blockCipher plain, u.decryptMetadata crypto keyList addr order
          encryptedMeta nonce = .ok (blockCipher, plain) ∧
        result = u.finishRead blockCipher (u.parseSegment crypto
          (unixSeconds now) plain nonce.bytes remaining blockCipher) := by
  unfold readChecked
  dsimp only
  split
  · rename_i message hpanic
    exact .inr (.inl ⟨message, hpanic, rfl⟩)
  · exact .inl rfl
  · rename_i blockCipher plain hopened
    split
    · exact .inl rfl
    split
    · exact .inl rfl
    · exact .inr (.inr ⟨blockCipher, plain, hopened, rfl⟩)

variable (crypto keyList) in
theorem readOneSegment_cases (u : PacketUnderlay) (cache : ReplayCache)
    (order : List UInt32) (now : Int) (d : Datagram) :
    let result := (u.readOneSegment crypto keyList cache order now d).1
    result = .ok none ∨ ∃ nonce : Nonce, nonce.bytes = d.front.take defaultNonceSize ∧
        ((∃ message, u.decryptMetadata crypto keyList d.addr order d.front
            nonce = .panic message ∧ result = .panic message) ∨
          ∃ blockCipher plain, Opens crypto keyList u order d nonce blockCipher plain ∧
            result = u.finishRead blockCipher (u.parseSegment crypto
              (unixSeconds now) plain nonce.bytes d.remaining
              blockCipher)) := by
  unfold readOneSegment
  dsimp only
  split
  · exact .inl rfl
  rename_i haddr
  split
  · exact .inl rfl
  · rename_i hlong
    have haddr : u.isClient = true → d.addr = u.serverAddr := by
      simpa using haddr
    have hnonce : defaultNonceSize ≤ d.front.length := by
      simp only [Datagram.front, List.length_take, packetNonHeaderPosition,
        defaultNonceSize, metadataLength, defaultOverhead] at hlong ⊢
      omega
    obtain hnone | hcases := u.readChecked_cases d.addr order now _
      (Nonce.ofFront d.front hnonce) d.front d.remaining
    · exact .inl hnone
    · refine .inr ⟨Nonce.ofFront d.front hnonce, rfl, hcases.imp_right ?_⟩
      rintro ⟨blockCipher, plain, hopened, hresult⟩
      exact ⟨blockCipher, plain, ⟨haddr, rfl, hopened⟩, hresult⟩

theorem finishRead_eq_some {result : Outcome String Segment}
    (h : u.finishRead blockCipher result = .ok (some seg)) :
    ∃ parsed, result = .ok parsed ∧ seg = { parsed with block := blockCipher } := by
  unfold finishRead at h
  split at h
  · cases h
    exact ⟨_, rfl, rfl⟩
  · split at h <;> cases h
  · cases h

theorem parseSessionSegment_eq_ok {ss : SessionStruct} {remaining : Bytes}
    (h : (u.parseSessionSegment crypto ss nonce remaining blockCipher).outcome = .ok seg) :
    seg.metadata = .session ss := by
  rw [parseSessionSegment, Eval.outcome_bind] at h
  obtain ⟨payload, -, hseg⟩ := Outcome.bind_eq_ok.mp h
  cases hseg
  rfl

theorem parseDataAckSegment_eq_ok {das : DataAckStruct} {remaining : Bytes}
    (h : (u.parseDataAckSegment crypto das nonce remaining blockCipher).outcome = .ok seg) :
    seg.metadata = .dataAck das := by
  rw [parseDataAckSegment, Eval.outcome_bind] at h
  obtain ⟨kept, -, hrest⟩ := Outcome.bind_eq_ok.mp h
  rw [Eval.outcome_bind] at hrest
  obtain ⟨payload, -, hseg⟩ := Outcome.bind_eq_ok.mp hrest
  cases hseg
  rfl

theorem parseSegment_eq_ok {unix : Int} {plain remaining : Bytes}
    (h : u.parseSegment crypto unix plain nonce remaining blockCipher = .ok seg) :
    Metadata.unmarshal plain unix = .ok seg.metadata := by
  obtain ⟨metadata, hmetadata, hparse⟩ := Outcome.bind_eq_ok.mp h
  cases metadata with
  | session ss => rw [hmetadata, parseSessionSegment_eq_ok hparse]
  | dataAck das => rw [hmetadata, parseDataAckSegment_eq_ok hparse]

theorem readOneSegment_eq_some {cache : ReplayCache} {order : List UInt32} {now : Int}
    {d : Datagram} (h : (u.readOneSegment crypto keyList cache order now d).1 = .ok (some seg)) :
    ∃ nonce plain, Opens crypto keyList u order d nonce seg.block plain ∧
      Metadata.unmarshal plain (unixSeconds now) = .ok seg.metadata := by
  obtain hnone | ⟨nonce, -, ⟨message, -, hpanic⟩ |
    ⟨blockCipher, plain, hopens, hresult⟩⟩ :=
      u.readOneSegment_cases crypto keyList cache order now d
  · cases h.symm.trans hnone
  · cases h.symm.trans hpanic
  · obtain ⟨parsed, hparse, rfl⟩ := finishRead_eq_some (hresult.symm.trans h)
    have hmetadata := parseSegment_eq_ok hparse
    exact ⟨nonce, plain, hopens, hmetadata⟩

theorem Opens.of_server {order : List UInt32} {d : Datagram} {nonce : Nonce} {plain : Bytes}
    (h : u.Opens crypto keyList order d nonce blockCipher plain) (hserver : u.isClient = false) :
    ∃ block, blockCipher = some block ∧ (u.SessionCipher d.addr order block ∨
        Matches crypto keyList u.users d.front block plain) := by
  have hopened := h.opened
  rw [decryptMetadata, hserver, if_neg (by simp)] at hopened
  split at hopened
  · rename_i block decryptedMeta htry
    cases hopened
    exact ⟨block, rfl, .inl (trySessions_eq_some htry).1⟩
  · obtain ⟨⟨block, decryptedMeta⟩, hlookup, heq⟩ :=
      Outcome.bind_eq_ok.mp hopened
    cases heq
    exact ⟨block, rfl, .inr (lookupUser_eq_ok hlookup)⟩

end PacketUnderlay

end

namespace PacketRun

variable (crypto : Crypto) (keys : Int → Bytes → List Bytes)

def logOpening (r : PacketRun) (seg : Segment) : List Opening :=
  match r.underlay.base.handling seg with
  | .create id => ⟨id, seg.userName⟩ :: r.opened
  | _ => r.opened

def setBase (r : PacketRun) (base : Underlay) : PacketRun :=
  { r with underlay := { r.underlay with base := base } }

/--
The loop reads a datagram.  `keys` are those derived at that time; the clock of
the sessions is in microseconds.
-/
def readDatagram (r : PacketRun) (order : List UInt32) (now : Int)
    (answer : WriteAnswer) (d : Datagram) : PacketRun :=
  match r.underlay.readOneSegment crypto (keys now) r.cache order now d with
  | (.ok none, cache) => { r with cache := cache }
  | (.ok (some seg), cache) =>
    { r.setBase (r.underlay.base.handle d.addr (now / 1000) answer seg).1 with
      cache := cache
      opened := r.logOpening seg }
  | (.error err, cache) =>
    { r with cache := cache, halted := some (.readFailed err) }
  | (.panic message, cache) =>
    { r with cache := cache, halted := some (.panicked message) }

def next (r : PacketRun) : PacketEvent → Option PacketRun
  | .datagram order now answer d =>
    match r.underlay.base.loop, r.halted with
    | .reading, none => some (r.readDatagram crypto keys order now answer d)
    | _, _ => none
  | .loop (.read _ _ _ _) => none
  | .loop event => (r.underlay.base.next event).map r.setBase
  | .seen data tag now =>
    some { r with cache := (r.cache.isDuplicate data tag now).2 }
  | .setUsers users =>
    if ∀ user ∈ users, user.name ≠ "" then
      some { r with underlay := { r.underlay with users := users } }
    else none

theorem next_loop_eq_some {crypto : Crypto} {keys : Int → Bytes → List Bytes} {r r' : PacketRun}
    {event : UnderlayEvent} (h : r.next crypto keys (.loop event) = some r') :
    (∀ addr now answer seg, event ≠ .read addr now answer seg) ∧
      ∃ base, r.underlay.base.next event = some base ∧ r' = r.setBase base := by
  have hnext : (∀ addr now answer seg, event ≠ .read addr now answer seg) ∧
      (r.underlay.base.next event).map r.setBase = some r' := by
    cases event with
    | read addr now answer seg => cases h
    | pass => exact ⟨by simp, h⟩
    | add id addr now => exact ⟨by simp, h⟩
    | act id event => exact ⟨by simp, h⟩
    | clean now => exact ⟨by simp, h⟩
  obtain ⟨base, hbase, rfl⟩ := Option.map_eq_some_iff.mp hnext.2
  exact ⟨hnext.1, base, hbase, rfl⟩

structure IsInitial (r : PacketRun) : Prop where
  base : r.underlay.base.IsInitial
  transport : r.underlay.base.transport = .packetTransport
  client : r.underlay.isClient = true → r.underlay.block.isSome = true
  named : ∀ user ∈ r.underlay.users, user.name ≠ ""
  halted : r.halted = none
  opened : r.opened = []

end PacketRun

def packetSystem (crypto : Crypto) (keys : Int → Bytes → List Bytes) :
    System PacketRun PacketEvent :=
  .ofNext PacketRun.IsInitial (PacketRun.next crypto keys)

end Mieru.Protocol
