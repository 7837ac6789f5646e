import Mieru.Underlay.PacketRun
import Mieru.Wire.PacketRoundTrip

/-!
# What ends the event loop of a packet underlay

`RunEventLoop` goes on as long as the datagrams that decrypt contain nothing
that it treats as an error.  A server stops at an open session response, at an
open session request for session 0 and at a prefix length beyond the datagram;
a client also stops at metadata or a payload that does not parse, for example
with an old timestamp, and at an open session response for a session that is
gone.
-/

namespace Mieru.Protocol

open Mieru.Foundation
open Mieru.Cipher
open ProtocolType

structure PacketRun.Runs (r : PacketRun) : Prop where
  halted : r.halted = none
  loop : ∀ err seg, r.underlay.base.loop ≠ .returned err seg

def ServerTolerates (metadata : Metadata) (remaining : Bytes) : Prop :=
  match metadata with
  | .session ss => ss.protocol ≠ openSessionResponse ∧
      (ss.protocol = openSessionRequest → ss.sessionID ≠ 0)
  | .dataAck das => das.prefixLen.toNat ≤ remaining.length

def ClientTolerates (u : PacketUnderlay) (seg : Segment) : Prop :=
  seg.protocol ≠ openSessionRequest ∧
    (seg.protocol = openSessionResponse → u.base.found seg.sessionID = true)

section

variable (crypto : Crypto) (keys : Int → Bytes → List Bytes)

/-- Writing works, and what decrypts contains no error. -/
structure PacketRun.Tolerates (r : PacketRun) (event : PacketEvent) :
    Prop where
  writes : event.Writes
  server : ∀ order now answer d, event = .datagram order now answer d →
    r.underlay.isClient = false → ∀ nonce blockCipher plain metadata,
      r.underlay.Opens crypto (keys now) order d nonce blockCipher plain →
      Metadata.unmarshal plain (unixSeconds now) = .ok metadata →
      ServerTolerates metadata d.remaining
  client : ∀ order now answer d, event = .datagram order now answer d →
    r.underlay.isClient = true → ∀ nonce blockCipher plain,
      r.underlay.Opens crypto (keys now) order d nonce blockCipher plain →
      ∃ seg, r.underlay.parseSegment crypto (unixSeconds now) plain
          nonce.bytes d.remaining blockCipher = .ok seg ∧
        ClientTolerates r.underlay seg

end

namespace PacketUnderlay

variable {crypto : Crypto} {keyList : Bytes → List Bytes} {u : PacketUnderlay}

theorem decryptMetadata_not_panics (hclient : u.isClient = true → u.block.isSome = true)
    (hnamed : ∀ user ∈ u.users, user.name ≠ "") (addr : Addr)
    (order : List UInt32) (encryptedMeta : Bytes) (nonce : Nonce) :
    ¬ (u.decryptMetadata crypto keyList addr order encryptedMeta nonce).Panics := by
  unfold decryptMetadata
  split
  · rename_i hisClient
    obtain ⟨block, hblock⟩ := Option.isSome_iff_exists.mp (hclient hisClient)
    rw [hblock]
    exact Outcome.not_panics_bind (block.decrypt_not_panics crypto _) fun _ => not_false
  · split
    · exact not_false
    · exact Outcome.not_panics_bind (lookupUser_not_panics hnamed) fun _ => not_false

theorem length_remaining_lt (d : Datagram) : d.remaining.length < readBufferSize := by
  simp only [Datagram.remaining, List.length_drop, List.length_take,
    packetNonHeaderPosition, defaultNonceSize, metadataLength, defaultOverhead,
    readBufferSize]
  omega

theorem fitsUint16_or_lt {size : Nat} (payloadLen : UInt16) (h : size < readBufferSize) :
    FitsUint16 payloadLen ∨ size < payloadLen.toNat + defaultOverhead := by
  simp only [FitsUint16, readBufferSize, defaultOverhead] at h ⊢
  omega

theorem parseSegment_not_panics {unix : Int} {plain nonce : Bytes}
    {d : Datagram} {blockCipher : Option BlockCipher} (hblock : u.HasBlock blockCipher)
    (htolerates : ∀ metadata, Metadata.unmarshal plain unix = .ok metadata →
      ServerTolerates metadata d.remaining) :
    ¬ (u.parseSegment crypto unix plain nonce d.remaining blockCipher).Panics := by
  have hshort := length_remaining_lt d
  unfold parseSegment
  cases hmetadata : Metadata.unmarshal plain unix with
  | panic message =>
    exact absurd hmetadata (Metadata.unmarshal_ne_panic plain unix message)
  | error err => exact not_false
  | ok metadata =>
    have htolerated := htolerates metadata hmetadata
    cases metadata with
    | session ss =>
      exact ((parseSessionSegment_safe_iff crypto hblock ss nonce
        d.remaining).mpr (fitsUint16_or_lt ss.payloadLen hshort)).1
    | dataAck das =>
      have hlong : d.remaining.length - das.prefixLen.toNat <
          readBufferSize := by omega
      exact ((parseDataAckSegment_safe_iff crypto hblock das nonce d.remaining).mpr
          ⟨htolerated, fitsUint16_or_lt das.payloadLen hlong⟩).1

end PacketUnderlay

namespace Underlay

variable {u u' : Underlay} {seg : Segment} {remaining : Bytes}

theorem onDataAck_ne_fail (u : Underlay) (das : DataAckStruct)
    (block : Option BlockCipher) (err : LoopError) : u.onDataAck das block ≠ .fail err := by
  unfold onDataAck
  split
  · simp
  · split <;> simp

theorem handling_ne_fail_of_server (hserver : u.isClient = false)
    (htransport : u.transport = .packetTransport)
    (h : ServerTolerates seg.metadata remaining) (err : LoopError) :
    u.handling seg ≠ .fail err := by
  unfold handling
  cases hmetadata : seg.metadata with
  | session ss =>
    rw [hmetadata] at h
    obtain ⟨hresponse, hid⟩ := h
    dsimp only
    split
    · rename_i hrequest
      rw [onOpenSessionRequest, hserver, htransport, if_neg (by simp), if_neg (hid hrequest)]
      split <;> simp
    · rename_i hopened
      exact absurd hopened hresponse
    · rw [onCloseSession]
      split <;> simp
    · rw [onCloseSession]
      split <;> simp
    · simp
  | dataAck das =>
    dsimp only
    split
    · exact u.onDataAck_ne_fail das seg.block err
    · simp

theorem handling_ne_fail_of_client (hclient : u.isClient = true)
    (hrequest : seg.protocol ≠ openSessionRequest)
    (hresponse : seg.protocol = openSessionResponse → u.found seg.sessionID = true)
    (err : LoopError) : u.handling seg ≠ .fail err := by
  unfold handling
  cases hmetadata : seg.metadata with
  | session ss =>
    have hprotocol : seg.protocol = ss.protocol := by
      rw [Segment.protocol, hmetadata]
      rfl
    have hid : seg.sessionID = ss.sessionID := by
      rw [Segment.sessionID, hmetadata]
      rfl
    rw [hprotocol] at hrequest hresponse
    rw [hid] at hresponse
    dsimp only
    split
    · rename_i hopens
      exact absurd hopens hrequest
    · rename_i hopened
      rw [onOpenSessionResponse, hclient, if_neg (by simp), if_pos (hresponse hopened)]
      simp
    · rw [onCloseSession]
      split <;> simp
    · rw [onCloseSession]
      split <;> simp
    · simp
  | dataAck das =>
    dsimp only
    split
    · exact u.onDataAck_ne_fail das seg.block err
    · simp

theorem loop_handle_ne_returned {addr : Addr} {now : Int} (hloop : u.loop = .reading)
    (hfail : ∀ err, u.handling seg ≠ .fail err) (err : LoopError) (other : Segment) :
    (u.handle addr now .sent seg).1.loop ≠ .returned err other := by
  unfold handle
  split
  · simp
  · simp [setSession, hloop]
  · simp [hloop]
  · simp [hloop]
  · rename_i failed hfailed
    exact absurd hfailed (hfail failed)

theorem next_ne_returned {event : UnderlayEvent} (h : u.next event = some u')
    (hread : ∀ addr now answer seg, event ≠ .read addr now answer seg)
    (hloop : ∀ err seg, u.loop ≠ .returned err seg) : ∀ err seg, u'.loop ≠ .returned err seg := by
  cases next_inv h with
  | read => exact absurd rfl (hread _ _ _ _)
  | pass => simp
  | add | act | clean => exact hloop

end Underlay

namespace PacketRun

variable {crypto : Crypto} {keys : Int → Bytes → List Bytes}
  {r r' : PacketRun} {order : List UInt32} {now : Int}
  {answer : WriteAnswer} {d : Datagram} {seg : Segment}

/-- What `IsInitial` says about the underlay, and that the loop runs. -/
structure Enduring (r : PacketRun) : Prop extends r.Runs where
  transport : r.underlay.base.transport = .packetTransport
  client : r.underlay.isClient = true → r.underlay.block.isSome = true
  named : ∀ user ∈ r.underlay.users, user.name ≠ ""

theorem IsInitial.enduring (h : r.IsInitial) : r.Enduring where
  halted := h.halted
  loop := by simp [h.base.2]
  transport := h.transport
  client := h.client
  named := h.named

theorem Enduring.readOneSegment (h : r.Enduring)
    (hguard : r.Tolerates crypto keys (.datagram order now answer d)) :
    ∃ result, (r.underlay.readOneSegment crypto (keys now) r.cache order now d).1 = .ok result := by
  obtain hnone | ⟨nonce, -, ⟨message, hpanic, -⟩ |
    ⟨blockCipher, plain, hopens, hresult⟩⟩ :=
      r.underlay.readOneSegment_cases crypto (keys now) r.cache order now d
  · exact ⟨none, hnone⟩
  · have hsafe : ¬ (r.underlay.decryptMetadata crypto (keys now) d.addr order
        d.front nonce).Panics :=
      PacketUnderlay.decryptMetadata_not_panics h.client h.named d.addr order d.front nonce
    rw [hpanic] at hsafe
    exact absurd trivial hsafe
  · cases hisClient : r.underlay.isClient with
    | true =>
      obtain ⟨seg, hparse, -⟩ := hguard.client order now answer d rfl
        hisClient nonce blockCipher plain hopens
      rw [hparse] at hresult
      exact ⟨_, hresult⟩
    | false =>
      have hsafe : ¬ (r.underlay.parseSegment crypto (unixSeconds now) plain
          nonce.bytes d.remaining blockCipher).Panics := by
        apply PacketUnderlay.parseSegment_not_panics
        · obtain ⟨block, rfl, -⟩ := hopens.of_server hisClient
          exact .inl rfl
        · intro metadata hmetadata
          exact hguard.server order now answer d rfl hisClient nonce
            blockCipher plain metadata hopens hmetadata
      rw [hresult]
      unfold PacketUnderlay.finishRead
      split
      · exact ⟨_, rfl⟩
      · rw [hisClient]
        exact ⟨none, rfl⟩
      · rename_i message hpanic
        rw [hpanic] at hsafe
        exact absurd trivial hsafe

theorem Enduring.handling_ne_fail (h : r.Enduring)
    (hguard : r.Tolerates crypto keys (.datagram order now answer d))
    (hread : (r.underlay.readOneSegment crypto (keys now) r.cache order now d).1 = .ok (some seg))
    (err : LoopError) : r.underlay.base.handling seg ≠ .fail err := by
  cases hisClient : r.underlay.isClient with
  | true =>
    obtain hnone | ⟨nonce, -, ⟨message, -, hpanic⟩ |
      ⟨blockCipher, plain, hopens, hresult⟩⟩ :=
        r.underlay.readOneSegment_cases crypto (keys now) r.cache order now d
    · cases hread.symm.trans hnone
    · cases hread.symm.trans hpanic
    · obtain ⟨parsed, hparse, hrequest, hresponse⟩ := hguard.client order now
        answer d rfl hisClient nonce blockCipher plain hopens
      rw [hparse] at hresult
      have hseg : seg = { parsed with block := blockCipher } := by
        simpa [PacketUnderlay.finishRead] using hread.symm.trans hresult
      subst hseg
      apply Underlay.handling_ne_fail_of_client hisClient
      · exact hrequest
      · exact hresponse
  | false =>
    obtain ⟨nonce, plain, hopens, hmetadata⟩ :=
      PacketUnderlay.readOneSegment_eq_some hread
    have htolerates := hguard.server order now answer d rfl hisClient nonce
      seg.block plain seg.metadata hopens hmetadata
    exact Underlay.handling_ne_fail_of_server hisClient h.transport htolerates err

theorem Enduring.readDatagram (h : r.Enduring) (hloop : r.underlay.base.loop = .reading)
    (hguard : r.Tolerates crypto keys (.datagram order now answer d)) :
    (r.readDatagram crypto keys order now answer d).Enduring := by
  obtain ⟨result, hresult⟩ := h.readOneSegment hguard
  have hsent : answer = .sent := hguard.writes
  subst hsent
  unfold PacketRun.readDatagram
  rcases hread : r.underlay.readOneSegment crypto (keys now) r.cache order now
    d with ⟨outcome, cache⟩
  rw [hread] at hresult
  dsimp only at hresult
  subst hresult
  cases result with
  | none => exact ⟨⟨h.halted, h.loop⟩, h.transport, h.client, h.named⟩
  | some seg =>
    have hfail : ∀ err, r.underlay.base.handling seg ≠ .fail err :=
      h.handling_ne_fail hguard (by rw [hread])
    have hrole := r.underlay.base.sameRole_handle d.addr (now / 1000) .sent seg
    refine ⟨⟨h.halted, ?_⟩, ?_, ?_, h.named⟩
    · exact Underlay.loop_handle_ne_returned hloop hfail
    · exact hrole.transport.trans h.transport
    · intro hisClient
      exact h.client (hrole.isClient.symm.trans hisClient)

theorem Enduring.setBase {base : Underlay} (h : r.Enduring) (hrole : r.underlay.base.SameRole base)
    (hloop : ∀ err seg, base.loop ≠ .returned err seg) : (r.setBase base).Enduring where
  halted := h.halted
  loop := hloop
  transport := hrole.transport.trans h.transport
  client hisClient := h.client (hrole.isClient.symm.trans hisClient)
  named := h.named

theorem Enduring.next {event : PacketEvent} (h : r.Enduring)
    (hguard : r.Tolerates crypto keys event)
    (hstep : r.next crypto keys event = some r') : r'.Enduring := by
  cases event with
  | datagram order now answer d =>
    simp only [PacketRun.next] at hstep
    split at hstep
    · rename_i hloop _
      cases hstep
      exact h.readDatagram hloop hguard
    · cases hstep
  | loop event =>
    obtain ⟨hread, base, hbase, rfl⟩ := next_loop_eq_some hstep
    exact h.setBase (Underlay.sameRole_next hbase) (Underlay.next_ne_returned hbase hread h.loop)
  | seen data tag now =>
    cases hstep
    exact ⟨⟨h.halted, h.loop⟩, h.transport, h.client, h.named⟩
  | setUsers users =>
    obtain ⟨hnamed, hstep⟩ := Option.ite_none_right_eq_some.mp hstep
    cases hstep
    exact ⟨⟨h.halted, h.loop⟩, h.transport, h.client, hnamed⟩

/-- The event loop runs on as long as the datagrams are tolerated. -/
theorem eventLoop_runs_on
    (h : (packetSystem crypto keys).ReachableBy (PacketRun.Tolerates crypto keys) r) : r.Runs := by
  have henduring : r.Enduring := by
    induction h with
    | init hinit => exact IsInitial.enduring hinit
    | step _ hguard hstep ih => exact ih.next hguard hstep
  exact henduring.toRuns

def stopped (r : PacketRun) : Bool :=
  r.halted.isSome ||
    match r.underlay.base.loop with
    | .returned _ _ => true
    | _ => false

theorem not_runs_of_stopped (h : r.stopped = true) : ¬ r.Runs := by
  intro hruns
  unfold stopped at h
  rw [hruns.halted] at h
  split at h
  · exact hruns.loop _ _ ‹_›
  · cases h

end PacketRun

def PacketUnderlay.datagramBytes (u : PacketUnderlay) (addr : Addr)
    (choices : WriteChoices) (seg : Segment) : Bytes :=
  match (u.writeOneSegment tagCrypto addr choices seg).outcome with
  | .ok bytes => bytes
  | _ => []

def sessionSegment (protocol : ProtocolType) (id : UInt32) : Segment where
  metadata := .session {
    protocol := protocol
    sessionID := id
    seq := 0
    statusCode := 0 }
  block := some aliceCipher

def aliceRequest (protocol : ProtocolType) (id : UInt32) : Datagram :=
  ⟨"client", aliceClient.datagramBytes "server" (choicesAt 120000000000)
    (sessionSegment protocol id)⟩

def aliceResponse (protocol : ProtocolType) (id : UInt32) : Datagram :=
  ⟨"server", aliceServer.datagramBytes "client" (choicesAt 182000000000)
    (sessionSegment protocol id)⟩

def aliceServerRun : PacketRun := { underlay := aliceServer, cache := emptyCache }

def aliceClientRun : PacketRun := { underlay := aliceClient, cache := emptyCache }

theorem aliceServerRun_isInitial : aliceServerRun.IsInitial where
  base := ⟨rfl, rfl⟩
  transport := rfl
  client := by decide
  named := by decide
  halted := rfl
  opened := rfl

theorem aliceClientRun_isInitial : aliceClientRun.IsInitial where
  base := ⟨rfl, rfl⟩
  transport := rfl
  client := by decide
  named := by decide
  halted := rfl
  opened := rfl

theorem aliceServerRun_tolerates : aliceServerRun.Tolerates tagCrypto (fun _ => passwordKeys)
      (.datagram [] 120000000000 .sent (aliceRequest openSessionRequest 3)) where
  writes := rfl
  server := by
    rintro order now answer d heq - nonce blockCipher plain metadata hopens hmetadata
    obtain ⟨rfl, rfl, rfl, rfl⟩ := PacketEvent.datagram.inj heq
    have hnonce : nonce = Nonce.ofFront
        (aliceRequest openSessionRequest 3).front (by decide +kernel) :=
      Nonce.ext hopens.nonce_eq
    have hparsed : (aliceServer.decryptMetadata tagCrypto passwordKeys "client"
        [] (aliceRequest openSessionRequest 3).front nonce).bind
          (fun opened => Metadata.unmarshal opened.2 120) =
        .ok (.session {
          protocol := openSessionRequest, timestamp := 2, sessionID := 3
          suffixLen := 3 }) := by
      rw [hnonce]
      decide +kernel
    rw [show aliceServer.decryptMetadata tagCrypto passwordKeys "client" []
      (aliceRequest openSessionRequest 3).front nonce = _ from
        hopens.opened] at hparsed
    cases hmetadata.symm.trans hparsed
    exact ⟨by decide, by decide⟩
  client := by
    intro order now answer d heq hclient
    cases hclient

/-- The server goes on after it has opened the session. -/
theorem eventLoop_runs_on_request : ∃ r, (packetSystem tagCrypto fun _ => passwordKeys).ReachableBy
        (PacketRun.Tolerates tagCrypto fun _ => passwordKeys) r ∧
      r.opened = [⟨3, "alice"⟩] ∧ r.Runs := by
  have hreachable := System.ReachableBy.step (.init aliceServerRun_isInitial)
    aliceServerRun_tolerates (S := packetSystem tagCrypto fun _ => passwordKeys)
    rfl
  exact ⟨_, hreachable, by decide +kernel, PacketRun.eventLoop_runs_on hreachable⟩

/--
A request for session 0 ends the loop of the server.  The response for a session
that was cleaned ends the loop of the client.
-/
theorem eventLoop_stops : (∃ r, (packetSystem tagCrypto fun _ => passwordKeys).ReachableBy
        (fun _ event => event.Writes) r ∧ r.underlay.isClient = false ∧ ¬ r.Runs) ∧
    ∃ r, (packetSystem tagCrypto fun _ => passwordKeys).ReachableBy
        (fun _ event => event.Writes) r ∧ r.underlay.isClient = true ∧ ¬ r.Runs := by
  constructor
  · have hrun : System.runEvents (PacketRun.next tagCrypto fun _ => passwordKeys) aliceServerRun
        [.datagram [] 120000000000 .sent (aliceRequest openSessionRequest 0)] = some _ := rfl
    refine ⟨_, System.ReachableBy.run (.init aliceServerRun_isInitial)
      (System.guarded_of_forall ?_ _) hrun, by decide +kernel,
      PacketRun.not_runs_of_stopped (by decide +kernel)⟩
    simp [PacketEvent.Writes]
  · have hrun : System.runEvents (PacketRun.next tagCrypto fun _ => passwordKeys) aliceClientRun
        [.loop (.add 3 "server" 120000000), .loop (.clean 181000000),
          .datagram [] 182000000000 .sent (aliceResponse openSessionResponse 3)] = some _ := rfl
    refine ⟨_, System.ReachableBy.run (.init aliceClientRun_isInitial)
      (System.guarded_of_forall ?_ _) hrun, by decide +kernel,
      PacketRun.not_runs_of_stopped (by decide +kernel)⟩
    simp [PacketEvent.Writes]

end Mieru.Protocol
