import Mieru.Server.Mux
import Mieru.Underlay.Isolation

/-!
# Revocation of users

After `SetServerUsers` the sessions that are created belong to users of the new
list, with two exceptions.  The cipher of a session that is still registered
opens further requests of its user, and a packet underlay that is being made
keeps the users it has copied.
-/

namespace Mieru.Protocol

open Mieru.Foundation
open Mieru.Cipher
open ProtocolType

variable {decryptedMeta : Bytes} {cache : ReplayCache} {now : Int} {answer : WriteAnswer}
  {openings : List Opening} {event : UnderlayEvent}

theorem Underlay.openings_registered {u : Underlay} {seg : Segment} {users : List User}
    (h : seg.protocol = openSessionRequest → Registered users seg.userName) :
    ∀ opening ∈ u.openings seg, Registered users opening.userName := by
  intro opening hopening
  have hdecides := u.handling_decides seg
  unfold openings at hopening
  split at hopening
  · rename_i id hcreate
    rw [hcreate] at hdecides
    rw [List.mem_singleton.mp hopening]
    exact h hdecides.2.2.1
  · cases hopening

/-! ## Streams -/

def StreamUnderlay.RecvRegistered (t : StreamUnderlay) : Prop :=
  ∀ recv, t.recv = some recv → Registered t.users recv.ctx.userName

namespace StreamInput

variable {crypto : Crypto} {keyList : Bytes → List Bytes}
  {input next last : StreamInput} {now : Int}

structure Serves (input next : StreamInput) : Prop where
  isClient : next.t.isClient = input.t.isClient
  users : next.t.users = input.t.users
  recv : input.t.RecvRegistered → next.t.RecvRegistered
  keyed : input.t.recv.isSome = true → next.t.recv.isSome = true

theorem Serves.of_eq (h : next.t = input.t) : Serves input next where
  isClient := by rw [h]
  users := by rw [h]
  recv := by
    rw [h]
    exact id
  keyed := by
    rw [h]
    exact id

theorem Serves.trans (h : Serves input next) (hnext : Serves next last) : Serves input last where
  isClient := hnext.isClient.trans h.isClient
  users := hnext.users.trans h.users
  recv := hnext.recv ∘ h.recv
  keyed := hnext.keyed ∘ h.keyed

theorem serves_readConn {part : String} {size : Nat} {data : Bytes}
    (h : (input.readConn part size).outcome = .ok (data, next)) : Serves input next := by
  unfold readConn at h
  split at h
  · cases h
    exact .of_eq rfl
  · cases h

theorem serves_checkReplay {encrypted : Bytes} {duplicate : Bool}
    (h : (input.checkReplay now encrypted).outcome = .ok (duplicate, next)) :
    Serves input next := by
  obtain ⟨front, -, heq⟩ := Eval.outcome_bind_eq_ok.mp h
  cases heq
  exact .of_eq rfl

theorem serves_setRecv {recv : BlockCipher}
    (h : input.t.RecvRegistered → Registered input.t.users recv.ctx.userName) :
    Serves input (input.setRecv recv) where
  isClient := rfl
  users := rfl
  recv := by
    intro hregistered stored hstored
    cases hstored
    exact h hregistered
  keyed _ := rfl

theorem serves_decryptNext {ciphertext plaintext : Bytes}
    (h : (input.decryptNext crypto ciphertext).outcome = .ok (plaintext, next)) :
    Serves input next ∧ next.t.recv.isSome = true := by
  unfold decryptNext at h
  split at h
  · cases h
  · rename_i recv hrecv
    dsimp only at h
    split at h
    · cases h
      refine ⟨serves_setRecv ?_, rfl⟩
      intro hregistered
      rw [BlockCipher.ctx_decrypt]
      exact hregistered recv hrecv
    · cases h
    · cases h

theorem serves_readPadding {size : UInt8}
    (h : (input.readPadding size).outcome = .ok next) : Serves input next := by
  unfold readPadding at h
  split at h
  · obtain ⟨⟨data, middle⟩, hread, heq⟩ := Eval.outcome_bind_eq_ok.mp h
    cases heq
    exact serves_readConn hread
  · cases h
    exact .of_eq rfl

theorem serves_readPayload {payloadLen : UInt16} {payload : Bytes}
    (h : (input.readPayload crypto now payloadLen).outcome = .ok (payload, next)) :
    Serves input next := by
  unfold readPayload at h
  split at h
  · obtain ⟨size, -, hrest⟩ := Eval.outcome_bind_eq_ok.mp h
    obtain ⟨⟨encrypted, read⟩, hread, hrest⟩ := Eval.outcome_bind_eq_ok.mp hrest
    obtain ⟨⟨duplicate, checked⟩, hcheck, hdecrypt⟩ :=
      Eval.outcome_bind_eq_ok.mp hrest
    exact ((serves_readConn hread).trans (serves_checkReplay hcheck)).trans
      (serves_decryptNext hdecrypt).1
  · cases h
    exact .of_eq rfl

theorem serves_readSegment {seg : Segment}
    (h : (input.readSegment crypto now decryptedMeta).outcome = .ok (seg, next)) :
    Serves input next ∧ seg.block = next.t.recv := by
  unfold readSegment at h
  split at h
  · obtain ⟨⟨payload, read⟩, hread, hrest⟩ := Eval.outcome_bind_eq_ok.mp h
    obtain ⟨padded, hpadding, heq⟩ := Eval.outcome_bind_eq_ok.mp hrest
    cases heq
    exact ⟨(serves_readPayload hread).trans (serves_readPadding hpadding), rfl⟩
  · obtain ⟨padded, hpadding, hrest⟩ := Eval.outcome_bind_eq_ok.mp h
    obtain ⟨⟨payload, read⟩, hread, hrest⟩ := Eval.outcome_bind_eq_ok.mp hrest
    obtain ⟨again, hagain, heq⟩ := Eval.outcome_bind_eq_ok.mp hrest
    cases heq
    exact ⟨((serves_readPadding hpadding).trans (serves_readPayload hread)).trans
      (serves_readPadding hagain), rfl⟩
  · cases h
  · cases h

theorem serves_decryptFirst {isNewSessionReplay : Bool} {encryptedMeta : Bytes}
    (h : (input.decryptFirst crypto keyList isNewSessionReplay
      encryptedMeta).outcome = .ok (decryptedMeta, next)) :
    Serves input next ∧ next.t.recv.isSome = true := by
  unfold decryptFirst at h
  split at h
  · rename_i plain recv hfound
    split at h
    · cases h
    · cases h
      refine ⟨serves_setRecv ?_, rfl⟩
      intro _
      unfold serverInitRecvBlockCipherAndDecryptMetadata at hfound
      split at hfound
      · cases hfound
      · obtain ⟨⟨matched, decrypted⟩, hlookup, hopened⟩ :=
          Outcome.bind_eq_ok.mp hfound
        dsimp only at hopened
        split at hopened
        · cases hopened
          rw [BlockCipher.ctx_decrypt]
          exact (lookupUser_eq_ok hlookup).registered
        · cases hopened
        · cases hopened
  · split at h <;> cases h
  · cases h

theorem serves_decryptMetadata (hserver : input.t.isClient = false)
    {isNewSessionReplay : Bool} {encryptedMeta : Bytes}
    (h : (input.decryptMetadata crypto keyList isNewSessionReplay
      encryptedMeta).outcome = .ok (decryptedMeta, next)) :
    Serves input next ∧ next.t.recv.isSome = true := by
  unfold decryptMetadata at h
  split at h
  · exact serves_decryptFirst h
  · rename_i hclient _
    cases hserver.symm.trans hclient
  · cases h
  · exact serves_decryptNext h

theorem serves_readOneSegment (hserver : input.t.isClient = false) {result : Option Segment}
    (h : (input.readOneSegment crypto keyList now).outcome = .ok (result, next)) :
    Serves input next ∧ ∀ seg, result = some seg →
      ∃ recv, next.t.recv = some recv ∧ seg.block = some recv := by
  unfold readOneSegment at h
  split at h
  · cases h
    exact ⟨.of_eq rfl, by simp⟩
  · obtain ⟨⟨encryptedMeta, read⟩, hread, hrest⟩ :=
      Eval.outcome_bind_eq_ok.mp h
    obtain ⟨⟨duplicate, checked⟩, hcheck, hrest⟩ :=
      Eval.outcome_bind_eq_ok.mp hrest
    have hchecked := (serves_readConn hread).trans (serves_checkReplay hcheck)
    obtain ⟨⟨decryptedMeta, opened⟩, hopen, hrest⟩ :=
      Eval.outcome_bind_eq_ok.mp hrest
    obtain ⟨hopened, hkeyed⟩ :=
      serves_decryptMetadata (hchecked.isClient.trans hserver) hopen
    dsimp only at hrest
    split at hrest
    · cases hrest
    · obtain ⟨⟨seg, last⟩, hsegment, heq⟩ := Eval.outcome_bind_eq_ok.mp hrest
      cases heq
      obtain ⟨hserves, hblock⟩ := serves_readSegment hsegment
      refine ⟨(hchecked.trans hopened).trans hserves, ?_⟩
      intro other hother
      cases hother
      obtain ⟨recv, hrecv⟩ :=
        Option.isSome_iff_exists.mp (hserves.keyed hkeyed)
      exact ⟨recv, hrecv, hblock.trans hrecv⟩

end StreamInput

/-! ## One underlay -/

/-- The packet underlay knows the users and holds no request of others. -/
structure PacketServer.Admits (p : PacketServer) (known : List User) :
    Prop where
  server : p.underlay.isClient = false
  users : p.underlay.users = known
  held : ∀ addr seg, p.held = some (addr, seg) →
    seg.protocol = openSessionRequest → Registered known seg.userName

namespace PacketServer

variable {crypto : Crypto} {keys : Int → Bytes → List Bytes}
  {p p' : PacketServer} {users : List User}

/--
No open session request is opened by the cipher of a registered session whose
user is not on the list any more.
-/
def NoShortcut (crypto : Crypto) (keys : Int → Bytes → List Bytes)
    (p : PacketServer) (order : List UInt32) (now : Int) (d : Datagram) : Prop :=
  ∀ nonce block plain metadata,
    p.underlay.Opens crypto (keys now) order d nonce (some block) plain →
    p.underlay.SessionCipher d.addr order block →
    Metadata.unmarshal plain (unixSeconds now) = .ok metadata →
    metadata.protocol = openSessionRequest →
    Registered p.underlay.users block.ctx.userName

theorem Admits.read {order : List UInt32} {d : Datagram} (h : p.Admits users)
    (hshortcut : p.NoShortcut crypto keys order now d)
    (hread : p.read crypto keys cache order now d = some p') : p'.Admits users := by
  have hsame := sameSettings_read hread
  refine ⟨hsame.isClient.trans h.server, hsame.users.trans h.users, ?_⟩
  obtain rfl | rfl | ⟨seg, hseg, rfl⟩ := read_eq_some hread
  · exact h.held
  · exact h.held
  · rintro addr held hheld hprotocol
    cases hheld
    obtain ⟨nonce, plain, hopens, hmetadata⟩ :=
      PacketUnderlay.readOneSegment_eq_some hseg
    obtain ⟨block, hblock, hcipher⟩ := hopens.of_server h.server
    rw [Segment.userName, hblock, ← h.users]
    obtain hsession | hmatches := hcipher
    · rw [hblock] at hopens
      exact hshortcut nonce block plain seg.metadata hopens hsession hmetadata hprotocol
    · exact hmatches.registered

theorem Admits.handle (h : p.Admits users) (hhandle : p.handle now answer = some (p', openings)) :
    p'.Admits users ∧ ∀ opening ∈ openings, Registered users opening.userName := by
  have hsame := sameSettings_handle hhandle
  obtain ⟨addr, seg, hheld, rfl, rfl⟩ := handle_eq_some hhandle
  refine ⟨⟨hsame.isClient.trans h.server, hsame.users.trans h.users, ?_⟩, ?_⟩
  · intro other held hnone
    cases hnone
  · exact Underlay.openings_registered (h.held addr seg hheld)

theorem Admits.next (h : p.Admits users) (hnext : p.next event = some p') : p'.Admits users := by
  have hsame := sameSettings_next hnext
  obtain ⟨base, -, rfl⟩ := next_eq_some hnext
  exact ⟨hsame.isClient.trans h.server, hsame.users.trans h.users, h.held⟩

end PacketServer

/-- The stream underlay knows the users and reads for one of them. -/
structure StreamServer.Admits (s : StreamServer) (known : List User) :
    Prop where
  server : s.input.t.isClient = false
  users : s.input.t.users = known
  recv : s.input.t.RecvRegistered

namespace StreamServer

variable {crypto : Crypto} {keys : Int → Bytes → List Bytes}
  {s s' : StreamServer} {users : List User}

theorem Admits.serves {input : StreamInput} (h : s.Admits users) (hserves : s.input.Serves input) :
    { s with input := input }.Admits users where
  server := hserves.isClient.trans h.server
  users := hserves.users.trans h.users
  recv := hserves.recv h.recv

theorem Admits.read (h : s.Admits users)
    (hread : s.read crypto keys cache now answer = some (s', openings)) :
    s'.Admits users ∧ ∀ opening ∈ openings, Registered users opening.userName := by
  have hcached : { s with input := { s.input with cache := cache } }.Admits
      users := h.serves (.of_eq rfl)
  unfold StreamServer.read at hread
  split at hread
  · split at hread
    · rename_i input hinput
      cases hread
      obtain ⟨hserves, -⟩ :=
        StreamInput.serves_readOneSegment hcached.server hinput
      exact ⟨hcached.serves hserves, by simp⟩
    · rename_i seg input hinput
      cases hread
      obtain ⟨hserves, hblock⟩ :=
        StreamInput.serves_readOneSegment hcached.server hinput
      have hadmits := hcached.serves hserves
      refine ⟨⟨hadmits.server, hadmits.users, hadmits.recv⟩, ?_⟩
      intro opening hopening
      split at hopening
      · have huser : Registered users seg.userName := by
          obtain ⟨recv, hrecv, hsegBlock⟩ := hblock seg rfl
          rw [Segment.userName, hsegBlock, ← hadmits.users]
          exact hadmits.recv recv hrecv
        exact Underlay.openings_registered (fun _ => huser) opening hopening
      · cases hopening
    · cases hread
      exact ⟨⟨h.server, h.users, h.recv⟩, by simp⟩
  · cases hread

theorem next_eq_some (h : s.next event = some s') :
    ∃ base, s' = { s with base := base } := by
  have hmap : (s.base.next event).map (fun base => { s with base := base }) =
      some s' := by
    cases event with
    | read addr now answer seg => cases h
    | pass => exact h
    | add id addr now => exact h
    | act id event => exact h
    | clean now => exact h
  obtain ⟨base, -, rfl⟩ := Option.map_eq_some_iff.mp hmap
  exact ⟨base, rfl⟩

def Sound (s : StreamServer) (known : List User) : Prop :=
  s.current = true → s.Admits known

theorem read_of_not_current (hcurrent : s.current = false)
    (hread : s.read crypto keys cache now answer = some (s', openings)) :
    s'.current = false ∧ openings = [] := by
  unfold StreamServer.read at hread
  split at hread
  · split at hread
    · cases hread
      exact ⟨hcurrent, rfl⟩
    · rw [hcurrent] at hread
      cases hread
      exact ⟨rfl, rfl⟩
    · cases hread
      exact ⟨hcurrent, rfl⟩
  · cases hread

theorem Sound.read (h : s.Sound users)
    (hread : s.read crypto keys cache now answer = some (s', openings)) :
    s'.Sound users ∧ ∀ opening ∈ openings, Registered users opening.userName := by
  cases hcurrent : s.current with
  | true =>
    obtain ⟨hadmits, hopenings⟩ := (h hcurrent).read hread
    exact ⟨fun _ => hadmits, hopenings⟩
  | false =>
    obtain ⟨hlater, rfl⟩ := read_of_not_current hcurrent hread
    refine ⟨?_, by simp⟩
    intro htrue
    rw [hlater] at htrue
    cases htrue

theorem Sound.next (h : s.Sound users) (hnext : s.next event = some s') : s'.Sound users := by
  obtain ⟨base, rfl⟩ := next_eq_some hnext
  intro hcurrent
  have hadmits := h hcurrent
  exact ⟨hadmits.server, hadmits.users, hadmits.recv⟩

end StreamServer

/-! ## The mux -/

namespace Mux

variable {crypto : Crypto} {keys : Int → Bytes → List Bytes} {m m' : Mux}

structure Enforces (m : Mux) : Prop where
  made : ∀ u ∈ m.made, u.isClient = false ∧ u.users = m.users
  packets : ∀ p ∈ m.packets, p.Admits m.users
  streams : ∀ s ∈ m.streams, s.Sound m.users
  opened : ∀ opening ∈ m.opened, Registered m.users opening.userName
  unused : m.used = false → m.packetListeners = [] ∧ m.made = [] ∧ m.packets = []

structure RevokesCleanly (crypto : Crypto) (keys : Int → Bytes → List Bytes)
    (m : Mux) (event : MuxEvent) : Prop where
  made : ∀ users, event = .setServerUsers users → m.made = []
  held : ∀ users, event = .setServerUsers users → ∀ p ∈ m.packets,
    ∀ addr seg, p.held = some (addr, seg) →
      seg.protocol = openSessionRequest → Registered users seg.userName
  shortcut : ∀ index cache order now d, event = .task (.packetRead index cache order now d) →
      ∀ p, m.packets[index]? = some p → p.NoShortcut crypto keys order now d

theorem Enforces.setPacket {index : Nat} {p' : PacketServer} (h : m.Enforces)
    (hused : m.used = true) (hp : p'.Admits m.users)
    (hopenings : ∀ opening ∈ openings, Registered m.users opening.userName) :
    { m with
      packets := m.packets.set index p'
      opened := openings ++ m.opened }.Enforces where
  made := h.made
  packets := by
    intro p hmem
    obtain hmem | rfl := List.mem_or_eq_of_mem_set hmem
    · exact h.packets p hmem
    · exact hp
  streams := h.streams
  opened := by
    intro opening hopening
    obtain hopening | hopening := List.mem_append.mp hopening
    · exact hopenings opening hopening
    · exact h.opened opening hopening
  unused hunused := by
    cases hused.symm.trans hunused

theorem Enforces.setStream {index : Nat} {s' : StreamServer}
    (h : m.Enforces) (hs : s'.Sound m.users)
    (hopenings : ∀ opening ∈ openings, Registered m.users opening.userName) :
    { m with
      streams := m.streams.set index s'
      opened := openings ++ m.opened }.Enforces where
  made := h.made
  packets := h.packets
  streams := by
    intro s hmem
    obtain hmem | rfl := List.mem_or_eq_of_mem_set hmem
    · exact h.streams s hmem
    · exact hs
  opened := by
    intro opening hopening
    obtain hopening | hopening := List.mem_append.mp hopening
    · exact hopenings opening hopening
    · exact h.opened opening hopening
  unused := h.unused

theorem Enforces.used_of_packet (h : m.Enforces) {p : PacketServer}
    (hp : p ∈ m.packets) : m.used = true := by
  cases hused : m.used with
  | true => rfl
  | false =>
    rw [(h.unused hused).2.2] at hp
    cases hp

theorem Enforces.runTask {task : MuxTask} (h : m.Enforces)
    (hguard : m.RevokesCleanly crypto keys (.task task))
    (hrun : m.runTask crypto keys task = some m') : m'.Enforces := by
  cases task with
  | makePacket p =>
    obtain ⟨hmem, hrun⟩ := Option.ite_none_right_eq_some.mp hrun
    cases hrun
    refine ⟨?_, h.packets, h.streams, h.opened, ?_⟩
    · intro u hu
      obtain hu | hu := List.mem_append.mp hu
      · exact h.made u hu
      · rw [List.mem_singleton.mp hu]
        exact ⟨rfl, rfl⟩
    · intro hunused
      rw [(h.unused hunused).1] at hmem
      cases hmem
  | addPacket index =>
    simp only [Mux.runTask] at hrun
    split at hrun
    · rename_i underlay hunderlay
      cases hrun
      have hmem := List.mem_of_getElem? hunderlay
      refine ⟨?_, ?_, h.streams, h.opened, ?_⟩
      · intro u hu
        exact h.made u (List.mem_of_mem_eraseIdx hu)
      · intro p hp
        obtain hp | hp := List.mem_append.mp hp
        · exact h.packets p hp
        · rw [List.mem_singleton.mp hp]
          obtain ⟨hserver, husers⟩ := h.made underlay hmem
          exact ⟨hserver, husers, by simp⟩
      · intro hunused
        rw [(h.unused hunused).2.1] at hmem
        cases hmem
    · cases hrun
  | acceptStream p remoteAddr =>
    obtain ⟨-, hrun⟩ := Option.ite_none_right_eq_some.mp hrun
    cases hrun
    refine ⟨h.made, h.packets, ?_, h.opened, h.unused⟩
    intro s hs
    obtain hs | hs := List.mem_append.mp hs
    · exact h.streams s hs
    · rw [List.mem_singleton.mp hs]
      intro _
      exact ⟨rfl, rfl, by intro recv hrecv; cases hrecv⟩
  | dropPacket index =>
    cases hrun
    refine ⟨h.made, ?_, h.streams, h.opened, ?_⟩
    · intro p hp
      exact h.packets p (List.mem_of_mem_eraseIdx hp)
    · intro hunused
      obtain ⟨hlisteners, hmade, hpackets⟩ := h.unused hunused
      exact ⟨hlisteners, hmade, by simp [hpackets]⟩
  | dropStream index =>
    cases hrun
    refine ⟨h.made, h.packets, ?_, h.opened, h.unused⟩
    intro s hs
    exact h.streams s (List.mem_of_mem_eraseIdx hs)
  | packetRead index cache order now d =>
    obtain ⟨p, hp, p', openings, hindex, hread, rfl⟩ := onPacket_eq_some hrun
    obtain ⟨after, hafter, heq⟩ := Option.map_eq_some_iff.mp hread
    cases heq
    have hshortcut := hguard.shortcut index cache order now d rfl p hindex
    exact h.setPacket (h.used_of_packet hp) ((h.packets p hp).read hshortcut hafter) (by simp)
  | packetHandle index now answer =>
    obtain ⟨p, hp, p', openings, -, hhandle, rfl⟩ := onPacket_eq_some hrun
    obtain ⟨hadmits, hopenings⟩ := (h.packets p hp).handle hhandle
    exact h.setPacket (h.used_of_packet hp) hadmits hopenings
  | packet index event =>
    obtain ⟨p, hp, p', openings, -, hnext, rfl⟩ := onPacket_eq_some hrun
    obtain ⟨after, hafter, heq⟩ := Option.map_eq_some_iff.mp hnext
    cases heq
    exact h.setPacket (h.used_of_packet hp) ((h.packets p hp).next hafter) (by simp)
  | streamArrive index bytes =>
    obtain ⟨s, hs, s', openings, harrive, rfl⟩ := onStream_eq_some hrun
    cases harrive
    have hsound := h.streams s hs
    refine h.setStream ?_ (by simp)
    intro hcurrent
    have hadmits := hsound hcurrent
    exact ⟨hadmits.server, hadmits.users, hadmits.recv⟩
  | streamRead index cache now answer =>
    obtain ⟨s, hs, s', openings, hread, rfl⟩ := onStream_eq_some hrun
    obtain ⟨hsound, hopenings⟩ := (h.streams s hs).read hread
    exact h.setStream hsound hopenings
  | stream index event =>
    obtain ⟨s, hs, s', openings, hnext, rfl⟩ := onStream_eq_some hrun
    obtain ⟨after, hafter, heq⟩ := Option.map_eq_some_iff.mp hnext
    cases heq
    exact h.setStream ((h.streams s hs).next hafter) (by simp)

theorem Enforces.of_sameUnderlays (h : m.Enforces) (hsame : m.SameUnderlays m')
    (hunused : m'.used = false → m.used = false ∧ m'.packetListeners = m.packetListeners) :
    m'.Enforces where
  made := by
    rw [hsame.made, hsame.users]
    exact h.made
  packets := by
    rw [hsame.packets, hsame.users]
    exact h.packets
  streams := by
    rw [hsame.streams, hsame.users]
    exact h.streams
  opened := by
    rw [hsame.opened, hsame.users]
    exact h.opened
  unused := by
    intro hnot
    obtain ⟨hbefore, hlisteners⟩ := hunused hnot
    rw [hlisteners, hsame.made, hsame.packets]
    exact h.unused hbefore

theorem Enforces.setEndpoints (h : m.Enforces) (endpoints : List UnderlayProperties)
    (listens : UnderlayProperties → Bool) : (m.setEndpoints endpoints listens).Enforces := by
  apply h.of_sameUnderlays (m.sameUnderlays_setEndpoints endpoints listens)
  obtain ⟨_, _, _, _, hset, hlisteners⟩ := m.setEndpoints_eq endpoints listens
  rw [hset]
  exact fun hunused => ⟨hunused, hlisteners hunused⟩

theorem Enforces.start {listens : UnderlayProperties → Bool} (h : m.Enforces)
    (hstart : m.start listens = .ok m') : m'.Enforces := by
  apply h.of_sameUnderlays (sameUnderlays_start hstart)
  obtain ⟨_, _, _, rfl⟩ := start_eq_ok hstart
  intro hunused
  cases hunused

theorem Enforces.setServerUsers {users : List User} (h : m.Enforces)
    (hguard : m.RevokesCleanly crypto keys (.setServerUsers users)) :
    (m.setServerUsers users).Enforces where
  made := by
    intro u hu
    rw [show (m.setServerUsers users).made = m.made from rfl, hguard.made users rfl] at hu
    cases hu
  packets := by
    intro p hp
    cases hused : m.used with
    | true =>
      simp only [Mux.setServerUsers, hused, if_true, List.mem_map] at hp
      obtain ⟨before, hbefore, rfl⟩ := hp
      exact ⟨(h.packets before hbefore).server, rfl, hguard.held users rfl before hbefore⟩
    | false =>
      simp only [Mux.setServerUsers, hused, (h.unused hused).2.2] at hp
      cases hp
  streams := by
    intro s hs
    obtain ⟨before, -, rfl⟩ := List.mem_map.mp hs
    intro hcurrent
    cases hcurrent
  opened := by
    intro opening hopening
    cases hopening
  unused := by
    intro hunused
    obtain ⟨hlisteners, hmade, hpackets⟩ := h.unused hunused
    refine ⟨hlisteners, hmade, ?_⟩
    simp [Mux.setServerUsers, hpackets]

theorem Enforces.close (h : m.Enforces) : m.close.Enforces := by
  unfold Mux.close
  split
  · exact h
  · refine ⟨h.made, by simp, by simp, h.opened, ?_⟩
    intro hunused
    obtain ⟨hlisteners, hmade, -⟩ := h.unused hunused
    exact ⟨hlisteners, hmade, rfl⟩

theorem Enforces.next {event : MuxEvent} (h : m.Enforces)
    (hguard : m.RevokesCleanly crypto keys event)
    (hstep : m.next crypto keys event = some m') : m'.Enforces := by
  cases event with
  | setEndpoints endpoints listens =>
    cases hstep
    exact h.setEndpoints endpoints listens
  | setServerUsers users =>
    cases hstep
    exact h.setServerUsers hguard
  | setServerUserHintIsMandatory userHintIsMandatory =>
    cases hstep
    exact ⟨h.made, h.packets, h.streams, h.opened, h.unused⟩
  | start listens =>
    simp only [Mux.next] at hstep
    split at hstep
    · rename_i started hstart
      cases hstep
      exact h.start hstart
    · cases hstep
  | close =>
    cases hstep
    exact h.close
  | task task => exact h.runTask hguard hstep

/--
Every session that was created since the users were last set, by a packet
underlay or by a stream underlay that was accepted since then, belongs to one of
the users.
-/
theorem revocation_takes_effect
    (h : (muxSystem crypto keys).ReachableBy (Mux.RevokesCleanly crypto keys) m) :
    ∀ opening ∈ m.opened, Registered m.users opening.userName := by
  have henforces : m.Enforces := by
    induction h with
    | init hinit =>
      cases hinit
      exact ⟨by simp, by simp, by simp, by simp, by simp⟩
    | step _ hguard hstep ih => exact ih.next hguard hstep
  exact henforces.opened

end Mux

/-! ## A user who is removed -/

def aliceUser : User := { name := "alice", hashedPassword := "01" }

def bobUser : User := { name := "bob", hashedPassword := "02" }

def udpEndpoint : UnderlayProperties := ⟨1400, .packetTransport, ":8964"⟩

def muxEvents (users : List User) : List MuxEvent :=
  [.setServerUsers users, .setEndpoints [udpEndpoint] fun _ => true,
    .start fun _ => true, .task (.makePacket udpEndpoint),
    .task (.addPacket 0)]

def openEvents (order : List UInt32) (fill : UInt8) (id : UInt32) : List MuxEvent :=
  let bytes := aliceClient.datagramBytes "server"
    { choicesAt 120000000000 with fresh := nonceOf fill }
    (sessionSegment openSessionRequest id)
  [.task (.packetRead 0 emptyCache order 120000000000 ⟨"client", bytes⟩),
    .task (.packetHandle 0 120000000 .sent)]

def Mux.report (m : Mux) : List String × List Opening :=
  (m.users.map User.name, m.opened)

def Mux.checkEvent (m : Mux) : MuxEvent → Bool
  | .setServerUsers _ => m.made.isEmpty && m.packets.all (·.held.isNone)
  | .task (.packetRead _ _ order _ _) => order.isEmpty
  | _ => true

theorem Mux.revokesCleanly_of_checkEvent {crypto : Crypto}
    {keys : Int → Bytes → List Bytes} (m : Mux) (event : MuxEvent)
    (h : m.checkEvent event = true) : m.RevokesCleanly crypto keys event where
  made := by
    rintro users rfl
    simp only [checkEvent, Bool.and_eq_true] at h
    simpa using h.1
  held := by
    rintro users rfl p hp addr seg hheld
    simp only [checkEvent, Bool.and_eq_true, List.all_eq_true] at h
    have hnone := h.2 p hp
    rw [hheld] at hnone
    cases hnone
  shortcut := by
    rintro index cache order now d rfl p - nonce block plain metadata - ⟨id, hid, -⟩
    have hnil : order = [] := by simpa [checkEvent] using h
    rw [hnil] at hid
    cases hid

/-- After bob is removed, alice opens a session. -/
theorem revocation_takes_effect_alice : ∃ m, (muxSystem tagCrypto fun _ => passwordKeys).ReachableBy
        (Mux.RevokesCleanly tagCrypto fun _ => passwordKeys) m ∧
      m.report = (["alice"], [⟨3, "alice"⟩]) ∧
      ∀ opening ∈ m.opened, Registered m.users opening.userName := by
  obtain ⟨m, hreachable, hreport⟩ : ∃ m,
      (muxSystem tagCrypto fun _ => passwordKeys).ReachableBy
        (Mux.RevokesCleanly tagCrypto fun _ => passwordKeys) m ∧
      m.report = (["alice"], [⟨3, "alice"⟩]) :=
    System.exists_reachableBy Mux.revokesCleanly_of_checkEvent rfl
      (muxEvents [aliceUser, bobUser] ++
        MuxEvent.setServerUsers [aliceUser] :: openEvents [] 5 3) (by decide +kernel)
  exact ⟨m, hreachable, hreport, Mux.revocation_takes_effect hreachable⟩

/--
A user is removed and opens a session, with the help of a session that is still
registered or on an underlay that was being made.
-/
theorem removed_user_opens_session : (∃ m, (muxSystem tagCrypto fun _ => passwordKeys).Reachable m ∧
      m.report = (["bob"], [⟨4, "alice"⟩])) ∧
    ∃ m, (muxSystem tagCrypto fun _ => passwordKeys).Reachable m ∧
      m.report = (["bob"], [⟨3, "alice"⟩]) := by
  constructor
  · exact System.exists_reachable rfl (muxEvents [aliceUser, bobUser] ++ openEvents [] 5 3 ++
      [.task (.packet 0 (.act 3 (.input readyEnv))), .setServerUsers [bobUser]] ++
      openEvents [3] 6 4) (by decide +kernel)
  · exact System.exists_reachable rfl ([.setServerUsers [aliceUser, bobUser],
      .setEndpoints [udpEndpoint] fun _ => true, .start fun _ => true,
      .task (.makePacket udpEndpoint), .setServerUsers [bobUser], .task (.addPacket 0)] ++
      openEvents [] 5 3) (by decide +kernel)

end Mieru.Protocol
