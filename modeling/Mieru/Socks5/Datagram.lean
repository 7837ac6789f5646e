import Mieru.Foundation.HostPort
import Mieru.Socks5.Codec
import Mieru.Socks5.RelayNames

/-!
# Two parsers of UDP requests

`parseUDPAssociateDatagram` reads the address of a request with
`ReadFromSocks5`.  The upload goroutine of `RunUDPAssociateLoop` has its own
parser, which adds up offsets in eight bits and joins a name and its port
without brackets.  They agree on the requests whose names do not bring this
out.
-/

namespace Mieru.Socks5

open Mieru.Foundation

variable {port : Nat} {payload : Bytes} {addr : UdpAddr}

/-- `net.ParseIP`, `IP.String` and the resolver's `LookupIP`, which fails or
gives a list of addresses. -/
structure Resolver where
  parseIP : Bytes → Option IP
  ipString : IP → Bytes
  lookupIP : Bytes → Option (List IP)

/-- `ResolveUDPAddr` on the network `udp`. -/
def resolveUDPAddr (net : Resolver) (address : Bytes) : Option UdpAddr :=
  match splitHostPort address with
  | none => none
  | some (host, portStr) =>
    match parseInt portStr with
    | none => none
    | some port =>
      match net.parseIP host with
      | some ip => some ⟨ip, port.toNat, []⟩
      | none =>
        match net.lookupIP host with
        | none => none
        | some [] => none
        | some (ip :: _) => some ⟨ip, port.toNat, []⟩

def AddrSpec.string (net : Resolver) (addr : AddrSpec) : Bytes :=
  if addr.ip ≠ [] then
    joinHostPort (net.ipString addr.ip) (formatNat addr.port)
  else joinHostPort addr.fqdn (formatNat addr.port)

inductive DatagramError where
  | noEnoughData
  | invalidArgument
  | unsupported
  | read (err : ReadError)
  | resolve
  | unrecognizedAddrType
  deriving DecidableEq, Repr

def resolveUDPAssociateDatagramAddr (net : Resolver) (addr : AddrSpec) :
    Except DatagramError UdpAddr :=
  if addr.ip.to4 ≠ none ∨ addr.ip.to16 ≠ none then .ok ⟨addr.ip, addr.port, []⟩
  else if addr.fqdn ≠ [] then
    match resolveUDPAddr net (addr.string net) with
    | some dstAddr => .ok dstAddr
    | none => .error .resolve
  else .error .unrecognizedAddrType

def parseUDPAssociateDatagram (net : Resolver) (pkt : Bytes) :
    Except DatagramError (UdpAddr × Bytes) :=
  if pkt.length ≤ 6 then .error .noEnoughData
  else if byteAt pkt 0 ≠ 0 ∨ byteAt pkt 1 ≠ 0 then .error .invalidArgument
  else if byteAt pkt 2 ≠ 0 then .error .unsupported
  else
    match AddrSpec.readFromSocks5 (pkt.drop 3) with
    | .error err => .error (.read err)
    | .ok (dst, rest) =>
      let headerLen := pkt.length - rest.length
      match resolveUDPAssociateDatagramAddr net dst with
      | .error err => .error err
      | .ok dstAddr => .ok (dstAddr, pkt.drop headerLen)

/-! ## The upload goroutine on one packet -/

namespace Relay

def answer (net : Resolver) (r : Relay) : Option IP :=
  match r.upload with
  | .resolving _ _ fqdn port =>
    (resolveUDPAddr net (fqdn ++ colon :: formatNat port)).map (·.ip)
  | _ => none

/-- The upload goroutine reads a packet and goes on until it is about to send
or to read again. -/
def handle (net : Resolver) (r : Relay) (packet : Bytes) : Option Relay :=
  (System.runEvents next r [.begin packet, .fill packet.length, .finish, .process]).bind fun r =>
    match r.upload with
    | .resolving _ _ _ _ => r.next (.resolved (r.answer net))
    | _ => some r

/-- The next step sends the payload to the address, under which what stands
before the payload in the packet is stored. -/
def Sends (r : Relay) (packet : Bytes) (addr : UdpAddr) (payload : Bytes) : Prop :=
  ∃ after, r.next (.send true) = some after ∧ after.sends = ⟨addr, payload⟩ :: r.sends ∧
    (after.addrMap addr.string).map (Slice.bytes after.buf) =
      some (packet.take (packet.length - payload.length))

/-- The goroutine does not panic, and it does what `parseUDPAssociateDatagram`
says if that accepts the packet and finds a payload. -/
def Agrees (net : Resolver) (r : Relay) (packet : Bytes) : Prop :=
  ∃ after, r.handle net packet = some after ∧ after.upload ≠ .panicked ∧ ∀ addr payload,
      parseUDPAssociateDatagram net packet = .ok (addr, payload) →
      payload ≠ [] → after.Sends packet addr payload

end Relay

def nameOf (packet : Bytes) : Bytes :=
  (packet.drop 5).take (byteAt packet 4).toNat

/-- A domain name has at most 250 bytes if the packet passes the checks of the
upload goroutine, and at most 248 bytes and no colon if
`parseUDPAssociateDatagram` accepts the packet with a payload. -/
structure PlainName (net : Resolver) (packet : Bytes) : Prop where
  checked : validateUpload (byteAt packet) packet.length = .ok () →
    byteAt packet 3 = socks5FQDNAddress → (byteAt packet 4).toNat ≤ 250
  accepted : ∀ addr payload, parseUDPAssociateDatagram net packet = .ok (addr, payload) →
    payload ≠ [] → byteAt packet 3 = socks5FQDNAddress →
    (byteAt packet 4).toNat ≤ 248 ∧ colon ∉ nameOf packet

/-! ## Resolving -/

section

variable {net : Resolver} {addr : UdpAddr}

theorem resolveUDPAddr_port {front : Bytes}
    (h : resolveUDPAddr net (front ++ colon :: formatNat port) = some addr) :
    addr = ⟨addr.ip, port, []⟩ := by
  unfold resolveUDPAddr at h
  split at h
  · cases h
  rename_i host portStr hsplit
  obtain rfl := port_of_splitHostPort (colon_not_mem_formatNat port) hsplit
  split at h
  · cases h
  rename_i number hnumber
  obtain rfl : number = port := eq_of_parseInt_formatInt hnumber
  split at h
  · cases h
    rfl
  · split at h
    · cases h
    · cases h
    · cases h
      rfl

theorem resolveUDPAddr_of_colon {name : Bytes} (hname : colon ∈ name)
    (h : resolveUDPAddr net (joinHostPort name (formatNat port)) = some addr) :
    resolveUDPAddr net (name ++ colon :: formatNat port) = none := by
  cases hsplit : splitHostPort (joinHostPort name (formatNat port)) with
  | none =>
    simp only [resolveUDPAddr, hsplit] at h
    cases h
  | some parts =>
    have hnone :=
      splitHostPort_of_colon hname (colon_not_mem_formatNat port) hsplit
    simp only [resolveUDPAddr, hnone]

theorem resolveUDPAssociateDatagramAddr_ip {spec : AddrSpec}
    (hlength : spec.ip.length = 4 ∨ spec.ip.length = 16) :
    resolveUDPAssociateDatagramAddr net spec = .ok ⟨spec.ip, spec.port, []⟩ := by
  apply if_pos
  right
  rcases hlength with hlength | hlength
  · simp [IP.to16, hlength]
  · simp [IP.to16, hlength]

theorem resolveUDPAssociateDatagramAddr_fqdn {name : Bytes}
    (h : resolveUDPAssociateDatagramAddr net { fqdn := name, port := port } = .ok addr) :
    resolveUDPAddr net (joinHostPort name (formatNat port)) = some addr := by
  unfold resolveUDPAssociateDatagramAddr at h
  rw [if_neg (by simp [IP.to4, IP.to16])] at h
  split at h
  · split at h
    · rename_i hresolve
      cases h
      exact hresolve
    · cases h
  · cases h

theorem parseUDPAssociateDatagram_eq_ok {packet : Bytes}
    (h : parseUDPAssociateDatagram net packet = .ok (addr, payload)) :
    ∃ spec encoded, Encodes spec encoded ∧ packet = 0 :: 0 :: 0 :: (encoded ++ payload) ∧
      resolveUDPAssociateDatagramAddr net spec = .ok addr := by
  unfold parseUDPAssociateDatagram at h
  split at h
  · cases h
  rename_i hlong
  split at h
  · cases h
  rename_i hreserved
  split at h
  · cases h
  rename_i hfragment
  split at h
  · cases h
  rename_i dst rest hread
  split at h
  · cases h
  rename_i dstAddr hresolve
  cases h
  obtain ⟨encoded, hencodes, hdrop⟩ := AddrSpec.readFromSocks5_eq_ok hread
  obtain ⟨b0, b1, b2, htake⟩ := List.length_eq_three.mp
    (show (packet.take 3).length = 3 by rw [List.length_take]; omega)
  have hpacket : packet = b0 :: b1 :: b2 :: (encoded ++ rest) := by
    rw [← List.take_append_drop 3 packet, htake, hdrop]
    rfl
  simp only [hpacket, byteAt, List.getD_cons_zero, List.getD_cons_succ,
    not_or, not_not] at hreserved hfragment
  obtain ⟨rfl, rfl⟩ := hreserved
  obtain rfl := hfragment
  have hheader : packet.length - rest.length = 3 + encoded.length := by
    rw [hpacket]
    simp only [List.length_cons, List.length_append]
    omega
  refine ⟨dst, encoded, hencodes, ?_, hresolve⟩
  rw [hheader, ← List.drop_drop, hdrop, List.drop_left]
  exact hpacket

end

/-! ## The packet in the buffer -/

section

variable {buf : Buffer} {packet payload encoded : Bytes} {spec : AddrSpec}

theorem buf_eq_byteAt (hbuf : buf.read 0 packet.length = packet) {i : Nat}
    (h : i < packet.length) : buf i = byteAt packet i := by
  have hread : byteAt (buf.read 0 packet.length) i = buf i := byteAt_read h
  rw [← hread, hbuf]

theorem nameOf_eq (hbuf : buf.read 0 packet.length = packet)
    (hlong : (buf 4).toNat + 6 < packet.length) (hshort : (buf 4).toNat ≤ 248) :
    nameOf packet = buf.read 5 (5 + buf 4).toNat := by
  have hdrop : packet.drop 5 = buf.read 5 packet.length := by
    have hsplit : buf.read 0 packet.length = buf.read 0 5 ++ buf.read 5 packet.length :=
      Buffer.read_append (Nat.zero_le 5) (by omega)
    rw [hbuf] at hsplit
    have hfive : (buf.read 0 5).length = 5 := Buffer.length_read
    rw [hsplit, List.drop_left' hfive, ← hsplit]
  rw [(add_short hshort).1, nameOf, ← buf_eq_byteAt hbuf (by omega), hdrop]
  exact Buffer.take_read (by omega)

theorem validateUpload_eq (hbuf : buf.read 0 packet.length = packet) :
    validateUpload buf packet.length = validateUpload (byteAt packet) packet.length := by
  by_cases hlong : packet.length ≤ 6
  · simp [validateUpload, hlong]
  · have hbyte : ∀ i, i < 7 → buf i = byteAt packet i :=
      fun i hi => buf_eq_byteAt hbuf (by omega)
    simp only [validateUpload, hbyte 0 (by decide), hbyte 1 (by decide),
      hbyte 2 (by decide), hbyte 3 (by decide), hbyte 4 (by decide)]

theorem validateUpload_of {n : Nat} (hzero : buf 0 = 0 ∧ buf 1 = 0 ∧ buf 2 = 0)
    (hdata : (buf 3 = socks5IPv4Address ∧ 10 < n) ∨
      (buf 3 = socks5FQDNAddress ∧ (buf 4).toNat + 6 < n) ∨ (buf 3 = socks5IPv6Address ∧ 22 < n)) :
    validateUpload buf n = .ok () := by
  obtain ⟨h0, h1, h2⟩ := hzero
  have hlong : ¬ n ≤ 6 := by omega
  unfold validateUpload
  rw [if_neg hlong, if_neg (by simp [h0, h1]), if_neg (by simp [h2])]
  rcases hdata with ⟨htype, hn⟩ | ⟨htype, hn⟩ | ⟨htype, hn⟩
  · rw [htype, if_neg (by decide), if_neg]
    simp [socks5IPv4Address, socks5FQDNAddress, socks5IPv6Address, hn]
  · rw [htype, if_neg (by decide), if_neg]
    simp [socks5IPv4Address, socks5FQDNAddress, socks5IPv6Address, hn]
  · rw [htype, if_neg (by decide), if_neg]
    simp [socks5IPv4Address, socks5FQDNAddress, socks5IPv6Address, hn]

theorem length_of_fqdn {n : Nat} (h : validateUpload buf n = .ok ())
    (htype : buf 3 = socks5FQDNAddress) : (buf 4).toNat + 6 < n := by
  obtain ⟨-, -, -, -, htypes⟩ := validateUpload_eq_ok h
  rw [htype] at htypes
  rcases htypes with ⟨hother, -⟩ | ⟨-, hlong⟩ | ⟨hother, -⟩
  · cases hother
  · exact hlong
  · cases hother

theorem validateUpload_of_encodes (h : Encodes spec encoded)
    (hpacket : packet = 0 :: 0 :: 0 :: (encoded ++ payload)) (hpayload : payload ≠ []) :
    validateUpload (byteAt packet) packet.length = .ok () := by
  have hsome : 0 < payload.length := List.length_pos_iff.mpr hpayload
  subst hpacket
  apply validateUpload_of ⟨rfl, rfl, rfl⟩
  cases h with
  | ipv4 ip high low hlength =>
    refine .inl ⟨rfl, ?_⟩
    simp only [List.length_cons, List.length_append, hlength, List.length_nil]
    omega
  | ipv6 ip high low hlength =>
    refine .inr (.inr ⟨rfl, ?_⟩)
    simp only [List.length_cons, List.length_append, hlength, List.length_nil]
    omega
  | fqdn size name high low hlength =>
    refine .inr (.inl ⟨rfl, ?_⟩)
    simp only [byteAt, List.cons_append, List.getD_cons_succ,
      List.getD_cons_zero, List.length_cons, List.length_append, hlength,
      List.length_nil]
    omega

/-- An address at the front of the buffer is the address of the packet, and
the rest is its payload. -/
theorem address_of_read {other : AddrSpec} {bytes : Bytes} {headerLen : Nat}
    (hbuf : buf.read 0 packet.length = packet) (h : Encodes spec encoded)
    (hpacket : packet = 0 :: 0 :: 0 :: (encoded ++ payload)) (hother : Encodes other bytes)
    (hle : headerLen ≤ packet.length) (hread : buf.read 0 headerLen = 0 :: 0 :: 0 :: bytes) :
    spec = other ∧ buf.read headerLen packet.length = payload ∧
      packet.take (packet.length - payload.length) = buf.read 0 headerLen := by
  have hsplit : buf.read 0 packet.length =
      buf.read 0 headerLen ++ buf.read headerLen packet.length :=
    Buffer.read_append (Nat.zero_le headerLen) hle
  rw [hbuf, hread] at hsplit
  have hrest : encoded ++ payload = bytes ++ buf.read headerLen packet.length := by
    have heq := hpacket.symm.trans hsplit
    simpa using heq
  have hsame := h.readFromSocks5 payload
  rw [hrest, hother.readFromSocks5] at hsame
  cases hsame
  refine ⟨rfl, rfl, ?_⟩
  have hlength : packet.length - (buf.read headerLen packet.length).length =
      headerLen := by
    rw [Buffer.length_read]
    omega
  rw [hlength, hread]
  have hheader : (0 :: 0 :: 0 :: bytes).length = headerLen := by
    rw [← hread, Buffer.length_read, Nat.sub_zero]
  rw [hsplit, ← hheader]
  exact List.take_left

end

namespace Relay

variable {net : Resolver} {r : Relay} {packet : Bytes}

def holding (r : Relay) (packet : Bytes) : Relay :=
  { r with
    buf := r.buf.write 0 packet
    upload := .received packet
    latest := none }

def resolve (net : Resolver) (r : Relay) : Relay :=
  match r.upload with
  | .resolving packet fqdnLen fqdn port =>
    match r.answer net with
    | none => { r with upload := .waiting }
    | some ip => r.storeResolved packet fqdnLen fqdn ⟨ip, port, []⟩
  | _ => r

theorem read_holding (r : Relay) (packet : Bytes) :
    (r.holding packet).buf.read 0 packet.length = packet := by
  have hread : (r.buf.write 0 packet).read 0 (0 + packet.length) = packet :=
    Buffer.read_write_self
  rwa [Nat.zero_add] at hread

theorem handle_eq (hwaiting : r.upload = .waiting) (hsize : packet.length ≤ 65535) :
    r.handle net packet = some (((r.holding packet).processPacket packet).resolve net) := by
  have hrun : System.runEvents next r [.begin packet, .fill packet.length, .finish, .process] =
      some ((r.holding packet).processPacket packet) := by
    simp [System.runEvents, next, uploadNext, hwaiting, hsize, holding]
  unfold handle
  rw [hrun, Option.bind_some]
  unfold resolve
  split
  · rename_i hupload
    cases hanswer : ((r.holding packet).processPacket packet).answer net with
    | none => simp [next, uploadNext, hupload]
    | some ip => simp [next, uploadNext, hupload]
  · rfl

section

variable (hvalid : validateUpload r.buf packet.length = .ok ())

include hvalid

theorem processPacket_ipv4 (htype : r.buf 3 = socks5IPv4Address) :
    r.processPacket packet = r.storeHeader packet
      ⟨r.buf.read 4 8, portOf (r.buf 8) (r.buf 9), []⟩ 10
      (.slice 4 8 (portOf (r.buf 8) (r.buf 9))) := by
  unfold processPacket
  rw [hvalid]
  exact if_pos htype

theorem processPacket_ipv6 (htype : r.buf 3 = socks5IPv6Address) :
    r.processPacket packet = r.storeHeader packet
      ⟨r.buf.read 4 20, portOf (r.buf 20) (r.buf 21), []⟩ 22
      (.slice 4 20 (portOf (r.buf 20) (r.buf 21))) := by
  unfold processPacket
  rw [hvalid]
  dsimp only
  rw [if_neg (by simp [htype, socks5IPv6Address, socks5IPv4Address]),
    if_neg (by simp [htype, socks5IPv6Address, socks5FQDNAddress])]

theorem processPacket_fqdn (htype : r.buf 3 = socks5FQDNAddress)
    (hname : ¬ (5 + r.buf 4).toNat < 5) : r.processPacket packet = { r with
      upload := .resolving packet (r.buf 4) (r.buf.read 5 (5 + r.buf 4).toNat)
        (portOf (r.buf (5 + r.buf 4).toNat) (r.buf (6 + r.buf 4).toNat)) } := by
  unfold processPacket
  rw [hvalid]
  dsimp only
  rw [if_neg (by simp [htype, socks5FQDNAddress, socks5IPv4Address]), if_pos htype, if_neg hname]

end

theorem resolve_panicked_iff : (r.resolve net).upload = .panicked ↔ r.upload = .panicked := by
  unfold resolve
  split
  · split <;> simp [*, storeResolved, storeHeader]
  · rfl

theorem panicked_iff : (((r.holding packet).processPacket packet).resolve net).upload = .panicked ↔
      validateUpload (byteAt packet) packet.length = .ok () ∧ byteAt packet 3 = socks5FQDNAddress ∧
        250 < (byteAt packet 4).toNat := by
  have hbuf := r.read_holding packet
  rw [resolve_panicked_iff, processPacket_panicked_iff, ← validateUpload_eq hbuf]
  refine and_congr_right fun hvalid => ?_
  have hsix := (validateUpload_eq_ok hvalid).1
  rw [buf_eq_byteAt hbuf (by omega), buf_eq_byteAt hbuf (by omega)]

theorem sends_of_stored {target : Target} {headerLen : Nat}
    (hupload : r.upload = .stored packet target headerLen) (htarget : target.udpAddr r.buf = addr)
    (hmap : r.addrMap addr.string = some (.upload headerLen))
    (hpayload : r.buf.read headerLen packet.length = payload)
    (hheader : packet.take (packet.length - payload.length) = r.buf.read 0 headerLen) :
    r.Sends packet addr payload := by
  refine ⟨{ r with
    upload := .waiting
    sends := ⟨target.udpAddr r.buf, r.buf.read headerLen packet.length⟩ :: r.sends }, ?_, ?_, ?_⟩
  · simp [next, uploadNext, hupload]
  · rw [htarget, hpayload]
  · change (r.addrMap addr.string).map (Slice.bytes r.buf) = _
    rw [hmap, hheader]
    rfl

theorem stored_of_sends (h : r.Sends packet addr payload) :
    ∃ other target headerLen, r.upload = .stored other target headerLen ∧
      payload = r.buf.read headerLen other.length := by
  obtain ⟨after, hnext, hsends, -⟩ := h
  cases hupload : r.upload with
  | stored other target headerLen =>
    simp only [next, uploadNext, hupload, if_true, Option.some_or] at hnext
    cases hnext
    refine ⟨other, target, headerLen, rfl, ?_⟩
    exact (congrArg Sent.payload (List.cons.inj hsends).1).symm
  | _ =>
    simp only [next, uploadNext, hupload] at hnext
    cases hnext

/-! ## Requests that `parseUDPAssociateDatagram` accepts -/

section

variable {addr : UdpAddr} {payload encoded : Bytes} {spec : AddrSpec}
  (hencodes : Encodes spec encoded)
  (hpacket : packet = 0 :: 0 :: 0 :: (encoded ++ payload))
  (hresolve : resolveUDPAssociateDatagramAddr net spec = .ok addr)
  (hvalid : validateUpload (r.holding packet).buf packet.length = .ok ())

include hencodes hpacket hresolve hvalid

theorem sends_ipv4 (htype : (r.holding packet).buf 3 = socks5IPv4Address)
    (hlong : 10 < packet.length) :
    (((r.holding packet).processPacket packet).resolve net).Sends packet addr payload := by
  have hbuf := r.read_holding packet
  obtain ⟨bytes, hother, hread⟩ := encodes_ipv4 hvalid htype
  obtain ⟨rfl, hpayload, hheader⟩ :=
    address_of_read hbuf hencodes hpacket hother (by omega) hread
  rw [resolveUDPAssociateDatagramAddr_ip (.inl (by simp))] at hresolve
  cases hresolve
  rw [processPacket_ipv4 hvalid htype]
  exact sends_of_stored rfl rfl (if_pos rfl) hpayload hheader

theorem sends_ipv6 (htype : (r.holding packet).buf 3 = socks5IPv6Address)
    (hlong : 22 < packet.length) :
    (((r.holding packet).processPacket packet).resolve net).Sends packet addr payload := by
  have hbuf := r.read_holding packet
  obtain ⟨bytes, hother, hread⟩ := encodes_ipv6 hvalid htype
  obtain ⟨rfl, hpayload, hheader⟩ :=
    address_of_read hbuf hencodes hpacket hother (by omega) hread
  rw [resolveUDPAssociateDatagramAddr_ip (.inr (by simp))] at hresolve
  cases hresolve
  rw [processPacket_ipv6 hvalid htype]
  exact sends_of_stored rfl rfl (if_pos rfl) hpayload hheader

/-- With a short name the two parsers only differ in how they join the name
and the port. -/
theorem sends_fqdn_iff (htype : (r.holding packet).buf 3 = socks5FQDNAddress)
    (hlong : ((r.holding packet).buf 4).toNat + 6 < packet.length)
    (hshort : ((r.holding packet).buf 4).toNat ≤ 248) :
    (((r.holding packet).processPacket packet).resolve net).Sends packet addr payload ↔
      colon ∉ (r.holding packet).buf.read 5 (5 + (r.holding packet).buf 4).toNat := by
  have hbuf := r.read_holding packet
  obtain ⟨h5, h6, h7⟩ := add_short hshort
  obtain ⟨bytes, hother, hread⟩ := encodes_fqdn hvalid htype hshort
  obtain ⟨rfl, hpayload, hheader⟩ :=
    address_of_read hbuf hencodes hpacket hother (by omega) hread
  have hjoined := resolveUDPAssociateDatagramAddr_fqdn hresolve
  rw [processPacket_fqdn hvalid htype (by omega)]
  constructor
  · intro hsends hcolon
    have hnone := resolveUDPAddr_of_colon hcolon hjoined
    obtain ⟨other, target, headerLen, hupload, -⟩ := stored_of_sends hsends
    simp only [resolve, answer, hnone, Option.map_none] at hupload
    cases hupload
  · intro hplain
    rw [joinHostPort, if_neg hplain] at hjoined
    have haddr := resolveUDPAddr_port hjoined
    rw [haddr]
    simp only [resolve, answer, hjoined, Option.map_some]
    exact sends_of_stored rfl rfl (if_pos rfl) hpayload hheader

end

theorem short_of_sends {encoded : Bytes} (hpacket : packet = 0 :: 0 :: 0 :: (encoded ++ payload))
    (hvalid : validateUpload (r.holding packet).buf packet.length = .ok ())
    (htype : (r.holding packet).buf 3 = socks5FQDNAddress)
    (hcalm : ((r.holding packet).buf 4).toNat ≤ 250)
    (hsends : (((r.holding packet).processPacket packet).resolve net).Sends packet addr payload) :
    ((r.holding packet).buf 4).toNat ≤ 248 := by
  by_contra hlong
  obtain ⟨other, target, headerLen, hupload, hpayload⟩ := stored_of_sends hsends
  have hname : ¬ (5 + (r.holding packet).buf 4).toNat < 5 := by
    rw [add_five_lt_iff]
    omega
  rw [processPacket_fqdn hvalid htype hname] at hupload hpayload
  unfold resolve at hupload hpayload
  dsimp only at hupload hpayload
  split at hupload
  · cases hupload
  · -- the sum 7 + fqdnLen is 0 or 1
    have hwrap : (7 + (r.holding packet).buf 4).toNat ≤ 1 := by
      rw [UInt8.toNat_add]
      simp
      omega
    cases hupload
    have hlength := congrArg List.length hpayload
    rw [Buffer.length_read] at hlength
    have hwhole := congrArg List.length hpacket
    simp only [List.length_cons, List.length_append] at hwhole
    omega

/-- The upload goroutine agrees with `parseUDPAssociateDatagram` on a packet if
and only if a domain name in it is short and has no colon. -/
theorem agrees_iff (hwaiting : r.upload = .waiting) (hsize : packet.length ≤ 65535) :
    r.Agrees net packet ↔ PlainName net packet := by
  have hbuf := r.read_holding packet
  have hhandle : r.handle net packet = _ := handle_eq hwaiting hsize
  constructor
  · rintro ⟨after, hafter, hcalm, hagrees⟩
    obtain rfl := Option.some.inj (hhandle.symm.trans hafter)
    have hshort : validateUpload (byteAt packet) packet.length = .ok () →
        byteAt packet 3 = socks5FQDNAddress →
        (byteAt packet 4).toNat ≤ 250 := by
      intro hvalid htype
      by_contra hlong
      exact hcalm (panicked_iff.mpr ⟨hvalid, htype, by omega⟩)
    refine ⟨hshort, fun addr payload hparse hpayload htype => ?_⟩
    have hsends := hagrees addr payload hparse hpayload
    obtain ⟨spec, encoded, hencodes, hpacket, hresolve⟩ :=
      parseUDPAssociateDatagram_eq_ok hparse
    have hvalid := validateUpload_of_encodes hencodes hpacket hpayload
    have hcalm := hshort hvalid htype
    rw [← validateUpload_eq hbuf] at hvalid
    have hsix := (validateUpload_eq_ok hvalid).1
    rw [← buf_eq_byteAt hbuf (by omega)] at htype hcalm ⊢
    have hlong := length_of_fqdn hvalid htype
    have hbelow := short_of_sends hpacket hvalid htype hcalm hsends
    rw [nameOf_eq hbuf hlong hbelow]
    exact ⟨hbelow, (sends_fqdn_iff hencodes hpacket hresolve hvalid htype hlong hbelow).mp hsends⟩
  · intro hplain
    refine ⟨_, hhandle, ?_, fun addr payload hparse hpayload => ?_⟩
    · intro hpanicked
      obtain ⟨hvalid, htype, hlong⟩ := panicked_iff.mp hpanicked
      have hshort := hplain.checked hvalid htype
      omega
    · obtain ⟨spec, encoded, hencodes, hpacket, hresolve⟩ :=
        parseUDPAssociateDatagram_eq_ok hparse
      have hvalid := validateUpload_of_encodes hencodes hpacket hpayload
      rw [← validateUpload_eq hbuf] at hvalid
      obtain ⟨hsix, -, -, -, htypes⟩ := validateUpload_eq_ok hvalid
      rcases htypes with ⟨htype, hlong⟩ | ⟨htype, hlong⟩ | ⟨htype, hlong⟩
      · exact sends_ipv4 hencodes hpacket hresolve hvalid htype hlong
      · have hfqdn := htype
        rw [buf_eq_byteAt hbuf (by omega)] at hfqdn
        obtain ⟨hbelow, hcolon⟩ :=
          hplain.accepted addr payload hparse hpayload hfqdn
        rw [← buf_eq_byteAt hbuf (by omega)] at hbelow
        rw [nameOf_eq hbuf hlong hbelow] at hcolon
        exact (sends_fqdn_iff hencodes hpacket hresolve hvalid htype hlong hbelow).mpr hcolon
      · exact sends_ipv6 hencodes hpacket hresolve hvalid htype hlong

/-! ### Requests with names -/

def requestTo (name : Bytes) : Bytes :=
  [0, 0, 0, 3, UInt8.ofNat name.length] ++ name ++ [0, 53, 7]

def answering : Resolver where
  parseIP host := if host = bytesOf "::1" then some IP.ipv6Loopback else none
  ipString _ := bytesOf "::1"
  lookupIP _ := some [[9, 9, 9, 9]]

def answered : UdpAddr := ⟨[9, 9, 9, 9], 53, []⟩

theorem agrees_iff_requestTo : parseUDPAssociateDatagram answering (requestTo (bytesOf "name")) =
        .ok (answered, [7]) ∧ PlainName answering (requestTo (bytesOf "name")) ∧
      ({} : Relay).Agrees answering (requestTo (bytesOf "name")) := by
  have hplain : PlainName answering (requestTo (bytesOf "name")) := by
    refine ⟨fun _ _ => by decide, fun _ _ _ _ _ => ⟨by decide, by decide⟩⟩
  exact ⟨by decide +kernel, hplain, (agrees_iff rfl (by decide)).mpr hplain⟩

/-- A name of 251 bytes makes the goroutine panic, one of 249 bytes makes it
send the header too, and a name with colons is not resolved. -/
theorem not_agrees : (({} : Relay).handle answering (requestTo (List.replicate 251 97))).map
        (·.upload) = some .panicked ∧ parseUDPAssociateDatagram answering
        (requestTo (List.replicate 249 97)) = .ok (answered, [7]) ∧ ((({} : Relay).handle answering
          (requestTo (List.replicate 249 97))).bind (·.next (.send true))).map (·.sends) =
        some [⟨answered, requestTo (List.replicate 249 97)⟩] ∧
      parseUDPAssociateDatagram answering (requestTo (bytesOf "::1")) =
        .ok (⟨IP.ipv6Loopback, 53, []⟩, [7]) ∧
      (({} : Relay).handle answering (requestTo (bytesOf "::1"))).map
        (·.upload) = some .waiting := by
  decide +kernel

end Relay

end Mieru.Socks5
