import Mieru.Socks5.Codec
import Mieru.Socks5.UdpAssociate
import Mieru.Wire.PacketOverStream

/-!
# Packets with a UDP associate header

`UDPAssociateWrapper` over a `PacketOverStreamTunnel`.
-/

namespace Mieru.Common

open Mieru.Foundation
open Mieru.Socks5

inductive WrapperError where
  | hostEmpty
  | tooLong (err : PacketTooLong)
  | tunnel (err : TunnelError)
  | tooShort (n : Nat)
  | invalidHeader
  | fragment
  | address (err : ReadError)
  | fqdn
  | eof
  deriving DecidableEq, Repr

inductive NetAddr where
  | spec (addr : AddrSpec)
  | udp (ip : IP) (port : Nat)

namespace NetAddr

def ip : NetAddr → IP
  | spec addr => addr.ip
  | udp ip _ => ip

def port : NetAddr → Nat
  | spec addr => addr.port
  | udp _ port => port

/-- `NetAddrSpec.From`.  The text of an IP address without a zone is parsed to
its sixteen bytes. -/
def toSpec : NetAddr → Except WrapperError AddrSpec
  | spec addr => .ok addr
  | udp ip port =>
    match ip.to16 with
    | some ip16 => .ok { ip := ip16, port := port }
    | none => .error .hostEmpty

end NetAddr

namespace UDPAssociateWrapper

/-- The length that is reported, and the bytes that go to the connection. -/
def writeTo (p : Bytes) (addr : NetAddr) : Except WrapperError (Nat × Bytes) :=
  match addr.toSpec with
  | .error err => .error err
  | .ok destination =>
    -- an error of `WriteToSocks5` is ignored
    match PacketOverStreamTunnel.write
        ([0, 0, 0] ++ (destination.writeToSocks5.getD [] ++ p)) with
    | .error err => .error (.tooLong err)
    | .ok data => .ok (p.length, data)

/-- What is made of a packet, for a buffer of `capacity` bytes. -/
def unwrap (capacity : Nat) (b : Bytes) : Except WrapperError (Bytes × UdpAddr) :=
  if b.length ≤ 6 then .error (.tooShort b.length)
  else if byteAt b 0 ≠ 0 ∨ byteAt b 1 ≠ 0 then .error .invalidHeader
  else if byteAt b 2 ≠ 0 then .error .fragment
  else
    match AddrSpec.readFromSocks5 (b.drop 3) with
    | .error err => .error (.address err)
    | .ok (destination, rest) =>
      if destination.fqdn ≠ [] then .error .fqdn
      -- `Reader.Read` of a reader that is at its end
      else if rest = [] then .error .eof
      else .ok (rest.take capacity, { ip := destination.ip, port := destination.port })

def readFrom (capacity : Nat) (conn : List Bytes) :
    Except WrapperError (Bytes × UdpAddr) × List Bytes :=
  match PacketOverStreamTunnel.read (capacity + 256) conn with
  | (.error err, left) => (.error (.tunnel err), left)
  | (.ok b, left) => (unwrap capacity b, left)

theorem equal_to4 {ip : IP} (h : ip.length = 4 ∨ ip.length = 16) :
    IP.equal (ip.to4.getD ip) ip = true := by
  rcases h with h | h
  · simp [IP.to4, IP.equal, h]
  · by_cases hmapped : ip.take 12 = IP.v4InV6
    · have hwhole : IP.v4InV6 ++ ip.drop 12 = ip := by rw [← hmapped, List.take_append_drop]
      simp [IP.to4, IP.equal, h, hmapped, hwhole]
    · simp [IP.to4, IP.equal, h, hmapped]

theorem toSpec_spec {addr : NetAddr} (h : addr.ip.length = 4 ∨ addr.ip.length = 16) :
    ∃ destination, addr.toSpec = .ok destination ∧ destination.port = addr.port ∧
      destination.ip.to16.isSome = true ∧ destination.normalized.ip.equal addr.ip = true := by
  cases addr with
  | spec addr =>
    refine ⟨addr, rfl, rfl, ?_, equal_to4 h⟩
    change addr.ip.length = 4 ∨ addr.ip.length = 16 at h
    rcases h with h | h <;> simp [IP.to16, h]
  | udp ip port =>
    change ip.length = 4 ∨ ip.length = 16 at h
    rcases h with h | h
    · refine ⟨{ ip := IP.v4InV6 ++ ip, port := port }, ?_, rfl, ?_, ?_⟩
      · simp [NetAddr.toSpec, IP.to16, h]
      · simp [IP.to16, IP.v4InV6, h]
      · simp [AddrSpec.normalized, IP.to4, IP.v4InV6, IP.equal, NetAddr.ip, h]
    · refine ⟨{ ip := ip, port := port }, ?_, rfl, ?_, equal_to4 (.inr h)⟩
      · simp [NetAddr.toSpec, IP.to16, h]
      · simp [IP.to16, h]

variable {addr : AddrSpec}

theorem length_encoded {encoded : Bytes} (h : Encodes addr encoded) (hip : addr.fqdn = []) :
    4 ≤ encoded.length ∧ encoded.length ≤ 19 := by
  cases h with
  | ipv4 ip high low hlength => simp [hlength]
  | ipv6 ip high low hlength => simp [hlength]
  | fqdn size name high low hlength =>
    simp only at hip
    simp [hip]

theorem write_of_ip (h : addr.ip.to16.isSome = true) :
    ∃ bytes, addr.writeToSocks5 = some bytes := by
  obtain ⟨ip16, hip16⟩ := Option.isSome_iff_exists.mp h
  unfold AddrSpec.writeToSocks5
  cases addr.ip.to4 with
  | some ip4 => exact ⟨_, rfl⟩
  | none =>
    rw [hip16]
    exact ⟨_, rfl⟩

theorem unwrap_wrapped {encoded : Bytes} (h : Encodes addr encoded) (hfqdn : addr.fqdn = [])
    (capacity : Nat) (payload : Bytes) :
    unwrap capacity ([0, 0, 0] ++ (encoded ++ payload)) =
      if payload = [] then .error .eof
      else .ok (payload.take capacity, { ip := addr.ip, port := addr.port }) := by
  have hlong := (length_encoded h hfqdn).1
  have hread : AddrSpec.readFromSocks5 (([0, 0, 0] ++ (encoded ++ payload)).drop 3) =
      .ok (addr, payload) := h.readFromSocks5 payload
  unfold unwrap
  rw [if_neg (by simp only [List.length_append, List.length_cons, List.length_nil]; omega),
    if_neg (by simp [byteAt]), if_neg (by simp [byteAt]), hread]
  simp [hfqdn]

/-- A packet is written in one frame, and reading it gives an error exactly if
it has no payload. -/
theorem readFrom_written {payload : Bytes} {addr : NetAddr} (hlength : payload.length ≤ 65000)
    (hip : addr.ip.length = 4 ∨ addr.ip.length = 16) (hport : addr.port < 65536) :
    ∃ data ip, writeTo payload addr = .ok (payload.length, data) ∧ ip.equal addr.ip = true ∧
      ∀ (capacity : Nat) (conn : List Bytes) (back : Bytes), payload.length ≤ capacity →
        conn.flatten = data ++ back → ∃ left, left.flatten = back ∧
          readFrom capacity conn = (if payload = [] then .error .eof
            else .ok (payload, { ip := ip, port := addr.port }), left) := by
  obtain ⟨destination, hspec, hsame, hsome, hequal⟩ := toSpec_spec hip
  obtain ⟨encoded, hwritten⟩ := write_of_ip hsome
  have hencodes := (AddrSpec.encodes_of_ip (hsame ▸ hport) hwritten hsome).2
  have hshort := (length_encoded hencodes rfl).2
  have hframe : ([0, 0, 0] ++ (encoded ++ payload)).length ≤
      PacketOverStreamTunnel.maxPacketLength := by
    simp only [List.length_append, List.length_cons, List.length_nil,
      PacketOverStreamTunnel.maxPacketLength]
    omega
  refine ⟨PacketOverStreamTunnel.frame ([0, 0, 0] ++ (encoded ++ payload)),
    destination.normalized.ip, ?_, hequal, ?_⟩
  · simp only [writeTo, hspec, hwritten, Option.getD_some, PacketOverStreamTunnel.write,
      if_neg (Nat.not_lt.mpr hframe)]
  · intro capacity conn back hcapacity hconn
    have hfits : ([0, 0, 0] ++ (encoded ++ payload)).length ≤ capacity + 256 := by
      simp only [List.length_append, List.length_cons, List.length_nil]
      omega
    obtain ⟨left, hread, hleft⟩ := PacketOverStreamTunnel.read_frame hframe hfits hconn
    refine ⟨left, hleft, ?_⟩
    simp only [readFrom, hread, unwrap_wrapped hencodes rfl, hsame,
      List.take_of_length_le hcapacity]

/-- A packet is read back with its payload and its address exactly if it has a
payload. -/
theorem wrapper_round_trip {payload : Bytes} {addr : NetAddr} (hlength : payload.length ≤ 65000)
    (hip : addr.ip.length = 4 ∨ addr.ip.length = 16) (hport : addr.port < 65536) :
    (∃ data, writeTo payload addr = .ok (payload.length, data) ∧
      ∀ (capacity : Nat) (conn : List Bytes) (back : Bytes), payload.length ≤ capacity →
        conn.flatten = data ++ back →
        ∃ ip left, readFrom capacity conn = (.ok (payload, { ip := ip, port := addr.port }), left) ∧
          left.flatten = back ∧ ip.equal addr.ip = true) ↔ payload ≠ [] := by
  obtain ⟨data, ip, hwrite, hequal, hread⟩ := readFrom_written hlength hip hport
  constructor
  · rintro ⟨written, hwritten, hround⟩ hempty
    rw [hwrite] at hwritten
    cases hwritten
    obtain ⟨ip', left', hok, -⟩ := hround payload.length [data] [] (Nat.le_refl _) (by simp)
    obtain ⟨left, -, hfails⟩ := hread payload.length [data] [] (Nat.le_refl _) (by simp)
    rw [hfails, if_pos hempty] at hok
    cases hok
  · intro hne
    refine ⟨data, hwrite, fun capacity conn back hcapacity hconn => ?_⟩
    obtain ⟨left, hleft, hok⟩ := hread capacity conn back hcapacity hconn
    rw [if_neg hne] at hok
    exact ⟨ip, left, hok, hleft, hequal⟩

theorem wrapper_round_trip_byte :
    ∃ data, writeTo [7] (.udp [1, 2, 3, 4] 53) = .ok (1, data) ∧
      ∃ ip left, readFrom 1 [data] = (.ok ([7], { ip := ip, port := 53 }), left) ∧
        left.flatten = [] ∧ ip.equal [1, 2, 3, 4] = true := by
  obtain ⟨data, hwrite, hread⟩ := (@wrapper_round_trip [7] (.udp [1, 2, 3, 4] 53)
    (by decide) (by decide) (by decide)).mpr (by decide)
  exact ⟨data, hwrite, hread 1 [data] [] (by decide) (by simp)⟩

/-- A packet without a payload is sent, and its reader reports `io.EOF`. -/
theorem wrapper_empty : ∃ data, writeTo [] (.udp [1, 2, 3, 4] 53) = .ok (0, data) ∧
    (readFrom 8 [data]).1 = .error .eof :=
  ⟨_, rfl, by decide⟩

end UDPAssociateWrapper

end Mieru.Common
