import Mieru.Foundation.Buffer
import Mieru.Foundation.TransitionSystem
import Mieru.Socks5.Address

/-!
# The relay of a UDP association

`RunUDPAssociateLoop` of `udp.go`.  Two goroutines share `addrMap`, whose
values are slices, and through these slices the buffer of the upload
goroutine.  Each event is a part of one goroutine's loop that touches the
shared state once: a chunk that `Read` stores, the checks and the reads of the
address, `Store`, `WriteToUDP`, `Load`, `append` and `Write`.
-/

namespace Mieru.Socks5

open Mieru.Foundation

structure UdpAddr where
  ip : IP
  port : Nat
  zone : Bytes := []
  deriving DecidableEq, Repr

/-- What the text of an address determines: both forms of an IPv4 address
have the same text. -/
structure UdpText where
  ip : Bytes
  zone : Bytes
  port : Nat
  deriving DecidableEq, Repr

def UdpAddr.string (addr : UdpAddr) : UdpText :=
  ⟨addr.ip.to4.getD addr.ip, addr.zone, addr.port⟩

def udpAddrToHeader (addr : UdpAddr) : Bytes :=
  match addr.ip.to4 with
  | some ip4 => 0 :: 0 :: 0 :: socks5IPv4Address :: (ip4 ++ portBytes addr.port)
  | none =>
    0 :: 0 :: 0 :: socks5IPv6Address :: (addr.ip.to16.getD [] ++ portBytes addr.port)

inductive Slice where
  | upload (len : Nat)
  | own (bytes : Bytes)
  deriving DecidableEq, Repr

def Slice.bytes (buf : Buffer) : Slice → Bytes
  | .upload len => buf.read 0 len
  | .own bytes => bytes

def udpBufferSize : Nat := 65536

inductive UploadError where
  | read
  | noEnoughData
  | invalidArgument
  | unsupported
  deriving DecidableEq, Repr

inductive Target where
  | slice (low high port : Nat)
  | resolved (addr : UdpAddr)
  deriving DecidableEq, Repr

def Target.udpAddr (buf : Buffer) : Target → UdpAddr
  | .slice low high port => ⟨buf.read low high, port, []⟩
  | .resolved addr => addr

/-- The program points of the upload goroutine.  The packet is the one the
client sent; the code keeps only its length. -/
inductive Upload where
  | waiting
  | reading (packet : Bytes) (filled : Nat)
  | received (packet : Bytes)
  | resolving (packet : Bytes) (fqdnLen : UInt8) (fqdn : Bytes) (port : Nat)
  | stored (packet : Bytes) (target : Target) (headerLen : Nat)
  | stopped (err : UploadError)
  | panicked
  deriving DecidableEq, Repr

inductive Download where
  | waiting
  | received (addr : UdpAddr) (data : Bytes)
  | missed (addr : UdpAddr) (data header : Bytes)
  | loaded (addr : UdpAddr) (data : Bytes) (header : Slice)
  | appended (addr : UdpAddr) (data : Bytes) (reply : Slice)
  | stopped
  deriving DecidableEq, Repr

structure Reply where
  addr : UdpAddr
  data : Bytes
  written : Bytes
  deriving DecidableEq, Repr

structure Sent where
  addr : UdpAddr
  payload : Bytes
  deriving DecidableEq, Repr

structure Relay where
  buf : Buffer := fun _ => 0
  addrMap : UdpText → Option Slice := fun _ => none
  upload : Upload := .waiting
  download : Download := .waiting
  replies : List Reply := []
  sends : List Sent := []
  /-- The names the client has used, with the addresses they stood for. -/
  used : List (Bytes × UdpAddr) := []
  /-- The address under which the packet that is in the buffer was stored. -/
  latest : Option UdpText := none

inductive RelayEvent where
  | begin (packet : Bytes)
  | fill (n : Nat)
  | finish
  | readError
  | process
  | resolved (answer : Option IP)
  | send (ok : Bool)
  | receive (addr : UdpAddr) (data : Bytes)
  | receiveError
  | load
  | store
  | append
  | write (ok : Bool)
  deriving DecidableEq, Repr

def validateUpload (buf : Buffer) (n : Nat) : Except UploadError Unit :=
  if n ≤ 6 then .error .noEnoughData
  else if buf 0 ≠ 0 ∨ buf 1 ≠ 0 then .error .invalidArgument
  else if buf 2 ≠ 0 then .error .unsupported
  else if buf 3 ≠ socks5IPv4Address ∧ buf 3 ≠ socks5FQDNAddress ∧
      buf 3 ≠ socks5IPv6Address then .error .invalidArgument
  else if (buf 3 = socks5IPv4Address ∧ n ≤ 10) ∨
      (buf 3 = socks5FQDNAddress ∧ n ≤ (buf 4).toNat + 6) ∨
      (buf 3 = socks5IPv6Address ∧ n ≤ 22) then .error .noEnoughData
  else .ok ()

namespace Relay

def setHeader (r : Relay) (key : UdpText) (header : Slice) : Relay :=
  { r with addrMap := fun other =>
      if other = key then some header else r.addrMap other }

/-- `addrMap.Store` with a slice of the upload buffer. -/
def storeHeader (r : Relay) (packet : Bytes) (addr : UdpAddr)
    (headerLen : Nat) (target : Target) : Relay :=
  { r.setHeader addr.string (.upload headerLen) with
    upload := .stored packet target headerLen
    latest := some addr.string }

def processPacket (r : Relay) (packet : Bytes) : Relay :=
  match validateUpload r.buf packet.length with
  | .error err => { r with upload := .stopped err }
  | .ok () =>
    if r.buf 3 = socks5IPv4Address then
      let port := portOf (r.buf 8) (r.buf 9)
      r.storeHeader packet ⟨r.buf.read 4 8, port, []⟩ 10 (.slice 4 8 port)
    else if r.buf 3 = socks5FQDNAddress then
      -- The sums are of type uint8, as fqdnLen is.
      let fqdnLen := r.buf 4
      if (5 + fqdnLen).toNat < 5 then { r with upload := .panicked }
      else
        let fqdn := r.buf.read 5 (5 + fqdnLen).toNat
        let port := portOf (r.buf (5 + fqdnLen).toNat) (r.buf (6 + fqdnLen).toNat)
        { r with upload := .resolving packet fqdnLen fqdn port }
    else
      let port := portOf (r.buf 20) (r.buf 21)
      r.storeHeader packet ⟨r.buf.read 4 20, port, []⟩ 22 (.slice 4 20 port)

theorem add_five_lt_iff (len : UInt8) : (5 + len).toNat < 5 ↔ 250 < len.toNat := by
  have hlen := len.toNat_lt
  rw [UInt8.toNat_add]
  simp
  omega

theorem processPacket_stopped_iff {r : Relay} {packet : Bytes} {err : UploadError} :
    (r.processPacket packet).upload = .stopped err ↔
      validateUpload r.buf packet.length = .error err := by
  unfold processPacket
  cases validateUpload r.buf packet.length with
  | error other => simp
  | ok _ =>
    dsimp only
    split
    · simp [storeHeader]
    · split
      · split <;> simp
      · simp [storeHeader]

/-- Only a name of more than 250 bytes makes the sum wrap. -/
theorem processPacket_panicked_iff {r : Relay} {packet : Bytes} :
    (r.processPacket packet).upload = .panicked ↔
      validateUpload r.buf packet.length = .ok () ∧ r.buf 3 = socks5FQDNAddress ∧
        250 < (r.buf 4).toNat := by
  rw [← add_five_lt_iff]
  unfold processPacket
  cases validateUpload r.buf packet.length with
  | error err => simp
  | ok _ =>
    dsimp only
    split
    · simp [*, storeHeader, socks5IPv4Address, socks5FQDNAddress]
    · split
      · split <;> simp [*, -UInt8.toNat_add]
      · simp [*, storeHeader]

def storeResolved (r : Relay) (packet : Bytes) (fqdnLen : UInt8)
    (fqdn : Bytes) (addr : UdpAddr) : Relay :=
  { r.storeHeader packet addr (7 + fqdnLen).toNat (.resolved addr) with
    used := (fqdn, addr) :: r.used }

/-- The built-in `append`: in place while the capacity allows it. -/
def appendReply (r : Relay) (addr : UdpAddr) (data : Bytes) : Slice → Relay
  | .upload len =>
    if len + data.length ≤ udpBufferSize then
      { r with
        buf := r.buf.write len data
        download := .appended addr data (.upload (len + data.length)) }
    else
      { r with download :=
          .appended addr data (.own (r.buf.read 0 len ++ data)) }
  | .own header =>
    { r with download := .appended addr data (.own (header ++ data)) }

/-- `Write` of the tunnel, which refuses more than 65535 bytes. -/
def writeReply (r : Relay) (addr : UdpAddr) (data : Bytes) (reply : Slice) (ok : Bool) : Relay :=
  let written := reply.bytes r.buf
  if written.length ≤ 65535 && ok then
    { r with
      download := .waiting
      replies := ⟨addr, data, written⟩ :: r.replies }
  else { r with download := .stopped }

def uploadNext (r : Relay) : RelayEvent → Option Relay
  | .begin packet =>
    if r.upload = .waiting ∧ packet.length ≤ 65535 then
      some { r with upload := .reading packet 0, latest := none }
    else none
  | .fill n =>
    match r.upload with
    | .reading packet filled =>
      if filled + n ≤ packet.length then
        some { r with
          buf := r.buf.write filled ((packet.drop filled).take n)
          upload := .reading packet (filled + n) }
      else none
    | _ => none
  | .finish =>
    match r.upload with
    | .reading packet filled =>
      if filled = packet.length then
        some { r with upload := .received packet }
      else none
    | _ => none
  | .readError =>
    match r.upload with
    | .waiting => some { r with upload := .stopped .read }
    | .reading _ _ => some { r with upload := .stopped .read }
    | _ => none
  | .process =>
    match r.upload with
    | .received packet => some (r.processPacket packet)
    | _ => none
  | .resolved answer =>
    match r.upload, answer with
    | .resolving _ _ _ _, none => some { r with upload := .waiting }
    | .resolving packet fqdnLen fqdn port, some ip =>
      some (r.storeResolved packet fqdnLen fqdn ⟨ip, port, []⟩)
    | _, _ => none
  | .send ok =>
    match r.upload with
    | .stored packet target headerLen =>
      if ok then
        some { r with
          upload := .waiting
          sends := ⟨target.udpAddr r.buf, r.buf.read headerLen packet.length⟩ :: r.sends }
      else some { r with upload := .waiting }
    | _ => none
  | _ => none

def downloadNext (r : Relay) : RelayEvent → Option Relay
  | .receive addr data =>
    -- The socket gives the sender as four or sixteen bytes and a port.
    if r.download = .waiting ∧ data.length ≤ udpBufferSize ∧
        (addr.ip.length = 4 ∨ addr.ip.length = 16) ∧ addr.port < 65536 then
      some { r with download := .received addr data }
    else none
  | .receiveError =>
    if r.download = .waiting then some { r with download := .stopped }
    else none
  | .load =>
    match r.download with
    | .received addr data =>
      match r.addrMap addr.string with
      | some header => some { r with download := .loaded addr data header }
      | none =>
        some { r with download := .missed addr data (udpAddrToHeader addr) }
    | _ => none
  | .store =>
    match r.download with
    | .missed addr data header =>
      some { r.setHeader addr.string (.own header) with
        download := .loaded addr data (.own header) }
    | _ => none
  | .append =>
    match r.download with
    | .loaded addr data header => some (r.appendReply addr data header)
    | _ => none
  | .write ok =>
    match r.download with
    | .appended addr data reply => some (r.writeReply addr data reply ok)
    | _ => none
  | _ => none

def next (r : Relay) (event : RelayEvent) : Option Relay :=
  (r.uploadNext event).or (r.downloadNext event)

end Relay

def relaySystem : System Relay RelayEvent :=
  .ofNext (fun r => r = {}) Relay.next

end Mieru.Socks5
