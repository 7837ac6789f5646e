import Mieru.Foundation.ByteReader
import Mieru.Foundation.Fallible

/-!
# SOCKS5 addresses and requests

The parts of `net.IP` the server uses, `AddrSpec` and `Request` of
`apis/model`, and how they are read from a client.  Names are byte strings, as
Go strings are, and a port is a number below 65536 taken from two bytes.
-/

namespace Mieru.Socks5

open Mieru.Foundation

/-- `net.IP`: four or sixteen bytes, or none for `nil`. -/
abbrev IP := Bytes

namespace IP

def v4InV6 : Bytes := [0, 0, 0, 0, 0, 0, 0, 0, 0, 0, 255, 255]

def to4 (ip : IP) : Option Bytes :=
  if ip.length = 4 then some ip
  else if ip.length = 16 ∧ ip.take 12 = v4InV6 then some (ip.drop 12)
  else none

def to16 (ip : IP) : Option Bytes :=
  if ip.length = 4 then some (v4InV6 ++ ip)
  else if ip.length = 16 then some ip
  else none

def equal (left right : IP) : Bool :=
  if left.length = right.length then left == right
  else if left.length = 4 ∧ right.length = 16 then v4InV6 ++ left == right
  else if left.length = 16 ∧ right.length = 4 then left == v4InV6 ++ right
  else false

def ipv4Zero : IP := v4InV6 ++ [0, 0, 0, 0]
def ipv6Unspecified : IP := List.replicate 16 0
def ipv6Loopback : IP := List.replicate 15 0 ++ [1]

def isUnspecified (ip : IP) : Bool :=
  ip.equal ipv4Zero || ip.equal ipv6Unspecified

def isLoopback (ip : IP) : Bool :=
  match ip.to4 with
  | some ip4 => byteAt ip4 0 == 127
  | none => ip.equal ipv6Loopback

def isPrivate (ip : IP) : Bool :=
  match ip.to4 with
  | some ip4 =>
    byteAt ip4 0 == 10 ||
      (byteAt ip4 0 == 172 && byteAt ip4 1 &&& 0xf0 == 16) ||
      (byteAt ip4 0 == 192 && byteAt ip4 1 == 168)
  | none => ip.length == 16 && byteAt ip 0 &&& 0xfe == 0xfc

theorem to4_spec {ip ip4 : Bytes} (h : IP.to4 ip = some ip4) : ip4.length = 4 := by
  unfold to4 at h
  split at h
  · cases h
    assumption
  · split at h
    · rename_i hmapped
      cases h
      rw [List.length_drop, hmapped.1]
    · cases h

theorem to4_of_length {ip : Bytes} (h : ip.length = 4) : IP.to4 ip = some ip := if_pos h

end IP

def socks5ConnectCmd : UInt8 := 1
def socks5BindCmd : UInt8 := 2
def socks5UDPAssociateCmd : UInt8 := 3

def socks5IPv4Address : UInt8 := 1
def socks5FQDNAddress : UInt8 := 3
def socks5IPv6Address : UInt8 := 4

structure AddrSpec where
  fqdn : Bytes := []
  ip : IP := []
  port : Nat := 0
  deriving DecidableEq, Repr

def portOf (high low : UInt8) : Nat := high.toNat * 256 + low.toNat

def portBytes (port : Nat) : Bytes :=
  [UInt8.ofNat (port / 256), UInt8.ofNat port]

theorem portOf_portBytes {port : Nat} (h : port < 65536) :
    portOf (UInt8.ofNat (port / 256)) (UInt8.ofNat port) = port := by
  simp only [portOf, UInt8.toNat_ofNat']
  omega

inductive ReadError where
  | eof
  | unexpectedEOF
  | invalidVersion (version : UInt8)
  | unrecognizedAddrType
  deriving DecidableEq, Repr

/-- What `WriteToSocks5` writes, or `none` for an address it refuses. -/
def AddrSpec.writeToSocks5 (addr : AddrSpec) : Option Bytes :=
  match addr.ip.to4, addr.ip.to16 with
  | some ip4, _ => some (socks5IPv4Address :: (ip4 ++ portBytes addr.port))
  | none, some ip16 => some (socks5IPv6Address :: (ip16 ++ portBytes addr.port))
  | none, none =>
    if addr.fqdn ≠ [] then
      some (socks5FQDNAddress :: UInt8.ofNat addr.fqdn.length :: (addr.fqdn ++ portBytes addr.port))
    else none

structure Request where
  command : UInt8
  dstAddr : AddrSpec
  raw : Bytes
  deriving DecidableEq, Repr

/-! ## Readers -/

/-- `io.ReadFull` on what the client still sends. -/
def readFull (n : Nat) (input : Bytes) : Except ReadError (Bytes × Bytes) :=
  if n ≤ input.length then .ok (input.take n, input.drop n)
  else if input = [] then .error .eof
  else .error .unexpectedEOF

theorem readFull_eq_ok {n : Nat} {input rest data : Bytes}
    (h : readFull n input = .ok (data, rest)) :
    data.length = n ∧ input = data ++ rest := by
  unfold readFull at h
  split at h
  · rename_i hlength
    cases h
    refine ⟨?_, (List.take_append_drop n input).symm⟩
    rw [List.length_take]
    omega
  · split at h
    · cases h
    · cases h

def bytesReader : ByteReader Bytes ReadError where
  readFull := readFull
  content input := input
  length_eq h := (readFull_eq_ok h).1
  content_eq h := (readFull_eq_ok h).2
  readFull_ok {n input} h := ⟨input.take n, input.drop n, if_pos h⟩

variable {σ : Type}

def AddrSpec.readPortFrom (R : ByteReader σ ReadError) (addr : AddrSpec)
    (state : σ) : Except ReadError (AddrSpec × σ) := do
  let (port, state) ← R.readFull 2 state
  return ({ addr with port := portOf (byteAt port 0) (byteAt port 1) }, state)

def AddrSpec.readFrom (R : ByteReader σ ReadError) (a : AddrSpec) (state : σ) :
    Except ReadError (AddrSpec × σ) := do
  let (addrType, state) ← R.readFull 1 state
  if byteAt addrType 0 = socks5IPv4Address then
    let (addr, state) ← R.readFull 4 state
    AddrSpec.readPortFrom R { a with ip := addr } state
  else if byteAt addrType 0 = socks5IPv6Address then
    let (addr, state) ← R.readFull 16 state
    AddrSpec.readPortFrom R { a with ip := addr } state
  else if byteAt addrType 0 = socks5FQDNAddress then
    let (addrLen, state) ← R.readFull 1 state
    let (fqdn, state) ← R.readFull (byteAt addrLen 0).toNat state
    AddrSpec.readPortFrom R { a with fqdn := fqdn } state
  else throw .unrecognizedAddrType

structure Message where
  code : UInt8
  addr : AddrSpec
  raw : Bytes

def Message.readFrom (R : ByteReader σ ReadError) (addr : AddrSpec)
    (state : σ) : Except ReadError (Message × σ) := do
  let (header, state) ← R.tee.readFull 3 (state, [])
  if byteAt header 0 ≠ 5 then throw (.invalidVersion (byteAt header 0))
  let (addr, state) ← addr.readFrom R.tee state
  return (⟨byteAt header 1, addr, state.2⟩, state.1)

def Message.toRequest (m : Message) : Request := ⟨m.code, m.addr, m.raw⟩

def Request.readFrom (R : ByteReader σ ReadError) (r : Request) (state : σ) :
    Except ReadError (Request × σ) :=
  (Message.readFrom R r.dstAddr state).map fun (m, state) =>
    (m.toRequest, state)

def AddrSpec.readFromSocks5 (input : Bytes) : Except ReadError (AddrSpec × Bytes) :=
  AddrSpec.readFrom bytesReader {} input

def Request.readFromSocks5 (input : Bytes) : Except ReadError (Request × Bytes) :=
  Request.readFrom bytesReader ⟨0, {}, []⟩ input

/-! ## What is read -/

inductive Encodes : AddrSpec → Bytes → Prop
  | ipv4 (ip : Bytes) (high low : UInt8) : ip.length = 4 →
      Encodes { ip := ip, port := portOf high low } (socks5IPv4Address :: (ip ++ [high, low]))
  | ipv6 (ip : Bytes) (high low : UInt8) : ip.length = 16 →
      Encodes { ip := ip, port := portOf high low } (socks5IPv6Address :: (ip ++ [high, low]))
  | fqdn (size : UInt8) (name : Bytes) (high low : UInt8) : name.length = size.toNat →
      Encodes { fqdn := name, port := portOf high low }
        (socks5FQDNAddress :: size :: (name ++ [high, low]))

def AddrSpec.fill (a addr : AddrSpec) : AddrSpec :=
  if addr.ip = [] then { a with fqdn := addr.fqdn, port := addr.port }
  else { a with ip := addr.ip, port := addr.port }

theorem Encodes.fill_empty (h : Encodes addr encoded) : AddrSpec.fill {} addr = addr := by
  cases h with
  | ipv4 ip high low hlength =>
    have hne : ip ≠ [] := List.ne_nil_of_length_pos (by omega)
    exact if_neg hne
  | ipv6 ip high low hlength =>
    have hne : ip ≠ [] := List.ne_nil_of_length_pos (by omega)
    exact if_neg hne
  | fqdn size name high low hlength => rfl

section

variable {R : ByteReader σ ReadError} {state after : σ} {a got : AddrSpec}

theorem AddrSpec.readPortFrom_eq_ok (h : AddrSpec.readPortFrom R a state = .ok (got, after)) :
    ∃ high low, got = { a with port := portOf high low } ∧ R.Reads state [high, low] after := by
  obtain ⟨⟨port, rest⟩, hread, hport⟩ := except_ok_bind.mp h
  obtain ⟨high, low, rfl⟩ := List.length_eq_two.mp (R.length_eq hread)
  cases hport
  exact ⟨high, low, rfl, .cons hread (.nil _)⟩

theorem AddrSpec.readFrom_eq_ok (h : a.readFrom R state = .ok (got, after)) :
    ∃ addr encoded, Encodes addr encoded ∧ got = a.fill addr ∧ R.Reads state encoded after := by
  obtain ⟨⟨addrType, afterType⟩, htype, hrest⟩ := except_ok_bind.mp h
  obtain ⟨kind, rfl⟩ := List.length_eq_one_iff.mp (R.length_eq htype)
  simp only [byteAt, List.getD_cons_zero] at hrest
  have hip : ∀ {n}, 0 < n → (do
      let (addr, state) ← R.readFull n afterType
      AddrSpec.readPortFrom R { a with ip := addr } state) = .ok (got, after) →
      ∃ ip high low, ip.length = n ∧ got = a.fill { ip := ip, port := portOf high low } ∧
        R.Reads state (kind :: (ip ++ [high, low])) after := by
    intro n hn hread
    obtain ⟨⟨ip, afterIP⟩, hip, hport⟩ := except_ok_bind.mp hread
    obtain ⟨high, low, rfl, hreads⟩ := readPortFrom_eq_ok hport
    have hne : ip ≠ [] := List.ne_nil_of_length_pos (by rw [R.length_eq hip]; exact hn)
    exact ⟨ip, high, low, R.length_eq hip, by simp [fill, hne], .cons htype (.cons hip hreads)⟩
  split at hrest
  · rename_i hkind
    obtain ⟨ip, high, low, hlength, hgot, hreads⟩ := hip (by decide) hrest
    rw [hkind] at hreads
    exact ⟨_, _, .ipv4 ip high low hlength, hgot, hreads⟩
  split at hrest
  · rename_i hkind
    obtain ⟨ip, high, low, hlength, hgot, hreads⟩ := hip (by decide) hrest
    rw [hkind] at hreads
    exact ⟨_, _, .ipv6 ip high low hlength, hgot, hreads⟩
  split at hrest
  · rename_i hkind
    obtain ⟨⟨size, afterSize⟩, hsize, hname⟩ := except_ok_bind.mp hrest
    obtain ⟨byte, rfl⟩ := List.length_eq_one_iff.mp (R.length_eq hsize)
    obtain ⟨⟨name, afterName⟩, hread, hport⟩ := except_ok_bind.mp hname
    obtain ⟨high, low, rfl, hreads⟩ := readPortFrom_eq_ok hport
    rw [hkind] at htype
    exact ⟨_, _, .fqdn byte name high low (R.length_eq hread), rfl,
      .cons htype (.cons hsize (.cons hread hreads))⟩
  · cases hrest

theorem AddrSpec.readFromSocks5_eq_ok {addr : AddrSpec} {input rest : Bytes}
    (h : AddrSpec.readFromSocks5 input = .ok (addr, rest)) :
    ∃ encoded, Encodes addr encoded ∧ input = encoded ++ rest := by
  obtain ⟨addr, encoded, hencodes, rfl, hreads⟩ := AddrSpec.readFrom_eq_ok h
  rw [hencodes.fill_empty]
  exact ⟨encoded, hencodes, hreads.content_eq⟩

theorem Message.readFrom_eq_ok {m : Message} (h : Message.readFrom R a state = .ok (m, after)) :
    ∃ reserved addr encoded, Encodes addr encoded ∧ m.addr = a.fill addr ∧
      m.raw = 5 :: m.code :: reserved :: encoded ∧ R.content state = m.raw ++ R.content after := by
  obtain ⟨⟨header, afterHeader⟩, hheader, hrest⟩ := except_ok_bind.mp h
  obtain ⟨version, code, reserved, rfl⟩ := List.length_eq_three.mp (R.tee.length_eq hheader)
  simp only [byteAt, List.getD_cons_zero, List.getD_cons_succ] at hrest
  split at hrest
  · cases hrest
  rename_i hversion
  obtain ⟨⟨got, afterAddr⟩, haddr, hraw⟩ := except_ok_bind.mp hrest
  obtain ⟨addr, encoded, hencodes, rfl, hreads⟩ := AddrSpec.readFrom_eq_ok haddr
  have hall : R.tee.Reads (state, []) ([version, code, reserved] ++ encoded) afterAddr :=
    .cons hheader hreads
  have hcopy : afterAddr.2 = [version, code, reserved] ++ encoded := hall.copy_eq
  cases hraw
  refine ⟨reserved, addr, encoded, hencodes, rfl, ?_, ?_⟩
  · rw [hcopy, not_not.mp hversion]
    rfl
  · rw [hcopy]
    exact hall.content_eq

theorem Request.readFromSocks5_eq_ok {req : Request} {input rest : Bytes}
    (h : Request.readFromSocks5 input = .ok (req, rest)) :
    ∃ reserved encoded, Encodes req.dstAddr encoded ∧
      req.raw = 5 :: req.command :: reserved :: encoded := by
  obtain ⟨⟨m, left⟩, hread, heq⟩ := except_ok_map.mp h
  cases heq
  obtain ⟨reserved, addr, encoded, hencodes, haddr, hraw, -⟩ := Message.readFrom_eq_ok hread
  have hsame : m.addr = addr := haddr.trans hencodes.fill_empty
  rw [← hsame] at hencodes
  exact ⟨reserved, encoded, hencodes, hraw⟩

end

end Mieru.Socks5
