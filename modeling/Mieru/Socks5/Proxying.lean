import Mieru.Foundation.Outcome
import Mieru.Socks5.Authentication
import Mieru.Socks5.Codec
import Mieru.Socks5.UdpAssociate

/-!
# Requests and replies that are passed on

`proxySocks5ConnReq` and `handleForwardingUDP` of `request.go` and
`BidiCopySocks5` of `copy.go` read a request or a reply with code of their own
to pass it on or to drop it.  Each of them is also given with `ReadFromSocks5`
in the place of that code.  The two behave alike unless the length of a domain
name wraps around when the two bytes of the port are added to it.
-/

namespace Mieru.Socks5

open Mieru.Foundation

variable {front header fqdnLen rest input : Bytes} {n : Nat} {conn after : Conn}

/-! ## The readers -/

structure Pieces where
  /-- Version, command or reply, a reserved byte and the address type. -/
  header : Bytes
  fqdnLen : Bytes
  address : Bytes
  deriving DecidableEq, Repr

def Pieces.raw (p : Pieces) : Bytes := p.header ++ p.fqdnLen ++ p.address

structure ReadTexts where
  header : String
  fqdnLen : String
  address : String

namespace Handshake

/-- `io.ReadFull` with its error wrapped. -/
def readFullOr (text : String) (n : Nat) : Handshake Bytes := fun conn =>
  if conn.input.length < n then
    (.error (text ++ (if conn.input = [] then ": EOF" else ": unexpected EOF")),
      { conn with input := [] })
  else (.ok (conn.input.take n), { conn with input := conn.input.drop n })

end Handshake

def readPieces (texts : ReadTexts) (header fqdnLen : Bytes) (n : Nat) : Handshake Pieces :=
  (Handshake.readFullOr texts.address n).bind fun address conn =>
    (.ok ⟨header, fqdnLen, address⟩, conn)

def readAfterHeader (texts : ReadTexts) (header : Bytes) : Handshake Pieces :=
  if byteAt header 3 = socks5IPv4Address then readPieces texts header [] 6
  else if byteAt header 3 = socks5FQDNAddress then
    (Handshake.readFullOr texts.fqdnLen 1).bind fun fqdnLen =>
      -- The sum is of type uint8, as the length byte is.
      readPieces texts header fqdnLen (byteAt fqdnLen 0 + 2).toNat
  else if byteAt header 3 = socks5IPv6Address then
    readPieces texts header [] 18
  else Handshake.fail ("unsupported address type: " ++ toString (byteAt header 3).toNat)

def readByHand (texts : ReadTexts) : Handshake Pieces :=
  (Handshake.readFullOr texts.header 4).bind (readAfterHeader texts)

def Pieces.ofRaw (raw : Bytes) : Pieces where
  header := raw.take 4
  fqdnLen :=
    if byteAt raw 3 = socks5FQDNAddress then (raw.drop 4).take 1 else []
  address :=
    if byteAt raw 3 = socks5FQDNAddress then raw.drop 5 else raw.drop 4

/-- Three bytes, and an address read by `ReadFromSocks5`. -/
def readByCodec : Handshake Pieces := fun conn =>
  match readFull 3 conn.input with
  | .error _ => (.error "failed to read", { conn with input := [] })
  | .ok (_, rest) =>
    match AddrSpec.readFromSocks5 rest with
    | .error _ => (.error "failed to read", { conn with input := [] })
    | .ok (_, after) =>
      (.ok (Pieces.ofRaw (conn.input.take (conn.input.length - after.length))),
        { conn with input := after })

def readConnReq : Handshake Pieces := readByHand
  ⟨"failed to get socks5 connection request", "failed to get FQDN length",
    "failed to get destination address"⟩

def readConnResp : Handshake Pieces := readByHand
  ⟨"failed to read connection response from the server",
    "failed to get FQDN length", "failed to get bind address"⟩

def readForwardingResp : Handshake Pieces := readByHand
  ⟨"failed to read socks5 response from egress proxy",
    "failed to read FQDN length", "failed to read bind address"⟩

/-! ## The functions around them -/

structure Proxied (α : Type) where
  result : Outcome String α
  conn : Conn
  proxyConn : Conn

def setPort (resp : Bytes) (port : Nat) : Bytes :=
  resp.take (resp.length - 2) ++ portBytes port

structure ConnReqEnv where
  handshakeNoWait : Bool
  /-- `NetAddrSpec.From` of the remote address of `proxyConn`. -/
  boundAddr : Option AddrSpec
  listenUDP : Option Nat

structure ConnReqResult where
  udpPort : Option Nat := none
  pendingReq : Option Bytes := none
  deriving DecidableEq, Repr

section

variable {α β : Type}

def Proxied.fail (err : String) (conn proxyConn : Conn) : Proxied α :=
  ⟨.error err, conn, proxyConn⟩

def onConn (step : Handshake α) (conn proxyConn : Conn)
    (next : α → Conn → Conn → Proxied β) : Proxied β :=
  match step conn with
  | (.ok value, conn) => next value conn proxyConn
  | (.error err, conn) => .fail err conn proxyConn

def onProxyConn (step : Handshake α) (conn proxyConn : Conn)
    (next : α → Conn → Conn → Proxied β) : Proxied β :=
  match step proxyConn with
  | (.ok value, proxyConn) => next value conn proxyConn
  | (.error err, proxyConn) => .fail err conn proxyConn

end

def fakeConnResp (env : ConnReqEnv) (connReq : Bytes) (conn proxyConn : Conn) :
    Proxied ConnReqResult :=
  match env.boundAddr with
  | none => .fail "failed to get proxy connection address" conn proxyConn
  | some serverBoundAddr =>
    match serverBoundAddr.writeToSocks5 with
    | none => .fail "failed to write proxy connection address" conn proxyConn
    | some bytes =>
      onConn (Handshake.write "write of the fake connection response"
        ([socks5Version, 0, 0] ++ bytes)) conn proxyConn
        fun _ conn proxyConn =>
          ⟨.ok { pendingReq := some connReq }, conn, proxyConn⟩

/-- The reply of the server is passed on; the port of a UDP association is the
one of the new listener. -/
def passConnResp (env : ConnReqEnv) (cmd : UInt8) (connResp : Bytes)
    (conn proxyConn : Conn) : Proxied ConnReqResult :=
  if cmd = socks5UDPAssociateCmd then
    match env.listenUDP with
    | none => .fail "net.ListenUDP() failed" conn proxyConn
    | some udpPort =>
      onConn (Handshake.write "write of the connection response"
        (setPort connResp udpPort)) conn proxyConn
        fun _ conn proxyConn =>
          ⟨.ok { udpPort := some udpPort }, conn, proxyConn⟩
  else
    onConn (Handshake.write "write of the connection response" connResp) conn
      proxyConn fun _ conn proxyConn => ⟨.ok {}, conn, proxyConn⟩

def proxyConnReqWith (readReq readResp : Handshake Pieces) (env : ConnReqEnv)
    (conn proxyConn : Conn) : Proxied ConnReqResult :=
  onConn readReq conn proxyConn fun req conn proxyConn =>
    let cmd := byteAt req.raw 1
    if env.handshakeNoWait = true ∧ cmd = socks5ConnectCmd then
      fakeConnResp env req.raw conn proxyConn
    else
      onProxyConn (Handshake.write "write of the connection request" req.raw)
        conn proxyConn fun _ conn proxyConn =>
          onProxyConn readResp conn proxyConn fun resp conn proxyConn =>
            passConnResp env cmd resp.raw conn proxyConn

def proxySocks5ConnReq : ConnReqEnv → Conn → Conn → Proxied ConnReqResult :=
  proxyConnReqWith readConnReq readConnResp

structure ForwardingEnv where
  remoteIP : IP
  listenUDP : Option Nat

def downstreamUDPAddr (env : ForwardingEnv) (resp : Pieces) : Outcome String UdpAddr :=
  let addrType := byteAt resp.header 3
  if addrType = socks5IPv4Address then
    .ok ⟨resp.address.take 4, portOf (byteAt resp.address 4) (byteAt resp.address 5), []⟩
  else if addrType = socks5IPv6Address then
    .ok ⟨resp.address.take 16, portOf (byteAt resp.address 16) (byteAt resp.address 17), []⟩
  else
    let fqdnLen := (byteAt resp.fqdnLen 0).toNat
    if fqdnLen + 1 < resp.address.length then
      .ok ⟨env.remoteIP, portOf (byteAt resp.address fqdnLen)
        (byteAt resp.address (fqdnLen + 1)), []⟩
    else .panic "index out of range"

/-- The unspecified address stands for the other end of `proxyConn`. -/
def UdpAddr.orRemote (addr : UdpAddr) (env : ForwardingEnv) : UdpAddr :=
  if addr.ip.isUnspecified then { addr with ip := env.remoteIP } else addr

def passForwardingResp (env : ForwardingEnv) (resp : Pieces)
    (conn proxyConn : Conn) : Proxied UdpAddr :=
  if byteAt resp.raw 1 ≠ 0 then
    onConn (Handshake.write "write of the error response" resp.raw) conn
      proxyConn fun _ conn proxyConn =>
        .fail "egress proxy returned error" conn proxyConn
  else
    match downstreamUDPAddr env resp with
    | .error err => ⟨.error err, conn, proxyConn⟩
    | .panic message => ⟨.panic message, conn, proxyConn⟩
    | .ok addr =>
      match env.listenUDP with
      | none => .fail "failed to listen UDP" conn proxyConn
      | some udpPort =>
        onConn (Handshake.write "write of the response to the client"
          (setPort resp.raw udpPort)) conn proxyConn
          fun _ conn proxyConn =>
            ⟨.ok (addr.orRemote env), conn, proxyConn⟩

def forwardingUDPWith (readResp : Handshake Pieces) (env : ForwardingEnv)
    (raw : Bytes) (conn proxyConn : Conn) : Proxied UdpAddr :=
  onProxyConn (Handshake.write "write of the request to the egress proxy" raw)
    conn proxyConn fun _ conn proxyConn =>
      onProxyConn readResp conn proxyConn fun resp conn proxyConn =>
        passForwardingResp env resp conn proxyConn

def handleForwardingUDP : ForwardingEnv → Bytes → Conn → Conn → Proxied UdpAddr :=
  forwardingUDPWith readForwardingResp

/-- The goroutine of `BidiCopySocks5` that copies from the server, with a given
reader: the reply is dropped. -/
def copyFromProxyWith (readResp : Handshake Pieces) (conn proxyConn : Conn) : Proxied Unit :=
  onProxyConn readResp conn proxyConn fun _ conn proxyConn =>
    onConn (Handshake.write "copy" proxyConn.input) conn proxyConn
      fun _ conn proxyConn => ⟨.ok (), conn, { proxyConn with input := [] }⟩

def bidiCopySocks5 : Conn → Conn → Proxied Unit :=
  copyFromProxyWith readConnResp

/-! ## Behaving alike -/

/-- What can be seen of a call: what it returns and leaves unread if it
succeeds, whether it panics, and what it has written. -/
def Proxied.observed {α : Type} (p : Proxied α) :
    Outcome Unit (α × Bytes × Bytes) × Bytes × Bytes :=
  (match p.result with
    | .ok value => .ok (value, p.conn.input, p.proxyConn.input)
    | .error _ => .error ()
    | .panic message => .panic message,
    p.conn.output, p.proxyConn.output)

/-- `ReadFromSocks5` could stand where the request of the client is read. -/
def RequestAlike (input : Bytes) : Prop :=
  ∀ env conn proxyConn, conn.input = input → (proxySocks5ConnReq env conn proxyConn).observed =
      (proxyConnReqWith readByCodec readConnResp env conn proxyConn).observed

/-- `ReadFromSocks5` could stand where the reply of the server is read. -/
def ResponseAlike (input : Bytes) : Prop :=
  ∀ env conn proxyConn, proxyConn.input = input → (proxySocks5ConnReq env conn proxyConn).observed =
      (proxyConnReqWith readConnReq readByCodec env conn proxyConn).observed

/-- `ReadFromSocks5` could stand in `handleForwardingUDP`, which does not
panic. -/
def ForwardingAlike (input : Bytes) : Prop :=
  ∀ env raw conn proxyConn, proxyConn.input = input →
    (handleForwardingUDP env raw conn proxyConn).observed =
      (forwardingUDPWith readByCodec env raw conn proxyConn).observed ∧
    ¬ (handleForwardingUDP env raw conn proxyConn).result.Panics

/-- `ReadFromSocks5` could stand in `BidiCopySocks5`. -/
def CopyAlike (input : Bytes) : Prop :=
  ∀ conn proxyConn, proxyConn.input = input → (bidiCopySocks5 conn proxyConn).observed =
      (copyFromProxyWith readByCodec conn proxyConn).observed

/-- The length byte of a domain name is at most 253, or it is 255 and nothing
follows it. -/
def FitsLength (input : Bytes) : Prop :=
  byteAt input 3 = socks5FQDNAddress → 4 < input.length → (byteAt input 4).toNat ≤ 253 ∨
      ((byteAt input 4).toNat = 255 ∧ input.length = 5)

/-! ## What the readers accept -/

def wrappedSize (len : UInt8) : Nat := (len + 2).toNat

def exactSize (len : UInt8) : Nat := len.toNat + 2

/-- How many bytes the request or reply at the front has; `size` gives the
length of a name with its port. -/
def wholeLength (size : UInt8 → Nat) (input : Bytes) : Nat :=
  if byteAt input 3 = socks5IPv4Address then 10
  else if byteAt input 3 = socks5FQDNAddress then 5 + size (byteAt input 4)
  else if byteAt input 3 = socks5IPv6Address then 22
  else 0

/-- It is of a known type, and there as a whole. -/
def Whole (size : UInt8 → Nat) (input : Bytes) : Prop :=
  4 < wholeLength size input ∧ wholeLength size input ≤ input.length

/-- A read takes the bytes of that length, or it fails and writes nothing. -/
structure Cuts (size : UInt8 → Nat) (conn : Conn) (result : Except String Pieces × Conn) :
    Prop where
  takes : Whole size conn.input →
    result = (.ok (.ofRaw (conn.input.take (wholeLength size conn.input))),
      { conn with input := conn.input.drop (wholeLength size conn.input) })
  fails : ¬ Whole size conn.input → ∃ err after, result = (.error err, after) ∧
    after.output = conn.output

variable {texts : ReadTexts} {size : UInt8 → Nat} {writable : List Bool} {output : Bytes}

theorem Pieces.raw_ofRaw (raw : Bytes) : (Pieces.ofRaw raw).raw = raw := by
  have htail : (raw.drop 4).take 1 ++ raw.drop 5 = raw.drop 4 := by
    rw [show raw.drop 5 = (raw.drop 4).drop 1 by rw [List.drop_drop], List.take_append_drop]
  by_cases h : byteAt raw 3 = socks5FQDNAddress
  · simp [ofRaw, Pieces.raw, h, htail]
  · simp [ofRaw, Pieces.raw, h]

theorem not_whole (h : wholeLength size input = 0) : ¬ Whole size input := by
  rw [Whole, h]
  exact fun h => Nat.not_lt_zero 4 h.1

/-- The address is read after the bytes that give its length. -/
theorem readPieces_cuts (front : Bytes)
    (hlength : wholeLength size (front ++ rest) = front.length + n)
    (hfront : 4 < front.length + n)
    (hpieces : ∀ address, Pieces.ofRaw (front ++ address) = ⟨header, fqdnLen, address⟩) :
    Cuts size ⟨front ++ rest, writable, output⟩
      (readPieces texts header fqdnLen n ⟨rest, writable, output⟩) := by
  have hwhole : Whole size (front ++ rest) ↔ n ≤ rest.length := by
    rw [Whole, hlength, List.length_append]
    omega
  constructor
  · intro h
    rw [hlength, List.take_length_add_append, List.drop_length_add_append, hpieces]
    simp [readPieces, Handshake.bind, Handshake.readFullOr, Nat.not_lt.mpr (hwhole.mp h)]
  · intro h
    have hshort : rest.length < n := Nat.not_le.mp fun hle => h (hwhole.mpr hle)
    simp [readPieces, Handshake.bind, Handshake.readFullOr, hshort]

theorem readByHand_cuts (texts : ReadTexts) (conn : Conn) :
    Cuts wrappedSize conn (readByHand texts conn) := by
  obtain ⟨input, writable, output⟩ := conn
  match input with
  | [] | [_] | [_, _] | [_, _, _] =>
    exact ⟨fun h => absurd h (not_whole rfl), fun _ => ⟨_, _, rfl, rfl⟩⟩
  | a :: b :: c :: t :: rest =>
    change Cuts _ _ (readAfterHeader texts [a, b, c, t] ⟨rest, writable, output⟩)
    unfold readAfterHeader
    split
    · rename_i htype
      obtain rfl : t = socks5IPv4Address := htype
      exact readPieces_cuts [a, b, c, socks5IPv4Address] rfl (by simp) fun _ => rfl
    split
    · rename_i htype
      obtain rfl : t = socks5FQDNAddress := htype
      cases rest with
      | nil =>
        have hshort : ¬ wholeLength wrappedSize [a, b, c, socks5FQDNAddress] ≤ 4 := by
          change ¬ 5 + wrappedSize 0 ≤ 4
          decide
        exact ⟨fun h => absurd h.2 hshort, fun _ => ⟨_, _, rfl, rfl⟩⟩
      | cons len rest =>
        exact readPieces_cuts [a, b, c, socks5FQDNAddress, len] rfl
          (Nat.lt_add_right _ (by simp)) fun _ => rfl
    split
    · rename_i htype
      obtain rfl : t = socks5IPv6Address := htype
      exact readPieces_cuts [a, b, c, socks5IPv6Address] rfl (by simp) fun _ => rfl
    · rename_i hv4 hname hv6
      refine ⟨fun h => absurd h (not_whole ?_), fun _ => ⟨_, _, rfl, rfl⟩⟩
      exact (if_neg hv4).trans ((if_neg hname).trans (if_neg hv6))

/-! The codec accepts those whose names have their full length. -/

theorem wholeLength_of_encodes {addr : AddrSpec} {encoded : Bytes} (h : Encodes addr encoded)
    (a b c : UInt8) (rest : Bytes) :
    wholeLength exactSize (a :: b :: c :: (encoded ++ rest)) = 3 + encoded.length := by
  cases h with
  | ipv4 ip high low hip | ipv6 ip high low hip =>
    rw [List.length_cons, List.length_append, hip]
    rfl
  | fqdn len name high low hname =>
    change 5 + (len.toNat + 2) = _
    simp [hname]
    omega

theorem Encodes.two_le {addr : AddrSpec} {encoded : Bytes} (h : Encodes addr encoded) :
    2 ≤ encoded.length := by
  cases h <;> simp

theorem exists_port (n : Nat) (h : n + 2 ≤ input.length) :
    ∃ ip high low rest, ip.length = n ∧ input = ip ++ [high, low] ++ rest := by
  obtain ⟨high, low, htail⟩ := List.length_eq_two.mp
    (show ((input.drop n).take 2).length = 2 by rw [List.length_take, List.length_drop]; omega)
  refine ⟨input.take n, high, low, input.drop (n + 2), List.length_take_of_le (by omega), ?_⟩
  rw [← htail, ← List.drop_drop, List.append_assoc, List.take_append_drop, List.take_append_drop]

theorem encodes_of_whole {a b c : UInt8} (h : Whole exactSize (a :: b :: c :: input)) :
    ∃ addr encoded rest, Encodes addr encoded ∧ input = encoded ++ rest := by
  obtain ⟨hsome, hall⟩ := h
  cases input with
  | nil => cases hsome
  | cons t tail =>
    simp only [List.length_cons] at hall
    unfold wholeLength at hsome hall
    split at hall
    · rename_i htype
      obtain rfl : t = socks5IPv4Address := htype
      obtain ⟨ip, high, low, rest, hip, rfl⟩ := exists_port 4 (show 6 ≤ tail.length by omega)
      exact ⟨_, _, rest, .ipv4 ip high low hip, rfl⟩
    split at hall
    · rename_i htype
      obtain rfl : t = socks5FQDNAddress := htype
      cases tail with
      | nil =>
        change 5 + exactSize 0 ≤ 4 at hall
        exact absurd hall (by decide)
      | cons len tail =>
        have htail : len.toNat + 2 ≤ tail.length := by
          change 5 + (len.toNat + 2) ≤ _ at hall
          simp only [List.length_cons] at hall
          omega
        obtain ⟨name, high, low, rest, hname, rfl⟩ := exists_port _ htail
        exact ⟨_, _, rest, .fqdn len name high low hname, rfl⟩
    split at hall
    · rename_i htype
      obtain rfl : t = socks5IPv6Address := htype
      obtain ⟨ip, high, low, rest, hip, rfl⟩ := exists_port 16 (show 18 ≤ tail.length by omega)
      exact ⟨_, _, rest, .ipv6 ip high low hip, rfl⟩
    · rename_i hv4 hname hv6
      simp [hv4, hname, hv6] at hsome

theorem readByCodec_cuts (conn : Conn) : Cuts exactSize conn (readByCodec conn) := by
  obtain ⟨input, writable, output⟩ := conn
  match input with
  | [] | [_] | [_, _] => exact ⟨fun h => absurd h (not_whole rfl), fun _ => ⟨_, _, rfl, rfl⟩⟩
  | a :: b :: c :: rest =>
    have hthree : readFull 3 (a :: b :: c :: rest) = .ok ([a, b, c], rest) := rfl
    unfold readByCodec
    rw [hthree]
    dsimp only
    split
    · rename_i hread
      refine ⟨fun h => ?_, fun _ => ⟨_, _, rfl, rfl⟩⟩
      obtain ⟨addr, encoded, after, hencodes, rfl⟩ := encodes_of_whole h
      cases hread.symm.trans (hencodes.readFromSocks5 after)
    · rename_i addr after hread
      obtain ⟨encoded, hencodes, rfl⟩ := AddrSpec.readFromSocks5_eq_ok hread
      have hlength := wholeLength_of_encodes hencodes a b c after
      have htotal : (a :: b :: c :: (encoded ++ after)).length =
          3 + encoded.length + after.length := by
        simp
        omega
      have hdrop : (a :: b :: c :: (encoded ++ after)).drop (3 + encoded.length) = after := by
        rw [Nat.add_comm]
        simp
      constructor
      · intro _
        dsimp only
        rw [htotal, Nat.add_sub_cancel, hlength, hdrop]
      · have hsome := hencodes.two_le
        exact fun h => absurd ⟨by dsimp only; omega, by dsimp only; omega⟩ h

/-! ## Where the readers agree -/

theorem wrappedSize_eq {len : UInt8} (h : len.toNat ≤ 253) : wrappedSize len = exactSize len := by
  unfold wrappedSize exactSize
  rw [UInt8.toNat_add]
  exact Nat.mod_eq_of_lt (by simp; omega)

theorem wrappedSize_le {len : UInt8} (h : 253 < len.toNat) : wrappedSize len = len.toNat - 254 := by
  have hlt := len.toNat_lt
  unfold wrappedSize
  rw [UInt8.toNat_add]
  simp
  omega

theorem wholeLength_fqdn (h : byteAt input 3 = socks5FQDNAddress) :
    wholeLength size input = 5 + size (byteAt input 4) := by
  rw [wholeLength, if_neg (by rw [h]; decide), if_pos h]

/-- Both lengths are the same, or the input has none of them as a whole. -/
theorem wholes_of_fits (h : FitsLength input) :
    wholeLength wrappedSize input = wholeLength exactSize input ∨
      ¬ Whole wrappedSize input ∧ ¬ Whole exactSize input := by
  by_cases htype : byteAt input 3 = socks5FQDNAddress
  · simp only [Whole, wholeLength_fqdn htype]
    by_cases hshort : (byteAt input 4).toNat ≤ 253
    · exact .inl (by rw [wrappedSize_eq hshort])
    · have hsize := wrappedSize_le (Nat.not_le.mp hshort)
      have hlong : 4 < input.length → (byteAt input 4).toNat = 255 ∧ input.length = 5 :=
        fun hlong => (h htype hlong).resolve_left hshort
      unfold exactSize
      omega
  · simp [wholeLength, htype]

def SameAt {α : Type} (first second : Handshake α) (conn : Conn) : Prop :=
  (∃ value after, first conn = (.ok value, after) ∧ second conn = (.ok value, after)) ∨
  ∃ err err' after after', first conn = (.error err, after) ∧
    second conn = (.error err', after') ∧ after.output = after'.output

theorem sameAt_of_fits (hfits : FitsLength conn.input) :
    SameAt (readByHand texts) readByCodec conn := by
  have hhand := readByHand_cuts texts conn
  have hcodec := readByCodec_cuts conn
  have hfail : ¬ Whole wrappedSize conn.input → ¬ Whole exactSize conn.input →
      SameAt (readByHand texts) readByCodec conn := by
    intro hwrapped hexact
    obtain ⟨err, after, hleft, houtput⟩ := hhand.fails hwrapped
    obtain ⟨err', after', hright, houtput'⟩ := hcodec.fails hexact
    exact .inr ⟨err, err', after, after', hleft, hright, houtput.trans houtput'.symm⟩
  rcases wholes_of_fits hfits with hsame | ⟨hwrapped, hexact⟩
  · by_cases hwhole : Whole exactSize conn.input
    · have hwrapped : Whole wrappedSize conn.input := by rwa [Whole, hsame]
      refine .inl ⟨_, _, hhand.takes hwrapped, ?_⟩
      rw [hsame]
      exact hcodec.takes hwhole
    · refine hfail ?_ hwhole
      rwa [Whole, hsame]
  · exact hfail hwrapped hexact

/-- If the length does not fit, the readers by hand accept a few bytes that
the codec does not take for a whole address. -/
theorem whole_of_not_fits (hfits : ¬ FitsLength input) :
    byteAt input 3 = socks5FQDNAddress ∧ Whole wrappedSize input ∧
      wholeLength wrappedSize input ≤ 5 + (byteAt input 4).toNat ∧
      wholeLength wrappedSize input < wholeLength exactSize input := by
  simp only [FitsLength, not_forall, not_or, not_and, Nat.not_le] at hfits
  obtain ⟨htype, hlong, hwrap, hmore⟩ := hfits
  have hlt := (byteAt input 4).toNat_lt
  have hsize := wrappedSize_le hwrap
  simp only [Whole, wholeLength_fqdn htype]
  unfold exactSize
  refine ⟨htype, ⟨by omega, ?_⟩, by omega, by omega⟩
  by_cases hmax : (byteAt input 4).toNat = 255
  · have hfive := hmore hmax
    omega
  · omega

/-! ## The functions with either reader -/

section

variable {α β : Type} {conn proxyConn : Conn} {first second : Handshake α}

theorem observed_onConn (h : SameAt first second conn) (next : α → Conn → Conn → Proxied β) :
    (onConn first conn proxyConn next).observed = (onConn second conn proxyConn next).observed := by
  rcases h with ⟨value, after, hfirst, hsecond⟩ |
    ⟨err, err', after, after', hfirst, hsecond, houtput⟩
  · simp only [onConn, hfirst, hsecond]
  · simp only [onConn, hfirst, hsecond, Proxied.fail, Proxied.observed, houtput]

theorem observed_onProxyConn (h : SameAt first second proxyConn)
    (next : α → Conn → Conn → Proxied β) :
    (onProxyConn first conn proxyConn next).observed =
      (onProxyConn second conn proxyConn next).observed := by
  rcases h with ⟨value, after, hfirst, hsecond⟩ |
    ⟨err, err', after, after', hfirst, hsecond, houtput⟩
  · simp only [onProxyConn, hfirst, hsecond]
  · simp only [onProxyConn, hfirst, hsecond, Proxied.fail, Proxied.observed, houtput]

theorem input_write {what : String} {data : Bytes} {result : Except String Unit}
    (h : Handshake.write what data conn = (result, after)) : after.input = conn.input := by
  unfold Handshake.write at h
  split at h
  · cases h
    rfl
  · cases h
    rfl

theorem requestAlike_of_fits (h : FitsLength input) : RequestAlike input := by
  intro env conn proxyConn hinput
  exact observed_onConn (sameAt_of_fits (hinput ▸ h)) _

theorem responseAlike_of_fits (h : FitsLength input) : ResponseAlike input := by
  intro env conn proxyConn hinput
  unfold proxySocks5ConnReq proxyConnReqWith
  rcases hreq : readConnReq conn with ⟨_ | req, conn'⟩
  · simp only [onConn, hreq]
  · simp only [onConn, hreq]
    split
    · rfl
    · rcases hwrite : Handshake.write "write of the connection request" req.raw
        proxyConn with ⟨_ | _, proxyConn'⟩
      · simp only [onProxyConn, hwrite]
      · have hsame : FitsLength proxyConn'.input := by
          rw [input_write hwrite, hinput]
          exact h
        simp only [onProxyConn, hwrite]
        exact observed_onProxyConn (sameAt_of_fits hsame) _

theorem byteAt_take {i : Nat} (h : i < n) : byteAt (input.take n) i = byteAt input i := by
  simp [byteAt, List.getD, h]

theorem byteAt_drop (i : Nat) : byteAt (input.drop n) i = byteAt input (n + i) := by
  simp [byteAt, List.getD]

theorem downstreamUDPAddr_fqdn (env : ForwardingEnv) (htype : byteAt input 3 = socks5FQDNAddress)
    (hn : 4 < n) (hle : n ≤ input.length) :
    ∃ addr, downstreamUDPAddr env (.ofRaw (input.take n)) =
      if (byteAt input 4).toNat + 1 < n - 5 then .ok addr else .panic "index out of range" := by
  have htype' : byteAt (input.take n) 3 = socks5FQDNAddress := by
    rw [byteAt_take (by omega), htype]
  have hlen : byteAt ((List.drop 4 (input.take n)).take 1) 0 = byteAt input 4 := by
    rw [byteAt_take Nat.zero_lt_one, byteAt_drop, byteAt_take hn]
  simp only [downstreamUDPAddr, Pieces.ofRaw, byteAt_take (show 3 < 4 by decide), htype', if_true,
    hlen, List.length_drop, List.length_take_of_le hle]
  exact ⟨_, rfl⟩

theorem downstreamUDPAddr_calm (env : ForwardingEnv) (h : Whole exactSize input) :
    ∃ addr, downstreamUDPAddr env (.ofRaw (input.take (wholeLength exactSize input))) =
      .ok addr := by
  by_cases hname : byteAt input 3 = socks5FQDNAddress
  · obtain ⟨addr, haddr⟩ := downstreamUDPAddr_fqdn env hname h.1 h.2
    refine ⟨addr, haddr.trans (if_pos ?_)⟩
    rw [wholeLength_fqdn hname]
    unfold exactSize
    omega
  · have hsome := h.1
    have htype : byteAt (input.take (wholeLength exactSize input)) 3 = byteAt input 3 :=
      byteAt_take (by omega)
    simp only [downstreamUDPAddr, Pieces.ofRaw, byteAt_take (show 3 < 4 by decide), htype]
    split
    · exact ⟨_, rfl⟩
    split
    · exact ⟨_, rfl⟩
    · rename_i hv4 hv6
      simp [wholeLength, hv4, hv6, hname] at hsome

theorem passForwardingResp_calm (env : ForwardingEnv) (h : Whole exactSize input)
    (conn proxyConn : Conn) : ¬ (passForwardingResp env
      (.ofRaw (input.take (wholeLength exactSize input))) conn proxyConn).result.Panics := by
  obtain ⟨addr, haddr⟩ := downstreamUDPAddr_calm env h
  have hcalm : ∀ {γ : Type} (step : Handshake γ) (next : γ → Conn → Conn → Proxied UdpAddr),
      (∀ value conn proxyConn, ¬ (next value conn proxyConn).result.Panics) →
      ¬ (onConn step conn proxyConn next).result.Panics := by
    intro γ step next hnext
    unfold onConn
    split
    · exact hnext _ _ _
    · exact fun h => h
  unfold passForwardingResp
  split
  · exact hcalm _ _ fun _ _ _ h => h
  · rw [haddr]
    dsimp only
    split
    · exact fun h => h
    · exact hcalm _ _ fun _ _ _ h => h

theorem forwardingAlike_of_fits (h : FitsLength input) : ForwardingAlike input := by
  intro env raw conn proxyConn hinput
  unfold handleForwardingUDP forwardingUDPWith
  rcases hwrite : Handshake.write "write of the request to the egress proxy" raw
    proxyConn with ⟨_ | _, proxyConn'⟩
  · simp only [onProxyConn, hwrite]
    exact ⟨trivial, fun h => h⟩
  · have hsame : FitsLength proxyConn'.input := by
      rw [input_write hwrite, hinput]
      exact h
    simp only [onProxyConn, hwrite]
    refine ⟨observed_onProxyConn (sameAt_of_fits hsame) _, ?_⟩
    have hhand : Cuts wrappedSize proxyConn' (readForwardingResp proxyConn') :=
      readByHand_cuts _ proxyConn'
    by_cases hwhole : Whole wrappedSize proxyConn'.input
    · rw [hhand.takes hwhole]
      rcases wholes_of_fits hsame with heq | ⟨hnone, -⟩
      · rw [heq]
        exact passForwardingResp_calm env (by rwa [Whole, ← heq]) conn _
      · exact absurd hwhole hnone
    · obtain ⟨err, after, hread, -⟩ := hhand.fails hwhole
      rw [hread]
      exact fun h => h

theorem copyAlike_of_fits (h : FitsLength input) : CopyAlike input := by
  intro conn proxyConn hinput
  exact observed_onProxyConn (sameAt_of_fits (hinput ▸ h)) _

end

/-! A length that does not fit shows in every function. -/

theorem take_ne {m : Nat} (hlt : n < m) (hm : m ≤ input.length) : input.take n ≠ input.take m := by
  intro heq
  have hlength := congrArg List.length heq
  rw [List.length_take_of_le (by omega), List.length_take_of_le hm] at hlength
  omega

/-- If the two readers make a function write the same, where it writes what was
read, the length fits. -/
theorem fits_of_written (output : Bytes) (written : Handshake Pieces → Bytes)
    (hok : ∀ {read n after}, 4 < n →
      read ⟨input, [], output⟩ = (.ok (.ofRaw (input.take n)), after) →
      written read = input.take n)
    (herror : ∀ {read err after}, read ⟨input, [], output⟩ = (.error err, after) →
      written read = [])
    (h : written (readByHand texts) = written readByCodec) : FitsLength input := by
  by_contra hfits
  obtain ⟨-, hwhole, -, hlt⟩ := whole_of_not_fits hfits
  have hleft := hok hwhole.1 ((readByHand_cuts texts ⟨input, [], output⟩).takes hwhole)
  rw [h] at hleft
  by_cases hexact : Whole exactSize input
  · have hright := hok hexact.1 ((readByCodec_cuts ⟨input, [], output⟩).takes hexact)
    exact take_ne hlt hexact.2 (hleft.symm.trans hright)
  · obtain ⟨err, after, hright, -⟩ := (readByCodec_cuts ⟨input, [], output⟩).fails hexact
    rw [herror hright] at hleft
    exact take_ne (Nat.lt_of_le_of_lt (Nat.zero_le 4) hwhole.1) hwhole.2 hleft

/-! ### What each function writes -/

def plainEnv : ConnReqEnv := ⟨false, none, none⟩

theorem fits_of_requestAlike (h : RequestAlike input) : FitsLength input := by
  refine fits_of_written [] (fun read => (proxyConnReqWith read readConnResp plainEnv
    ⟨input, [], []⟩ ⟨[], [], []⟩).observed.2.2) ?_ ?_
    (congrArg (fun observed => observed.2.2) (h plainEnv ⟨input, [], []⟩ ⟨[], [], []⟩ rfl))
  · intro read n after _ hread
    simp only [proxyConnReqWith, onConn, hread]
    exact Pieces.raw_ofRaw _
  · intro read err after hread
    simp only [proxyConnReqWith, onConn, hread]
    rfl

def connectRequest : Bytes := [5, 1, 0, 1, 1, 2, 3, 4, 0, 80]

theorem proxyConnReqWith_connect (read : Handshake Pieces) (input : Bytes) :
    proxyConnReqWith readConnReq read plainEnv ⟨connectRequest, [], []⟩ ⟨input, [], []⟩ =
      onProxyConn read ⟨[], [], []⟩ ⟨input, [], connectRequest⟩ fun resp conn proxyConn =>
        passConnResp plainEnv socks5ConnectCmd resp.raw conn proxyConn :=
  rfl

theorem fits_of_responseAlike (h : ResponseAlike input) : FitsLength input := by
  refine fits_of_written connectRequest (fun read => (proxyConnReqWith readConnReq read plainEnv
    ⟨connectRequest, [], []⟩ ⟨input, [], []⟩).observed.2.1) ?_ ?_
    (congrArg (fun observed => observed.2.1)
      (h plainEnv ⟨connectRequest, [], []⟩ ⟨input, [], []⟩ rfl))
  · intro read n after _ hread
    simp only [proxyConnReqWith_connect, onProxyConn, hread]
    exact Pieces.raw_ofRaw _
  · intro read err after hread
    simp only [proxyConnReqWith_connect, onProxyConn, hread]
    rfl

def forwardingEnv : ForwardingEnv := ⟨[], none⟩

theorem forwardingUDPWith_eq (read : Handshake Pieces) (input : Bytes) :
    forwardingUDPWith read forwardingEnv [] ⟨[], [], []⟩ ⟨input, [], []⟩ =
      onProxyConn read ⟨[], [], []⟩ ⟨input, [], []⟩ (passForwardingResp forwardingEnv) :=
  rfl

/-- The port of a reply that grants the request is beyond what was read. -/
theorem downstreamUDPAddr_panics (hfits : ¬ FitsLength input) : downstreamUDPAddr forwardingEnv
    (.ofRaw (input.take (wholeLength wrappedSize input))) = .panic "index out of range" := by
  obtain ⟨htype, hwhole, hshort, -⟩ := whole_of_not_fits hfits
  obtain ⟨addr, haddr⟩ := downstreamUDPAddr_fqdn forwardingEnv htype hwhole.1 hwhole.2
  exact haddr.trans (if_neg (by omega))

theorem fits_of_forwardingAlike (h : ForwardingAlike input) : FitsLength input := by
  obtain ⟨hobserved, hcalm⟩ := h forwardingEnv [] ⟨[], [], []⟩ ⟨input, [], []⟩ rfl
  by_cases hreply : byteAt input 1 = 0
  · by_contra hfits
    apply hcalm
    obtain ⟨-, hwhole, -, -⟩ := whole_of_not_fits hfits
    have hhand : Cuts wrappedSize ⟨input, [], []⟩ (readForwardingResp ⟨input, [], []⟩) :=
      readByHand_cuts _ _
    simp only [handleForwardingUDP, forwardingUDPWith_eq, onProxyConn, hhand.takes hwhole]
    unfold passForwardingResp
    rw [Pieces.raw_ofRaw, byteAt_take (Nat.lt_trans (by decide) hwhole.1),
      if_neg (not_not.mpr hreply), downstreamUDPAddr_panics hfits]
    trivial
  · refine fits_of_written [] (fun read => (forwardingUDPWith read forwardingEnv []
      ⟨[], [], []⟩ ⟨input, [], []⟩).observed.2.1) ?_ ?_
      (congrArg (fun observed => observed.2.1) hobserved)
    · intro read n after hn hread
      simp only [forwardingUDPWith_eq, onProxyConn, hread]
      unfold passForwardingResp
      rw [Pieces.raw_ofRaw, byteAt_take (Nat.lt_trans (by decide) hn), if_pos hreply]
      rfl
    · intro read err after hread
      simp only [forwardingUDPWith_eq, onProxyConn, hread]
      rfl

theorem fits_of_copyAlike (h : CopyAlike input) : FitsLength input := by
  by_contra hfits
  obtain ⟨-, hwhole, -, hlt⟩ := whole_of_not_fits hfits
  have hobserved := h ⟨[], [], []⟩ ⟨input, [], []⟩ rfl
  have hhand : Cuts wrappedSize ⟨input, [], []⟩ (readConnResp ⟨input, [], []⟩) :=
    readByHand_cuts _ _
  simp only [bidiCopySocks5, copyFromProxyWith, onProxyConn, hhand.takes hwhole] at hobserved
  by_cases hexact : Whole exactSize input
  · rw [(readByCodec_cuts ⟨input, [], []⟩).takes hexact] at hobserved
    have hlength : (input.drop _).length = (input.drop _).length :=
      congrArg (fun observed => observed.2.1.length) hobserved
    have hall := hexact.2
    simp only [List.length_drop] at hlength
    omega
  · obtain ⟨err, after, hcodec, -⟩ := (readByCodec_cuts ⟨input, [], []⟩).fails hexact
    rw [hcodec] at hobserved
    cases congrArg Prod.fst hobserved

/-- Each of the four readers can be replaced by `ReadFromSocks5` on a stream if
and only if the length of a domain name in it fits. -/
theorem readers_alike_iff (input : Bytes) : (RequestAlike input ↔ FitsLength input) ∧
      (ResponseAlike input ↔ FitsLength input) ∧ (ForwardingAlike input ↔ FitsLength input) ∧
      (CopyAlike input ↔ FitsLength input) :=
  ⟨⟨fits_of_requestAlike, requestAlike_of_fits⟩, ⟨fits_of_responseAlike, responseAlike_of_fits⟩,
    ⟨fits_of_forwardingAlike, forwardingAlike_of_fits⟩,
    ⟨fits_of_copyAlike, copyAlike_of_fits⟩⟩

def longReply : Bytes :=
  [5, 0, 0, 3, 254] ++ List.replicate 254 97 ++ [0, 53] ++ [1, 2, 3]

/-- `BidiCopySocks5` takes the name and the port for the first bytes of the
data, and `handleForwardingUDP` panics. -/
theorem readers_not_alike : (copyFromProxyWith readByCodec ⟨[], [], []⟩
        ⟨longReply, [], []⟩).conn.output = [1, 2, 3] ∧
      (bidiCopySocks5 ⟨[], [], []⟩ ⟨longReply, [], []⟩).conn.output =
        List.replicate 254 97 ++ [0, 53] ++ [1, 2, 3] ∧
      (handleForwardingUDP forwardingEnv [] ⟨[], [], []⟩
        ⟨longReply, [], []⟩).result = .panic "index out of range" := by
  decide +kernel

end Mieru.Socks5
