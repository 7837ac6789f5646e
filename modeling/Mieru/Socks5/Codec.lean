import Mieru.Foundation.ByteReader
import Mieru.Socks5.Address

/-!
# Reading what was written

`ReadFromSocks5` as a method: it overwrites the fields of its receiver that
the message has, and a request or response is read through a tee.  What
`WriteToSocks5` has written is read back, unless the length of a name does not
fit its byte.
-/

namespace Mieru.Socks5

open Mieru.Foundation

variable {addr : AddrSpec} {rest encoded bytes : Bytes}

variable {σ : Type}

/-! ## Methods -/

def Message.writeTo (code : UInt8) (addr : AddrSpec) : Option Bytes :=
  addr.writeToSocks5.map fun bytes => [5, code, 0] ++ bytes

structure Response where
  reply : UInt8
  bindAddr : AddrSpec
  raw : Bytes
  deriving DecidableEq, Repr

def Message.toResponse (m : Message) : Response := ⟨m.code, m.addr, m.raw⟩

def Response.readFrom (R : ByteReader σ ReadError) (r : Response) (state : σ) :
    Except ReadError (Response × σ) :=
  (Message.readFrom R r.bindAddr state).map fun (m, state) =>
    (m.toResponse, state)

def Request.writeToSocks5 (r : Request) : Option (Request × Bytes) :=
  (Message.writeTo r.command r.dstAddr).map fun raw =>
    ({ r with raw := raw }, raw)

def Response.writeToSocks5 (r : Response) : Option (Response × Bytes) :=
  (Message.writeTo r.reply r.bindAddr).map fun raw =>
    ({ r with raw := raw }, raw)

/-! ## Readers of a connection -/

def chunkReader : ByteReader (List Bytes) ReadError where
  readFull n chunks :=
    match Foundation.readFull n chunks with
    | some result => .ok result
    | none => .error (if chunks.flatten = [] then .eof else .unexpectedEOF)
  content := List.flatten
  length_eq := by
    intro n chunks data left h
    split at h
    · rename_i hread
      cases h
      exact length_of_readFull hread
    · cases h
  content_eq := by
    intro n chunks data left h
    split at h
    · rename_i hread
      cases h
      by_cases hn : n ≤ chunks.flatten.length
      · obtain ⟨left', hread', hleft⟩ := readFull_of_le chunks n hn
        rw [hread'] at hread
        cases hread
        rw [hleft, List.take_append_drop]
      · rw [readFull_of_lt chunks n (by omega)] at hread
        cases hread
    · cases h
  readFull_ok := by
    intro n chunks h
    obtain ⟨left, hread, -⟩ := readFull_of_le chunks n h
    exact ⟨_, left, by rw [hread]⟩

section

variable (R : ByteReader σ ReadError) {state after : σ}

/-! ## Reading an encoded address -/

theorem AddrSpec.readPortFrom_eq {high low : UInt8}
    (h : R.content state = high :: low :: rest) (a : AddrSpec) :
    ∃ after, AddrSpec.readPortFrom R a state = .ok ({ a with port := portOf high low }, after) ∧
      R.content after = rest := by
  have hsplit : R.content state = [high, low] ++ rest := h
  obtain ⟨after, hread, hrest⟩ := R.readFull_append hsplit
  have hread : R.readFull 2 state = .ok ([high, low], after) := hread
  refine ⟨after, ?_, hrest⟩
  simp only [readPortFrom, hread]
  rfl

theorem AddrSpec.readIP_eq {ip : Bytes} {high low : UInt8}
    (h : R.content state = ip ++ high :: low :: rest) (a : AddrSpec) :
    ∃ after, (do
        let (addr, state) ← R.readFull ip.length state
        AddrSpec.readPortFrom R { a with ip := addr } state) =
        Except.ok ({ a with ip := ip, port := portOf high low }, after) ∧
      R.content after = rest := by
  obtain ⟨middle, hread, hmiddle⟩ := R.readFull_append h
  obtain ⟨after, hport, hafter⟩ :=
    AddrSpec.readPortFrom_eq R hmiddle { a with ip := ip }
  refine ⟨after, ?_, hafter⟩
  rw [hread]
  exact hport

theorem Encodes.readFrom (h : Encodes addr encoded) (hcontent : R.content state = encoded ++ rest)
    (a : AddrSpec) :
    ∃ after, a.readFrom R state = .ok (a.fill addr, after) ∧ R.content after = rest := by
  have hfirst : ∀ {kind : UInt8} {tail : Bytes}, encoded = kind :: tail →
      ∃ middle, R.readFull 1 state = .ok ([kind], middle) ∧ R.content middle = tail ++ rest := by
    intro kind tail heq
    have hsplit : R.content state = [kind] ++ (tail ++ rest) := by
      rw [hcontent, heq]
      rfl
    exact R.readFull_append hsplit
  cases h with
  | ipv4 ip high low hlength =>
    obtain ⟨middle, htype, hmiddle⟩ := hfirst rfl
    rw [List.append_assoc] at hmiddle
    obtain ⟨after, hip, hafter⟩ := AddrSpec.readIP_eq R hmiddle a
    refine ⟨after, ?_, hafter⟩
    have hne : ip ≠ [] := by
      rintro rfl
      cases hlength
    rw [hlength] at hip
    simp only [AddrSpec.readFrom, htype, AddrSpec.fill, if_neg hne]
    exact hip
  | ipv6 ip high low hlength =>
    obtain ⟨middle, htype, hmiddle⟩ := hfirst rfl
    rw [List.append_assoc] at hmiddle
    obtain ⟨after, hip, hafter⟩ := AddrSpec.readIP_eq R hmiddle a
    refine ⟨after, ?_, hafter⟩
    have hne : ip ≠ [] := by
      rintro rfl
      cases hlength
    rw [hlength] at hip
    simp only [AddrSpec.readFrom, htype, AddrSpec.fill, if_neg hne]
    exact hip
  | fqdn size name high low hlength =>
    obtain ⟨middle, htype, hmiddle⟩ := hfirst rfl
    have hsplit : R.content middle = [size] ++ (name ++ high :: low :: rest) := by
      rw [hmiddle]
      simp
    obtain ⟨afterSize, hsize, hafterSize⟩ := R.readFull_append hsplit
    have hsize : R.readFull 1 middle = .ok ([size], afterSize) := hsize
    obtain ⟨afterName, hname, hafterName⟩ := R.readFull_append hafterSize
    rw [hlength] at hname
    obtain ⟨after, hport, hafter⟩ :=
      AddrSpec.readPortFrom_eq R hafterName { a with fqdn := name }
    refine ⟨after, ?_, hafter⟩
    have hbind : (do
        let (addrLen, state) ← R.readFull 1 middle
        let (host, state) ← R.readFull (byteAt addrLen 0).toNat state
        AddrSpec.readPortFrom R { a with fqdn := host } state) =
        Except.ok ({ a with fqdn := name, port := portOf high low }, after) := by
      rw [hsize]
      change (R.readFull size.toNat afterSize >>= _) = _
      rw [hname]
      exact hport
    simp only [AddrSpec.readFrom, htype, AddrSpec.fill]
    exact hbind

theorem Encodes.readFromSocks5 (h : Encodes addr encoded) (rest : Bytes) :
    AddrSpec.readFromSocks5 (encoded ++ rest) = .ok (addr, rest) := by
  obtain ⟨after, hread, hafter⟩ := Encodes.readFrom bytesReader h rfl {}
  rw [h.fill_empty] at hread
  obtain rfl : after = rest := hafter
  exact hread

theorem Encodes.readMessage {code reserved : UInt8} (h : Encodes addr encoded)
    (hcontent : R.content state = [5, code, reserved] ++ encoded ++ rest) (a : AddrSpec) :
    ∃ after, Message.readFrom R a state =
        .ok (⟨code, a.fill addr, [5, code, reserved] ++ encoded⟩, after) ∧
      R.content after = rest := by
  have hsplit : R.tee.content (state, []) = [5, code, reserved] ++ (encoded ++ rest) := by
    change R.content state = _
    rw [hcontent, List.append_assoc]
  obtain ⟨middle, hheader, hmiddle⟩ := R.tee.readFull_append hsplit
  have hheader : R.tee.readFull 3 (state, []) = .ok ([5, code, reserved], middle) := hheader
  obtain ⟨after, haddr, hafter⟩ := Encodes.readFrom R.tee h hmiddle a
  have hread : Message.readFrom R a state = .ok (⟨code, a.fill addr, after.2⟩, after.1) := by
    simp only [Message.readFrom, hheader]
    change (a.readFrom R.tee middle >>= _) = _
    rw [haddr]
    rfl
  -- The copy is what was consumed, and that is known from the content.
  obtain ⟨_, _, _, -, -, -, hraw⟩ := Message.readFrom_eq_ok hread
  have hafter : R.content after.1 = rest := hafter
  rw [hcontent, hafter] at hraw
  have hcopy : [5, code, reserved] ++ encoded = after.2 :=
    List.append_cancel_right hraw
  refine ⟨after.1, ?_, hafter⟩
  rw [hread, hcopy]

end

/-! ## What is written -/

namespace AddrSpec

def normalized (addr : AddrSpec) : AddrSpec :=
  { addr with ip := addr.ip.to4.getD addr.ip }

/--
The address is read back into a receiver: the field that is not read is that
of the address, which is empty for an address of one kind and a new receiver,
and the length of a name fits its byte.
-/
def Fits (addr receiver : AddrSpec) : Prop :=
  if addr.ip.to16.isSome then receiver.fqdn = addr.fqdn
  else receiver.ip = addr.ip ∧ addr.fqdn.length < 256

instance (addr receiver : AddrSpec) : Decidable (addr.Fits receiver) := by
  unfold Fits
  infer_instance

theorem encodes_of_ip (hport : addr.port < 65536) (h : addr.writeToSocks5 = some bytes)
    (hip : addr.ip.to16.isSome = true) :
    addr.normalized.ip ≠ [] ∧ Encodes { ip := addr.normalized.ip, port := addr.port } bytes := by
  have hencodes := portOf_portBytes hport
  unfold writeToSocks5 at h
  split at h
  · rename_i ip4 hip4
    cases h
    have hlength := IP.to4_spec hip4
    have hv4 := Encodes.ipv4 ip4 (UInt8.ofNat (addr.port / 256)) (UInt8.ofNat addr.port) hlength
    rw [hencodes] at hv4
    have hnormal : addr.normalized.ip = ip4 := by simp [normalized, hip4]
    rw [hnormal]
    exact ⟨List.ne_nil_of_length_eq_add_one hlength, hv4⟩
  · rename_i ip16 hip4 hip16
    cases h
    have hsame : ip16 = addr.ip ∧ ip16.length = 16 := by
      unfold IP.to16 at hip16
      split at hip16
      · rename_i h4
        simp [IP.to4, h4] at hip4
      · split at hip16
        · cases hip16
          exact ⟨rfl, by assumption⟩
        · cases hip16
    obtain ⟨rfl, hlength⟩ := hsame
    have hv6 := Encodes.ipv6 addr.ip (UInt8.ofNat (addr.port / 256)) (UInt8.ofNat addr.port) hlength
    rw [hencodes] at hv6
    have hnormal : addr.normalized.ip = addr.ip := by simp [normalized, hip4]
    rw [hnormal]
    exact ⟨List.ne_nil_of_length_eq_add_one hlength, hv6⟩
  · rename_i hip16
    rw [hip16] at hip
    cases hip

theorem write_fqdn (h : addr.writeToSocks5 = some bytes) (hip : addr.ip.to16.isSome = false) :
    addr.normalized = addr ∧ addr.fqdn ≠ [] ∧
      bytes = socks5FQDNAddress :: UInt8.ofNat addr.fqdn.length ::
        (addr.fqdn ++ portBytes addr.port) := by
  have hip4 : addr.ip.to4 = none := by
    unfold IP.to16 at hip
    split at hip
    · cases hip
    · split at hip
      · cases hip
      · rename_i h4 h16
        simp [IP.to4, h4, h16]
  have hip16 : addr.ip.to16 = none := by simpa using hip
  simp only [writeToSocks5, hip4, hip16] at h
  split at h
  · cases h
    exact ⟨by simp [normalized, hip4], by assumption, rfl⟩
  · cases h

/--
The encoded name at the front of a written one, and what follows it.  The
front is all of it exactly if the length fits its byte.
-/
theorem encodes_of_fqdn (hport : addr.port < 65536) (h : addr.writeToSocks5 = some bytes)
    (hip : addr.ip.to16.isSome = false) :
    ∃ front encoded rest, Encodes front encoded ∧ bytes = encoded ++ rest ∧ front.ip = [] ∧
      (if addr.fqdn.length < 256 then
        rest = [] ∧ front = { fqdn := addr.fqdn, port := addr.port }
      else rest ≠ []) := by
  obtain ⟨-, -, rfl⟩ := write_fqdn h hip
  by_cases hfits : addr.fqdn.length < 256
  · have hsize : addr.fqdn.length = (UInt8.ofNat addr.fqdn.length).toNat := by
      rw [UInt8.toNat_ofNat']
      omega
    have hname := Encodes.fqdn (UInt8.ofNat addr.fqdn.length) addr.fqdn
      (UInt8.ofNat (addr.port / 256)) (UInt8.ofNat addr.port) hsize
    rw [portOf_portBytes hport] at hname
    refine ⟨_, _, [], hname, ?_, rfl, ?_⟩
    · rw [List.append_nil]
      rfl
    · rw [if_pos hfits]
      exact ⟨rfl, rfl⟩
  · -- The length byte says less than there is, so the name is cut.
    have hsize : (UInt8.ofNat addr.fqdn.length).toNat = addr.fqdn.length % 256 := by
      rw [UInt8.toNat_ofNat']
    obtain ⟨high, low, rest, hrest⟩ : ∃ high low rest,
        addr.fqdn.drop (addr.fqdn.length % 256) = high :: low :: rest := by
      have hlength := List.length_drop (i := addr.fqdn.length % 256) (l := addr.fqdn)
      match hdrop : addr.fqdn.drop (addr.fqdn.length % 256) with
      | [] =>
        rw [hdrop, List.length_nil] at hlength
        omega
      | [byte] =>
        rw [hdrop, List.length_singleton] at hlength
        omega
      | high :: low :: rest => exact ⟨high, low, rest, rfl⟩
    have hname := Encodes.fqdn (UInt8.ofNat addr.fqdn.length)
      (addr.fqdn.take (addr.fqdn.length % 256)) high low (by
        rw [hsize, List.length_take]
        omega)
    refine ⟨_, _, rest ++ portBytes addr.port, hname, ?_, rfl, ?_⟩
    · have hsplit := List.take_append_drop (addr.fqdn.length % 256) addr.fqdn
      rw [hrest] at hsplit
      nth_rewrite 2 [← hsplit]
      simp
    · rw [if_neg hfits]
      simp [portBytes]

theorem exists_encodes (hport : addr.port < 65536) (h : addr.writeToSocks5 = some bytes)
    (receiver : AddrSpec) :
    ∃ front encoded rest, Encodes front encoded ∧ bytes = encoded ++ rest ∧
      (rest = [] ∧ receiver.fill front = addr.normalized ↔ addr.Fits receiver) := by
  cases hip : addr.ip.to16.isSome with
  | true =>
    obtain ⟨hne, hencodes⟩ := encodes_of_ip hport h hip
    refine ⟨_, bytes, [], hencodes, by rw [List.append_nil], ?_⟩
    rw [fill, if_neg hne, Fits, if_pos hip]
    simp [normalized]
  | false =>
    obtain ⟨front, encoded, rest, hencodes, hbytes, hnone, hrest⟩ :=
      encodes_of_fqdn hport h hip
    refine ⟨front, encoded, rest, hencodes, hbytes, ?_⟩
    obtain ⟨hsame, -, -⟩ := write_fqdn h hip
    rw [hsame]
    simp only [Fits, hip, Bool.false_eq_true, if_false]
    split at hrest
    · rename_i hfits
      obtain ⟨rfl, rfl⟩ := hrest
      cases addr
      simp [fill, hfits]
    · rename_i hfits
      simp [hrest, hfits]

/-- What was written is read back from any stream that starts with it. -/
def RoundTrips (addr receiver : AddrSpec) (bytes : Bytes) : Prop :=
  ∀ chunks rest, chunks.flatten = bytes ++ rest →
    ∃ left, receiver.readFrom chunkReader chunks = .ok (addr.normalized, left) ∧ left.flatten = rest

theorem roundTrips_iff (hport : addr.port < 65536) (h : addr.writeToSocks5 = some bytes)
    (receiver : AddrSpec) : addr.RoundTrips receiver bytes ↔ addr.Fits receiver := by
  obtain ⟨front, encoded, tail, hencodes, rfl, hfits⟩ :=
    exists_encodes hport h receiver
  rw [← hfits]
  constructor
  · intro hround
    obtain ⟨left, hread, hleft⟩ := hround [encoded ++ tail] [] (by simp)
    have hcontent : chunkReader.content [encoded ++ tail] = encoded ++ tail := by
      simp [chunkReader]
    obtain ⟨after, hread', hafter⟩ :=
      hencodes.readFrom chunkReader hcontent receiver
    rw [hread] at hread'
    obtain ⟨haddr, hsame⟩ := Prod.mk.inj (Except.ok.inj hread')
    exact ⟨hafter.symm.trans (hsame ▸ hleft), haddr.symm⟩
  · rintro ⟨rfl, hfill⟩ chunks rest hchunks
    rw [List.append_nil] at hchunks
    obtain ⟨left, hread, hleft⟩ :=
      hencodes.readFrom chunkReader hchunks receiver
    exact ⟨left, by rw [hread, hfill], hleft⟩

end AddrSpec

def Message.RoundTrips (code : UInt8) (addr receiver : AddrSpec) (bytes : Bytes) : Prop :=
  ∀ chunks rest, chunks.flatten = bytes ++ rest →
    ∃ left, Message.readFrom chunkReader receiver chunks =
        .ok (⟨code, addr.normalized, bytes⟩, left) ∧
      left.flatten = rest

theorem Message.roundTrips_iff {code : UInt8} (hport : addr.port < 65536)
    (h : Message.writeTo code addr = some bytes) (receiver : AddrSpec) :
    Message.RoundTrips code addr receiver bytes ↔ addr.Fits receiver := by
  obtain ⟨body, hbody, rfl⟩ := Option.map_eq_some_iff.mp h
  obtain ⟨front, encoded, tail, hencodes, rfl, hfits⟩ :=
    AddrSpec.exists_encodes hport hbody receiver
  rw [← hfits]
  constructor
  · intro hround
    obtain ⟨left, hread, hleft⟩ :=
      hround [[5, code, 0] ++ (encoded ++ tail)] [] (by simp)
    have hcontent : chunkReader.content [[5, code, 0] ++ (encoded ++ tail)] =
        [5, code, 0] ++ encoded ++ tail := by
      simp [chunkReader]
    obtain ⟨after, hread', hafter⟩ :=
      hencodes.readMessage chunkReader hcontent receiver
    rw [hread] at hread'
    obtain ⟨hmessage, hsame⟩ := Prod.mk.inj (Except.ok.inj hread')
    have haddr := congrArg Message.addr hmessage
    exact ⟨hafter.symm.trans (hsame ▸ hleft), haddr.symm⟩
  · rintro ⟨rfl, hfill⟩ chunks rest hchunks
    rw [List.append_nil] at hchunks ⊢
    obtain ⟨left, hread, hleft⟩ :=
      hencodes.readMessage chunkReader hchunks receiver
    exact ⟨left, by rw [hread, hfill], hleft⟩

/-! ## Requests and responses -/

section

variable {R : ByteReader σ ReadError} {state after : σ}

theorem Request.readFrom_eq_ok {r req : Request} : r.readFrom R state = .ok (req, after) ↔
    Message.readFrom R r.dstAddr state = .ok (⟨req.command, req.dstAddr, req.raw⟩, after) := by
  constructor
  · intro h
    obtain ⟨⟨m, left⟩, hread, heq⟩ := except_ok_map.mp h
    cases heq
    exact hread
  · exact fun h => except_ok_map.mpr ⟨_, h, rfl⟩

theorem Response.readFrom_eq_ok {r resp : Response} : r.readFrom R state = .ok (resp, after) ↔
    Message.readFrom R r.bindAddr state = .ok (⟨resp.reply, resp.bindAddr, resp.raw⟩, after) := by
  constructor
  · intro h
    obtain ⟨⟨m, left⟩, hread, heq⟩ := except_ok_map.mp h
    cases heq
    exact hread
  · exact fun h => except_ok_map.mpr ⟨_, h, rfl⟩

end

def Request.RoundTrips (req receiver : Request) (bytes : Bytes) : Prop :=
  ∀ chunks rest, chunks.flatten = bytes ++ rest → ∃ left, receiver.readFrom chunkReader chunks =
        .ok (⟨req.command, req.dstAddr.normalized, bytes⟩, left) ∧
      left.flatten = rest

def Response.RoundTrips (resp receiver : Response) (bytes : Bytes) : Prop :=
  ∀ chunks rest, chunks.flatten = bytes ++ rest → ∃ left, receiver.readFrom chunkReader chunks =
        .ok (⟨resp.reply, resp.bindAddr.normalized, bytes⟩, left) ∧
      left.flatten = rest

theorem Request.roundTrips_iff {req written : Request} (hport : req.dstAddr.port < 65536)
    (h : req.writeToSocks5 = some (written, bytes)) (receiver : Request) :
    req.RoundTrips receiver bytes ↔ req.dstAddr.Fits receiver.dstAddr := by
  obtain ⟨raw, hraw, hpair⟩ := Option.map_eq_some_iff.mp h
  cases hpair
  rw [← Message.roundTrips_iff hport hraw receiver.dstAddr]
  simp only [Request.RoundTrips, Message.RoundTrips, Request.readFrom_eq_ok]

theorem Response.roundTrips_iff {resp written : Response} (hport : resp.bindAddr.port < 65536)
    (h : resp.writeToSocks5 = some (written, bytes)) (receiver : Response) :
    resp.RoundTrips receiver bytes ↔ resp.bindAddr.Fits receiver.bindAddr := by
  obtain ⟨raw, hraw, hpair⟩ := Option.map_eq_some_iff.mp h
  cases hpair
  rw [← Message.roundTrips_iff hport hraw receiver.bindAddr]
  simp only [Response.RoundTrips, Message.RoundTrips, Response.readFrom_eq_ok]

/--
An address, and a request and a response with that address, are read back from
any stream that starts with what was written exactly if the address fits its
encoding and the receiver.  The raw bytes of an accepted message are those
that were consumed.
-/
theorem codec_round_trip (addr receiver : AddrSpec) (hport : addr.port < 65536) :
    (∀ bytes, addr.writeToSocks5 = some bytes →
      (addr.RoundTrips receiver bytes ↔ addr.Fits receiver)) ∧
    (∀ (req into written : Request) bytes, req.dstAddr = addr → into.dstAddr = receiver →
      req.writeToSocks5 = some (written, bytes) →
      (req.RoundTrips into bytes ↔ addr.Fits receiver)) ∧
    (∀ (resp into written : Response) bytes, resp.bindAddr = addr → into.bindAddr = receiver →
      resp.writeToSocks5 = some (written, bytes) →
      (resp.RoundTrips into bytes ↔ addr.Fits receiver)) ∧
    (∀ (into req : Request) chunks left, into.readFrom chunkReader chunks = .ok (req, left) →
      chunks.flatten = req.raw ++ left.flatten) ∧
    ∀ (into resp : Response) chunks left, into.readFrom chunkReader chunks = .ok (resp, left) →
      chunks.flatten = resp.raw ++ left.flatten := by
  refine ⟨?_, ?_, ?_, ?_, ?_⟩
  · intro bytes hwrite
    exact AddrSpec.roundTrips_iff hport hwrite receiver
  · rintro req into written bytes rfl rfl hwrite
    exact Request.roundTrips_iff hport hwrite into
  · rintro resp into written bytes rfl rfl hwrite
    exact Response.roundTrips_iff hport hwrite into
  · intro into req chunks left hread
    obtain ⟨_, _, _, -, -, -, hcontent⟩ :=
      Message.readFrom_eq_ok (Request.readFrom_eq_ok.mp hread)
    exact hcontent
  · intro into resp chunks left hread
    obtain ⟨_, _, _, -, -, -, hcontent⟩ :=
      Message.readFrom_eq_ok (Response.readFrom_eq_ok.mp hread)
    exact hcontent

/-- A name, with a receiver that is new. -/
theorem codec_round_trip_name :
    ∃ bytes, AddrSpec.writeToSocks5 { fqdn := [97, 46, 98], port := 80 } = some bytes ∧
      AddrSpec.RoundTrips { fqdn := [97, 46, 98], port := 80 } {} bytes := by
  refine ⟨_, rfl, ?_⟩
  have hname := (codec_round_trip { fqdn := [97, 46, 98], port := 80 } {} (by decide)).1
  exact (hname _ rfl).mpr (by decide)

def longName : AddrSpec where
  fqdn := List.replicate 256 97
  port := 80

/--
The length byte of a name of 256 bytes is zero.  Of what is written without
an error, four bytes are read, as an address without a name.
-/
theorem codec_cuts_name : ∃ bytes, longName.writeToSocks5 = some bytes ∧ bytes.length = 260 ∧
      AddrSpec.readFrom chunkReader {} [bytes] = .ok ({ port := 24929 }, [bytes.drop 4]) := by
  refine ⟨_, rfl, ?_, ?_⟩
  · decide +kernel
  · decide +kernel

end Mieru.Socks5
