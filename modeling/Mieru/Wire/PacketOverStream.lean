import Mieru.Foundation.ChunkedInput

/-!
# Packets over a stream

`PacketOverStreamTunnel` keeps the boundaries of packets inside a stream: every
packet is wrapped in a zero byte, its length, its content and a byte `0xff`.
The content may hold these bytes too; only the length delimits it.
-/

namespace Mieru.Common

open Mieru.Foundation

variable {conn : List Bytes} {back p : Bytes} {capacity : Nat}

inductive TunnelError where
  | eof
  | unexpectedEOF
  | badPrefix (delim : UInt8)
  | shortBuffer
  | badSuffix (delim : UInt8)
  deriving DecidableEq, Repr

structure PacketTooLong where
  length : Nat
  deriving DecidableEq, Repr

/-- `io.ReadFull`: an input that ends first is consumed, and what is reported
tells whether anything was read. -/
def ioReadFull (n : Nat) (conn : List Bytes) : Except TunnelError Bytes × List Bytes :=
  match readFull n conn with
  | some (data, left) => (.ok data, left)
  | none =>
    (.error (if conn.flatten = [] then .eof else .unexpectedEOF), [])

namespace PacketOverStreamTunnel

def maxPacketLength : Nat := 65535

def frame (p : Bytes) : Bytes :=
  0x00 :: (putUint16 (UInt16.ofNat p.length) ++ (p ++ [0xff]))

def write (p : Bytes) : Except PacketTooLong Bytes :=
  if p.length > maxPacketLength then .error ⟨p.length⟩ else .ok (frame p)

/-- One call with a buffer of `capacity` bytes: what it leaves at the front of
the buffer, or its error, and what is left on the connection. -/
def read (capacity : Nat) (conn : List Bytes) : Except TunnelError Bytes × List Bytes :=
  match ioReadFull 1 conn with
  | (.error err, conn) => (.error err, conn)
  | (.ok delim, conn) =>
    if byteAt delim 0 ≠ 0x00 then (.error (.badPrefix (byteAt delim 0)), conn)
    else
      match ioReadFull 2 conn with
      | (.error err, conn) => (.error err, conn)
      | (.ok lengthBytes, conn) =>
        let length := (uint16At lengthBytes 0).toNat
        if length > capacity then (.error .shortBuffer, conn)
        else
          match ioReadFull length conn with
          | (.error err, conn) => (.error err, conn)
          | (.ok p, conn) =>
            match ioReadFull 1 conn with
            | (.error err, conn) => (.error err, conn)
            | (.ok delim, conn) =>
              if byteAt delim 0 ≠ 0xff then
                (.error (.badSuffix (byteAt delim 0)), conn)
              else (.ok p, conn)

def writeAll : List Bytes → Except PacketTooLong Bytes
  | [] => .ok []
  | p :: packets =>
    match write p with
    | .error err => .error err
    | .ok data =>
      match writeAll packets with
      | .error err => .error err
      | .ok rest => .ok (data ++ rest)

def readAll : List Nat → List Bytes → List (Except TunnelError Bytes) × List Bytes
  | [], conn => ([], conn)
  | capacity :: capacities, conn =>
    let (result, conn) := read capacity conn
    let (results, conn) := readAll capacities conn
    (result :: results, conn)

theorem ioReadFull_append {front : Bytes} (h : conn.flatten = front ++ back) :
    ∃ left, ioReadFull front.length conn = (.ok front, left) ∧ left.flatten = back := by
  obtain ⟨left, hread, hleft⟩ := readFull_append h
  exact ⟨left, by simp only [ioReadFull, hread], hleft⟩

theorem read_header (hlength : p.length ≤ maxPacketLength)
    (hconn : conn.flatten = frame p ++ back) :
    ∃ conn₁ conn₂ lengthBytes, ioReadFull 1 conn = (.ok [0x00], conn₁) ∧
      ioReadFull 2 conn₁ = (.ok lengthBytes, conn₂) ∧
      (uint16At lengthBytes 0).toNat = p.length ∧ conn₂.flatten = p ++ ([0xff] ++ back) := by
  have hword : (uint16At (putUint16 (UInt16.ofNat p.length)) 0).toNat =
      p.length := by
    have hback := uint16At_append [] [] (UInt16.ofNat p.length)
    rw [List.nil_append, List.append_nil, List.length_nil] at hback
    rw [hback, UInt16.toNat_ofNat']
    apply Nat.mod_eq_of_lt
    unfold maxPacketLength at hlength
    omega
  have hwhole : conn.flatten = [0x00] ++
      (putUint16 (UInt16.ofNat p.length) ++ (p ++ ([0xff] ++ back))) := by
    rw [hconn, frame]
    simp
  obtain ⟨conn₁, hdelim, hconn₁⟩ := ioReadFull_append hwhole
  obtain ⟨conn₂, hlen, hconn₂⟩ := ioReadFull_append hconn₁
  rw [length_putUint16] at hlen
  exact ⟨conn₁, conn₂, _, hdelim, hlen, hword, hconn₂⟩

/-- A frame at the front of the connection is read back whole, wherever the
connection cuts it, and not one byte more is taken. -/
theorem read_frame (hlength : p.length ≤ maxPacketLength) (hfits : p.length ≤ capacity)
    (hconn : conn.flatten = frame p ++ back) :
    ∃ left, read capacity conn = (.ok p, left) ∧ left.flatten = back := by
  obtain ⟨conn₁, conn₂, lengthBytes, hdelim, hlen, hword, hconn₂⟩ := read_header hlength hconn
  obtain ⟨conn₃, hbody, hconn₃⟩ := ioReadFull_append hconn₂
  obtain ⟨left, hend, hleft⟩ := ioReadFull_append hconn₃
  rw [List.length_singleton] at hend
  refine ⟨left, ?_, hleft⟩
  simp only [read, hdelim, hlen, hword, hbody, hend, if_neg (Nat.not_lt.mpr hfits)]
  rfl

theorem read_short (hlength : p.length ≤ maxPacketLength) (hshort : capacity < p.length)
    (hconn : conn.flatten = frame p ++ back) : (read capacity conn).1 = .error .shortBuffer := by
  obtain ⟨conn₁, conn₂, lengthBytes, hdelim, hlen, hword, -⟩ := read_header hlength hconn
  simp only [read, hdelim, hlen, hword, if_pos hshort]
  rfl

theorem read_empty (h : conn.flatten = []) (capacity : Nat) :
    read capacity conn = (.error .eof, []) := by
  have hnone : readFull 1 conn = none := readFull_of_lt conn 1 (by simp [h])
  simp only [read, ioReadFull, hnone, h, if_pos]

theorem writeAll_of_le {packets : List Bytes} (h : ∀ p ∈ packets, p.length ≤ maxPacketLength) :
    writeAll packets = .ok (packets.map frame).flatten := by
  induction packets with
  | nil => rfl
  | cons p packets ih =>
    have hp := h p List.mem_cons_self
    have hrest := ih fun q hq => h q (List.mem_cons_of_mem p hq)
    simp only [writeAll, write, if_neg (Nat.not_lt.mpr hp), hrest]
    rfl

theorem readAll_frames {packets : List Bytes} {capacities : List Nat}
    (h : ∀ p ∈ packets, p.length ≤ maxPacketLength)
    (hfits : List.Forall₂ (fun p capacity => p.length ≤ capacity) packets capacities)
    (hconn : conn.flatten = (packets.map frame).flatten) :
    ∃ left, readAll capacities conn = (packets.map .ok, left) ∧ left.flatten = [] := by
  induction hfits generalizing conn with
  | nil => exact ⟨conn, rfl, hconn⟩
  | @cons p capacity packets capacities hp _ ih =>
    rw [List.map_cons, List.flatten_cons] at hconn
    obtain ⟨conn₁, hread, hconn₁⟩ :=
      read_frame (h p List.mem_cons_self) hp hconn
    obtain ⟨left, hreads, hleft⟩ :=
      ih (fun q hq => h q (List.mem_cons_of_mem p hq)) hconn₁
    exact ⟨left, by simp only [readAll, hread, hreads, List.map_cons], hleft⟩

/-- Packets written through the tunnel come out as they went in, however the
stream cuts their bytes. -/
theorem packets_survive_stream (packets : List Bytes)
    (h : ∀ p ∈ packets, p.length ≤ maxPacketLength) :
    ∃ data, writeAll packets = .ok data ∧
      ∀ (conn : List Bytes) (capacities : List Nat), conn.flatten = data →
        List.Forall₂ (fun p capacity => p.length ≤ capacity) packets capacities →
        ∃ left, readAll capacities conn = (packets.map .ok, left) ∧ left.flatten = [] :=
  ⟨_, writeAll_of_le h, fun _ _ hconn hfits => readAll_frames h hfits hconn⟩

/-- Two packets, one of them empty and one made of delimiters, cut inside the
length field. -/
theorem packets_survive_stream_delimiters : ∃ data, writeAll [[], [0x00, 0xff]] = .ok data ∧
      ∃ left, readAll [0, 4] [data.take 5, data.drop 5] =
          ([.ok [], .ok [0x00, 0xff]], left) ∧ left.flatten = [] := by
  obtain ⟨data, hwrite, hread⟩ :=
    packets_survive_stream [[], [0x00, 0xff]] (by decide)
  exact ⟨data, hwrite, hread [data.take 5, data.drop 5] [0, 4] (by simp)
    (.cons (by decide) (.cons (by decide) .nil))⟩

/-- One packet for each read: the packet, or an error if the buffer is too
small for it. -/
def readsOf : List Bytes → List Nat → List (Except TunnelError Bytes)
  | _, [] => []
  | [], _ :: capacities => .error .eof :: readsOf [] capacities
  | p :: packets, capacity :: capacities =>
    (if capacity < p.length then .error .shortBuffer else .ok p) :: readsOf packets capacities

/-- Nothing is read after a buffer that was too small. -/
def OnlyLastShort : List Bytes → List Nat → Prop
  | p :: packets, capacity :: next :: capacities =>
    p.length ≤ capacity ∧ OnlyLastShort packets (next :: capacities)
  | _, _ => True

theorem readAll_empty (capacities : List Nat) (h : conn.flatten = []) :
    (readAll capacities conn).1 = readsOf [] capacities := by
  induction capacities generalizing conn with
  | nil => rfl
  | cons capacity capacities ih =>
    simp only [readAll, read_empty h, readsOf]
    rw [ih rfl]

/-- Up to the first buffer that is too small, each read returns its packet, and
the read with that buffer returns `io.ErrShortBuffer`. -/
theorem reads_of_onlyLastShort (packets : List Bytes) (capacities : List Nat)
    (hlength : ∀ p ∈ packets, p.length ≤ maxPacketLength)
    (hshort : OnlyLastShort packets capacities) (conn : List Bytes)
    (hconn : writeAll packets = .ok conn.flatten) :
    (readAll capacities conn).1 = readsOf packets capacities := by
  rw [writeAll_of_le hlength] at hconn
  replace hconn : conn.flatten = (packets.map frame).flatten := (Except.ok.inj hconn).symm
  induction packets generalizing capacities conn with
  | nil => exact readAll_empty capacities hconn
  | cons p packets ih =>
    obtain ⟨hp, hpackets⟩ := List.forall_mem_cons.mp hlength
    rw [List.map_cons, List.flatten_cons] at hconn
    cases capacities with
    | nil => rfl
    | cons capacity capacities =>
      by_cases hfits : p.length ≤ capacity
      · obtain ⟨left, hread, hleft⟩ := read_frame hp hfits hconn
        have hrest : OnlyLastShort packets capacities := by
          cases capacities with
          | nil => cases packets <;> trivial
          | cons next capacities => exact hshort.2
        simp only [readAll, hread, readsOf, if_neg (Nat.not_lt.mpr hfits)]
        rw [ih capacities hpackets hrest left hleft]
      · cases capacities with
        | nil =>
          have hread := read_short hp (Nat.not_le.mp hfits) hconn
          simp only [readAll, hread, readsOf, if_pos (Nat.not_le.mp hfits)]
        | cons next capacities => exact absurd hshort.1 hfits

theorem reads_of_onlyLastShort_two : (readAll [2, 0] [[0, 0, 2, 1], [2, 255, 0, 0, 1, 3, 255]]).1 =
      [.ok [1, 2], .error .shortBuffer] :=
  reads_of_onlyLastShort [[1, 2], [3]] [2, 0] (by decide) ⟨by decide, trivial⟩ _ (by decide)

/-- After a buffer that was too small the packet itself is taken for a frame. -/
theorem read_after_short : writeAll [[1, 2], [3]] = .ok [0, 0, 2, 1, 2, 255, 0, 0, 1, 3, 255] ∧
    readsOf [[1, 2], [3]] [1, 1] = [.error .shortBuffer, .ok [3]] ∧
    (readAll [1, 1] [[0, 0, 2, 1, 2, 255, 0, 0, 1, 3, 255]]).1 =
      [.error .shortBuffer, .error (.badPrefix 1)] := by
  decide

end PacketOverStreamTunnel

end Mieru.Common
