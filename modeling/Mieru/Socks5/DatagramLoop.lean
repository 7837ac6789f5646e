import Mieru.Socks5.Datagram

/-!
# The relay of client datagrams

`runUDPAssociateDatagramLoop`: one socket serves the client and its
destinations.  The first sender of a well-formed datagram is the client from
then on; everybody else is heard only as a destination of the client.
-/

namespace Mieru.Socks5

open Mieru.Foundation

/-- A datagram that `ReadFromUDP` returns, the resolver at that time, and
whether the write it leads to succeeds. -/
structure Arrival where
  source : UdpAddr
  data : Bytes
  net : Resolver
  ok : Bool
  /-- `ReadFromUDP` returns addresses of 4 or 16 bytes. -/
  length_ip : source.ip.length = 4 ∨ source.ip.length = 16
  port_lt : source.port < 65536

structure DatagramWrite where
  arrival : Arrival
  dst : UdpAddr
  data : Bytes

def sameUDPAddr (a b : UdpAddr) : Bool :=
  a.port == b.port && a.zone == b.zone && a.ip.equal b.ip

structure DatagramLoop where
  clientAddr : Option UdpAddr := none
  targetAddrs : List UdpText := []
  writes : List DatagramWrite := []

namespace DatagramLoop

def receive (r : DatagramLoop) (arrival : Arrival) : DatagramLoop :=
  if r.clientAddr.all (sameUDPAddr arrival.source) then
    match parseUDPAssociateDatagram arrival.net arrival.data with
    | .error _ => r
    | .ok (dstAddr, payload) =>
      { clientAddr := some (r.clientAddr.getD arrival.source)
        writes := ⟨arrival, dstAddr, payload⟩ :: r.writes
        targetAddrs := if arrival.ok then dstAddr.string :: r.targetAddrs else r.targetAddrs }
  else if arrival.source.string ∈ r.targetAddrs then
    { r with writes := ⟨arrival, r.clientAddr.getD arrival.source,
        udpAddrToHeader arrival.source ++ arrival.data⟩ :: r.writes }
  else r

def run (arrivals : List Arrival) : DatagramLoop :=
  arrivals.foldl receive {}

end DatagramLoop

/-- The write sends the payload of a datagram of the client to the destination
named in its header. -/
def DatagramWrite.Outward (client : UdpAddr) (w : DatagramWrite) : Prop :=
  sameUDPAddr w.arrival.source client = true ∧ ∃ spec encoded, Encodes spec encoded ∧
    w.arrival.data = 0 :: 0 :: 0 :: (encoded ++ w.data) ∧
    (spec.ip ≠ [] → w.dst = ⟨spec.ip, spec.port, []⟩) ∧
    (spec.ip = [] → w.dst = ⟨w.dst.ip, spec.port, []⟩ ∧
      resolveUDPAddr w.arrival.net (joinHostPort spec.fqdn (formatNat spec.port)) = some w.dst)

/-- The write passes a datagram on to the client, behind a header that names
its source, to which the client has successfully sent before. -/
def DatagramWrite.Forwarded (client : UdpAddr) (earlier : List DatagramWrite)
    (w : DatagramWrite) : Prop :=
  w.dst = client ∧ sameUDPAddr w.arrival.source client = false ∧
    (∃ sent ∈ earlier, sent.Outward client ∧ sent.arrival.ok = true ∧
      sent.dst.string = w.arrival.source.string) ∧
    ∃ header, w.data = header ++ w.arrival.data ∧ ∀ net payload, ∃ addr,
      parseUDPAssociateDatagram net (header ++ payload) = .ok (addr, payload) ∧
        addr.string = w.arrival.source.string

section

variable {net : Resolver} {spec : AddrSpec} {addr source : UdpAddr} {encoded payload : Bytes}

theorem parseUDPAssociateDatagram_encoded (h : Encodes spec encoded) (payload : Bytes)
    (hresolve : resolveUDPAssociateDatagramAddr net spec = .ok addr) :
    parseUDPAssociateDatagram net (0 :: 0 :: 0 :: (encoded ++ payload)) = .ok (addr, payload) := by
  have hlong : 4 ≤ encoded.length := by
    cases h <;> simp <;> omega
  have hheader : (0 :: 0 :: 0 :: (encoded ++ payload)).length - payload.length =
      3 + encoded.length := by
    simp
    omega
  unfold parseUDPAssociateDatagram
  rw [if_neg (by simp; omega), if_neg (by simp [byteAt]), if_neg (by simp [byteAt])]
  simp only [List.drop_succ_cons, List.drop_zero, h.readFromSocks5, hresolve, hheader]
  simp [Nat.add_comm 3]

theorem joinHostPort_eq (host port : Bytes) :
    ∃ front, joinHostPort host port = front ++ colon :: port := by
  unfold joinHostPort
  split
  · exact ⟨openBracket :: (host ++ [closeBracket]), by simp⟩
  · exact ⟨host, rfl⟩

theorem length_ip_of_encodes (h : Encodes spec encoded) (hip : spec.ip ≠ []) :
    spec.ip.length = 4 ∨ spec.ip.length = 16 := by
  cases h with
  | ipv4 ip high low hlength => exact .inl hlength
  | ipv6 ip high low hlength => exact .inr hlength
  | fqdn size name high low hlength => exact absurd rfl hip

theorem resolveUDPAssociateDatagramAddr_eq_ok (h : Encodes spec encoded)
    (hresolve : resolveUDPAssociateDatagramAddr net spec = .ok addr) :
    (spec.ip ≠ [] → addr = ⟨spec.ip, spec.port, []⟩) ∧
    (spec.ip = [] → addr = ⟨addr.ip, spec.port, []⟩ ∧
      resolveUDPAddr net (joinHostPort spec.fqdn (formatNat spec.port)) = some addr) := by
  constructor
  · intro hip
    rw [resolveUDPAssociateDatagramAddr_ip (length_ip_of_encodes h hip)] at hresolve
    cases hresolve
    rfl
  · intro hip
    obtain ⟨fqdn, ip, port⟩ := spec
    subst hip
    have hname := resolveUDPAssociateDatagramAddr_fqdn hresolve
    obtain ⟨front, hfront⟩ := joinHostPort_eq fqdn (formatNat port)
    exact ⟨resolveUDPAddr_port (hfront ▸ hname), hname⟩

theorem parse_udpAddrToHeader (hlength : source.ip.length = 4 ∨ source.ip.length = 16)
    (hport : source.port < 65536) (hzone : source.zone = []) (net : Resolver) (payload : Bytes) :
    ∃ addr, parseUDPAssociateDatagram net (udpAddrToHeader source ++ payload) =
      .ok (addr, payload) ∧ addr.string = source.string := by
  have hnames : Names [] source.string (udpAddrToHeader source) :=
    names_udpAddrToHeader hlength hport
  generalize udpAddrToHeader source = header at hnames
  cases hnames with
  | address spec encoded hencodes hip hsame hport =>
    have hresolve : resolveUDPAssociateDatagramAddr net spec = .ok ⟨spec.ip, spec.port, []⟩ :=
      resolveUDPAssociateDatagramAddr_ip (length_ip_of_encodes hencodes hip)
    refine ⟨_, parseUDPAssociateDatagram_encoded hencodes payload hresolve, ?_⟩
    simp only [UdpAddr.string] at hsame hport ⊢
    rw [hsame, hport, hzone]
  | name spec encoded addr hencodes hip hused => simp at hused

end

namespace DatagramLoop

variable {r : DatagramLoop} {client : UdpAddr} {arrival : Arrival}

theorem outward_of_parse {dst : UdpAddr} {payload : Bytes}
    (hclient : sameUDPAddr arrival.source client = true)
    (h : parseUDPAssociateDatagram arrival.net arrival.data = .ok (dst, payload)) :
    DatagramWrite.Outward client ⟨arrival, dst, payload⟩ := by
  obtain ⟨spec, encoded, hencodes, hdata, hresolve⟩ := parseUDPAssociateDatagram_eq_ok h
  exact ⟨hclient, spec, encoded, hencodes, hdata,
    resolveUDPAssociateDatagramAddr_eq_ok hencodes hresolve⟩

theorem zone_of_outward {w : DatagramWrite} (h : w.Outward client) : w.dst.zone = [] := by
  obtain ⟨-, spec, encoded, -, -, haddress, hname⟩ := h
  by_cases hip : spec.ip = []
  · rw [(hname hip).1]
  · rw [haddress hip]

/-- Every write has a reason among the datagrams before it. -/
def Justified (client : UdpAddr) : List DatagramWrite → Prop
  | [] => True
  | w :: earlier => (w.Outward client ∨ w.Forwarded client earlier) ∧ Justified client earlier

structure Inv (r : DatagramLoop) : Prop where
  fresh : r.clientAddr = none → r.writes = [] ∧ r.targetAddrs = []
  justified : ∀ client, r.clientAddr = some client → Justified client r.writes
  targets : ∀ client, r.clientAddr = some client → ∀ text ∈ r.targetAddrs,
    ∃ sent ∈ r.writes, sent.Outward client ∧ sent.arrival.ok = true ∧ sent.dst.string = text

theorem sameUDPAddr_self (addr : UdpAddr) : sameUDPAddr addr addr = true := by
  simp [sameUDPAddr, IP.equal]

theorem Inv.sent (h : Inv r) {dst : UdpAddr} {payload : Bytes}
    (hclient : r.clientAddr.all (sameUDPAddr arrival.source) = true)
    (hparse : parseUDPAssociateDatagram arrival.net arrival.data = .ok (dst, payload)) :
    Inv { clientAddr := some (r.clientAddr.getD arrival.source)
          writes := ⟨arrival, dst, payload⟩ :: r.writes
          targetAddrs :=
            if arrival.ok then dst.string :: r.targetAddrs else r.targetAddrs } := by
  have hsame : sameUDPAddr arrival.source (r.clientAddr.getD arrival.source) = true := by
    cases hr : r.clientAddr with
    | none => exact sameUDPAddr_self arrival.source
    | some client => simpa [hr] using hclient
  have hout := outward_of_parse hsame hparse
  refine ⟨by simp, ?_, ?_⟩
  · rintro client ⟨⟩
    refine ⟨.inl hout, ?_⟩
    cases hr : r.clientAddr with
    | none =>
      rw [(h.fresh hr).1]
      trivial
    | some client => exact h.justified client hr
  · rintro client ⟨⟩ text htext
    have hcases : (arrival.ok = true ∧ text = dst.string) ∨ text ∈ r.targetAddrs := by
      dsimp only at htext
      split at htext <;> simp_all
    obtain ⟨hok, rfl⟩ | hmem := hcases
    · exact ⟨_, List.mem_cons_self, hout, hok, rfl⟩
    · cases hr : r.clientAddr with
      | none => simp [(h.fresh hr).2] at hmem
      | some client =>
        obtain ⟨sent, hsent, hrest⟩ := h.targets client hr text hmem
        exact ⟨sent, List.mem_cons_of_mem _ hsent, hrest⟩

theorem Inv.forwarded (h : Inv r) (hr : r.clientAddr = some client)
    (hclient : sameUDPAddr arrival.source client = false)
    (hsource : arrival.source.string ∈ r.targetAddrs) :
    Inv { r with writes := ⟨arrival, client,
      udpAddrToHeader arrival.source ++ arrival.data⟩ :: r.writes } := by
  obtain ⟨sent, hsent, hout, hok, htext⟩ := h.targets client hr _ hsource
  have hzone : arrival.source.zone = [] :=
    (congrArg UdpText.zone htext).symm.trans (zone_of_outward hout)
  refine ⟨by simp [hr], ?_, ?_⟩
  · intro other hother
    obtain rfl : client = other := Option.some.inj (hr.symm.trans hother)
    refine ⟨.inr ⟨rfl, hclient, ⟨sent, hsent, hout, hok, htext⟩, udpAddrToHeader arrival.source,
      rfl, ?_⟩, h.justified client hr⟩
    exact parse_udpAddrToHeader arrival.length_ip arrival.port_lt hzone
  · intro other hother text hmem
    obtain ⟨earlier, hearlier, hrest⟩ := h.targets other hother text hmem
    exact ⟨earlier, List.mem_cons_of_mem _ hearlier, hrest⟩

theorem Inv.receive (h : Inv r) (arrival : Arrival) : Inv (r.receive arrival) := by
  unfold DatagramLoop.receive
  split
  · split
    · exact h
    · exact h.sent ‹_› ‹_›
  · rename_i hother
    split
    · rename_i hsource
      obtain ⟨client, hr⟩ : ∃ client, r.clientAddr = some client := by
        cases hr : r.clientAddr with
        | none => simp [hr] at hother
        | some client => exact ⟨client, rfl⟩
      have hget : r.clientAddr.getD arrival.source = client := by simp [hr]
      rw [hget]
      exact h.forwarded hr (by simpa [hr] using hother) hsource
    · exact h

theorem clientAddr_receive (h : r.clientAddr = some client) :
    (r.receive arrival).clientAddr = some client := by
  unfold receive
  split
  · split
    · exact h
    · simp [h]
  · split <;> exact h

theorem clientAddr_foldl (arrivals : List Arrival) (h : r.clientAddr = some client) :
    (arrivals.foldl receive r).clientAddr = some client := by
  induction arrivals generalizing r with
  | nil => exact h
  | cons arrival arrivals ih => exact ih (clientAddr_receive h)

theorem inv_run (arrivals : List Arrival) : Inv (run arrivals) := by
  refine List.foldlRecOn arrivals receive ⟨fun _ => ⟨rfl, rfl⟩, by simp, by simp⟩ ?_
  intro r hinv arrival _
  exact hinv.receive arrival

theorem Justified.of_append {w : DatagramWrite} {later earlier : List DatagramWrite}
    (h : Justified client (later ++ w :: earlier)) :
    w.Outward client ∨ w.Forwarded client earlier := by
  induction later with
  | nil => exact h.1
  | cons other later ih => exact ih h.2

/-- The client stays the client, and every write is one of its payloads on the
way to the destination it names, or an answer of such a destination. -/
theorem relay_closed (arrivals : List Arrival) :
    ((run arrivals).clientAddr = none → (run arrivals).writes = []) ∧
    ∀ client, (run arrivals).clientAddr = some client →
      (∀ more, (run (arrivals ++ more)).clientAddr = some client) ∧
      ∀ later w earlier, (run arrivals).writes = later ++ w :: earlier →
        w.Outward client ∨ w.Forwarded client earlier := by
  have hinv := inv_run arrivals
  refine ⟨fun hnone => (hinv.fresh hnone).1, ?_⟩
  intro client hclient
  constructor
  · intro more
    rw [run, List.foldl_append]
    exact clientAddr_foldl more hclient
  · intro later w earlier hwrites
    have hjustified := hinv.justified client hclient
    rw [hwrites] at hjustified
    exact hjustified.of_append

end DatagramLoop

end Mieru.Socks5
