import Mieru.Socks5.UdpAssociate

/-!
# Replies of a UDP association name their sender

The header of a reply is a slice of the buffer in which the next packets of
the client arrive, and `append` writes the datagram behind it into the same
buffer.  Replies are right and the client's packets are left alone in the runs
in which a stored header is used only while it is still in the buffer and no
packet is being handled; other runs relay a reply under another sender's name.
-/

namespace Mieru.Socks5

open Mieru.Foundation

/-- The header names the sender, or a name the client has used for it. -/
inductive Names (used : List (Bytes × UdpAddr)) (sender : UdpText) :
    Bytes → Prop
  | address (spec : AddrSpec) (encoded : Bytes) : Encodes spec encoded →
      spec.ip ≠ [] → spec.ip.to4.getD spec.ip = sender.ip →
      spec.port = sender.port → Names used sender (0 :: 0 :: 0 :: encoded)
  | name (spec : AddrSpec) (encoded : Bytes) (addr : UdpAddr) :
      Encodes spec encoded → spec.ip = [] → (spec.fqdn, addr) ∈ used →
      addr.string = sender → spec.port = sender.port →
      Names used sender (0 :: 0 :: 0 :: encoded)

/-- The packet of the client that is being read or handled, and how much of
it is in the buffer. -/
def Upload.progress : Upload → Option (Bytes × Nat)
  | .reading packet filled => some (packet, filled)
  | .received packet => some (packet, packet.length)
  | .resolving packet _ _ _ => some (packet, packet.length)
  | .stored packet _ _ => some (packet, packet.length)
  | _ => none

/-- Every reply names its sender and carries its datagram, and the packet
being handled is what the client sent. -/
structure Relay.Faithful (r : Relay) : Prop where
  replies : ∀ reply ∈ r.replies, ∃ header,
    Names r.used reply.addr.string header ∧ reply.written = header ++ reply.data
  packet : ∀ packet filled, r.upload.progress = some (packet, filled) →
    r.buf.read 0 filled = packet.take filled

def ShortName (packet : Bytes) : Prop :=
  byteAt packet 3 = socks5FQDNAddress → (byteAt packet 4).toNat ≤ 248

/-- The header a reply is built from is the one of the packet in the buffer,
nothing is uploaded meanwhile, and no long names are used. -/
structure Relay.Undisturbed (r : Relay) (event : RelayEvent) : Prop where
  append : ∀ addr data len, event = .append → r.download = .loaded addr data (.upload len) →
    r.upload = .waiting ∧ r.latest = some addr.string ∧ r.addrMap addr.string = some (.upload len)
  begin : ∀ packet, event = .begin packet → ShortName packet ∧
    ∀ addr data len, r.download ≠ .appended addr data (.upload len)

section

variable {used : List (Bytes × UdpAddr)} {sender : UdpText} {header : Bytes}
  {buf : Buffer} {n : Nat}

theorem Names.mono {more : List (Bytes × UdpAddr)}
    (h : Names used sender header) (hmore : used ⊆ more) : Names more sender header := by
  cases h with
  | address spec encoded hencodes hip hsame hport =>
    exact .address spec encoded hencodes hip hsame hport
  | name spec encoded addr hencodes hip hused hsender hport =>
    exact .name spec encoded addr hencodes hip (hmore hused) hsender hport

theorem names_udpAddrToHeader {addr : UdpAddr} (hlength : addr.ip.length = 4 ∨ addr.ip.length = 16)
    (hport : addr.port < 65536) : Names used addr.string (udpAddrToHeader addr) := by
  have hencoded := portOf_portBytes hport
  unfold udpAddrToHeader
  split
  · rename_i ip4 h4
    have hfour := IP.to4_spec h4
    have hne : ip4 ≠ [] := List.ne_nil_of_length_pos (by omega)
    refine .address { ip := ip4, port := portOf _ _ } _ (.ipv4 ip4 _ _ hfour) hne ?_ hencoded
    simp only [UdpAddr.string, h4, IP.to4_of_length hfour, Option.getD_some]
  · rename_i h4
    have hlong : addr.ip.length = 16 := by
      refine hlength.resolve_left ?_
      intro hfour
      rw [IP.to4_of_length hfour] at h4
      cases h4
    have h16 : addr.ip.to16 = some addr.ip := by
      rw [IP.to16, if_neg (by omega), if_pos hlong]
    have hne : addr.ip ≠ [] := List.ne_nil_of_length_pos (by omega)
    rw [h16]
    refine .address { ip := addr.ip, port := portOf _ _ } _
      (.ipv6 addr.ip _ _ hlong) hne ?_ hencoded
    simp only [UdpAddr.string]

theorem validateUpload_eq_ok (h : validateUpload buf n = .ok ()) :
    6 < n ∧ buf 0 = 0 ∧ buf 1 = 0 ∧ buf 2 = 0 ∧ ((buf 3 = socks5IPv4Address ∧ 10 < n) ∨
        (buf 3 = socks5FQDNAddress ∧ (buf 4).toNat + 6 < n) ∨
        (buf 3 = socks5IPv6Address ∧ 22 < n)) := by
  unfold validateUpload at h
  split at h
  · cases h
  split at h
  · cases h
  split at h
  · cases h
  split at h
  · cases h
  split at h
  · cases h
  rename_i hlong hzero hfragment htype hdata
  refine ⟨by omega, ?_, ?_, ?_, ?_⟩ <;> grind

theorem read_header (h : validateUpload buf n = .ok ()) {len : Nat} (hlen : 4 ≤ len) :
    buf.read 0 len = 0 :: 0 :: 0 :: buf 3 :: buf.read 4 len := by
  obtain ⟨-, h0, h1, h2, -⟩ := validateUpload_eq_ok h
  have hfront : buf.read 0 4 = [buf 0, buf 1, buf 2, buf 3] := rfl
  rw [Buffer.read_append (Nat.zero_le 4) hlen, hfront, h0, h1, h2]
  rfl

theorem read_address (buf : Buffer) (low high : Nat) (h : low ≤ high) : buf.read low (high + 2) =
      buf.read low high ++ [buf high, buf (high + 1)] := by
  rw [Buffer.read_append h (Nat.le_add_right high 2)]
  simp [Buffer.read, List.range_succ]

theorem encodes_ipv4 (h : validateUpload buf n = .ok ()) (htype : buf 3 = socks5IPv4Address) :
    ∃ encoded, Encodes { ip := buf.read 4 8, port := portOf (buf 8) (buf 9) } encoded ∧
      buf.read 0 10 = 0 :: 0 :: 0 :: encoded := by
  refine ⟨_, .ipv4 _ _ _ (by simp), ?_⟩
  rw [read_header h (by omega), htype, read_address buf 4 8 (by omega)]

theorem encodes_ipv6 (h : validateUpload buf n = .ok ()) (htype : buf 3 = socks5IPv6Address) :
    ∃ encoded, Encodes { ip := buf.read 4 20, port := portOf (buf 20) (buf 21) } encoded ∧
      buf.read 0 22 = 0 :: 0 :: 0 :: encoded := by
  refine ⟨_, .ipv6 _ _ _ (by simp), ?_⟩
  rw [read_header h (by omega), htype, read_address buf 4 20 (by omega)]

theorem names_ipv4 (h : validateUpload buf n = .ok ()) (htype : buf 3 = socks5IPv4Address) :
    Names used (UdpAddr.string ⟨buf.read 4 8, portOf (buf 8) (buf 9), []⟩) (buf.read 0 10) := by
  obtain ⟨encoded, hencodes, hread⟩ := encodes_ipv4 h htype
  rw [hread]
  exact .address _ _ hencodes (by simp [Buffer.read]) rfl rfl

theorem names_ipv6 (h : validateUpload buf n = .ok ()) (htype : buf 3 = socks5IPv6Address) :
    Names used (UdpAddr.string ⟨buf.read 4 20, portOf (buf 20) (buf 21), []⟩) (buf.read 0 22) := by
  obtain ⟨encoded, hencodes, hread⟩ := encodes_ipv6 h htype
  rw [hread]
  exact .address _ _ hencodes (by simp [Buffer.read]) rfl rfl

theorem add_short {len : UInt8} (h : len.toNat ≤ 248) :
    (5 + len).toNat = 5 + len.toNat ∧ (6 + len).toNat = 6 + len.toNat ∧
      (7 + len).toNat = 7 + len.toNat := by
  simp only [UInt8.toNat_add]
  refine ⟨?_, ?_, ?_⟩ <;> exact Nat.mod_eq_of_lt (by simp; omega)

theorem encodes_fqdn (h : validateUpload buf n = .ok ())
    (htype : buf 3 = socks5FQDNAddress) (hshort : (buf 4).toNat ≤ 248) :
    ∃ encoded, Encodes
        { fqdn := buf.read 5 (5 + buf 4).toNat
          port := portOf (buf (5 + buf 4).toNat) (buf (6 + buf 4).toNat) }
        encoded ∧
      buf.read 0 (7 + buf 4).toNat = 0 :: 0 :: 0 :: encoded := by
  obtain ⟨h5, h6, h7⟩ := add_short hshort
  have hsize : buf.read 4 5 = [buf 4] := rfl
  have hname := read_address buf 5 (5 + (buf 4).toNat) (by omega)
  refine ⟨_, .fqdn (buf 4) _ _ _ (by simp [h5]), ?_⟩
  rw [read_header h (by omega), htype, h7,
    Buffer.read_append (show 4 ≤ 5 by omega) (by omega), hsize, h5, h6,
    show 7 + (buf 4).toNat = 5 + (buf 4).toNat + 2 by omega, hname,
    show 6 + (buf 4).toNat = 5 + (buf 4).toNat + 1 by omega]
  rfl

theorem byteAt_read {i : Nat} (h : i < n) : byteAt (buf.read 0 n) i = buf i := by
  simp [byteAt, Buffer.read, h]

end

/-- What the download goroutine holds; `calm` says that nothing is uploaded. -/
def Download.Correct (used : List (Bytes × UdpAddr)) (buf : Buffer) (calm : Prop) : Download → Prop
  | .received addr _ =>
    (addr.ip.length = 4 ∨ addr.ip.length = 16) ∧ addr.port < 65536
  | .missed addr _ header => Names used addr.string header
  | .loaded addr _ (.own header) => Names used addr.string header
  | .appended addr data (.own bytes) =>
    ∃ header, Names used addr.string header ∧ bytes = header ++ data
  | .appended addr data (.upload len) =>
    calm ∧ ∃ header, Names used addr.string header ∧ buf.read 0 len = header ++ data
  | _ => True

structure Relay.Inv (r : Relay) : Prop where
  progress : ∀ packet filled, r.upload.progress = some (packet, filled) →
    filled ≤ packet.length ∧ r.buf.read 0 filled = packet.take filled ∧ ShortName packet
  reading : ∀ packet filled, r.upload = .reading packet filled → r.latest = none
  resolving : ∀ packet fqdnLen fqdn port, r.upload = .resolving packet fqdnLen fqdn port →
    ∃ encoded, Encodes { fqdn := fqdn, port := port } encoded ∧
      r.buf.read 0 (7 + fqdnLen).toNat = 0 :: 0 :: 0 :: encoded
  latest : ∀ key len, r.latest = some key →
    r.addrMap key = some (.upload len) → Names r.used key (r.buf.read 0 len)
  owned : ∀ key header, r.addrMap key = some (.own header) → Names r.used key header
  download : r.download.Correct r.used r.buf (r.upload.progress = none)
  replies : ∀ reply ∈ r.replies, ∃ header,
    Names r.used reply.addr.string header ∧ reply.written = header ++ reply.data

theorem Relay.Inv.faithful {r : Relay} (h : r.Inv) : r.Faithful where
  replies := h.replies
  packet packet filled hprogress := (h.progress packet filled hprogress).2.1

theorem Relay.inv_initial : Relay.Inv {} where
  progress _ _ h := nomatch h
  reading _ _ _ := rfl
  resolving _ _ _ _ h := nomatch h
  latest _ _ h := nomatch h
  owned _ _ h := nomatch h
  download := trivial
  replies _ h := nomatch h

theorem Download.Correct.mono {used more : List (Bytes × UdpAddr)}
    {buf buf' : Buffer} {calm calm' : Prop} {d : Download}
    (h : d.Correct used buf calm) (hmore : used ⊆ more)
    (hview : ∀ addr data len, d = .appended addr data (.upload len) → calm →
      calm' ∧ buf'.read 0 len = buf.read 0 len) : d.Correct more buf' calm' := by
  cases d with
  | waiting => trivial
  | received addr data => exact h
  | missed addr data header => exact Names.mono h hmore
  | loaded addr data header =>
    cases header with
    | upload len => trivial
    | own bytes => exact Names.mono h hmore
  | appended addr data reply =>
    cases reply with
    | upload len =>
      obtain ⟨hcalm, header, hnames, hread⟩ := h
      obtain ⟨hcalm', hsame⟩ := hview addr data len rfl hcalm
      exact ⟨hcalm', header, hnames.mono hmore, hsame.trans hread⟩
    | own bytes =>
      obtain ⟨header, hnames, hbytes⟩ := h
      exact ⟨header, hnames.mono hmore, hbytes⟩
  | stopped => trivial

namespace Relay

variable {r r' : Relay} {packet : Bytes} {addr : UdpAddr} {data : Bytes} {event : RelayEvent}

/-! Steps of the upload goroutine. -/

theorem Inv.setUpload {upload : Upload} (h : r.Inv)
    (hprogress : ∀ packet filled, upload.progress = some (packet, filled) →
      r.upload.progress = some (packet, filled))
    (hreading : ∀ packet filled, upload ≠ .reading packet filled)
    (hresolving : ∀ packet fqdnLen fqdn port, upload = .resolving packet fqdnLen fqdn port →
      ∃ encoded, Encodes { fqdn := fqdn, port := port } encoded ∧
        r.buf.read 0 (7 + fqdnLen).toNat = 0 :: 0 :: 0 :: encoded) :
    Inv { r with upload := upload } := by
  refine ⟨?_, ?_, hresolving, h.latest, h.owned, ?_, h.replies⟩
  · intro packet filled hnew
    exact h.progress packet filled (hprogress packet filled hnew)
  · intro packet filled hnew
    exact absurd hnew (hreading packet filled)
  · refine h.download.mono (List.Subset.refl _) ?_
    intro _ _ _ _ hcalm
    refine ⟨?_, rfl⟩
    cases hcase : upload.progress with
    | none => rfl
    | some pair =>
      rw [hprogress pair.1 pair.2 hcase] at hcalm
      cases hcalm

theorem Inv.release {upload : Upload} (h : r.Inv)
    (hnone : upload.progress = none) : Inv { r with upload := upload } := by
  apply h.setUpload
  · intro packet filled hsome
    rw [hnone] at hsome
    cases hsome
  · rintro packet filled rfl
    cases hnone
  · rintro packet fqdnLen fqdn port rfl
    cases hnone

theorem Inv.setSends (h : r.Inv) (sends : List Sent) : Inv { r with sends := sends } :=
  ⟨h.progress, h.reading, h.resolving, h.latest, h.owned, h.download, h.replies⟩

theorem Inv.begin (h : r.Inv) (hshort : ShortName packet)
    (hview : ∀ addr data len, r.download ≠ .appended addr data (.upload len)) :
    Inv { r with upload := .reading packet 0, latest := none } := by
  refine ⟨?_, fun _ _ _ => rfl, ?_, ?_, h.owned, ?_, h.replies⟩
  · intro other filled hprogress
    cases hprogress
    exact ⟨Nat.zero_le _, rfl, hshort⟩
  · intro _ _ _ _ hresolving
    cases hresolving
  · intro _ _ hlatest
    cases hlatest
  · refine h.download.mono (List.Subset.refl _) ?_
    intro addr data len hdownload
    exact absurd hdownload (hview addr data len)

theorem Inv.not_view (h : r.Inv) {pair : Bytes × Nat}
    (hprogress : r.upload.progress = some pair) (len : Nat) :
    r.download ≠ .appended addr data (.upload len) := by
  intro hdownload
  have hcorrect := h.download
  rw [hdownload] at hcorrect
  rw [hcorrect.1] at hprogress
  cases hprogress

theorem Inv.fill {filled n : Nat} (h : r.Inv) (hreading : r.upload = .reading packet filled)
    (hn : filled + n ≤ packet.length) : Inv { r with
      buf := r.buf.write filled ((packet.drop filled).take n)
      upload := .reading packet (filled + n) } := by
  have hprogress : r.upload.progress = some (packet, filled) := by
    rw [hreading]
    rfl
  have hlatest := h.reading packet filled hreading
  obtain ⟨-, hread, hshort⟩ := h.progress packet filled hprogress
  have hchunk : ((packet.drop filled).take n).length = n := by
    rw [List.length_take, List.length_drop]
    omega
  refine ⟨?_, fun _ _ _ => hlatest, ?_, ?_, h.owned, ?_, h.replies⟩
  · intro other size hother
    cases hother
    refine ⟨hn, ?_, hshort⟩
    have hwritten : (r.buf.write filled ((packet.drop filled).take n)).read 0
        (filled + ((packet.drop filled).take n).length) =
          r.buf.read 0 filled ++ (packet.drop filled).take n :=
      Buffer.read_write_append (Nat.zero_le filled)
    rw [hchunk, hread] at hwritten
    rw [hwritten, List.take_add]
  · intro _ _ _ _ hresolving
    cases hresolving
  · intro key len hkey
    rw [hlatest] at hkey
    cases hkey
  · refine h.download.mono (List.Subset.refl _) ?_
    intro addr data len hdownload
    exact absurd hdownload (h.not_view hprogress len)

theorem Inv.storeHeader {headerLen : Nat} {target : Target} (h : r.Inv)
    (hprogress : r.upload.progress = some (packet, packet.length))
    (hnames : Names r.used addr.string (r.buf.read 0 headerLen)) :
    (r.storeHeader packet addr headerLen target).Inv := by
  refine ⟨?_, ?_, ?_, ?_, ?_, ?_, h.replies⟩
  · intro other filled hother
    cases hother
    exact h.progress packet packet.length hprogress
  · intro _ _ hreading
    cases hreading
  · intro _ _ _ _ hresolving
    cases hresolving
  · intro key len hkey hstored
    obtain rfl := Option.some.inj hkey
    simp only [Relay.storeHeader, setHeader, if_true] at hstored
    cases hstored
    exact hnames
  · intro key header hstored
    simp only [Relay.storeHeader, setHeader] at hstored
    split at hstored
    · cases hstored
    · exact h.owned key header hstored
  · refine h.download.mono (List.Subset.refl _) ?_
    intro addr data len hdownload
    exact absurd hdownload (h.not_view hprogress len)

theorem Inv.use (h : r.Inv) (entry : Bytes × UdpAddr) : Inv { r with used := entry :: r.used } := by
  have hmore := List.subset_cons_self entry r.used
  refine ⟨h.progress, h.reading, h.resolving, ?_, ?_, ?_, ?_⟩
  · intro key len hkey hstored
    exact (h.latest key len hkey hstored).mono hmore
  · intro key header hstored
    exact (h.owned key header hstored).mono hmore
  · exact h.download.mono hmore fun _ _ _ _ hcalm => ⟨hcalm, rfl⟩
  · intro reply hreply
    obtain ⟨header, hnames, hwritten⟩ := h.replies reply hreply
    exact ⟨header, hnames.mono hmore, hwritten⟩

theorem Inv.storeResolved {fqdnLen : UInt8} {fqdn : Bytes} {port : Nat}
    (h : r.Inv) (hupload : r.upload = .resolving packet fqdnLen fqdn port)
    (ip : IP) : (r.storeResolved packet fqdnLen fqdn ⟨ip, port, []⟩).Inv := by
  obtain ⟨encoded, hencodes, hread⟩ :=
    h.resolving packet fqdnLen fqdn port hupload
  apply (h.use (fqdn, ⟨ip, port, []⟩)).storeHeader
  · change r.upload.progress = _
    rw [hupload]
    rfl
  · change Names _ _ (r.buf.read 0 (7 + fqdnLen).toNat)
    rw [hread]
    exact .name _ encoded ⟨ip, port, []⟩ hencodes rfl List.mem_cons_self rfl rfl

theorem Inv.processPacket (h : r.Inv) (hupload : r.upload = .received packet) :
    (r.processPacket packet).Inv := by
  have hprogress : r.upload.progress = some (packet, packet.length) := by
    rw [hupload]
    rfl
  obtain ⟨-, hread, hshort⟩ := h.progress packet packet.length hprogress
  rw [List.take_length] at hread
  unfold Relay.processPacket
  split
  · exact h.release rfl
  rename_i hvalid
  obtain ⟨hsix, -⟩ := validateUpload_eq_ok hvalid
  split
  · rename_i htype
    exact h.storeHeader hprogress (names_ipv4 hvalid htype)
  split
  · rename_i htype
    dsimp only
    split
    · exact h.release rfl
    · rw [ShortName, ← hread, byteAt_read (by omega), byteAt_read (by omega)] at hshort
      have hencodes := encodes_fqdn hvalid htype (hshort htype)
      apply h.setUpload
      · intro other filled hother
        cases hother
        exact hprogress
      · simp
      · intro _ _ _ _ hresolving
        cases hresolving
        exact hencodes
  · rename_i hfour hname
    obtain ⟨-, -, -, -, htype⟩ := validateUpload_eq_ok hvalid
    refine h.storeHeader hprogress (names_ipv6 hvalid ?_)
    grind

/-! Steps of the download goroutine. -/

theorem Inv.setDownload {d : Download} (h : r.Inv)
    (hcorrect : d.Correct r.used r.buf (r.upload.progress = none)) : Inv { r with download := d } :=
  ⟨h.progress, h.reading, h.resolving, h.latest, h.owned, hcorrect, h.replies⟩

theorem Inv.store {header : Bytes} (h : r.Inv) (hdownload : r.download = .missed addr data header) :
    Inv { r.setHeader addr.string (.own header) with
      download := .loaded addr data (.own header) } := by
  have hnames := h.download
  rw [hdownload] at hnames
  refine ⟨h.progress, h.reading, h.resolving, ?_, ?_, hnames, h.replies⟩
  · intro key len hkey hstored
    simp only [setHeader] at hstored
    split at hstored
    · cases hstored
    · exact h.latest key len hkey hstored
  · intro key bytes hstored
    simp only [setHeader] at hstored
    split at hstored
    · rename_i hsame
      cases hstored
      rw [hsame]
      exact hnames
    · exact h.owned key bytes hstored

theorem Inv.appendReply {header : Slice} (h : r.Inv) (hguard : r.Undisturbed .append)
    (hdownload : r.download = .loaded addr data header) : (r.appendReply addr data header).Inv := by
  cases header with
  | own bytes =>
    have hnames := h.download
    rw [hdownload] at hnames
    exact h.setDownload ⟨bytes, hnames, rfl⟩
  | upload len =>
    obtain ⟨hwaiting, hlatest, hstored⟩ :=
      hguard.append addr data len rfl hdownload
    have hnames := h.latest addr.string len hlatest hstored
    simp only [Relay.appendReply]
    split
    · refine ⟨?_, ?_, ?_, ?_, h.owned, ?_, h.replies⟩
      · intro packet filled hprogress
        rw [hwaiting] at hprogress
        cases hprogress
      · intro packet filled hreading
        rw [hwaiting] at hreading
        cases hreading
      · intro _ _ _ _ hresolving
        rw [hwaiting] at hresolving
        cases hresolving
      · intro key other hkey hother
        obtain rfl := Option.some.inj (hlatest.symm.trans hkey)
        have hsame : Slice.upload len = Slice.upload other :=
          Option.some.inj (hstored.symm.trans hother)
        cases hsame
        rw [Buffer.read_write_of_le (Nat.le_refl len)]
        exact hnames
      · refine ⟨by rw [hwaiting]; rfl, r.buf.read 0 len, hnames, ?_⟩
        exact Buffer.read_write_append (Nat.zero_le len)
    · exact h.setDownload ⟨r.buf.read 0 len, hnames, rfl⟩

theorem Inv.writeReply {reply : Slice} (h : r.Inv)
    (hdownload : r.download = .appended addr data reply) (ok : Bool) :
    (r.writeReply addr data reply ok).Inv := by
  have hcorrect := h.download
  rw [hdownload] at hcorrect
  have hwritten : ∃ header, Names r.used addr.string header ∧
      reply.bytes r.buf = header ++ data := by
    cases reply with
    | upload len => exact hcorrect.2
    | own bytes => exact hcorrect
  unfold Relay.writeReply
  dsimp only
  split
  · refine ⟨h.progress, h.reading, h.resolving, h.latest, h.owned, trivial, ?_⟩
    intro other hother
    rcases List.mem_cons.mp hother with rfl | hold
    · exact hwritten
    · exact h.replies other hold
  · exact h.setDownload trivial

/-! Runs. -/

theorem Inv.uploadNext (h : r.Inv) (hguard : r.Undisturbed event)
    (hstep : r.uploadNext event = some r') : r'.Inv := by
  unfold Relay.uploadNext at hstep
  split at hstep
  · rename_i packet
    split at hstep
    · cases hstep
      obtain ⟨hshort, hview⟩ := hguard.begin packet rfl
      exact h.begin hshort hview
    · cases hstep
  · split at hstep
    · rename_i packet filled hreading
      split at hstep
      · cases hstep
        exact h.fill hreading ‹_›
      · cases hstep
    · cases hstep
  · split at hstep
    · rename_i packet filled hreading
      split at hstep
      · rename_i hfilled
        cases hstep
        apply h.setUpload
        · intro other size hother
          cases hother
          rw [hreading, hfilled]
          rfl
        · simp
        · simp
      · cases hstep
    · cases hstep
  · split at hstep <;> cases hstep <;> exact h.release rfl
  · split at hstep
    · rename_i packet hreceived
      cases hstep
      exact h.processPacket hreceived
    · cases hstep
  · split at hstep
    · cases hstep
      exact h.release rfl
    · rename_i ip hresolving
      cases hstep
      exact h.storeResolved hresolving ip
    · cases hstep
  · split at hstep
    · split at hstep <;> cases hstep
      · have hreleased : Inv { r with upload := .waiting } := h.release rfl
        exact hreleased.setSends _
      · exact h.release rfl
    · cases hstep
  · cases hstep

theorem Inv.downloadNext (h : r.Inv) (hguard : r.Undisturbed event)
    (hstep : r.downloadNext event = some r') : r'.Inv := by
  unfold Relay.downloadNext at hstep
  split at hstep
  · split at hstep
    · rename_i hreceived
      cases hstep
      exact h.setDownload hreceived.2.2
    · cases hstep
  · split at hstep <;> cases hstep
    exact h.setDownload trivial
  · split at hstep
    · rename_i addr data hreceived
      have hsender := h.download
      rw [hreceived] at hsender
      split at hstep
      · rename_i header hstored
        cases hstep
        apply h.setDownload
        cases header with
        | upload len => trivial
        | own bytes => exact h.owned addr.string bytes hstored
      · cases hstep
        exact h.setDownload (names_udpAddrToHeader hsender.1 hsender.2)
    · cases hstep
  · split at hstep
    · rename_i addr data header hmissed
      cases hstep
      exact h.store hmissed
    · cases hstep
  · split at hstep
    · rename_i addr data header hloaded
      cases hstep
      exact h.appendReply hguard hloaded
    · cases hstep
  · split at hstep
    · rename_i ok _ addr data reply happended
      cases hstep
      exact h.writeReply happended ok
    · cases hstep
  · cases hstep

theorem Inv.next (h : r.Inv) (hguard : r.Undisturbed event) (hstep : r.next event = some r') :
    r'.Inv := by
  rcases Option.or_eq_some_iff.mp hstep with hupload | ⟨-, hdownload⟩
  · exact h.uploadNext hguard hupload
  · exact h.downloadNext hguard hdownload

end Relay

/--
In a run in which stored headers are used only while they are in the buffer
and nothing is uploaded, every reply names its sender, carries its datagram,
and no packet of the client is changed.
-/
theorem relay_faithful (r : Relay)
    (h : relaySystem.ReachableBy Relay.Undisturbed r) : r.Faithful := by
  have hinv : r.Inv := by
    refine h.invariant ?_ ?_
    · rintro state rfl
      exact Relay.inv_initial
    · intro state event next hstate hguard hstep
      exact hstate.next hguard hstep
  exact hinv.faithful

def packetTo (ip : Bytes) (byte : UInt8) : Bytes :=
  [0, 0, 0, 1] ++ ip ++ [0, 53, byte]

def readEvents (packet : Bytes) : List RelayEvent :=
  [.begin packet, .fill packet.length, .finish]

def uploadEvents (packet : Bytes) : List RelayEvent :=
  readEvents packet ++ [RelayEvent.process, .send true]

def replyEvents (addr : UdpAddr) (data : Bytes) : List RelayEvent :=
  [.receive addr data, .load, .append]

def firstServer : UdpAddr := ⟨[1, 2, 3, 4], 53, []⟩

def Relay.checkEvent (r : Relay) : RelayEvent → Bool
  | .append =>
    match r.download with
    | .loaded addr _ (.upload len) => r.upload == .waiting && r.latest == some addr.string &&
        r.addrMap addr.string == some (.upload len)
    | _ => true
  | .begin packet => r.download == .waiting &&
      (byteAt packet 3 != socks5FQDNAddress || (byteAt packet 4).toNat ≤ 248)
  | _ => true

theorem Relay.undisturbed_of_checkEvent (r : Relay) (event : RelayEvent)
    (h : r.checkEvent event = true) : r.Undisturbed event where
  append addr data len hevent hdownload := by
    simpa [hevent, checkEvent, hdownload, and_assoc] using h
  begin packet hevent := by
    simp only [hevent, checkEvent, Bool.and_eq_true, beq_iff_eq, Bool.or_eq_true, bne_iff_ne,
      decide_eq_true_eq] at h
    exact ⟨fun htype => h.2.resolve_left (not_not.mpr htype), by simp [h.1]⟩

def answeredEvents : List RelayEvent :=
  uploadEvents (packetTo [1, 2, 3, 4] 7) ++ replyEvents firstServer [9] ++ [RelayEvent.write true]

theorem relay_faithful_answered : ∃ r, relaySystem.ReachableBy Relay.Undisturbed r ∧
      r.replies = [⟨firstServer, [9], [0, 0, 0, 1, 1, 2, 3, 4, 0, 53, 9]⟩] ∧ r.Faithful := by
  obtain ⟨r, hreachable, hreplies⟩ : ∃ r, relaySystem.ReachableBy Relay.Undisturbed r ∧
      r.replies = [⟨firstServer, [9], [0, 0, 0, 1, 1, 2, 3, 4, 0, 53, 9]⟩] :=
    System.exists_reachableBy Relay.undisturbed_of_checkEvent rfl answeredEvents (by decide +kernel)
  exact ⟨r, hreachable, hreplies, relay_faithful r hreachable⟩

theorem not_names_of_ip (ip : Bytes) {sender : UdpText} {header data : Bytes} {high low : UInt8}
    (hlength : ip.length = 4) (hother : ip ≠ sender.ip)
    (h : header ++ data = 0 :: 0 :: 0 :: socks5IPv4Address :: (ip ++ [high, low]) ++ data) :
    ¬ Names [] sender header := by
  have hheader : header = 0 :: 0 :: 0 :: socks5IPv4Address ::
      (ip ++ [high, low]) := List.append_cancel_right h
  intro hnames
  cases hnames with
  | name spec encoded addr hencodes hip hused =>
    cases hused
  | address spec encoded hencodes hip hsame hport =>
    simp only [List.cons.injEq, true_and] at hheader
    cases hencodes with
    | ipv4 named high' low' hnamed =>
      simp only [List.cons.injEq, true_and] at hheader
      obtain ⟨rfl, -⟩ := List.append_inj hheader (by omega)
      rw [IP.to4_of_length hlength] at hsame
      exact hother hsame
    | ipv6 named high' low' hnamed =>
      simp only [List.cons.injEq] at hheader
      exact absurd hheader.1 (by decide)
    | fqdn size name high' low' hname =>
      exact absurd rfl hip

theorem relay_unfaithful : (∃ r, relaySystem.Reachable r ∧ ∃ reply ∈ r.replies, ¬ ∃ header,
      Names r.used reply.addr.string header ∧ reply.written = header ++ reply.data) ∧
    (∃ r, relaySystem.Reachable r ∧ ∃ packet filled, r.upload.progress = some (packet, filled) ∧
        r.buf.read 0 filled ≠ packet.take filled) := by
  constructor
  · -- A packet for another server has overwritten the stored header.
    have hrun : ∃ r, System.runEvents Relay.next {} (uploadEvents (packetTo [1, 2, 3, 4] 7) ++
          uploadEvents (packetTo [5, 6, 7, 8] 8) ++
          replyEvents firstServer [9] ++ [RelayEvent.write true]) = some r ∧
        r.used = [] ∧ r.replies = [⟨firstServer, [9], [0, 0, 0, 1, 5, 6, 7, 8, 0, 53, 9]⟩] :=
      ⟨_, rfl, by decide, by decide⟩
    obtain ⟨r, hrun, hused, hreplies⟩ := hrun
    refine ⟨r, (System.Reachable.init rfl).run hrun,
      ⟨firstServer, [9], [0, 0, 0, 1, 5, 6, 7, 8, 0, 53, 9]⟩, ?_, ?_⟩
    · rw [hreplies]
      exact List.mem_cons_self
    · rw [hused]
      rintro ⟨header, hnames, hwritten⟩
      exact not_names_of_ip [5, 6, 7, 8] rfl (by decide) hwritten.symm hnames
  · -- The reply is appended while the next packet is handled.
    have hrun : ∃ r, System.runEvents Relay.next {} (uploadEvents (packetTo [1, 2, 3, 4] 7) ++
          readEvents (packetTo [5, 6, 7, 8] 8) ++
          replyEvents firstServer [9]) = some r ∧
        r.upload.progress = some (packetTo [5, 6, 7, 8] 8, 11) ∧
        r.buf.read 0 11 = packetTo [5, 6, 7, 8] 9 :=
      ⟨_, rfl, by decide, by decide⟩
    obtain ⟨r, hrun, hprogress, hread⟩ := hrun
    refine ⟨r, (System.Reachable.init rfl).run hrun, _, _, hprogress, ?_⟩
    rw [hread]
    decide

end Mieru.Socks5
