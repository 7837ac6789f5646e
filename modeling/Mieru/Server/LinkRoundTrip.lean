import Mieru.Server.FlatPorts
import Mieru.Server.SharingLink

/-!
# What a sharing link keeps

A link is read back with the settings of its profile, unless a value has no
name or an address no brackets; a binding that has both a port and a port range
is written as the range, where its flattened form has the port.
-/

namespace Mieru.Appctlpb

open Mieru.Foundation
open Mieru.Socks5 (IP)

variable {key text host : Bytes} {ip : IP} {server : ServerEndpoint} {profile : ClientProfile}
  {binding : PortBinding} {port n first last : Int} {bindings flat : List PortBinding}

/-! ## Ports -/

def protocolName (binding : PortBinding) : Bytes :=
  (binding.protocol.getD .unknown).string

def linkEntry (binding : PortBinding) : Bytes × Bytes :=
  (linkPort binding, protocolName binding)

/-- Not both a port and a port range. -/
def PortBinding.OneField (binding : PortBinding) : Prop :=
  binding.port.getD 0 = 0 ∨ binding.portRange.getD [] = []

theorem int32_of_range (hlow : 0 ≤ n) (hhigh : n ≤ 65535) : int32 n = n := by
  unfold int32
  rw [Int.bmod_eq_of_le] <;> omega

theorem refuse_port {ε : Type} {err : ε} :
    refuse (port < 1 || port > 65535) err = .ok () ↔ isPort port = true := by
  rw [refuse_eq_ok, isPort_iff]
  simp

theorem transportProtocolValue_protocolName (h : Bindable binding) :
    some (transportProtocolValue (protocolName binding)) = binding.protocol := by
  rcases h with h | h
  · rw [protocolName, h]
    decide
  · rw [protocolName, h]
    decide

theorem parseInt_range {small big : Bytes} (hne : small ≠ [])
    (hdigits : small.all isDigitByte = true) : parseInt (small ++ 45 :: big) = none := by
  have hparse : parseNat (small ++ 45 :: big) = none := by
    have hhyphen : isDigitByte 45 = false := rfl
    rw [parseNat, if_neg]
    simp [hhyphen]
  obtain ⟨first, rest, rfl⟩ := List.exists_cons_of_ne_nil hne
  have hfirst := List.all_eq_true.mp hdigits first List.mem_cons_self
  unfold parseInt
  split
  · rename_i htext
    cases htext
    cases hfirst
  · rename_i htext
    cases htext
    cases hfirst
  · rw [hparse]
    rfl

theorem parseInt_port {n : Nat} (h : parseNat text = some n) (hport : isPort n = true) :
    parseInt text = some (n : Int) := by
  have hhigh := (isPort_iff.mp hport).2
  rw [parseInt_of_digits (parseNat_eq_some h).2, h, Option.bind_some, if_pos (by omega)]

theorem readRange_eq_ok (hfirst : isPort first = true) (hlast : isPort last = true)
    (horder : first ≤ last) (protocol : TransportProtocol) :
    ∃ read, readRange first last protocol = .ok read ∧ read.protocol = some protocol ∧
      bindingPorts read = .ok (portsBetween first last) := by
  have hordered : refuse (decide (first > last)) (LinkError.reversed first last) = .ok () :=
    refuse_eq_ok.mpr (decide_eq_false (by omega))
  refine ⟨_, except_ok_bind.mpr ⟨(), refuse_port.mpr hfirst, except_ok_bind.mpr
    ⟨(), refuse_port.mpr hlast, except_ok_bind.mpr ⟨(), hordered, rfl⟩⟩⟩, rfl, ?_⟩
  have hlow := (isPort_iff.mp hfirst).1
  obtain ⟨small, rfl⟩ := Int.eq_ofNat_of_zero_le (show 0 ≤ first by omega)
  obtain ⟨big, rfl⟩ := Int.eq_ofNat_of_zero_le (show 0 ≤ last by omega)
  exact bindingPorts_eq_ok.mpr (.inr ⟨rfl, small, big, ⟨_, _, rfl, parseNat_formatNat small,
    parseNat_formatNat big⟩, hfirst, hlast, by omega, rfl⟩)

theorem readBinding_linkEntry {ports : List Int} (hone : binding.OneField)
    (hvalid : Bindable binding) (h : bindingPorts binding = .ok ports) :
    ∃ read, readBinding (linkEntry binding) = .ok read ∧ read.protocol = binding.protocol ∧
      bindingPorts read = .ok ports := by
  rw [← transportProtocolValue_protocolName hvalid]
  unfold readBinding linkEntry linkPort
  dsimp only
  rcases bindingPorts_eq_ok.mp h with ⟨hport, hbounds, rfl⟩ |
    ⟨-, first, last, ⟨small, big, htext, hsmall, hbig⟩, hfirst, hlast, hle, rfl⟩
  · have hrange := hone.resolve_left hport
    obtain ⟨hlow, hhigh⟩ := isPort_iff.mp hbounds
    rw [if_neg (not_not.mpr hrange), parseInt_formatInt (by omega) (by omega)]
    refine ⟨_, except_ok_bind.mpr ⟨(), refuse_port.mpr hbounds, rfl⟩, rfl, ?_⟩
    rw [int32_of_range (by omega) hhigh]
    exact bindingPorts_port hbounds _
  · obtain ⟨hne, hdigits⟩ := parseNat_eq_some hsmall
    rw [if_pos (by rw [htext]; simp), htext, parseInt_range hne hdigits]
    dsimp only
    rw [splitOn_range hdigits (parseNat_eq_some hbig).2]
    dsimp only
    rw [parseInt_port hsmall hfirst, parseInt_port hbig hlast]
    exact readRange_eq_ok hfirst hlast (by omega) _

theorem carried_flat (hone : ∀ binding ∈ bindings, binding.OneField)
    (hflat : flatPortBindings bindings = .ok flat) :
    ∃ carried, (bindings.map linkEntry).mapM readBinding = .ok carried ∧
      flatPortBindings carried = .ok flat := by
  obtain ⟨parts, hparts, rfl⟩ := flatPortBindings_eq_ok.mp hflat
  have hread : ∃ carried, List.Forall₂ (fun binding read =>
        readBinding (linkEntry binding) = .ok read) bindings carried ∧
      List.Forall₂ (fun read part => flatPortBinding read = .ok part) carried parts := by
    clear hflat
    induction hparts with
    | nil => exact ⟨[], .nil, .nil⟩
    | cons hpart hrest ih =>
      rw [List.forall_mem_cons] at hone
      obtain ⟨carried, hcarried, hsame⟩ := ih hone.2
      obtain ⟨ports, hports, hcase⟩ := flatPortBinding_eq_ok.mp hpart
      obtain ⟨read, hread, hprotocol, hbound⟩ :=
        readBinding_linkEntry hone.1 (hcase.imp And.left And.left) hports
      rw [← hprotocol] at hcase
      exact ⟨read :: carried, .cons hread hcarried,
        .cons (flatPortBinding_eq_ok.mpr ⟨ports, hbound, hcase⟩) hsame⟩
  obtain ⟨carried, hcarried, hsame⟩ := hread
  exact ⟨carried, mapM_eq_ok.mpr (List.forall₂_map_left_iff.mpr hcarried),
    flatPortBindings_eq_ok.mpr ⟨parts, hsame, rfl⟩⟩

/-! ## Values of a query -/

theorem multiplexingLevelValue_string {level : MultiplexingLevel} (h : level.Named) :
    level.string ≠ [] ∧ multiplexingLevelValue level.string = level := by
  cases level with
  | other number unnamed => exact h.elim
  | _ => decide

theorem handshakeModeValue_string {mode : HandshakeMode} (h : mode.Named) :
    mode.string ≠ [] ∧ handshakeModeValue mode.string = mode := by
  cases mode with
  | other number unnamed => exact h.elim
  | _ => decide

@[simp] theorem Values.all_append (left right : Values) (key : Bytes) :
    Values.all (left ++ right) key = left.all key ++ right.all key :=
  List.filterMap_append

@[simp] theorem Values.all_cons (entry : Bytes × Bytes) (rest : Values) (key : Bytes) :
    Values.all (entry :: rest) key =
      if entry.1 = key then entry.2 :: Values.all rest key else Values.all rest key := by
  rw [Values.all, List.filterMap_cons]
  split <;> rename_i h <;> split at h <;> simp_all [Values.all]

@[simp] theorem Values.all_nil (key : Bytes) : Values.all [] key = [] := rfl

@[simp] theorem all_optionalValue {α : Type} (other : Bytes) (field : Option α)
    (text : α → Bytes) (key : Bytes) : (optionalValue other field text).all key =
      if other = key then (field.map text).toList else [] := by
  cases field <;> simp [optionalValue]

@[simp] theorem all_bindingValues (bindings : List PortBinding) (key : Bytes) :
    Values.all (bindings.flatMap bindingValues) key =
      if portKey = key then bindings.map linkPort
      else if protocolKey = key then bindings.map protocolName else [] := by
  have hkeys : portKey ≠ protocolKey := by decide
  induction bindings with
  | nil => simp
  | cons binding rest ih =>
    rw [List.flatMap_cons, Values.all_append, ih]
    by_cases hport : portKey = key
    · subst hport
      simp [bindingValues, hkeys.symm]
    · by_cases hprotocol : protocolKey = key
      · simp [bindingValues, hport, hprotocol, protocolName]
      · simp [bindingValues, hport, hprotocol]

theorem all_linkValues (profile : ClientProfile) (pattern : Option Bytes)
    (bindings : List PortBinding) :
    (linkValues profile pattern bindings).all profileKey = [profile.getProfileName] ∧
      (linkValues profile pattern bindings).all mtuKey = (profile.mtu.map formatInt).toList ∧
      (linkValues profile pattern bindings).all multiplexingKey =
        (profile.level.map MultiplexingLevel.string).toList ∧
      (linkValues profile pattern bindings).all handshakeModeKey =
        (profile.handshakeMode.map HandshakeMode.string).toList ∧
      (linkValues profile pattern bindings).all trafficPatternKey = pattern.toList ∧
      (linkValues profile pattern bindings).all portKey = bindings.map linkPort ∧
      (linkValues profile pattern bindings).all protocolKey = bindings.map protocolName := by
  simp +decide [linkValues]

/-! ## Hosts -/

section

variable {Link Query : Type} {net : NetURL Link Query}

/-- What is assumed of `net/url` and `net.ParseIP`. -/
structure NetURL.Lawful (net : NetURL Link Query) : Prop where
  parse_string : ∀ profile host values, net.parse (net.string (linkURL net profile host values)) =
      if net.acceptsHost host then some (linkURL net profile host values)
      else none
  parseQuery_encode : ∀ values, ∃ read,
    net.parseQuery (net.encode values) = some read ∧ read.all = values.all
  no_bracket : ∀ text ip, net.parseIP text = some ip →
    openBracket ∉ text ∧ closeBracket ∉ text
  /-- An address in the notation with colons has two of them. -/
  two_colons : ∀ text ip, net.parseIP text = some ip → colon ∈ text → 2 ≤ text.count colon
  /-- Without a colon it is in the notation with dots. -/
  dotted : ∀ text ip, net.parseIP text = some ip → colon ∉ text →
    ip.to4 ≠ none ∧ net.acceptsHost text = true
  bracketed : ∀ text ip, net.parseIP text = some ip → colon ∈ text →
    net.acceptsHost (openBracket :: (text ++ [closeBracket])) = true

/-- A name that `net/url` accepts and gives back as it is. -/
def NetURL.Unchanged (net : NetURL Link Query) (name : Bytes) : Prop :=
  net.acceptsHost name = true ∧ hostname name = name

def PlainAddress (net : NetURL Link Query) (server : ServerEndpoint) : Prop :=
  server.getDomainName = [] → ∀ ip, net.parseIP server.getIpAddress = some ip →
    ip.to4 ≠ none → colon ∉ server.getIpAddress

theorem head_ne_of_not_mem {byte : UInt8} (h : byte ∉ text) : text.head? ≠ some byte := by
  intro hhead
  exact h (List.mem_of_mem_head? hhead)

theorem hostname_of_no_colon (hcolon : colon ∉ text)
    (hopen : openBracket ∉ text) : hostname text = text := by
  have hport : withoutPort text = text := by
    unfold withoutPort
    rw [splitLast_of_not_mem hcolon]
  rw [hostname, hport]
  exact if_neg (fun h => head_ne_of_not_mem hopen h.1)

theorem withoutPort_bracketed (text : Bytes) :
    withoutPort (openBracket :: (text ++ [closeBracket])) =
      openBracket :: (text ++ [closeBracket]) := by
  unfold withoutPort
  split
  · rename_i front port hsplit
    obtain ⟨heq, -⟩ := splitLast_eq_some hsplit
    have hlast := congrArg List.getLast? heq
    refine if_neg ?_
    intro hdigits
    cases port with
    | nil =>
      have hbyte : some closeBracket = some colon := by
        simpa [List.getLast?_cons, List.getLast?_append] using hlast
      cases hbyte
    | cons byte rest =>
      have hmem : closeBracket ∈ byte :: rest := by
        apply List.mem_of_getLast?
        simpa [List.getLast?_cons, List.getLast?_append] using hlast.symm
      cases List.all_eq_true.mp hdigits closeBracket hmem
  · rfl

theorem hostname_bracketed (text : Bytes) :
    hostname (openBracket :: (text ++ [closeBracket])) = text := by
  rw [hostname, withoutPort_bracketed, withoutBrackets, if_pos]
  · simp
  · simp [List.getLast?_cons]

theorem splitHostPort_of_parseIP (hlaw : net.Lawful) (h : net.parseIP text = some ip) :
    splitHostPort text = none := by
  unfold splitHostPort
  cases hsplit : splitLast colon text with
  | none => rfl
  | some parts =>
    obtain ⟨front, port⟩ := parts
    obtain ⟨heq, hport⟩ := splitLast_eq_some hsplit
    have hcount := hlaw.two_colons text ip h (by simp [heq])
    have hfront : colon ∈ front := by
      rw [heq, List.count_append, List.count_cons_self,
        List.count_eq_zero_of_not_mem hport] at hcount
      exact List.count_pos_iff.mp (by omega)
    dsimp only
    rw [if_neg (head_ne_of_not_mem (hlaw.no_bracket text ip h).1), if_pos (.inl hfront)]

theorem isIPv6_eq (hlaw : net.Lawful) (h : net.parseIP text = some ip) :
    isIPv6 net text = ip.to4.isNone := by
  unfold isIPv6
  rw [splitHostPort_of_parseIP hlaw h]
  dsimp only
  rw [h]

theorem unchanged_decorated (hlaw : net.Lawful) (h : net.parseIP text = some ip)
    (hplain : ip.to4 ≠ none → colon ∉ text) : net.acceptsHost (maybeDecorateIPv6 net text) = true ∧
      hostname (maybeDecorateIPv6 net text) = text := by
  unfold maybeDecorateIPv6
  rw [isIPv6_eq hlaw h]
  by_cases hcolon : colon ∈ text
  · have hto4 : ip.to4 = none := by
      by_contra hto4
      exact hplain hto4 hcolon
    rw [hto4, Option.isNone_none, if_pos rfl]
    exact ⟨hlaw.bracketed text ip h hcolon, hostname_bracketed text⟩
  · obtain ⟨hto4, haccepts⟩ := hlaw.dotted text ip h hcolon
    rw [Option.isNone_eq_false_iff.mpr (Option.isSome_iff_ne_none.mpr hto4),
      if_neg Bool.false_ne_true]
    exact ⟨haccepts, hostname_of_no_colon hcolon (hlaw.no_bracket text ip h).1⟩

theorem linkHost_eq_ok (hlaw : net.Lawful) (hvalid : server.Valid net.parseIP)
    (hname : server.getDomainName ≠ [] → net.Unchanged server.getDomainName)
    (hplain : PlainAddress net server) (profile : ClientProfile) :
    ∃ host, linkHost net profile server = .ok host ∧ net.acceptsHost host = true ∧
      hostname host = server.host ∧ server.host ≠ [] := by
  unfold linkHost ServerEndpoint.host
  by_cases hdomain : server.getDomainName ≠ []
  · rw [if_pos hdomain, if_pos hdomain]
    exact ⟨_, rfl, (hname hdomain).1, (hname hdomain).2, hdomain⟩
  · have haddress : server.getIpAddress ≠ [] := hvalid.host.resolve_right hdomain
    obtain ⟨ip, hip⟩ := hvalid.ip haddress
    obtain ⟨haccepts, hsame⟩ := unchanged_decorated hlaw hip (hplain (not_not.mp hdomain) ip hip)
    rw [if_neg hdomain, if_neg hdomain, if_pos haddress]
    exact ⟨_, rfl, haccepts, hsame, haddress⟩

end

/-! ## Settings -/

section

variable {Link Query : Type} {net : NetURL Link Query} {codec : PatternCodec}
  {pattern : Option TrafficPattern}

/-- What is assumed of base64 and of `proto` for the empty message. -/
structure PatternCodec.Lawful (codec : PatternCodec) : Prop where
  decode_encode : ∀ bytes, codec.decodeString (codec.encodeToString bytes) = some bytes
  encode_nil : codec.encodeToString [] = []
  unmarshal_nil : codec.unmarshal [] = some {}

/-- The message is marshalled, and unmarshalled to itself. -/
def PatternCodec.RoundTrips (codec : PatternCodec) (pattern : TrafficPattern) : Prop :=
  ∃ bytes, codec.marshal pattern = some bytes ∧ codec.unmarshal bytes = some pattern

theorem readPattern_patternText (hlaw : codec.Lawful)
    (htrip : ∀ tp, pattern = some tp → codec.RoundTrips tp) :
    ∃ text read, patternText codec pattern = .ok text ∧
      readPattern codec (text.toList.headD []) = .ok read ∧ read.getD {} = pattern.getD {} := by
  cases pattern with
  | none => exact ⟨none, none, rfl, rfl, rfl⟩
  | some tp =>
    obtain ⟨bytes, hmarshal, hunmarshal⟩ := htrip tp rfl
    have htext : patternText codec (some tp) = .ok (some (codec.encodeToString bytes)) := by
      unfold patternText
      dsimp only
      rw [hmarshal]
    by_cases hempty : codec.encodeToString bytes = []
    · -- then it is the empty message
      have hbytes := hlaw.decode_encode bytes
      rw [hempty, ← hlaw.encode_nil, hlaw.decode_encode] at hbytes
      cases hbytes
      rw [hlaw.unmarshal_nil, Option.some_inj] at hunmarshal
      refine ⟨_, none, htext, ?_, hunmarshal⟩
      rw [Option.toList_some, List.headD_cons, readPattern, if_pos hempty]
    · refine ⟨_, some tp, htext, ?_, rfl⟩
      rw [Option.toList_some, List.headD_cons, readPattern, if_neg hempty, hlaw.decode_encode]
      dsimp only
      rw [hunmarshal]

theorem readMtu_format {mtu : Option Int}
    (h : mtu.getD 0 = 0 ∨ 1280 ≤ mtu.getD 0 ∧ mtu.getD 0 ≤ 1500) :
    readMtu ((mtu.map formatInt).toList.headD []) = .ok mtu := by
  cases mtu with
  | none => rfl
  | some mtu =>
    rw [Option.getD_some] at h
    rw [Option.map_some, Option.toList_some, List.headD_cons, readMtu,
      if_neg (formatInt_ne_nil mtu),
      parseInt_formatInt (by omega) (by omega)]
    dsimp only
    rw [int32_of_range (by omega) (by omega)]

theorem readEnum_string {α : Type} {value : Bytes → α} {string : α → Bytes} {field : Option α}
    (h : ∀ x ∈ field, string x ≠ [] ∧ value (string x) = x) :
    readEnum value ((field.map string).toList.headD []) = field := by
  cases field with
  | none => rfl
  | some x =>
    obtain ⟨hne, hvalue⟩ := h x rfl
    rw [Option.map_some, Option.toList_some, List.headD_cons, readEnum, if_neg hne, hvalue]

/-- The settings that a link can carry. -/
structure Shareable (net : NetURL Link Query) (profile : ClientProfile) : Prop where
  level : profile.getLevel.Named
  handshakeMode : profile.getHandshakeMode.Named
  address : ∀ server ∈ profile.servers, PlainAddress net server
  ports : ∀ server ∈ profile.servers, ∀ binding ∈ server.portBindings, binding.OneField

/-- The profile that is read from a link, given its server and the traffic
pattern. -/
def linkedProfile (profile : ClientProfile) (server : ServerEndpoint)
    (pattern : Option TrafficPattern) : ClientProfile where
  profileName := some profile.getProfileName
  user := some { name := some profile.getUser.getName
                 password := some profile.getUser.getPassword }
  servers := [server]
  mtu := profile.mtu
  multiplexing := profile.level.map fun level => { level := some level }
  handshakeMode := profile.handshakeMode
  trafficPattern := pattern

theorem readQuery_linkValues (hvalid : profile.Valid net.parseIP) (hshare : Shareable net profile)
    {text : Option Bytes} {read : Option TrafficPattern}
    (hread : readPattern codec (text.toList.headD []) = .ok read)
    (host : Bytes) (bindings : List PortBinding) :
    readQuery net.parseIP codec profile.getUser.getName profile.getUser.getPassword host
        (linkValues profile text bindings).all =
      (bindings.map linkEntry).mapM readBinding >>= fun carried =>
        .ok (linkedProfile profile (linkServer net.parseIP host carried) read) := by
  have hlevel : ∀ level ∈ profile.level,
      level.string ≠ [] ∧ multiplexingLevelValue level.string = level := by
    intro level hset
    have hnamed := hshare.level
    rw [ClientProfile.getLevel, hset] at hnamed
    exact multiplexingLevelValue_string hnamed
  have hmode : ∀ mode ∈ profile.handshakeMode,
      mode.string ≠ [] ∧ handshakeModeValue mode.string = mode := by
    intro mode hset
    have hnamed := hshare.handshakeMode
    rw [ClientProfile.getHandshakeMode, hset] at hnamed
    exact handshakeModeValue_string hnamed
  have hname : refuse (profile.getProfileName = []) LinkError.noProfileName = .ok () :=
    refuse_eq_ok.mpr (decide_eq_false hvalid.name)
  have hzip : (bindings.map linkPort).zip (bindings.map protocolName) =
      bindings.map linkEntry := List.zip_map'
  unfold readQuery
  simp only [all_linkValues, List.headD_cons, List.length_map]
  rw [hname, readMtu_format hvalid.mtu, hread, readEnum_string hlevel, readEnum_string hmode, hzip]
  simp only [ne_eq, not_true_eq_false, decide_false]
  rfl

/-! ## The link of a server -/

structure SameSettings (read profile : ClientProfile) : Prop where
  profileName : read.getProfileName = profile.getProfileName
  userName : read.getUser.getName = profile.getUser.getName
  password : read.getUser.getPassword = profile.getUser.getPassword
  mtu : read.getMtu = profile.getMtu
  level : read.getLevel = profile.getLevel
  handshakeMode : read.getHandshakeMode = profile.getHandshakeMode
  trafficPattern : read.trafficPattern.getD {} = profile.trafficPattern.getD {}

/-- The link gives back the settings of the profile and the server. -/
def Carries (net : NetURL Link Query) (codec : PatternCodec)
    (profile : ClientProfile) (server : ServerEndpoint) (link : Link) : Prop :=
  ∃ read endpoint, urlToClientProfile net codec link = .ok read ∧
    SameSettings read profile ∧ read.servers = [endpoint] ∧
    endpoint.host = server.host ∧
    flatPortBindings endpoint.portBindings = flatPortBindings server.portBindings

/-- There are links, one for each server, and each gives it back. -/
def Shared (net : NetURL Link Query) (codec : PatternCodec) (profile : ClientProfile) : Prop :=
  ∃ links, clientProfileToMultiURLs net codec profile = .ok links ∧
    List.Forall₂ (Carries net codec profile) profile.servers links

theorem host_linkServer (parseIP : Bytes → Option IP) (hne : host ≠ [])
    (carried : List PortBinding) : (linkServer parseIP host carried).host = host ∧
      (linkServer parseIP host carried).portBindings = carried := by
  unfold linkServer
  split
  · exact ⟨rfl, rfl⟩
  · refine ⟨?_, rfl⟩
    exact if_pos hne

theorem sameSettings_linkedProfile (hpattern : pattern.getD {} = profile.trafficPattern.getD {}) :
    SameSettings (linkedProfile profile server pattern) profile := by
  refine ⟨rfl, rfl, rfl, rfl, ?_, rfl, hpattern⟩
  have hlevel : (linkedProfile profile server pattern).level = profile.level := by
    change (profile.level.map _).bind _ = profile.level
    cases profile.level <;> rfl
  rw [ClientProfile.getLevel, hlevel, ClientProfile.getLevel]

theorem urlToClientProfile_linkURL (hlaw : net.Lawful) (hvalid : profile.Valid net.parseIP)
    (hpassword : profile.getUser.getPassword ≠ []) (haccepts : net.acceptsHost host = true)
    (hhost : hostname host ≠ []) (values : Values) :
    urlToClientProfile net codec (net.string (linkURL net profile host values)) =
      readQuery net.parseIP codec profile.getUser.getName profile.getUser.getPassword
        (hostname host) values.all := by
  obtain ⟨read, hquery, hall⟩ := hlaw.parseQuery_encode values
  have hname : refuse (profile.getUser.getName = []) LinkError.noUserName = .ok () :=
    refuse_eq_ok.mpr (decide_eq_false hvalid.userName)
  have hset : refuse (profile.getUser.getPassword = []) LinkError.noPassword = .ok () :=
    refuse_eq_ok.mpr (decide_eq_false hpassword)
  have hfound : refuse (hostname host = []) LinkError.emptyHost = .ok () :=
    refuse_eq_ok.mpr (decide_eq_false hhost)
  rw [urlToClientProfile, hlaw.parse_string, if_pos haccepts]
  unfold readURL linkURL
  simp only [Option.getD_some]
  rw [hname, hset, hfound, hquery, ← hall]
  rfl

theorem exists_forall₂ {α β : Type} {R : α → β → Prop} {left : List α}
    (h : ∀ x ∈ left, ∃ y, R x y) : ∃ right, List.Forall₂ R left right := by
  induction left with
  | nil => exact ⟨[], .nil⟩
  | cons x rest ih =>
    rw [List.forall_mem_cons] at h
    obtain ⟨y, hy⟩ := h.1
    obtain ⟨right, hright⟩ := ih h.2
    exact ⟨y :: right, .cons hy hright⟩

section

variable (hlaw : net.Lawful) (hcodec : codec.Lawful) {profile : ClientProfile}
  (hpassword : profile.getUser.getPassword ≠ [])
  (htrip : ∀ pattern, profile.trafficPattern = some pattern → codec.RoundTrips pattern)
  (hnames : ∀ server ∈ profile.servers, server.getDomainName ≠ [] →
    net.Unchanged server.getDomainName)
include hlaw hcodec hpassword htrip hnames

theorem serverLink_carries (hvalid : profile.Valid net.parseIP) (hshare : Shareable net profile) :
    ∀ server ∈ profile.servers, ∃ link, serverLink net codec profile server = .ok link ∧
      Carries net codec profile server link := by
  intro server hmem
  have hserver := hvalid.server server hmem
  obtain ⟨host, hlink, haccepts, hsame, hne⟩ := linkHost_eq_ok hlaw hserver (hnames server hmem)
    (hshare.address server hmem) profile
  obtain ⟨text, read, htext, hread, hpattern⟩ := readPattern_patternText hcodec htrip
  obtain ⟨flat, hflat⟩ := hserver.flat
  obtain ⟨carried, hcarried, hports⟩ := carried_flat (hshare.ports server hmem) hflat
  obtain ⟨hlinkhost, hlinkports⟩ := host_linkServer net.parseIP hne carried
  have hwritten : serverLink net codec profile server = .ok (net.string (linkURL net profile host
      (linkValues profile text server.portBindings))) := by
    rw [serverLink, hlink, htext]
    exact except_ok_bind.mpr ⟨host, rfl, except_ok_bind.mpr
      ⟨(), refuse_eq_ok.mpr (decide_eq_false hserver.ports), rfl⟩⟩
  refine ⟨_, hwritten, linkedProfile profile (linkServer net.parseIP server.host carried) read, _,
    ?_, sameSettings_linkedProfile hpattern, rfl, hlinkhost, ?_⟩
  · rw [urlToClientProfile_linkURL hlaw hvalid hpassword haccepts (hsame ▸ hne), hsame,
      readQuery_linkValues hvalid hshare hread, hcarried]
    rfl
  · rw [hlinkports, hports, hflat]

/-- A profile that passes its checks, with a plaintext password, is shared by
its links if its values have names, no IPv4 address is written with colons, and
no binding has both a port and a port range. -/
theorem shared_of_shareable
    (hvalid : validateClientConfigSingleProfile net.parseIP profile = .ok ())
    (hshare : Shareable net profile) : Shared net codec profile := by
  have hprofile := validateClientConfigSingleProfile_eq_ok hvalid
  obtain ⟨links, hlinks⟩ := exists_forall₂
    (serverLink_carries hlaw hcodec hpassword htrip hnames hprofile hshare)
  refine ⟨links, ?_, hlinks.imp fun _ _ h => h.2⟩
  unfold clientProfileToMultiURLs
  dsimp only
  rw [refuse_eq_ok.mpr (decide_eq_false hprofile.name),
    refuse_eq_ok.mpr (decide_eq_false hprofile.userName),
    refuse_eq_ok.mpr (decide_eq_false hpassword),
    refuse_eq_ok.mpr (decide_eq_false hprofile.servers)]
  exact mapM_eq_ok.mpr (hlinks.imp fun _ _ h => h.1)

end

end

/-! ### Links that are passed on as they are -/

def plainNet : NetURL (URL Values) Values where
  string u := u
  parse u := if u.host = bytesOf "[::1]" then some u else none
  encode values := values
  parseQuery values := some values
  parseIP text := if text = bytesOf "::1" then some Socks5.IP.ipv6Loopback else none
  acceptsHost host := host = bytesOf "[::1]"

theorem plainNet_parseIP (h : plainNet.parseIP text = some ip) :
    text = bytesOf "::1" ∧ ip = Socks5.IP.ipv6Loopback := by
  simpa [plainNet, eq_comm] using h

theorem plainNet_lawful : plainNet.Lawful where
  parse_string profile host values := by simp [plainNet, linkURL]
  parseQuery_encode values := ⟨values, rfl, rfl⟩
  no_bracket text ip h := by
    obtain ⟨rfl, rfl⟩ := plainNet_parseIP h
    decide
  two_colons text ip h := by
    obtain ⟨rfl, rfl⟩ := plainNet_parseIP h
    decide
  dotted text ip h := by
    obtain ⟨rfl, rfl⟩ := plainNet_parseIP h
    decide
  bracketed text ip h := by
    obtain ⟨rfl, rfl⟩ := plainNet_parseIP h
    decide

def plainCodec : PatternCodec where
  marshal pattern := some (if pattern = {} then [] else [1])
  unmarshal bytes :=
    some (if bytes = [] then {} else { seed := some 7 })
  encodeToString bytes := bytes
  decodeString text := some text

theorem plainCodec_lawful : plainCodec.Lawful :=
  ⟨fun _ => rfl, rfl, rfl⟩

def sharedProfile (bindings : List PortBinding) : ClientProfile where
  profileName := some (bytesOf "default")
  user := some { name := some (bytesOf "alice")
                 password := some (bytesOf "secret") }
  servers := [{ ipAddress := some (bytesOf "::1"), portBindings := bindings }]
  mtu := some 1400
  multiplexing := some { level := some .high }
  trafficPattern := some { seed := some 7 }

/-- A port, and a range for the other protocol. -/
theorem shared_port_and_range :
    let profile := sharedProfile [{ port := some 443, protocol := some .tcp },
        { portRange := some (bytesOf "8000-8002"), protocol := some .udp }]
    validateClientConfigSingleProfile plainNet.parseIP profile = .ok () ∧
      Shared plainNet plainCodec profile := by
  intro profile
  have hvalid : validateClientConfigSingleProfile plainNet.parseIP profile = .ok () := by
    decide +kernel
  refine ⟨hvalid, shared_of_shareable plainNet_lawful plainCodec_lawful (by decide) ?_ ?_ hvalid
    ⟨trivial, trivial, ?_, ?_⟩⟩
  · intro pattern hpattern
    cases hpattern
    exact ⟨[1], rfl, rfl⟩
  · intro server hserver hname
    rw [List.mem_singleton.mp hserver] at hname
    exact absurd rfl hname
  · intro server hserver _ ip hip hto4
    obtain ⟨-, rfl⟩ := plainNet_parseIP hip
    exact absurd (by decide) hto4
  · intro server hserver
    rw [List.mem_singleton.mp hserver]
    exact List.forall_mem_cons.mpr ⟨.inr rfl, List.forall_mem_singleton.mpr (.inl rfl)⟩

/-- The port counts where bindings are flattened, the range in the link. -/
theorem not_shared_both :
    let profile := sharedProfile
      [{ port := some 443, portRange := some (bytesOf "8000-8002")
         protocol := some .tcp }]
    validateClientConfigSingleProfile plainNet.parseIP profile = .ok () ∧
      profile.servers.map (fun server =>
        flatPortBindings server.portBindings) =
        [.ok [portBinding .tcp 443]] ∧
      ((clientProfileToMultiURLs plainNet plainCodec profile).bind fun links =>
        links.mapM (urlToClientProfile plainNet plainCodec)).map (fun reads =>
          reads.flatMap fun read => read.servers.map fun server =>
            flatPortBindings server.portBindings) =
        .ok [.ok [portBinding .tcp 8000, portBinding .tcp 8001, portBinding .tcp 8002]] := by
  decide +kernel

end Mieru.Appctlpb
