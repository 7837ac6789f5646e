import Mieru.Foundation.HostPort
import Mieru.Server.ClientProfile

/-!
# Sharing links

`ClientProfileToMultiURLs` writes a profile as one URL for each server, and
`URLToClientProfile` reads such a URL.  The functions of `net/url`, `net` and
`proto` are parameters; texts of links and of queries are only passed between
them, so their types are arbitrary.
-/

namespace Mieru.Appctlpb

open Mieru.Foundation
open Mieru.Socks5 (IP)

structure Userinfo where
  username : Bytes
  password : Option Bytes
  deriving DecidableEq

structure URL (Query : Type) where
  scheme : Bytes
  opaquePart : Bytes := []
  user : Option Userinfo
  host : Bytes
  rawQuery : Query

/-- `url.Values`, in the order in which they were added. -/
abbrev Values := List (Bytes × Bytes)

def Values.all (values : Values) (key : Bytes) : List Bytes :=
  values.filterMap fun entry => if entry.1 = key then some entry.2 else none

def withoutPort (host : Bytes) : Bytes :=
  match splitLast colon host with
  | some (front, port) => if port.all isDigitByte then front else host
  | none => host

def withoutBrackets (host : Bytes) : Bytes :=
  if host.head? = some openBracket ∧ host.getLast? = some closeBracket then
    host.tail.dropLast
  else host

/-- The `Hostname` of a URL with this host. -/
def hostname (host : Bytes) : Bytes := withoutBrackets (withoutPort host)

def mierus : Bytes := bytesOf "mierus"

structure NetURL (Link Query : Type) where
  parse : Link → Option (URL Query)
  string : URL Query → Link
  parseQuery : Query → Option Values
  encode : Values → Query
  parseIP : Bytes → Option IP
  /-- The hosts that are read back as they were written; a URL with another
  host is rejected. -/
  acceptsHost : Bytes → Bool

structure PatternCodec where
  marshal : TrafficPattern → Option Bytes
  unmarshal : Bytes → Option TrafficPattern
  encodeToString : Bytes → Bytes
  decodeString : Bytes → Option Bytes

def MultiplexingLevel.string : MultiplexingLevel → Bytes
  | .default => bytesOf "MULTIPLEXING_DEFAULT"
  | .off => bytesOf "MULTIPLEXING_OFF"
  | .low => bytesOf "MULTIPLEXING_LOW"
  | .middle => bytesOf "MULTIPLEXING_MIDDLE"
  | .high => bytesOf "MULTIPLEXING_HIGH"
  | .other number _ => formatInt number

def HandshakeMode.string : HandshakeMode → Bytes
  | .default => bytesOf "HANDSHAKE_DEFAULT"
  | .standard => bytesOf "HANDSHAKE_STANDARD"
  | .noWait => bytesOf "HANDSHAKE_NO_WAIT"
  | .other number _ => formatInt number

def TransportProtocol.string : TransportProtocol → Bytes
  | .unknown => bytesOf "UNKNOWN_TRANSPORT_PROTOCOL"
  | .udp => bytesOf "UDP"
  | .tcp => bytesOf "TCP"
  | .other number => formatInt number

def enumValue {α : Type} (first : α) (others : List α) (string : α → Bytes) (name : Bytes) : α :=
  ((first :: others).find? fun value => string value = name).getD first

def multiplexingLevelValue : Bytes → MultiplexingLevel :=
  enumValue .default [.off, .low, .middle, .high] MultiplexingLevel.string

def handshakeModeValue : Bytes → HandshakeMode :=
  enumValue .default [.standard, .noWait] HandshakeMode.string

def transportProtocolValue : Bytes → TransportProtocol :=
  enumValue .unknown [.udp, .tcp] TransportProtocol.string

inductive LinkError where
  | profileNameEmpty
  | userNameEmpty (profile : Bytes)
  | passwordEmpty (profile : Bytes)
  | noServer (profile : Bytes)
  | noHost (profile : Bytes)
  | noPortBindings (profile host : Bytes)
  | marshal
  | parse
  | scheme (scheme : Bytes)
  | opaqueURL
  | noUserInfo
  | noUserName
  | noPassword
  | emptyHost
  | query
  | noProfileName
  | mtu (text : Bytes)
  | base64
  | unmarshal
  | portMismatch
  | portOrRange (text : Bytes)
  | rangeBegin (text : Bytes)
  | rangeEnd (text : Bytes)
  | beginPort (port : Int)
  | endPort (port : Int)
  | reversed (first last : Int)
  | portNumber (port : Int)
  deriving DecidableEq

def profileKey : Bytes := bytesOf "profile"
def mtuKey : Bytes := bytesOf "mtu"
def multiplexingKey : Bytes := bytesOf "multiplexing"
def handshakeModeKey : Bytes := bytesOf "handshake-mode"
def trafficPatternKey : Bytes := bytesOf "traffic-pattern"
def portKey : Bytes := bytesOf "port"
def protocolKey : Bytes := bytesOf "protocol"

def linkPort (binding : PortBinding) : Bytes :=
  if binding.portRange.getD [] ≠ [] then binding.portRange.getD []
  else formatInt (binding.port.getD 0)

def bindingValues (binding : PortBinding) : Values :=
  [(portKey, linkPort binding), (protocolKey, (binding.protocol.getD .unknown).string)]

def optionalValue {α : Type} (key : Bytes) (field : Option α) (text : α → Bytes) : Values :=
  match field with
  | none => []
  | some value => [(key, text value)]

section

variable {Link Query : Type} (net : NetURL Link Query) (codec : PatternCodec)

def isIPv6 (addr : Bytes) : Bool :=
  let host :=
    match splitHostPort addr with
    | some (host, _) => host
    | none => addr
  match net.parseIP host with
  | none => false
  | some ip => ip.to4.isNone

def maybeDecorateIPv6 (addr : Bytes) : Bytes :=
  if isIPv6 net addr then openBracket :: (addr ++ [closeBracket]) else addr

def patternText (pattern : Option TrafficPattern) : Except LinkError (Option Bytes) :=
  match pattern with
  | none => .ok none
  | some pattern =>
    match codec.marshal pattern with
    | none => .error .marshal
    | some bytes => .ok (some (codec.encodeToString bytes))

def linkValues (profile : ClientProfile) (pattern : Option Bytes)
    (bindings : List PortBinding) : Values :=
  [(profileKey, profile.getProfileName)] ++ optionalValue mtuKey profile.mtu formatInt ++
    optionalValue multiplexingKey profile.level MultiplexingLevel.string ++
    optionalValue handshakeModeKey profile.handshakeMode HandshakeMode.string ++
    optionalValue trafficPatternKey pattern (fun text => text) ++
    bindings.flatMap bindingValues

def linkHost (profile : ClientProfile) (server : ServerEndpoint) : Except LinkError Bytes :=
  if server.getDomainName ≠ [] then .ok server.getDomainName
  else if server.getIpAddress ≠ [] then
    .ok (maybeDecorateIPv6 net server.getIpAddress)
  else .error (.noHost profile.getProfileName)

def linkURL (profile : ClientProfile) (host : Bytes) (values : Values) : URL Query where
  scheme := mierus
  user := some ⟨profile.getUser.getName, some profile.getUser.getPassword⟩
  host := host
  rawQuery := net.encode values

def serverLink (profile : ClientProfile) (server : ServerEndpoint) :
    Except LinkError Link := do
  let host ← linkHost net profile server
  refuse (server.portBindings = []) (.noPortBindings profile.getProfileName host)
  let pattern ← patternText codec profile.trafficPattern
  return net.string (linkURL net profile host (linkValues profile pattern server.portBindings))

def clientProfileToMultiURLs (profile : ClientProfile) : Except LinkError (List Link) := do
  let name := profile.getProfileName
  refuse (name = []) .profileNameEmpty
  refuse (profile.getUser.getName = []) (.userNameEmpty name)
  refuse (profile.getUser.getPassword = []) (.passwordEmpty name)
  refuse (profile.servers = []) (.noServer name)
  profile.servers.mapM (serverLink net codec profile)

end

def int32 (n : Int) : Int := n.bmod 4294967296

def readMtu (text : Bytes) : Except LinkError (Option Int) :=
  if text = [] then .ok none
  else
    match parseInt text with
    | none => .error (.mtu text)
    | some mtu => .ok (some (int32 mtu))

def readEnum {α : Type} (value : Bytes → α) (text : Bytes) : Option α :=
  if text = [] then none else some (value text)

def readPattern (codec : PatternCodec) (text : Bytes) : Except LinkError (Option TrafficPattern) :=
  if text = [] then .ok none
  else
    match codec.decodeString text with
    | none => .error .base64
    | some bytes =>
      match codec.unmarshal bytes with
      | none => .error .unmarshal
      | some pattern => .ok (some pattern)

def readRange (first last : Int) (protocol : TransportProtocol) :
    Except LinkError PortBinding := do
  refuse (first < 1 || first > 65535) (.beginPort first)
  refuse (last < 1 || last > 65535) (.endPort last)
  refuse (first > last) (.reversed first last)
  return { portRange := some (formatInt first ++ 45 :: formatInt last)
           protocol := some protocol }

def readBinding (entry : Bytes × Bytes) : Except LinkError PortBinding :=
  let protocol := transportProtocolValue entry.2
  match parseInt entry.1 with
  | some port => do
      refuse (port < 1 || port > 65535) (.portNumber port)
      return { port := some (int32 port), protocol := some protocol }
  | none =>
    match entry.1.splitOn 45 with
    | [first, last] =>
      match parseInt first with
      | none => .error (.rangeBegin first)
      | some firstPort =>
        match parseInt last with
        | none => .error (.rangeEnd last)
        | some lastPort => readRange firstPort lastPort protocol
    | _ => .error (.portOrRange entry.1)

def linkServer (parseIP : Bytes → Option IP) (host : Bytes)
    (bindings : List PortBinding) : ServerEndpoint :=
  if (parseIP host).isSome then
    { ipAddress := some host, portBindings := bindings }
  else { domainName := some host, portBindings := bindings }

/-- The rest of `URLToClientProfile` once the query is parsed; `all` gives the
values of a key. -/
def readQuery (parseIP : Bytes → Option IP) (codec : PatternCodec)
    (user password host : Bytes) (all : Bytes → List Bytes) :
    Except LinkError ClientProfile := do
  let get key := (all key).headD []
  refuse (get profileKey = []) .noProfileName
  let mtu ← readMtu (get mtuKey)
  let level := readEnum multiplexingLevelValue (get multiplexingKey)
  let mode := readEnum handshakeModeValue (get handshakeModeKey)
  let pattern ← readPattern codec (get trafficPatternKey)
  refuse ((all portKey).length ≠ (all protocolKey).length) .portMismatch
  let bindings ← ((all portKey).zip (all protocolKey)).mapM readBinding
  return {
    profileName := some (get profileKey)
    user := some { name := some user, password := some password }
    servers := [linkServer parseIP host bindings]
    mtu := mtu
    multiplexing := level.map fun level => { level := some level }
    handshakeMode := mode
    trafficPattern := pattern }

section

variable {Link Query : Type} (net : NetURL Link Query) (codec : PatternCodec)

/-- `URLToClientProfile` once the URL is parsed. -/
def readURL (u : URL Query) : Except LinkError ClientProfile := do
  refuse (u.scheme ≠ mierus) (.scheme u.scheme)
  refuse (u.opaquePart ≠ []) .opaqueURL
  match u.user with
  | none => .error .noUserInfo
  | some user =>
    refuse (user.username = []) .noUserName
    refuse (user.password.getD [] = []) .noPassword
    refuse (hostname u.host = []) .emptyHost
    match net.parseQuery u.rawQuery with
    | none => .error .query
    | some values =>
      readQuery net.parseIP codec user.username (user.password.getD []) (hostname u.host) values.all

def urlToClientProfile (link : Link) : Except LinkError ClientProfile :=
  match net.parse link with
  | none => .error .parse
  | some u => readURL net codec u

end

end Mieru.Appctlpb
