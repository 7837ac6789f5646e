import Mieru.Cipher.UserLookup
import Mieru.Foundation.KeyedList
import Mieru.Foundation.Text
import Mieru.Socks5.Address

/-!
# The server configuration

The messages of `servercfg.proto` with the presence of their fields, the checks
of `ValidateServerConfigPatch`, the merge, and the store.  Texts are byte
strings; a repeated field is empty exactly if it is not set.  An enumeration is
open: numbers without a name can be set.
-/

namespace Mieru.Appctlpb

open Mieru.Foundation
open Mieru.Cipher

inductive TransportProtocol where
  | unknown
  | udp
  | tcp
  | other (number : Int)
  deriving DecidableEq

structure PortBinding where
  port : Option Int := none
  protocol : Option TransportProtocol := none
  portRange : Option Bytes := none
  deriving DecidableEq

structure Quota where
  days : Option Int := none
  megabytes : Option Int := none
  deriving DecidableEq

structure User where
  name : Option Bytes := none
  password : Option Bytes := none
  hashedPassword : Option Bytes := none
  quotas : List Quota := []
  allowPrivateIP : Option Bool := none
  allowLoopbackIP : Option Bool := none
  deriving DecidableEq

def User.getName (user : User) : Bytes := user.name.getD []

def User.getPassword (user : User) : Bytes := user.password.getD []

def User.getHashedPassword (user : User) : Bytes := user.hashedPassword.getD []

structure AdvancedSettings where
  metricsLoggingInterval : Option Bytes := none
  userHintIsMandatory : Option Bool := none
  deriving DecidableEq

inductive LoggingLevel where
  | default
  | fatal
  | error
  | warn
  | info
  | debug
  | trace
  | other (number : Int)
  deriving DecidableEq

structure Auth where
  user : Option Bytes := none
  password : Option Bytes := none
  deriving DecidableEq

inductive ProxyProtocol where
  | unknown
  | socks5
  | other (number : Int)
  deriving DecidableEq

structure EgressProxy where
  name : Option Bytes := none
  protocol : Option ProxyProtocol := none
  host : Option Bytes := none
  port : Option Int := none
  socks5Authentication : Option Auth := none
  deriving DecidableEq

inductive EgressAction where
  | proxy
  | direct
  | reject
  | other (number : Int)
  deriving DecidableEq

structure EgressRule where
  ipRanges : List Bytes := []
  domainNames : List Bytes := []
  action : Option EgressAction := none
  proxyNames : List Bytes := []
  deriving DecidableEq

structure Egress where
  proxies : List EgressProxy := []
  rules : List EgressRule := []
  deriving DecidableEq

structure DNS where
  dualStack : Option Int := none
  hosts : List (Bytes × Bytes) := []
  deriving DecidableEq

structure TCPFragment where
  enable : Option Bool := none
  maxSleepMs : Option Int := none
  deriving DecidableEq

structure NoncePattern where
  type : Option Int := none
  applyToAllUDPPacket : Option Bool := none
  minLen : Option Int := none
  maxLen : Option Int := none
  customHexStrings : List Bytes := []
  deriving DecidableEq

structure TrafficPattern where
  seed : Option Int := none
  unlockAll : Option Bool := none
  tcpFragment : Option TCPFragment := none
  nonce : Option NoncePattern := none
  deriving DecidableEq

structure ServerConfig where
  portBindings : List PortBinding := []
  users : List User := []
  advancedSettings : Option AdvancedSettings := none
  loggingLevel : Option LoggingLevel := none
  mtu : Option Int := none
  egress : Option Egress := none
  dns : Option DNS := none
  trafficPattern : Option TrafficPattern := none
  deriving DecidableEq

inductive ConfigError where
  | protocolNotSet
  | invalidPort (port : Int)
  | unknownProtocol (protocol : TransportProtocol)
  | portRange (text : Bytes)
  | portNumber (text : Bytes)
  | portRangeReversed (small big : Int)
  | userNameNotSet
  | userPasswordNotSet
  | userNameTooLong
  | userPasswordTooLong
  | quotaDays (days : Int)
  | quotaMegabytes (megabytes : Int)
  | mtu (mtu : Int)
  | proxyNameEmpty
  | proxyNameDuplicate (name : Bytes)
  | proxyProtocolNotSet
  | proxyHostNotSet
  | proxyPort (port : Int)
  | proxyUserNotSet
  | proxyPasswordNotSet
  | ruleCIDR (text : Bytes)
  | ruleDomainEmpty
  | ruleDomainBegin (domain : Bytes)
  | ruleDomainEnd (domain : Bytes)
  | ruleWithoutProxy
  | ruleUndefinedProxy (name : Bytes)
  | ruleWithProxy
  | dnsDomainBegin (domain : Bytes)
  | dnsDomainEnd (domain : Bytes)
  | dnsDomainEmpty
  | dnsDuplicate (domain : Bytes)
  | dnsAddress (domain address : Bytes)
  | metricsInterval (text : Bytes)
  | metricsIntervalShort (text : Bytes)
  | maxSleepNegative (value : Int)
  | maxSleepLarge (value : Int)
  | minLenNegative (value : Int)
  | minLenLarge (value : Int)
  | maxLenNegative (value : Int)
  | maxLenLarge (value : Int)
  | lensReversed (minLen maxLen : Int)
  | hexString (index : Nat) (text : Bytes)
  | hexLength (index : Nat) (length : Nat)
  | emptyConfig
  | portBindingNotSet
  deriving DecidableEq

structure Parsers where
  parseCIDR : Bytes → Bool
  parseIP : Bytes → Option Socks5.IP
  /-- In nanoseconds. -/
  parseDuration : Bytes → Option Int
  toLower : Bytes → Bytes

def check (failed : Bool) (err : ConfigError) : Except ConfigError Unit :=
  if failed then .error err else .ok ()

theorem check_eq_ok {failed : Bool} {err : ConfigError} :
    check failed err = .ok () ↔ failed = false := by
  cases failed <;> simp [check]

/-- Both numbers of a range such as `8000-9000`. -/
def splitPortRange (text : Bytes) : Option (Bytes × Bytes) :=
  match text.splitOn 45 with
  | [small, big] =>
    if small ≠ [] ∧ big ≠ [] ∧ small.all isDigitByte ∧ big.all isDigitByte then
      some (small, big)
    else none
  | _ => none

def atoi (text : Bytes) : Except ConfigError Int :=
  match parseInt text with
  | some n => .ok n
  | none => .error (.portNumber text)

def bindingPorts (binding : PortBinding) : Except ConfigError (List Int) := do
  let port := binding.port.getD 0
  if port ≠ 0 then
    check (port < 1 || port > 65535) (.invalidPort port)
    return [port]
  else
    match splitPortRange (binding.portRange.getD []) with
    | none => .error (.portRange (binding.portRange.getD []))
    | some (small, big) =>
      let small ← atoi small
      let big ← atoi big
      check (small < 1 || small > 65535) (.invalidPort small)
      check (big < 1 || big > 65535) (.invalidPort big)
      check (small > big) (.portRangeReversed small big)
      return (List.range (big - small + 1).toNat).map fun i => small + i

def flatPortBinding (binding : PortBinding) : Except ConfigError (List Int × List Int) := do
  let protocol := binding.protocol.getD .unknown
  check (protocol = .unknown) .protocolNotSet
  let ports ← bindingPorts binding
  match protocol with
  | .tcp => return (ports, [])
  | .udp => return ([], ports)
  | other => .error (.unknownProtocol other)

def sortedPorts (ports : List Int) : List Int :=
  ports.dedup.insertionSort (· ≤ ·)

def flatPortBindings (bindings : List PortBinding) : Except ConfigError (List PortBinding) := do
  let ports ← bindings.mapM flatPortBinding
  let binding (protocol : TransportProtocol) (port : Int) : PortBinding :=
    { port := some port, protocol := some protocol }
  return (sortedPorts (ports.flatMap Prod.fst)).map (binding .tcp) ++
    (sortedPorts (ports.flatMap Prod.snd)).map (binding .udp)

def validateQuota (quota : Quota) : Except ConfigError Unit := do
  check (quota.days.getD 0 ≤ 0) (.quotaDays (quota.days.getD 0))
  check (quota.megabytes.getD 0 ≤ 0) (.quotaMegabytes (quota.megabytes.getD 0))

def validateServerConfigSingleUser (user : User) : Except ConfigError Unit := do
  check (user.getName = []) .userNameNotSet
  check (user.getPassword = [] && user.getHashedPassword = []) .userPasswordNotSet
  check (user.getName.length > 64) .userNameTooLong
  check (user.getPassword ≠ [] && user.getPassword.length > 64) .userPasswordTooLong
  user.quotas.forM validateQuota

def validateMTU (mtu : Int) : Except ConfigError Unit :=
  check (mtu ≠ 0 && (mtu < 1280 || mtu > 1500)) (.mtu mtu)

def validateProxy (used : List Bytes) (proxy : EgressProxy) :
    Except ConfigError Unit := do
  let name := proxy.name.getD []
  check (name = []) .proxyNameEmpty
  check (name ∈ used) (.proxyNameDuplicate name)
  check (proxy.protocol.getD .unknown = .unknown) .proxyProtocolNotSet
  check (proxy.host.getD [] = []) .proxyHostNotSet
  let port := proxy.port.getD 0
  check (port < 1 || port > 65535) (.proxyPort port)
  let auth := proxy.socks5Authentication.getD {}
  let hasUser := auth.user.getD [] ≠ []
  let hasPassword := auth.password.getD [] ≠ []
  check (!hasUser && hasPassword) .proxyUserNotSet
  check (hasUser && !hasPassword) .proxyPasswordNotSet

def validateProxies : List Bytes → List EgressProxy → Except ConfigError Unit
  | _, [] => .ok ()
  | used, proxy :: proxies => do
      validateProxy used proxy
      validateProxies (proxy.name.getD [] :: used) proxies

def validateDomain (domain : Bytes) : Except ConfigError Unit := do
  check (domain = []) .ruleDomainEmpty
  check (domain.head? = some 46) (.ruleDomainBegin domain)
  check (domain.getLast? = some 46) (.ruleDomainEnd domain)

section

variable (parsers : Parsers)

def validateRule (proxyNames : List Bytes) (rule : EgressRule) :
    Except ConfigError Unit := do
  rule.ipRanges.forM fun ipRange =>
    check (ipRange ≠ [42] && !parsers.parseCIDR ipRange) (.ruleCIDR ipRange)
  rule.domainNames.forM validateDomain
  if rule.action.getD .proxy = .proxy then
    check (rule.proxyNames = []) .ruleWithoutProxy
    rule.proxyNames.forM fun name =>
      check (name ∉ proxyNames) (.ruleUndefinedProxy name)
  else check (rule.proxyNames ≠ []) .ruleWithProxy

def validateEgress (egress : Egress) : Except ConfigError Unit := do
  validateProxies [] egress.proxies
  egress.rules.forM (validateRule parsers (egress.proxies.map fun proxy => proxy.name.getD []))

def normalizeDomainName (host : Bytes) : Bytes :=
  let lower := parsers.toLower host
  if lower.getLast? = some 46 then lower.dropLast else lower

def transformDNSHosts : List (Bytes × Socks5.IP) → List (Bytes × Bytes) →
    Except ConfigError (List (Bytes × Socks5.IP))
  | hosts, [] => .ok hosts
  | hosts, (domain, address) :: rest => do
      check (domain.head? = some 46) (.dnsDomainBegin domain)
      check (domain.getLast? = some 46) (.dnsDomainEnd domain)
      let name := normalizeDomainName parsers domain
      check (name = []) .dnsDomainEmpty
      check (hosts.any fun host => host.1 = name) (.dnsDuplicate domain)
      match parsers.parseIP address with
      | none => .error (.dnsAddress domain address)
      | some ip => transformDNSHosts (hosts ++ [(name, ip)]) rest

def validateAdvancedSettings (settings : AdvancedSettings) :
    Except ConfigError Unit := do
  let text := settings.metricsLoggingInterval.getD []
  if text ≠ [] then
    match parsers.parseDuration text with
    | none => .error (.metricsInterval text)
    | some d => check (d < 1000000000) (.metricsIntervalShort text)

def validateTCPFragment (fragment : TCPFragment) : Except ConfigError Unit := do
  match fragment.maxSleepMs with
  | none => return
  | some ms =>
    check (ms < 0) (.maxSleepNegative ms)
    check (ms > 100) (.maxSleepLarge ms)

def validateLen (len : Option Int) (negative large : Int → ConfigError) :
    Except ConfigError Unit := do
  match len with
  | none => return
  | some len =>
    check (len < 0) (negative len)
    check (len > 12) (large len)

def validateHexString (index : Nat) (text : Bytes) : Except ConfigError Unit :=
  match hexDecode (text.map fun byte => Char.ofNat byte.toNat) with
  | none => .error (.hexString index text)
  | some decoded => check (decoded.length > 12) (.hexLength index decoded.length)

def validateNoncePattern (nonce : NoncePattern) : Except ConfigError Unit := do
  validateLen nonce.minLen .minLenNegative .minLenLarge
  validateLen nonce.maxLen .maxLenNegative .maxLenLarge
  match nonce.minLen, nonce.maxLen with
  | some minLen, some maxLen =>
    check (minLen > maxLen) (.lensReversed minLen maxLen)
  | _, _ => pure ()
  nonce.customHexStrings.zipIdx.forM fun (text, index) =>
    validateHexString index text

def validateTrafficPattern (pattern : TrafficPattern) :
    Except ConfigError Unit := do
  validateTCPFragment (pattern.tcpFragment.getD {})
  validateNoncePattern (pattern.nonce.getD {})

def validateServerConfigPatch (patch : ServerConfig) :
    Except ConfigError Unit := do
  let _ ← flatPortBindings patch.portBindings
  patch.users.forM validateServerConfigSingleUser
  validateMTU (patch.mtu.getD 0)
  validateEgress parsers (patch.egress.getD {})
  let _ ← transformDNSHosts parsers [] (patch.dns.getD {}).hosts
  validateAdvancedSettings parsers (patch.advancedSettings.getD {})
  validateTrafficPattern (patch.trafficPattern.getD {})

def validateFullServerConfig (config : ServerConfig) :
    Except ConfigError Unit := do
  validateServerConfigPatch parsers config
  check (config = {}) .emptyConfig
  check (config.portBindings = []) .portBindingNotSet

end

/-- What `proto` calls the value of a field that may be absent. -/
def either {α : Type} (src dst : Option α) : Option α :=
  if src.isSome then src else dst

def mergeServerConfig (dst src : ServerConfig) : ServerConfig where
  portBindings :=
    if src.portBindings ≠ [] then src.portBindings else dst.portBindings
  users := KeyedList.merge User.getName dst.users src.users
  advancedSettings := either src.advancedSettings dst.advancedSettings
  -- These two are set in every case.
  loggingLevel := some ((either src.loggingLevel dst.loggingLevel).getD .default)
  mtu := some ((either src.mtu dst.mtu).getD 0)
  egress := either src.egress dst.egress
  dns := either src.dns dst.dns
  trafficPattern := either src.trafficPattern dst.trafficPattern

section

variable (crypto : Crypto)

def hashUserPassword (user : User) : User :=
  if user.getPassword = [] then user
  else
    { user with
      hashedPassword :=
        some (hexEncode (hashPassword crypto user.getPassword user.getName))
      password := some [] }

def storeServerConfig (config : ServerConfig) : ServerConfig :=
  { config with users := config.users.map (hashUserPassword crypto) }

@[simp] theorem getName_hashUserPassword (user : User) :
    (hashUserPassword crypto user).getName = user.getName := by
  unfold hashUserPassword
  split <;> rfl

end

end Mieru.Appctlpb
