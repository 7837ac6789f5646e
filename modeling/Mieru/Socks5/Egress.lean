import Mieru.Foundation.Outcome
import Mieru.Foundation.Text
import Mieru.Socks5.Address

/-!
# Egress decisions

`FindAction` of `egress.go`: whether a request is handled directly, forwarded
to another proxy or rejected.  The decision is made on the raw bytes of the
request; the theorems say what it means for the destination the request names.
A random choice of the source is a parameter.
-/

namespace Mieru.Socks5

open Mieru.Foundation

def wellKnownIPv4LocalDomainNames : List Bytes :=
  [bytesOf "localhost", bytesOf "localhost4", bytesOf "localhost.localdomain",
    bytesOf "localhost4.localdomain4"]

def wellKnownIPv6LocalDomainNames : List Bytes :=
  [bytesOf "localhost6", bytesOf "ip6-localhost", bytesOf "ip6-loopback",
    bytesOf "localhost6.localdomain6"]

structure User where
  allowPrivateIP : Bool := false
  allowLoopbackIP : Bool := false
  deriving DecidableEq, Repr

inductive EgressAction where
  | proxy
  | direct
  | reject
  deriving DecidableEq, Repr

/-- An entry of `ipRanges`: the star, a range that parses, or another text. -/
inductive IpRange where
  | any
  | cidr (network mask : Bytes)
  | invalid
  deriving DecidableEq, Repr

structure EgressRule where
  ipRanges : List IpRange := []
  domainNames : List Bytes := []
  action : EgressAction := .proxy
  proxyNames : List Bytes := []
  deriving DecidableEq, Repr

structure EgressProxy where
  name : Bytes
  host : Bytes
  port : Nat
  deriving DecidableEq, Repr

structure Egress where
  proxies : List EgressProxy := []
  rules : List EgressRule := []
  deriving DecidableEq, Repr

structure Action where
  action : EgressAction
  proxy : Option EgressProxy := none
  deriving DecidableEq, Repr

inductive ProxyProtocol where
  | unknown
  | socks5
  deriving DecidableEq, Repr

structure EgressInput where
  protocol : ProxyProtocol
  data : Bytes
  user : Option Bytes := none
  deriving DecidableEq, Repr

structure EgressConfig where
  users : Bytes → Option User := fun _ => none
  egress : Egress := {}
  allowLoopbackDestination : Bool := false

def wellKnownIP (domainName : Bytes) : Option IP :=
  if domainName ∈ wellKnownIPv4LocalDomainNames then
    some (IP.v4InV6 ++ [127, 0, 0, 1])
  else if domainName ∈ wellKnownIPv6LocalDomainNames then
    some IP.ipv6Loopback
  else none

def checkedIP (data : Bytes) : Outcome Empty (Option IP) :=
  (Outcome.elemAt data 3).bind fun addrType =>
    if addrType = socks5IPv4Address then
      (Outcome.slice data 4 8).bind fun ip => .ok (some ip)
    else if addrType = socks5IPv6Address then
      (Outcome.slice data 4 20).bind fun ip => .ok (some ip)
    else if addrType = socks5FQDNAddress then
      (Outcome.elemAt data 4).bind fun domainNameLength =>
      (Outcome.slice data 5 (5 + domainNameLength.toNat)).bind fun domainName =>
        .ok (wellKnownIP domainName)
    else .ok (some [])

namespace EgressConfig

def decideIP (config : EgressConfig) (user : Option Bytes) (ip : IP) : EgressAction :=
  if !ip.isPrivate && !ip.isLoopback then .direct
  else if ip.isLoopback && config.allowLoopbackDestination then .direct
  else
    match user with
    | none => .reject
    | some userName =>
      if userName = [] then .reject
      else
        match config.users userName with
        | none => .reject
        | some user =>
          if ip.isPrivate && user.allowPrivateIP then .direct
          else if ip.isLoopback && user.allowLoopbackIP then .direct
          else .reject

def rejectPrivateAndLoopbackIPAction (config : EgressConfig)
    (input : EgressInput) : Outcome Empty EgressAction :=
  (checkedIP input.data).bind fun
    | none => .ok .direct
    | some ip => .ok (config.decideIP input.user ip)

end EgressConfig

def networkNumberAndMask (network mask : Bytes) : Bytes × Bytes :=
  match IP.to4 network with
  | some ip4 =>
    if mask.length = 4 then (ip4, mask)
    else if mask.length = 16 then (ip4, mask.drop 12)
    else ([], [])
  | none => if network.length = 16 ∧ mask.length = 16 then (network, mask) else ([], [])

/-- `IPNet.Contains`. -/
def cidrContains (network mask : Bytes) (addr : IP) : Bool :=
  let (number, mask) := networkNumberAndMask network mask
  let ip := addr.to4.getD addr
  ip.length == number.length &&
    (List.zipWith (· &&& ·) number mask == List.zipWith (· &&& ·) ip mask)

def IpRange.contains (addr : IP) : IpRange → Bool
  | .any => true
  | .cidr network mask => cidrContains network mask addr
  | .invalid => false

def domainMatches (domain pattern : Bytes) : Bool :=
  pattern == bytesOf "*" || domain == pattern ||
    (bytesOf "." ++ pattern).isSuffixOf domain

def matchEgressRule (addr : Option IP) (domain : Bytes) (rule : EgressRule) : Bool :=
  match addr with
  | some addr => rule.ipRanges.any (IpRange.contains addr)
  | none => domain ≠ [] && rule.domainNames.any (domainMatches domain)

/-- The action of the first rule that matches; `pick` is `mrand.Intn`. -/
def ruleAction (egress : Egress) (pick : Nat → Nat) (addr : Option IP) (domain : Bytes) : Action :=
  match egress.rules.find? (matchEgressRule addr domain) with
  | none => { action := .direct }
  | some rule =>
    if rule.action = .proxy then
      let selectedProxyName :=
        rule.proxyNames.getD (pick rule.proxyNames.length) []
      match egress.proxies.find? (·.name == selectedProxyName) with
      | some proxy => { action := rule.action, proxy := some proxy }
      | none => { action := rule.action }
    else { action := rule.action }

namespace EgressConfig

def forwardToProxyAction (config : EgressConfig) (pick : Nat → Nat)
    (input : EgressInput) : Outcome Empty Action :=
  (Outcome.elemAt input.data 3).bind fun addrType =>
    if addrType = socks5IPv4Address then
      (Outcome.slice input.data 4 8).bind fun addr =>
        .ok (ruleAction config.egress pick (some addr) [])
    else if addrType = socks5IPv6Address then
      (Outcome.slice input.data 4 20).bind fun addr =>
        .ok (ruleAction config.egress pick (some addr) [])
    else if addrType = socks5FQDNAddress then
      (Outcome.elemAt input.data 4).bind fun domainLen =>
      (Outcome.slice input.data 5 (5 + domainLen.toNat)).bind fun domain =>
        .ok (ruleAction config.egress pick none domain)
    else .ok { action := .direct }

def findAction (config : EgressConfig) (pick : Nat → Nat)
    (input : EgressInput) : Outcome Empty Action :=
  if input.protocol ≠ .socks5 then .ok { action := .direct }
  else if input.data.length < 4 then .ok { action := .direct }
  else if byteAt input.data 0 ≠ 5 then .ok { action := .direct }
  else if byteAt input.data 1 = socks5ConnectCmd ∨ byteAt input.data 1 = socks5UDPAssociateCmd then
    (config.rejectPrivateAndLoopbackIPAction input).bind fun action =>
      if action = .reject then .ok { action := action }
      else config.forwardToProxyAction pick input
  else .ok { action := .direct }

end EgressConfig

/-- The destination is a private or loopback address or a well-known local name. -/
def AddrSpec.IsLocal (addr : AddrSpec) : Prop :=
  addr.ip.isPrivate = true ∨ addr.ip.isLoopback = true ∨ addr.fqdn ∈ wellKnownIPv4LocalDomainNames ∨
    addr.fqdn ∈ wellKnownIPv6LocalDomainNames

/-- The user may use neither private nor loopback addresses. -/
def EgressConfig.Confines (config : EgressConfig) (userName : Bytes) : Prop :=
  ∀ user, config.users userName = some user →
    user.allowPrivateIP = false ∧ user.allowLoopbackIP = false

theorem wellKnownIP_eq_some {domainName : Bytes}
    (h : domainName ∈ wellKnownIPv4LocalDomainNames ∨ domainName ∈ wellKnownIPv6LocalDomainNames) :
    ∃ ip, wellKnownIP domainName = some ip ∧ ip.isLoopback = true := by
  unfold wellKnownIP
  split
  · exact ⟨_, rfl, by decide⟩
  · rename_i hnot
    rw [if_pos (h.resolve_left hnot)]
    exact ⟨_, rfl, by decide⟩

section

variable {addr : AddrSpec} {encoded : Bytes} {command reserved : UInt8}

theorem Encodes.fqdn_eq_nil (h : Encodes addr encoded) (hip : addr.ip ≠ []) : addr.fqdn = [] := by
  cases h with
  | ipv4 ip high low hlength => rfl
  | ipv6 ip high low hlength => rfl
  | fqdn size name high low hlength => exact absurd rfl hip

theorem Encodes.slices (h : Encodes addr encoded) (command reserved : UInt8) :
    let data := 5 :: command :: reserved :: encoded
    (addr.ip ≠ [] ∧ (Outcome.elemAt data 3 : Outcome Empty UInt8) = .ok socks5IPv4Address ∧
      (Outcome.slice data 4 8 : Outcome Empty Bytes) = .ok addr.ip) ∨
    (addr.ip ≠ [] ∧ (Outcome.elemAt data 3 : Outcome Empty UInt8) = .ok socks5IPv6Address ∧
      (Outcome.slice data 4 20 : Outcome Empty Bytes) = .ok addr.ip) ∨
    (addr.ip = [] ∧ (Outcome.elemAt data 3 : Outcome Empty UInt8) = .ok socks5FQDNAddress ∧
      ∃ size : UInt8, (Outcome.elemAt data 4 : Outcome Empty UInt8) = .ok size ∧
        (Outcome.slice data 5 (5 + size.toNat) : Outcome Empty Bytes) = .ok addr.fqdn) := by
  cases h with
  | ipv4 ip high low hlength =>
    have hne : ip ≠ [] := List.ne_nil_of_length_pos (by omega)
    refine .inl ⟨hne, rfl, ?_⟩
    exact Outcome.slice_eq_ok [5, command, reserved, socks5IPv4Address] rfl rfl (by rw [hlength])
  | ipv6 ip high low hlength =>
    have hne : ip ≠ [] := List.ne_nil_of_length_pos (by omega)
    refine .inr (.inl ⟨hne, rfl, ?_⟩)
    exact Outcome.slice_eq_ok [5, command, reserved, socks5IPv6Address] rfl rfl (by rw [hlength])
  | fqdn size name high low hlength =>
    refine .inr (.inr ⟨rfl, rfl, size, rfl, ?_⟩)
    exact Outcome.slice_eq_ok [5, command, reserved, socks5FQDNAddress, size]
      rfl rfl (by rw [hlength])

theorem addrTypes_ne : socks5IPv6Address ≠ socks5IPv4Address ∧
    socks5FQDNAddress ≠ socks5IPv4Address ∧
    socks5FQDNAddress ≠ socks5IPv6Address := by decide

theorem checkedIP_of_encodes (h : Encodes addr encoded) :
    checkedIP (5 :: command :: reserved :: encoded) =
      .ok (if addr.ip = [] then wellKnownIP addr.fqdn else some addr.ip) := by
  obtain ⟨hsix, hname, hname'⟩ := addrTypes_ne
  obtain ⟨hip, htype, hslice⟩ | ⟨hip, htype, hslice⟩ |
    ⟨hip, htype, size, hsize, hslice⟩ := h.slices command reserved
  · simp [checkedIP, htype, hslice, hip]
  · simp [checkedIP, htype, hslice, hip, hsix]
  · simp [checkedIP, htype, hsize, hslice, hip, hname, hname']

theorem EgressConfig.forwardToProxyAction_of_encodes (config : EgressConfig)
    (pick : Nat → Nat) (user : Option Bytes) (h : Encodes addr encoded) :
    config.forwardToProxyAction pick ⟨.socks5, 5 :: command :: reserved :: encoded, user⟩ =
      .ok (ruleAction config.egress pick (if addr.ip = [] then none else some addr.ip)
        (if addr.ip = [] then addr.fqdn else [])) := by
  obtain ⟨hsix, hname, hname'⟩ := addrTypes_ne
  obtain ⟨hip, htype, hslice⟩ | ⟨hip, htype, hslice⟩ |
    ⟨hip, htype, size, hsize, hslice⟩ := h.slices command reserved
  · simp [forwardToProxyAction, htype, hslice, hip]
  · simp [forwardToProxyAction, htype, hslice, hip, hsix]
  · simp [forwardToProxyAction, htype, hsize, hslice, hip, hname, hname']

theorem EgressConfig.decideIP_eq_reject {config : EgressConfig} {user : Option Bytes} {ip : IP}
    (hnotest : config.allowLoopbackDestination = false)
    (hconfined : ∀ userName, user = some userName → config.Confines userName)
    (hip : ip.isPrivate = true ∨ ip.isLoopback = true) : config.decideIP user ip = .reject := by
  unfold decideIP
  rw [if_neg (by simpa using fun h => hip.resolve_left (by simp [h])), if_neg (by simp [hnotest])]
  cases user with
  | none => rfl
  | some userName =>
    dsimp only
    split
    · rfl
    split
    · rfl
    · rename_i entry hentry
      obtain ⟨hprivate, hloopback⟩ := hconfined userName rfl entry hentry
      simp [hprivate, hloopback]

theorem checkedIP_of_isLocal (command reserved : UInt8)
    (hencodes : Encodes addr encoded) (hlocal : addr.IsLocal) :
    ∃ ip, checkedIP (5 :: command :: reserved :: encoded) = .ok (some ip) ∧
      (ip.isPrivate = true ∨ ip.isLoopback = true) := by
  rw [checkedIP_of_encodes hencodes]
  by_cases hnil : addr.ip = []
  · rw [if_pos hnil]
    rw [AddrSpec.IsLocal, hnil] at hlocal
    rcases hlocal with hprivate | hloopback | hname
    · cases hprivate
    · cases hloopback
    · obtain ⟨ip, hknown, hloopback⟩ := wellKnownIP_eq_some hname
      exact ⟨ip, by rw [hknown], .inr hloopback⟩
  · rw [if_neg hnil]
    refine ⟨addr.ip, rfl, ?_⟩
    rw [AddrSpec.IsLocal, hencodes.fqdn_eq_nil hnil] at hlocal
    rcases hlocal with hprivate | hloopback | hname | hname
    · exact .inl hprivate
    · exact .inr hloopback
    · exact absurd hname (by decide)
    · exact absurd hname (by decide)

theorem EgressConfig.findAction_of_encodes (config : EgressConfig)
    (pick : Nat → Nat) (reserved : UInt8) (user : Option Bytes)
    (hcommand : command = socks5ConnectCmd ∨ command = socks5UDPAssociateCmd)
    (h : Encodes addr encoded) :
    config.findAction pick ⟨.socks5, 5 :: command :: reserved :: encoded, user⟩ =
      (config.rejectPrivateAndLoopbackIPAction
        ⟨.socks5, 5 :: command :: reserved :: encoded, user⟩).bind fun action =>
        if action = .reject then .ok { action := action }
        else config.forwardToProxyAction pick
          ⟨.socks5, 5 :: command :: reserved :: encoded, user⟩ := by
  have hlong : ¬ (5 :: command :: reserved :: encoded).length < 4 := by
    cases h <;> simp
  rw [findAction, if_neg (by simp), if_neg hlong, if_neg (by simp [byteAt]),
    if_pos (by simpa [byteAt] using hcommand)]

theorem EgressConfig.findAction_eq_ok (config : EgressConfig) (pick : Nat → Nat) (reserved : UInt8)
    (user : Option Bytes) (hcommand : command = socks5ConnectCmd ∨ command = socks5UDPAssociateCmd)
    (h : Encodes addr encoded) :
    ∃ action, config.findAction pick
      ⟨.socks5, 5 :: command :: reserved :: encoded, user⟩ = .ok action := by
  rw [config.findAction_of_encodes pick reserved user hcommand h,
    rejectPrivateAndLoopbackIPAction, checkedIP_of_encodes h,
    config.forwardToProxyAction_of_encodes pick user h]
  simp only [Outcome.ok_bind]
  split
  · simp
  · simp only [Outcome.ok_bind]
    split <;> exact ⟨_, rfl⟩

theorem EgressConfig.findAction_eq_reject {config : EgressConfig} (pick : Nat → Nat)
    (reserved : UInt8) {user : Option Bytes} (hnotest : config.allowLoopbackDestination = false)
    (hconfined : ∀ userName, user = some userName → config.Confines userName)
    (hcommand : command = socks5ConnectCmd ∨ command = socks5UDPAssociateCmd)
    (hencodes : Encodes addr encoded) (hlocal : addr.IsLocal) :
    config.findAction pick ⟨.socks5, 5 :: command :: reserved :: encoded, user⟩ =
      .ok { action := .reject } := by
  obtain ⟨ip, hchecked, hip⟩ := checkedIP_of_isLocal command reserved hencodes hlocal
  rw [config.findAction_of_encodes pick reserved user hcommand hencodes,
    rejectPrivateAndLoopbackIPAction, hchecked]
  simp [decideIP_eq_reject hnotest hconfined hip]

end

end Mieru.Socks5
