import Mieru.Socks5.Authentication
import Mieru.Socks5.Egress

/-!
# Serving a SOCKS5 connection

`serverServeConn` of `socks5.go` and the handlers of `request.go`.  What the
server does to the outside is a list of effects: the TCP connections it opens,
the proxies it forwards to and the UDP relays it starts.  The world answers
lookups, dials and listens.
-/

namespace Mieru.Socks5

open Mieru.Foundation

def socks5ReplySuccess : UInt8 := 0
def socks5ReplyNotAllowedByRuleSet : UInt8 := 2
def socks5ReplyNetworkUnreachable : UInt8 := 3
def socks5ReplyHostUnreachable : UInt8 := 4
def socks5ReplyConnectionRefused : UInt8 := 5
def socks5ReplyCommandNotSupported : UInt8 := 7
def socks5ReplyAddrTypeNotSupported : UInt8 := 8

inductive DualStackPreference where
  | useFirstIP
  | preferIPv4
  | preferIPv6
  | onlyIPv4
  | onlyIPv6
  deriving DecidableEq, Repr

inductive UDPAssociateMode where
  | packetOverStream
  | datagram
  deriving DecidableEq, Repr

structure ServerConfig extends EgressConfig where
  clientSideAuthentication : Bool := false
  ingressCredentials : List Credential := []
  dualStackPreference : DualStackPreference := .useFirstIP
  udpAssociateMode : UDPAssociateMode := .packetOverStream

inductive Destination where
  | localHost (port : Nat)
  | address (ip : IP) (port : Nat)
  | name (host : Bytes) (port : Nat)
  deriving DecidableEq, Repr

/-- The text of an address that the dialer gets prefers the IP address; the
dialer takes an empty host and the unspecified address for the local host. -/
def AddrSpec.dialed (addr : AddrSpec) : Destination :=
  if addr.ip ≠ [] then
    if addr.ip.isUnspecified then .localHost addr.port
    else .address addr.ip addr.port
  else if addr.fqdn = [] then .localHost addr.port
  else .name addr.fqdn addr.port

inductive DialError where
  | refused
  | networkUnreachable
  | other
  deriving DecidableEq, Repr

structure World where
  /-- `Resolver.LookupIP`; none is an error. -/
  lookupIP : Bytes → Option (List IP) := fun _ => none
  pick : Nat → Nat := fun _ => 0
  dial : Destination → Except DialError (IP × Nat) := fun _ => .error .other
  dialProxy : EgressProxy → Bool := fun _ => true
  listenUDP : Option (IP × Nat) := none
  connLocalIP : IP := []

inductive Effect where
  | openTCP (destination : Destination)
  | forward (proxy : EgressProxy)
  | associate (mode : UDPAssociateMode)
  deriving DecidableEq, Repr

inductive ServeError where
  | authentication (err : String)
  | readDestination (err : ReadError)
  | sendReply (err : String)
  | resolve (fqdn : Bytes)
  | addressNotFound (fqdn : Bytes)
  | noPreferredAddress (fqdn : Bytes)
  | connect (err : DialError)
  | listen
  | unsupportedCommand (command : UInt8)
  | noProxy
  | dialProxy
  | rejected
  deriving DecidableEq, Repr

structure Served where
  conn : Conn
  effects : List Effect := []
  err : Option ServeError := none
  deriving DecidableEq, Repr

def sendReply (reply : UInt8) (bindAddr : AddrSpec) : Handshake Unit :=
  match bindAddr.writeToSocks5 with
  | some bytes => Handshake.write "send reply" (5 :: reply :: 0 :: bytes)
  | none => Handshake.fail "unrecognized address type"

def noBindAddr : AddrSpec := { ip := IP.ipv4Zero }

def replyAndFail (reply : UInt8) (err : ServeError) (conn : Conn) : Served :=
  match sendReply reply noBindAddr conn with
  | (.ok (), conn) => { conn := conn, err := some err }
  | (.error text, conn) => { conn := conn, err := some (.sendReply text) }

def replyAndRun (reply : UInt8) (bindAddr : AddrSpec) (before : List Effect)
    (run : List Effect) (conn : Conn) : Served :=
  match sendReply reply bindAddr conn with
  | (.ok (), conn) => { conn := conn, effects := before ++ run }
  | (.error text, conn) =>
    { conn := conn, effects := before, err := some (.sendReply text) }

def selectIPFromList (ips : List IP) (strategy : DualStackPreference) : IP :=
  let ipv4 := (ips.find? fun ip => ip.to4.isSome).getD []
  let ipv6 := (ips.find? fun ip => ip.to4.isNone).getD []
  match strategy with
  | .preferIPv4 => if ipv4 ≠ [] then ipv4 else ipv6
  | .preferIPv6 => if ipv6 ≠ [] then ipv6 else ipv4
  | .onlyIPv4 => ipv4
  | .onlyIPv6 => ipv6
  | .useFirstIP => ips.headD []

def dialReply : DialError → UInt8
  | .refused => socks5ReplyConnectionRefused
  | .networkUnreachable => socks5ReplyNetworkUnreachable
  | .other => socks5ReplyHostUnreachable

def handleConnect (world : World) (req : Request) (conn : Conn) : Served :=
  let destination := req.dstAddr.dialed
  match world.dial destination with
  | .error err =>
    { replyAndFail (dialReply err) (.connect err) conn with
      effects := [.openTCP destination] }
  | .ok (ip, port) =>
    replyAndRun socks5ReplySuccess { ip := ip, port := port } [.openTCP destination] [] conn

def handleBind (conn : Conn) : Served :=
  replyAndRun socks5ReplyCommandNotSupported noBindAddr [] [] conn

def socks5UDPAssociateBindIP (connLocalIP udpLocalIP : IP) : IP :=
  if connLocalIP ≠ [] && !connLocalIP.isUnspecified then connLocalIP
  else if udpLocalIP ≠ [] && !udpLocalIP.isUnspecified then udpLocalIP
  else IP.ipv4Zero

def handleAssociate (config : ServerConfig) (world : World) (conn : Conn) : Served :=
  match world.listenUDP with
  | none => { conn := conn, err := some .listen }
  | some (ip, port) =>
    let bindIP :=
      match config.udpAssociateMode with
      | .packetOverStream => [0, 0, 0, 0]
      | .datagram => socks5UDPAssociateBindIP world.connLocalIP ip
    replyAndRun socks5ReplySuccess { ip := bindIP, port := port } []
      [.associate config.udpAssociateMode] conn

def runCommand (config : ServerConfig) (world : World) (req : Request) (conn : Conn) : Served :=
  if req.command = socks5ConnectCmd then handleConnect world req conn
  else if req.command = socks5BindCmd then handleBind conn
  else if req.command = socks5UDPAssociateCmd then
    handleAssociate config world conn
  else
    replyAndFail socks5ReplyCommandNotSupported (.unsupportedCommand req.command) conn

def handleRequest (config : ServerConfig) (world : World) (req : Request) (conn : Conn) : Served :=
  let dst := req.dstAddr
  if dst.fqdn = [] then runCommand config world req conn
  else
    match world.lookupIP dst.fqdn with
    | none =>
      replyAndFail socks5ReplyHostUnreachable (.resolve dst.fqdn) conn
    | some [] =>
      replyAndFail socks5ReplyHostUnreachable (.addressNotFound dst.fqdn) conn
    | some ips =>
      let ip := selectIPFromList ips config.dualStackPreference
      if ip = [] then
        replyAndFail socks5ReplyNetworkUnreachable (.noPreferredAddress dst.fqdn) conn
      else
        runCommand config world { req with dstAddr := { dst with ip := ip } } conn

/-- The dial of `handleForwarding`; afterwards bytes are only copied. -/
def handleForwarding (world : World) (proxy : EgressProxy) (conn : Conn) : Served :=
  { conn := conn
    effects := [.forward proxy]
    err := if world.dialProxy proxy then none else some .dialProxy }

def performAction (config : ServerConfig) (world : World) (req : Request)
    (action : Action) (conn : Conn) : Served :=
  match action.action with
  | .direct => handleRequest config world req conn
  | .proxy =>
    match action.proxy with
    | none => { conn := conn, err := some .noProxy }
    | some proxy => handleForwarding world proxy conn
  | .reject => replyAndFail socks5ReplyNotAllowedByRuleSet .rejected conn

def ServerConfig.authenticate (config : ServerConfig) : Handshake Unit :=
  if config.clientSideAuthentication then fun conn => (.ok (), conn)
  else handleAuthentication config.ingressCredentials

def serveRequest (config : ServerConfig) (world : World) (userName : Bytes)
    (conn : Conn) : Outcome Empty Served :=
  match Request.readFromSocks5 conn.input with
  | .error err =>
    let conn := { conn with input := [] }
    if err = .unrecognizedAddrType then
      .ok (replyAndFail socks5ReplyAddrTypeNotSupported (.readDestination err) conn)
    else .ok { conn := conn, err := some (.readDestination err) }
  | .ok (req, rest) =>
    let user := if userName = [] then none else some userName
    (config.findAction world.pick ⟨.socks5, req.raw, user⟩).bind fun action =>
      .ok (performAction config world req action { conn with input := rest })

def serverServeConn (config : ServerConfig) (world : World) (userName : Bytes)
    (conn : Conn) : Outcome Empty Served :=
  match config.authenticate conn with
  | (.error err, conn) => .ok { conn := conn, err := some (.authentication err) }
  | (.ok (), conn) => serveRequest config world userName conn

/-- The request the server reads from the connection, and the connection
after it. -/
def ServerConfig.Accepts (config : ServerConfig) (conn : Conn) (req : Request)
    (after : Conn) : Prop :=
  ∃ between rest, config.authenticate conn = (.ok (), between) ∧
    Request.readFromSocks5 between.input = .ok (req, rest) ∧
    after = { between with input := rest }

section

variable {config : ServerConfig} {world : World} {userName : Bytes}
  {conn after : Conn} {req : Request}

@[simp] theorem effects_replyAndFail (reply : UInt8) (err : ServeError) :
    (replyAndFail reply err conn).effects = [] := by
  unfold replyAndFail
  split <;> rfl

theorem serverServeConn_of_accepts (h : config.Accepts conn req after) :
    serverServeConn config world userName conn = (config.findAction world.pick ⟨.socks5, req.raw,
        if userName = [] then none else some userName⟩).bind fun action =>
          .ok (performAction config world req action after) := by
  obtain ⟨between, rest, hauth, hread, rfl⟩ := h
  simp only [serverServeConn, hauth, serveRequest, hread]

theorem mem_effects_replyAndRun {reply : UInt8} {bindAddr : AddrSpec} {before run : List Effect}
    {effect : Effect} (h : effect ∈ (replyAndRun reply bindAddr before run conn).effects) :
    effect ∈ before ++ run := by
  unfold replyAndRun at h
  split at h
  · exact h
  · exact List.mem_append_left _ h

theorem openTCP_of_handleConnect {destination : Destination}
    (h : .openTCP destination ∈ (handleConnect world req conn).effects) :
    destination = req.dstAddr.dialed := by
  unfold handleConnect at h
  dsimp only at h
  split at h
  · simpa using h
  · simpa using mem_effects_replyAndRun h

theorem openTCP_of_runCommand {destination : Destination}
    (h : .openTCP destination ∈ (runCommand config world req conn).effects) :
    destination = req.dstAddr.dialed := by
  unfold runCommand at h
  split at h
  · exact openTCP_of_handleConnect h
  split at h
  · cases mem_effects_replyAndRun h
  split at h
  · unfold handleAssociate at h
    split at h
    · cases h
    · simpa using mem_effects_replyAndRun h
  · simp at h

theorem openTCP_of_performAction {action : Action} {destination : Destination}
    (hfqdn : req.dstAddr.fqdn = [])
    (h : .openTCP destination ∈ (performAction config world req action conn).effects) :
    action.action = .direct ∧ destination = req.dstAddr.dialed := by
  unfold performAction at h
  split at h
  · rename_i haction
    rw [handleRequest, if_pos hfqdn] at h
    exact ⟨haction, openTCP_of_runCommand h⟩
  · split at h
    · cases h
    · simp [handleForwarding] at h
  · simp at h

theorem confinedUser {userName : Bytes} (h : config.Confines userName) :
    ∀ name, (if userName = [] then none else some userName) = some name → config.Confines name := by
  intro name hname
  split at hname
  · cases hname
  · cases hname
    exact h

end

/--
For a user without the two permissions, a request for a private or loopback
address or for a well-known local name is answered with a refusal and nothing
else happens, and a request for another address opens a TCP connection to that
address or to none.
-/
theorem confined_request (config : ServerConfig) (world : World) (userName : Bytes)
    (conn after : Conn) (req : Request) (hnotest : config.allowLoopbackDestination = false)
    (hconfined : config.Confines userName) (haccepts : config.Accepts conn req after)
    (hcommand : req.command = socks5ConnectCmd ∨ req.command = socks5UDPAssociateCmd) :
    ∃ served, serverServeConn config world userName conn = .ok served ∧
      (req.dstAddr.IsLocal → served.effects = [] ∧ served =
        replyAndFail socks5ReplyNotAllowedByRuleSet .rejected after) ∧
      (req.dstAddr.ip ≠ [] → req.dstAddr.ip.isUnspecified = false →
        ∀ destination, .openTCP destination ∈ served.effects →
          destination = .address req.dstAddr.ip req.dstAddr.port ∧
            req.dstAddr.ip.isPrivate = false ∧ req.dstAddr.ip.isLoopback = false) := by
  rw [serverServeConn_of_accepts haccepts]
  obtain ⟨between, rest, -, hread, -⟩ := haccepts
  obtain ⟨reserved, encoded, hencodes, hraw⟩ :=
    Request.readFromSocks5_eq_ok hread
  rw [hraw]
  have hrejects := fun hlocal => config.findAction_eq_reject world.pick
    reserved hnotest (confinedUser hconfined) hcommand hencodes hlocal
  obtain ⟨action, haction⟩ := config.findAction_eq_ok world.pick reserved
    (if userName = [] then none else some userName) hcommand hencodes
  refine ⟨_, by rw [haction, Outcome.ok_bind], ?_, ?_⟩
  · intro hlocal
    have hrejected := hrejects hlocal
    rw [haction] at hrejected
    cases hrejected
    exact ⟨effects_replyAndFail _ _, rfl⟩
  · intro hip hspecified destination hopened
    obtain ⟨hdirect, rfl⟩ :=
      openTCP_of_performAction (hencodes.fqdn_eq_nil hip) hopened
    have hnotlocal : ¬ req.dstAddr.IsLocal := by
      intro hlocal
      have hrejected := hrejects hlocal
      rw [haction] at hrejected
      cases hrejected
      cases hdirect
    refine ⟨?_, ?_, ?_⟩
    · rw [AddrSpec.dialed, if_pos hip, if_neg (by simp [hspecified])]
    · simpa using fun h => hnotlocal (.inl h)
    · simpa using fun h => hnotlocal (.inr (.inl h))

def requestConn (command : UInt8) (encoded : Bytes) : Conn where
  input := [5, 1, 0] ++ [5, command, 0] ++ encoded

def plainConfig : ServerConfig where
  users name := if name = bytesOf "alice" then some {} else none

theorem plainConfig_confines (name : Bytes) : plainConfig.Confines name := by
  intro user huser
  simp only [plainConfig] at huser
  split at huser <;> cases huser
  exact ⟨rfl, rfl⟩

theorem confined_request_loopback : ∃ served, serverServeConn plainConfig {} (bytesOf "alice")
        (requestConn 1 [1, 127, 0, 0, 1, 0, 80]) = .ok served ∧ served.effects = [] := by
  obtain ⟨served, hserved, hlocal, -⟩ := confined_request plainConfig {}
    (bytesOf "alice") (requestConn 1 [1, 127, 0, 0, 1, 0, 80])
    ⟨[], [], [5, 0]⟩
    ⟨1, { ip := [127, 0, 0, 1], port := 80 }, [5, 1, 0, 1, 127, 0, 0, 1, 0, 80]⟩
    rfl (plainConfig_confines _) ⟨_, _, rfl, rfl, rfl⟩ (.inl rfl)
  exact ⟨served, hserved, (hlocal (.inr (.inl rfl))).1⟩

def loopbackWorld : World where
  lookupIP _ := some [[127, 0, 0, 1]]

/-- A name is not looked up before the check, so its address is not checked. -/
theorem confined_name_reaches_loopback : plainConfig.allowLoopbackDestination = false ∧
      plainConfig.Confines (bytesOf "alice") ∧
      ∃ served, serverServeConn plainConfig loopbackWorld (bytesOf "alice")
          (requestConn 1 ([3, 11] ++ bytesOf "example.com" ++ [0, 80])) = .ok served ∧
        .openTCP (.address [127, 0, 0, 1] 80) ∈ served.effects ∧
        IP.isLoopback [127, 0, 0, 1] = true :=
  ⟨rfl, plainConfig_confines _, _, rfl, by decide, rfl⟩

end Mieru.Socks5
