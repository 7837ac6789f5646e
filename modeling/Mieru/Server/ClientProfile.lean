import Mieru.Server.Config

/-!
# Client profiles

The messages of `clientcfg.proto` that describe one profile, and the checks of
`ValidateClientConfigSingleProfile`.  An enumeration is open: a number without
a name can be set, and is written as that number.
-/

namespace Mieru.Appctlpb

open Mieru.Foundation

inductive MultiplexingLevel where
  | default
  | off
  | low
  | middle
  | high
  | other (number : Int) (unnamed : number < 0 ∨ 4 < number)
  deriving DecidableEq

def MultiplexingLevel.Named : MultiplexingLevel → Prop
  | .other _ _ => False
  | _ => True

inductive HandshakeMode where
  | default
  | standard
  | noWait
  | other (number : Int) (unnamed : number < 0 ∨ 2 < number)
  deriving DecidableEq

def HandshakeMode.Named : HandshakeMode → Prop
  | .other _ _ => False
  | _ => True

structure ServerEndpoint where
  ipAddress : Option Bytes := none
  domainName : Option Bytes := none
  portBindings : List PortBinding := []
  deriving DecidableEq

namespace ServerEndpoint

def getIpAddress (server : ServerEndpoint) : Bytes := server.ipAddress.getD []

def getDomainName (server : ServerEndpoint) : Bytes := server.domainName.getD []

def host (server : ServerEndpoint) : Bytes :=
  if server.getDomainName ≠ [] then server.getDomainName
  else server.getIpAddress

end ServerEndpoint

structure MultiplexingConfig where
  level : Option MultiplexingLevel := none
  deriving DecidableEq

structure ClientProfile where
  profileName : Option Bytes := none
  user : Option User := none
  servers : List ServerEndpoint := []
  mtu : Option Int := none
  multiplexing : Option MultiplexingConfig := none
  handshakeMode : Option HandshakeMode := none
  trafficPattern : Option TrafficPattern := none
  deriving DecidableEq

namespace ClientProfile

def getProfileName (profile : ClientProfile) : Bytes :=
  profile.profileName.getD []

def getUser (profile : ClientProfile) : User := profile.user.getD {}

def getMtu (profile : ClientProfile) : Int := profile.mtu.getD 0

def level (profile : ClientProfile) : Option MultiplexingLevel :=
  profile.multiplexing.bind MultiplexingConfig.level

def getLevel (profile : ClientProfile) : MultiplexingLevel :=
  profile.level.getD .default

def getHandshakeMode (profile : ClientProfile) : HandshakeMode :=
  profile.handshakeMode.getD .default

end ClientProfile

inductive ProfileError where
  | profileNameNotSet
  | userNameNotSet
  | userPasswordNotSet
  | userNameTooLong
  | userPasswordTooLong
  | userQuota
  | serversNotSet
  | serverHostNotSet
  | serverIP (text : Bytes)
  | portBindingNotSet
  | config (err : ConfigError)
  deriving DecidableEq

def validateServerEndpoint (parseIP : Bytes → Option Socks5.IP)
    (server : ServerEndpoint) : Except ProfileError Unit := do
  refuse (server.getIpAddress = [] && server.getDomainName = []) .serverHostNotSet
  refuse (server.getIpAddress ≠ [] && (parseIP server.getIpAddress).isNone)
    (.serverIP server.getIpAddress)
  refuse (server.portBindings = []) .portBindingNotSet
  let _ ← (flatPortBindings server.portBindings).mapError .config

def validateClientConfigSingleProfile (parseIP : Bytes → Option Socks5.IP)
    (profile : ClientProfile) : Except ProfileError Unit := do
  refuse (profile.getProfileName = []) .profileNameNotSet
  let user := profile.getUser
  refuse (user.getName = []) .userNameNotSet
  refuse (user.getPassword = [] && user.getHashedPassword = []) .userPasswordNotSet
  refuse (user.getName.length > 64) .userNameTooLong
  refuse (user.getPassword ≠ [] && user.getPassword.length > 64) .userPasswordTooLong
  refuse (user.quotas ≠ []) .userQuota
  refuse (profile.servers = []) .serversNotSet
  profile.servers.forM (validateServerEndpoint parseIP)
  (validateMTU profile.getMtu).mapError .config
  (validateTrafficPattern (profile.trafficPattern.getD {})).mapError .config

structure ServerEndpoint.Valid (parseIP : Bytes → Option Socks5.IP)
    (server : ServerEndpoint) : Prop where
  host : server.getIpAddress ≠ [] ∨ server.getDomainName ≠ []
  ip : server.getIpAddress ≠ [] → ∃ ip, parseIP server.getIpAddress = some ip
  ports : server.portBindings ≠ []
  flat : ∃ flat, flatPortBindings server.portBindings = .ok flat

variable {parseIP : Bytes → Option Socks5.IP}

theorem validateServerEndpoint_eq_ok {server : ServerEndpoint}
    (h : validateServerEndpoint parseIP server = .ok ()) : server.Valid parseIP := by
  unfold validateServerEndpoint at h
  obtain ⟨⟨⟩, hhost, h⟩ := except_ok_bind.mp h
  obtain ⟨⟨⟩, hip, h⟩ := except_ok_bind.mp h
  obtain ⟨⟨⟩, hports, h⟩ := except_ok_bind.mp h
  obtain ⟨flat, hflat, -⟩ := except_ok_bind.mp h
  refine ⟨?_, ?_, ?_, flat, mapError_eq_ok.mp hflat⟩
  · have hboth := refuse_eq_ok.mp hhost
    rw [Bool.and_eq_false_iff, decide_eq_false_iff_not, decide_eq_false_iff_not] at hboth
    exact hboth
  · intro hset
    have hparsed := refuse_eq_ok.mp hip
    rw [decide_eq_true hset, Bool.true_and] at hparsed
    cases hip : parseIP server.getIpAddress with
    | none =>
      rw [hip] at hparsed
      cases hparsed
    | some ip => exact ⟨ip, rfl⟩
  · exact of_decide_eq_false (refuse_eq_ok.mp hports)

structure ClientProfile.Valid (parseIP : Bytes → Option Socks5.IP)
    (profile : ClientProfile) : Prop where
  name : profile.getProfileName ≠ []
  userName : profile.getUser.getName ≠ []
  servers : profile.servers ≠ []
  server : ∀ server ∈ profile.servers, server.Valid parseIP
  mtu : profile.getMtu = 0 ∨ 1280 ≤ profile.getMtu ∧ profile.getMtu ≤ 1500

theorem validateClientConfigSingleProfile_eq_ok {profile : ClientProfile}
    (h : validateClientConfigSingleProfile parseIP profile = .ok ()) : profile.Valid parseIP := by
  unfold validateClientConfigSingleProfile at h
  obtain ⟨⟨⟩, hname, h⟩ := except_ok_bind.mp h
  obtain ⟨⟨⟩, huser, h⟩ := except_ok_bind.mp h
  obtain ⟨⟨⟩, -, h⟩ := except_ok_bind.mp h
  obtain ⟨⟨⟩, -, h⟩ := except_ok_bind.mp h
  obtain ⟨⟨⟩, -, h⟩ := except_ok_bind.mp h
  obtain ⟨⟨⟩, -, h⟩ := except_ok_bind.mp h
  obtain ⟨⟨⟩, hservers, h⟩ := except_ok_bind.mp h
  obtain ⟨⟨⟩, hserver, h⟩ := except_ok_bind.mp h
  obtain ⟨⟨⟩, hmtu, -⟩ := except_ok_bind.mp h
  refine ⟨of_decide_eq_false (refuse_eq_ok.mp hname), of_decide_eq_false (refuse_eq_ok.mp huser),
    of_decide_eq_false (refuse_eq_ok.mp hservers), ?_, ?_⟩
  · intro server hmem
    exact validateServerEndpoint_eq_ok (forM_eq_ok.mp hserver server hmem)
  · have hrange := mapError_eq_ok.mp hmtu
    unfold validateMTU check at hrange
    split at hrange
    · cases hrange
    · rename_i hgood
      simp only [Bool.and_eq_true, Bool.or_eq_true, decide_eq_true_eq, ne_eq] at hgood
      omega

end Mieru.Appctlpb
