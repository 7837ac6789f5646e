import Mieru.Server.ApplyConfig
import Mieru.Server.ClientProfile

/-!
# Merging configurations

What `mergeServerConfig` and `mergeClientConfigByProfile` make of two
configurations.
-/

namespace Mieru.Appctlpb

open Mieru.Foundation

structure ClientAdvancedSettings where
  noCheckUpdate : Option Bool := none
  metricsLoggingInterval : Option Bytes := none

structure ClientConfig where
  profiles : List ClientProfile := []
  activeProfile : Option Bytes := none
  rpcPort : Option Int := none
  socks5Port : Option Int := none
  advancedSettings : Option ClientAdvancedSettings := none
  loggingLevel : Option LoggingLevel := none
  socks5ListenLAN : Option Bool := none
  httpProxyPort : Option Int := none
  httpProxyListenLAN : Option Bool := none
  socks5Authentication : List Auth := []

inductive ClientConfigError where
  | profile (err : ProfileError)
  | authUserNotSet
  | authPasswordNotSet
  | settings (err : ConfigError)

def validateAuth (auth : Auth) : Except ClientConfigError Unit := do
  refuse (auth.user.getD [] = []) .authUserNotSet
  refuse (auth.password.getD [] = []) .authPasswordNotSet

def validateClientConfigPatch (parsers : Parsers) (patch : ClientConfig) :
    Except ClientConfigError Unit := do
  (patch.profiles.forM (validateClientConfigSingleProfile parsers.parseIP)).mapError .profile
  patch.socks5Authentication.forM validateAuth
  (validateAdvancedSettings parsers { metricsLoggingInterval :=
    (patch.advancedSettings.getD {}).metricsLoggingInterval }).mapError .settings

/-- Both lists of profiles become maps before they are merged. -/
def mergeClientConfigByProfile (dst src : ClientConfig) : ClientConfig where
  profiles := KeyedList.merge ClientProfile.getProfileName
    (KeyedList.toMap ClientProfile.getProfileName dst.profiles)
    (KeyedList.toMap ClientProfile.getProfileName src.profiles)
  -- These three are set in every case.
  activeProfile := some ((either src.activeProfile dst.activeProfile).getD [])
  socks5Port := some ((either src.socks5Port dst.socks5Port).getD 0)
  loggingLevel := some ((either src.loggingLevel dst.loggingLevel).getD .default)
  rpcPort := either src.rpcPort dst.rpcPort
  advancedSettings := either src.advancedSettings dst.advancedSettings
  socks5ListenLAN := either src.socks5ListenLAN dst.socks5ListenLAN
  httpProxyPort := either src.httpProxyPort dst.httpProxyPort
  httpProxyListenLAN := either src.httpProxyListenLAN dst.httpProxyListenLAN
  socks5Authentication :=
    if src.socks5Authentication ≠ [] then src.socks5Authentication else dst.socks5Authentication

/-- The elements of the source and those of the destination with other names,
in the order of their names.  Of several with one name the last counts. -/
structure MergedBy {α : Type} (name : α → Bytes) (dst src merged : List α) : Prop where
  sorted : (merged.map name).Pairwise (· < ·)
  mem : ∀ x, x ∈ merged ↔ KeyedList.IsLast name src x ∨
    KeyedList.IsLast name dst x ∧ name x ∉ src.map name

structure ServerFieldsMerged (dst src merged : ServerConfig) : Prop where
  portBindings : merged.portBindings =
    if src.portBindings ≠ [] then src.portBindings else dst.portBindings
  advancedSettings : merged.advancedSettings = either src.advancedSettings dst.advancedSettings
  loggingLevel : merged.loggingLevel.getD .default =
    (either src.loggingLevel dst.loggingLevel).getD .default
  mtu : merged.mtu.getD 0 = (either src.mtu dst.mtu).getD 0
  egress : merged.egress = either src.egress dst.egress
  dns : merged.dns = either src.dns dst.dns
  trafficPattern : merged.trafficPattern = either src.trafficPattern dst.trafficPattern

structure ClientFieldsMerged (dst src merged : ClientConfig) : Prop where
  activeProfile : merged.activeProfile.getD [] =
    (either src.activeProfile dst.activeProfile).getD []
  rpcPort : merged.rpcPort = either src.rpcPort dst.rpcPort
  socks5Port : merged.socks5Port.getD 0 = (either src.socks5Port dst.socks5Port).getD 0
  advancedSettings : merged.advancedSettings = either src.advancedSettings dst.advancedSettings
  loggingLevel : merged.loggingLevel.getD .default =
    (either src.loggingLevel dst.loggingLevel).getD .default
  socks5ListenLAN : merged.socks5ListenLAN = either src.socks5ListenLAN dst.socks5ListenLAN
  httpProxyPort : merged.httpProxyPort = either src.httpProxyPort dst.httpProxyPort
  httpProxyListenLAN :
    merged.httpProxyListenLAN = either src.httpProxyListenLAN dst.httpProxyListenLAN
  socks5Authentication : merged.socks5Authentication =
    if src.socks5Authentication ≠ [] then src.socks5Authentication else dst.socks5Authentication

section

variable {α : Type}

theorem either_either (src dst : Option α) : either src (either src dst) = either src dst := by
  cases src <;> rfl

theorem either_some_getD (src dst : Option α) (d : α) :
    (either src (some ((either src dst).getD d))).getD d = (either src dst).getD d := by
  cases src <;> rfl

theorem either_of_both (P : α → Prop) {src dst : Option α} {d : α} (hsrc : P (src.getD d))
    (hdst : P (dst.getD d)) : P ((either src dst).getD d) := by
  cases src with
  | none => exact hdst
  | some value => exact hsrc

theorem ite_ite_nil (src dst : List α) [Decidable (src ≠ [])] :
    (if src ≠ [] then src else if src ≠ [] then src else dst) = if src ≠ [] then src else dst := by
  split <;> rfl

theorem mergedBy_merge (name : α → Bytes) (dst src : List α) :
    MergedBy name dst src (KeyedList.merge name dst src) :=
  ⟨KeyedList.pairwise_merge name dst src, fun _ => KeyedList.mem_merge name⟩

theorem MergedBy.forall {P : α → Prop} {name : α → Bytes} {dst src merged : List α}
    (h : MergedBy name dst src merged) (hdst : ∀ x ∈ dst, P x) (hsrc : ∀ x ∈ src, P x) :
    ∀ x ∈ merged, P x := by
  intro x hx
  rcases (h.mem x).mp hx with hlast | ⟨hlast, -⟩
  · exact hsrc x hlast.mem
  · exact hdst x hlast.mem

end

variable {parsers : Parsers}

theorem validate_mergeServerConfig {dst src : ServerConfig}
    (hdst : validateServerConfigPatch parsers dst = .ok ())
    (hsrc : validateServerConfigPatch parsers src = .ok ()) :
    validateServerConfigPatch parsers (mergeServerConfig dst src) = .ok () := by
  rw [validateServerConfigPatch_eq_ok] at hdst hsrc ⊢
  obtain ⟨hports, husers, hmtu, hegress, hhosts, hadvanced, hpattern⟩ := hdst
  obtain ⟨hports', husers', hmtu', hegress', hhosts', hadvanced', hpattern'⟩ := hsrc
  refine ⟨?_, (mergedBy_merge _ _ _).forall husers husers',
    either_of_both (validateMTU · = .ok ()) hmtu' hmtu,
    either_of_both (validateEgress parsers · = .ok ()) hegress' hegress,
    either_of_both (fun dns : DNS => ∃ hosts, transformDNSHosts parsers [] dns.hosts = .ok hosts)
      hhosts' hhosts,
    either_of_both (validateAdvancedSettings parsers · = .ok ()) hadvanced' hadvanced,
    either_of_both (validateTrafficPattern · = .ok ()) hpattern' hpattern⟩
  simp only [mergeServerConfig]
  split
  · exact hports'
  · exact hports

theorem mergeServerConfig_again (dst src : ServerConfig) :
    mergeServerConfig (mergeServerConfig dst src) src = mergeServerConfig dst src := by
  simp only [mergeServerConfig, KeyedList.merge_merge, either_either, either_some_getD,
    ite_ite_nil]

theorem mergedBy_profiles (dst src : ClientConfig) : MergedBy ClientProfile.getProfileName
    dst.profiles src.profiles (mergeClientConfigByProfile dst src).profiles := by
  refine ⟨KeyedList.pairwise_merge _ _ _, fun profile => ?_⟩
  simp only [mergeClientConfigByProfile, KeyedList.mem_merge, KeyedList.isLast_toMap,
    KeyedList.key_mem_toMap]

theorem validateClientConfigPatch_eq_ok {config : ClientConfig} :
    validateClientConfigPatch parsers config = .ok () ↔ (∀ profile ∈ config.profiles,
        validateClientConfigSingleProfile parsers.parseIP profile = .ok ()) ∧
      (∀ auth ∈ config.socks5Authentication, validateAuth auth = .ok ()) ∧
      validateAdvancedSettings parsers { metricsLoggingInterval :=
        (config.advancedSettings.getD {}).metricsLoggingInterval } = .ok () := by
  simp only [validateClientConfigPatch, except_ok_bind, mapError_eq_ok]
  constructor
  · rintro ⟨⟨⟩, hprofiles, ⟨⟩, hauth, hsettings⟩
    exact ⟨forM_eq_ok.mp hprofiles, forM_eq_ok.mp hauth, hsettings⟩
  · rintro ⟨hprofiles, hauth, hsettings⟩
    exact ⟨(), forM_eq_ok.mpr hprofiles, (), forM_eq_ok.mpr hauth, hsettings⟩

theorem validate_mergeClientConfig {dst src : ClientConfig}
    (hdst : validateClientConfigPatch parsers dst = .ok ())
    (hsrc : validateClientConfigPatch parsers src = .ok ()) :
    validateClientConfigPatch parsers (mergeClientConfigByProfile dst src) = .ok () := by
  rw [validateClientConfigPatch_eq_ok] at hdst hsrc ⊢
  refine ⟨(mergedBy_profiles dst src).forall hdst.1 hsrc.1, ?_,
    either_of_both (fun settings : ClientAdvancedSettings => validateAdvancedSettings parsers
      { metricsLoggingInterval := settings.metricsLoggingInterval } = .ok ()) hsrc.2.2 hdst.2.2⟩
  simp only [mergeClientConfigByProfile]
  split
  · exact hsrc.2.1
  · exact hdst.2.1

theorem mergeClientConfig_again (dst src : ClientConfig) :
    mergeClientConfigByProfile (mergeClientConfigByProfile dst src) src =
      mergeClientConfigByProfile dst src := by
  simp only [mergeClientConfigByProfile, KeyedList.toMap_of_nodup _ (KeyedList.nodup_merge _ _ _),
    KeyedList.merge_merge, either_either, either_some_getD, ite_ite_nil]

/-- Users and profiles are merged by their names and all other fields are
taken as a whole; a second merge of the same source changes nothing, and
merging keeps the checks of a patch. -/
theorem merge_laws (parsers : Parsers) : (∀ dst src : ServerConfig,
      MergedBy User.getName dst.users src.users (mergeServerConfig dst src).users ∧
      ServerFieldsMerged dst src (mergeServerConfig dst src) ∧
      mergeServerConfig (mergeServerConfig dst src) src = mergeServerConfig dst src ∧
      (validateServerConfigPatch parsers dst = .ok () →
        validateServerConfigPatch parsers src = .ok () →
        validateServerConfigPatch parsers (mergeServerConfig dst src) = .ok ())) ∧
    ∀ dst src : ClientConfig, MergedBy ClientProfile.getProfileName dst.profiles src.profiles
        (mergeClientConfigByProfile dst src).profiles ∧
      ClientFieldsMerged dst src (mergeClientConfigByProfile dst src) ∧
      mergeClientConfigByProfile (mergeClientConfigByProfile dst src) src =
        mergeClientConfigByProfile dst src ∧ (validateClientConfigPatch parsers dst = .ok () →
        validateClientConfigPatch parsers src = .ok () →
        validateClientConfigPatch parsers (mergeClientConfigByProfile dst src) = .ok ()) := by
  constructor
  · intro dst src
    exact ⟨mergedBy_merge _ _ _, ⟨rfl, rfl, rfl, rfl, rfl, rfl, rfl⟩,
      mergeServerConfig_again dst src, validate_mergeServerConfig⟩
  · intro dst src
    exact ⟨mergedBy_profiles dst src, ⟨rfl, rfl, rfl, rfl, rfl, rfl, rfl, rfl, rfl⟩,
      mergeClientConfig_again dst src, validate_mergeClientConfig⟩

def otherUser : ServerConfig where
  users := [{ name := some [98], password := some [113] }]

def clientProfile (name : UInt8) : ClientConfig where
  profiles := [{
    profileName := some [name]
    user := some { name := some [97], password := some [112] }
    servers := [{ domainName := some [100], portBindings := smallConfig.portBindings }] }]

/-- A second user, and a second profile. -/
theorem merge_laws_second :
    (mergeServerConfig smallConfig otherUser).users.map User.getName = [[97], [98]] ∧
      validateServerConfigPatch anyParsers (mergeServerConfig smallConfig otherUser) = .ok () ∧
      (mergeClientConfigByProfile (clientProfile 1) (clientProfile 0)).profiles.map
        ClientProfile.getProfileName = [[0], [1]] ∧
      validateClientConfigPatch anyParsers
        (mergeClientConfigByProfile (clientProfile 1) (clientProfile 0)) = .ok () := by
  obtain ⟨hserver, hclient⟩ := merge_laws anyParsers
  obtain ⟨-, -, -, hvalid⟩ := hserver smallConfig otherUser
  obtain ⟨-, -, -, hvalidClient⟩ := hclient (clientProfile 1) (clientProfile 0)
  exact ⟨by decide +kernel, hvalid rfl rfl, by decide +kernel, hvalidClient rfl rfl⟩

end Mieru.Appctlpb
