import Mieru.Server.Config

/-!
# Two ways to apply a configuration

`ApplyJSONServerConfig` merges a patch into the stored configuration and
checks the result.  The command of the CLI sends the patch to `SetConfig`,
which stores it in place of the configuration.
-/

namespace Mieru.Appctlpb

open Mieru.Foundation
open Mieru.Cipher

section

variable (parsers : Parsers) (crypto : Crypto)

/-- `ApplyJSONServerConfig`: its result and what is stored after it. -/
def applyJSONServerConfig (stored patch : ServerConfig) : Except ConfigError Unit × ServerConfig :=
  match validateServerConfigPatch parsers patch with
  | .error err => (.error err, stored)
  | .ok () =>
    let config := mergeServerConfig stored patch
    match validateFullServerConfig parsers config with
    | .error err => (.error err, stored)
    | .ok () => (.ok (), storeServerConfig crypto config)

def setConfig (_stored req : ServerConfig) : ServerConfig :=
  storeServerConfig crypto req

def serverApplyConfig (stored patch : ServerConfig) : Except ConfigError Unit × ServerConfig :=
  match validateServerConfigPatch parsers patch with
  | .error err => (.error err, stored)
  | .ok () => (.ok (), setConfig crypto stored patch)

end

/--
The patch has every section of the stored configuration and the two settings
that a merge always sets, and its users are in order and include the stored
ones.
-/
structure Covers (patch stored : ServerConfig) : Prop where
  sorted : (patch.users.map User.getName).Pairwise (· < ·)
  users : ∀ user ∈ stored.users, user.getName ∈ patch.users.map User.getName
  loggingLevel : patch.loggingLevel ≠ none
  mtu : patch.mtu ≠ none
  advancedSettings : patch.advancedSettings = none → stored.advancedSettings = none
  egress : patch.egress = none → stored.egress = none
  dns : patch.dns = none → stored.dns = none
  trafficPattern : patch.trafficPattern = none → stored.trafficPattern = none

/--
When the two agree: the patch has port bindings and covers the stored
configuration; or it has none, so that its merge is not valid, and is stored
already.
-/
def Agrees (crypto : Crypto) (stored patch : ServerConfig) : Prop :=
  if patch.portBindings ≠ [] then Covers patch stored
  else storeServerConfig crypto patch = stored

section

variable {parsers : Parsers} {crypto : Crypto} {stored patch : ServerConfig}

theorem serverApplyConfig_eq_ok {after : ServerConfig}
    (h : serverApplyConfig parsers crypto stored patch = (.ok (), after)) :
    after = storeServerConfig crypto patch := by
  unfold serverApplyConfig at h
  split at h
  · cases h
  · cases h
    rfl

theorem either_eq_left {α : Type} {src dst : Option α} :
    either src dst = src ↔ (src = none → dst = none) := by
  unfold either
  cases src <;> simp

theorem either_self {α : Type} (value : Option α) : either value value = value := by
  unfold either
  cases value <;> rfl

theorem some_getD_either {α : Type} {src dst : Option α} {value : α} :
    some ((either src dst).getD value) = src ↔ src ≠ none := by
  unfold either
  cases src <;> simp

theorem Covers.merge_eq (h : Covers patch stored) (hports : patch.portBindings ≠ []) :
    mergeServerConfig stored patch = patch := by
  have husers : KeyedList.merge User.getName stored.users patch.users =
      patch.users := KeyedList.merge_eq_right User.getName h.sorted h.users
  unfold mergeServerConfig
  rw [if_pos hports, husers, some_getD_either.mpr h.loggingLevel,
    some_getD_either.mpr h.mtu, either_eq_left.mpr h.advancedSettings,
    either_eq_left.mpr h.egress, either_eq_left.mpr h.dns,
    either_eq_left.mpr h.trafficPattern]

theorem covers_of_store_eq (h : storeServerConfig crypto (mergeServerConfig stored patch) =
      storeServerConfig crypto patch) :
    Covers patch stored ∧ (mergeServerConfig stored patch).portBindings = patch.portBindings := by
  have husers := congrArg ServerConfig.users h
  have hnames : (KeyedList.merge User.getName stored.users patch.users).map
      User.getName = patch.users.map User.getName := by
    have hmap := congrArg (List.map User.getName) husers
    simpa [storeServerConfig, mergeServerConfig, Function.comp_def] using hmap
  obtain ⟨hsorted, hkeys⟩ := KeyedList.keys_of_merge_eq User.getName hnames
  have hlogging := congrArg ServerConfig.loggingLevel h
  have hmtu := congrArg ServerConfig.mtu h
  have hadvanced := congrArg ServerConfig.advancedSettings h
  have hegress := congrArg ServerConfig.egress h
  have hdns := congrArg ServerConfig.dns h
  have hpattern := congrArg ServerConfig.trafficPattern h
  have hports := congrArg ServerConfig.portBindings h
  refine ⟨⟨hsorted, hkeys, some_getD_either.mp hlogging,
    some_getD_either.mp hmtu, either_eq_left.mp hadvanced,
    either_eq_left.mp hegress, either_eq_left.mp hdns,
    either_eq_left.mp hpattern⟩, hports⟩

theorem validateServerConfigPatch_eq_ok {config : ServerConfig} :
    validateServerConfigPatch parsers config = .ok () ↔
      (∃ ports, flatPortBindings config.portBindings = .ok ports) ∧
      (∀ user ∈ config.users, validateServerConfigSingleUser user = .ok ()) ∧
      validateMTU (config.mtu.getD 0) = .ok () ∧
      validateEgress parsers (config.egress.getD {}) = .ok () ∧
      (∃ hosts, transformDNSHosts parsers [] (config.dns.getD {}).hosts = .ok hosts) ∧
      validateAdvancedSettings parsers (config.advancedSettings.getD {}) = .ok () ∧
      validateTrafficPattern (config.trafficPattern.getD {}) = .ok () := by
  unfold validateServerConfigPatch
  simp only [except_ok_bind]
  constructor
  · rintro ⟨ports, hports, ⟨⟩, husers, ⟨⟩, hmtu, ⟨⟩, hegress, hosts, hhosts, ⟨⟩,
      hadvanced, hpattern⟩
    exact ⟨⟨ports, hports⟩, forM_eq_ok.mp husers, hmtu, hegress,
      ⟨hosts, hhosts⟩, hadvanced, hpattern⟩
  · rintro ⟨⟨ports, hports⟩, husers, hmtu, hegress, ⟨hosts, hhosts⟩, hadvanced, hpattern⟩
    exact ⟨ports, hports, (), forM_eq_ok.mpr husers, (), hmtu, (), hegress,
      hosts, hhosts, (), hadvanced, hpattern⟩

theorem validateFullServerConfig_eq_ok {config : ServerConfig} :
    validateFullServerConfig parsers config = .ok () ↔
      validateServerConfigPatch parsers config = .ok () ∧ config.portBindings ≠ [] := by
  unfold validateFullServerConfig
  simp only [except_ok_bind]
  constructor
  · rintro ⟨⟨⟩, hpatch, ⟨⟩, -, hports⟩
    exact ⟨hpatch, of_decide_eq_false (check_eq_ok.mp hports)⟩
  · rintro ⟨hpatch, hports⟩
    have hne : config ≠ {} := by
      rintro rfl
      exact hports rfl
    exact ⟨(), hpatch, (), check_eq_ok.mpr (decide_eq_false hne),
      check_eq_ok.mpr (decide_eq_false hports)⟩

theorem validate_merge_of_stored (hpatch : validateServerConfigPatch parsers patch = .ok ())
    (hports : patch.portBindings ≠ []) : validateFullServerConfig parsers
      (mergeServerConfig (storeServerConfig crypto patch) patch) = .ok () := by
  rw [validateServerConfigPatch_eq_ok] at hpatch
  obtain ⟨hbindings, husers, hmtu, hegress, hhosts, hadvanced, hpattern⟩ :=
    hpatch
  rw [validateFullServerConfig_eq_ok, validateServerConfigPatch_eq_ok]
  have hmerged : (mergeServerConfig (storeServerConfig crypto patch)
      patch).portBindings = patch.portBindings := if_pos hports
  rw [hmerged]
  simp only [mergeServerConfig, storeServerConfig, either_self, Option.getD_some]
  refine ⟨⟨hbindings, ?_, hmtu, hegress, hhosts, hadvanced, hpattern⟩, hports⟩
  -- The merged users are those of the patch: it has a user for every name.
  intro user huser
  refine husers user (KeyedList.mem_right_of_mem_merge User.getName huser ?_)
  intro other hother
  obtain ⟨before, hbefore, rfl⟩ := List.mem_map.mp hother
  rw [getName_hashUserPassword]
  exact List.mem_map_of_mem hbefore

/--
After the command the stored configuration is the one the function stores
exactly if the patch covers it, or changes nothing and has no port bindings.
-/
theorem apply_config_merges_iff (hpatch : validateServerConfigPatch parsers patch = .ok ()) :
    (serverApplyConfig parsers crypto stored patch).2 =
      (applyJSONServerConfig parsers crypto stored patch).2 ↔ Agrees crypto stored patch := by
  unfold serverApplyConfig applyJSONServerConfig Agrees setConfig
  rw [hpatch]
  dsimp only
  split
  · -- The merge is not valid, so nothing is stored.
    rename_i err hinvalid
    dsimp only
    by_cases hports : patch.portBindings ≠ []
    · rw [if_pos hports]
      constructor
      · rintro rfl
        rw [validate_merge_of_stored hpatch hports] at hinvalid
        cases hinvalid
      · intro hcovers
        rw [hcovers.merge_eq hports,
          validateFullServerConfig_eq_ok.mpr ⟨hpatch, hports⟩] at hinvalid
        cases hinvalid
    · rw [if_neg hports]
  · rename_i hvalid
    dsimp only
    have hmerged := (validateFullServerConfig_eq_ok.mp hvalid).2
    constructor
    · intro h
      obtain ⟨hcovers, hsame⟩ := covers_of_store_eq h.symm
      rw [if_pos (hsame ▸ hmerged)]
      exact hcovers
    · by_cases hports : patch.portBindings ≠ []
      · rw [if_pos hports]
        intro hcovers
        rw [hcovers.merge_eq hports]
      · rw [if_neg hports]
        rintro rfl
        refine absurd ?_ hmerged
        rw [not_not] at hports
        simp [mergeServerConfig, storeServerConfig, hports]

def anyParsers : Parsers where
  parseCIDR _ := true
  parseIP _ := some [127, 0, 0, 1]
  parseDuration _ := some 1000000000
  toLower text := text

def smallConfig : ServerConfig where
  portBindings := [{ port := some 2012, protocol := some .tcp }]
  users := [{ name := some [97], password := some [112] }]
  loggingLevel := some .info
  mtu := some 1400

/-- A new password for the only user. -/
theorem apply_config_merges_small : validateServerConfigPatch anyParsers smallConfig = .ok () ∧
      (serverApplyConfig anyParsers tagCrypto smallConfig { smallConfig with
        users := [{ name := some [97], password := some [113] }] }).2 =
      (applyJSONServerConfig anyParsers tagCrypto smallConfig { smallConfig with
        users := [{ name := some [97], password := some [113] }] }).2 := by
  have hcovers : Covers { smallConfig with
      users := [{ name := some [97], password := some [113] }] }
      smallConfig := by
    refine ⟨?_, ?_, ?_, ?_, ?_, ?_, ?_, ?_⟩ <;> decide
  exact ⟨by decide +kernel, (apply_config_merges_iff (by decide +kernel)).mpr hcovers⟩

/--
A patch with one more user: the function keeps the port and the other user,
after the command both are gone.
-/
theorem apply_config_replaces :
    let patch : ServerConfig :=
      { users := [{ name := some [98], password := some [113] }] }
    validateServerConfigPatch anyParsers patch = .ok () ∧ validateFullServerConfig anyParsers
        (mergeServerConfig smallConfig patch) = .ok () ∧
      (applyJSONServerConfig anyParsers tagCrypto smallConfig patch).2.users.map
        User.getName = [[97], [98]] ∧
      (serverApplyConfig anyParsers tagCrypto smallConfig patch).2.users.map User.getName = [[98]] ∧
      (serverApplyConfig anyParsers tagCrypto smallConfig patch).2.portBindings = [] := by
  refine ⟨?_, ?_, ?_, ?_, ?_⟩ <;> decide +kernel

end

end Mieru.Appctlpb
