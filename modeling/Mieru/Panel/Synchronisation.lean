import Mathlib.Algebra.Group.Int.Defs
import Mieru.Server.ApplyConfig

/-!
# Synchronising the users of the panel with mita

`syncMitaUsers` takes a snapshot of the configuration, drops the users that
have expired, and has the CLI of mita apply what is left.  The CLI checks the
payload as a patch and stores it.
-/

namespace Mieru.Panel

open Mieru.Foundation
open Mieru.Cipher (Crypto tagCrypto)
open Mieru.Appctlpb

structure Quotas where
  dayMB : Int := 0
  monthMB : Int := 0
  deriving DecidableEq

structure PanelUser where
  name : Bytes
  password : Bytes
  subToken : Bytes := []
  quotas : Quotas := {}
  /-- In seconds; zero for never. -/
  expiresAt : Int := 0
  maxDevices : Int := 0
  deriving DecidableEq

structure Settings where
  users : List PanelUser := []
  serverPortRange : Bytes := []
  loggingLevel : Bytes := []
  mtu : Int := 0
  deriving DecidableEq

def PanelUser.expired (user : PanelUser) (now : Int) : Bool :=
  user.expiresAt > 0 && user.expiresAt < now

def Settings.active (cfg : Settings) (now : Int) : List PanelUser :=
  cfg.users.filter fun user => !user.expired now

def defaultPortRange : Bytes := bytesOf "2012-2022"

def effectivePortRange (portRange : Bytes) : Bytes :=
  if trimSpace portRange = [] then defaultPortRange else trimSpace portRange

def effectiveLoggingLevel (loggingLevel : Bytes) : Bytes :=
  if trimSpace loggingLevel = [] then bytesOf "INFO" else loggingLevel

def effectiveMTU (mtu : Int) : Int := if mtu ≤ 0 then 1400 else mtu

def parseLoggingLevel (text : Bytes) : Option LoggingLevel :=
  if text = bytesOf "DEFAULT" then some .default
  else if text = bytesOf "FATAL" then some .fatal
  else if text = bytesOf "ERROR" then some .error
  else if text = bytesOf "WARN" then some .warn
  else if text = bytesOf "INFO" then some .info
  else if text = bytesOf "DEBUG" then some .debug
  else if text = bytesOf "TRACE" then some .trace
  else none

def parseMTU (mtu : Int) : Option Int :=
  if mtu < 2 ^ 31 then some mtu else none

def portBinding (portRange : Bytes) : PortBinding where
  protocol := some .tcp
  portRange := some portRange

/-- `ApplyUsers`: the payload as the CLI reads it, if it can. -/
def applyUsersPayload (users : List (Bytes × Bytes)) (portRange : Bytes)
    (loggingLevel : Bytes) (mtu : Int) : Option ServerConfig := do
  let level ← parseLoggingLevel (effectiveLoggingLevel loggingLevel)
  let mtu ← parseMTU (effectiveMTU mtu)
  return {
    portBindings := [portBinding (effectivePortRange portRange)]
    users := users.map fun (name, password) =>
      { name := some name, password := some password }
    loggingLevel := some level
    mtu := some mtu }

section

variable (parsers : Parsers) (crypto : Crypto)

/--
`syncMitaUsers` with a snapshot and the time: whether it succeeds, and the
configuration that mita has stored then.  The last argument is whether the
reload succeeds.
-/
def syncMitaUsers (cfg : Settings) (now : Int) (stored : ServerConfig)
    (reloads : Bool) : Bool × ServerConfig :=
  let users := (cfg.active now).map fun user => (user.name, user.password)
  match applyUsersPayload users (trimSpace cfg.serverPortRange) cfg.loggingLevel cfg.mtu with
  | none => (false, stored)
  | some patch =>
    match serverApplyConfig parsers crypto stored patch with
    | (.ok (), stored) => (reloads, stored)
    | (.error _, stored) => (false, stored)

end

def mitaQuotas (quotas : Quotas) : List Quota :=
  (if quotas.dayMB > 0 then
    [{ days := some 1, megabytes := some quotas.dayMB }] else []) ++
  if quotas.monthMB > 0 then
    [{ days := some 30, megabytes := some quotas.monthMB }] else []

def mitaUser (crypto : Crypto) (user : PanelUser) : User :=
  hashUserPassword crypto {
    name := some user.name
    password := some user.password
    quotas := mitaQuotas user.quotas }

/--
The configuration after a synchronisation has the users and settings of the
panel, and what it had before otherwise.
-/
structure Refines (crypto : Crypto) (cfg : Settings) (now : Int)
    (before after : ServerConfig) : Prop where
  users : after.users = (cfg.active now).map (mitaUser crypto)
  portBindings : after.portBindings =
    [portBinding (effectivePortRange (trimSpace cfg.serverPortRange))]
  loggingLevel : after.loggingLevel = parseLoggingLevel (effectiveLoggingLevel cfg.loggingLevel)
  mtu : after.mtu = some (effectiveMTU cfg.mtu)
  advancedSettings : after.advancedSettings = before.advancedSettings
  egress : after.egress = before.egress
  dns : after.dns = before.dns
  trafficPattern : after.trafficPattern = before.trafficPattern

/-- No active user has a quota, and mita has no section of its own. -/
structure NothingToLose (cfg : Settings) (now : Int) (stored : ServerConfig) :
    Prop where
  quotas : ∀ user ∈ cfg.active now, mitaQuotas user.quotas = []
  advancedSettings : stored.advancedSettings = none
  egress : stored.egress = none
  dns : stored.dns = none
  trafficPattern : stored.trafficPattern = none

section

variable {parsers : Parsers} {crypto : Crypto} {cfg : Settings} {now : Int}
  {stored : ServerConfig} {reloads : Bool}

def sentUser (user : PanelUser) : User where
  name := some user.name
  password := some user.password

theorem applyUsersPayload_eq_some {users : List (Bytes × Bytes)}
    {portRange loggingLevel : Bytes} {mtu : Int} {patch : ServerConfig}
    (h : applyUsersPayload users portRange loggingLevel mtu = some patch) :
    ∃ level, parseLoggingLevel (effectiveLoggingLevel loggingLevel) = some level ∧ patch = {
        portBindings := [portBinding (effectivePortRange portRange)]
        users := users.map fun (name, password) =>
          { name := some name, password := some password }
        loggingLevel := some level
        mtu := some (effectiveMTU mtu) } := by
  obtain ⟨level, hlevel, hrest⟩ := Option.bind_eq_some_iff.mp h
  obtain ⟨number, hnumber, hpatch⟩ := Option.bind_eq_some_iff.mp hrest
  refine ⟨level, hlevel, ?_⟩
  unfold parseMTU at hnumber
  split at hnumber
  · cases hnumber
    exact (Option.some.inj hpatch).symm
  · cases hnumber

theorem syncMitaUsers_eq (h : (syncMitaUsers parsers crypto cfg now stored reloads).1 = true) :
    ∃ level, parseLoggingLevel (effectiveLoggingLevel cfg.loggingLevel) = some level ∧
      (syncMitaUsers parsers crypto cfg now stored reloads).2 = {
        portBindings :=
          [portBinding (effectivePortRange (trimSpace cfg.serverPortRange))]
        users := (cfg.active now).map fun user =>
          hashUserPassword crypto (sentUser user)
        loggingLevel := some level
        mtu := some (effectiveMTU cfg.mtu) } := by
  unfold syncMitaUsers at h ⊢
  dsimp only at h ⊢
  split at h
  · cases h
  · rename_i patch hpayload
    obtain ⟨level, hlevel, hpatch⟩ := applyUsersPayload_eq_some hpayload
    refine ⟨level, hlevel, ?_⟩
    split at h
    · rename_i after happly
      rw [serverApplyConfig_eq_ok happly, hpatch]
      simp [storeServerConfig, sentUser, Function.comp_def]
    · cases h

theorem sentUser_eq_mitaUser {user : PanelUser} :
    hashUserPassword crypto (sentUser user) = mitaUser crypto user ↔
      mitaQuotas user.quotas = [] := by
  constructor
  · intro h
    have hquotas := congrArg User.quotas h
    unfold mitaUser hashUserPassword at hquotas
    split at hquotas <;> split at hquotas <;> exact hquotas.symm
  · intro h
    simp [mitaUser, sentUser, h]

/--
A synchronisation that succeeds leaves the users and settings of the panel and
everything else as it was, exactly if there is nothing it would drop.
-/
theorem sync_refines_iff (h : (syncMitaUsers parsers crypto cfg now stored reloads).1 = true) :
    Refines crypto cfg now stored (syncMitaUsers parsers crypto cfg now stored reloads).2 ↔
      NothingToLose cfg now stored := by
  obtain ⟨level, hlevel, hafter⟩ := syncMitaUsers_eq h
  rw [hafter]
  have husers : (cfg.active now).map (fun user =>
      hashUserPassword crypto (sentUser user)) =
      (cfg.active now).map (mitaUser crypto) ↔
      ∀ user ∈ cfg.active now, mitaQuotas user.quotas = [] := by
    rw [List.map_inj_left]
    simp only [sentUser_eq_mitaUser]
  constructor
  · intro hrefines
    exact ⟨husers.mp hrefines.users, hrefines.advancedSettings.symm,
      hrefines.egress.symm, hrefines.dns.symm, hrefines.trafficPattern.symm⟩
  · intro hnothing
    exact ⟨husers.mpr hnothing.quotas, rfl, hlevel.symm, rfl,
      hnothing.advancedSettings.symm, hnothing.egress.symm, hnothing.dns.symm,
      hnothing.trafficPattern.symm⟩

def twoUsers : Settings where
  users := [{ name := [97], password := [112] },
    { name := [98], password := [113], expiresAt := 5 }]

theorem sync_refines_fresh : (syncMitaUsers anyParsers tagCrypto twoUsers 10 {} true).1 = true ∧
      Refines tagCrypto twoUsers 10 {}
        (syncMitaUsers anyParsers tagCrypto twoUsers 10 {} true).2 := by
  have hsuccess : (syncMitaUsers anyParsers tagCrypto twoUsers 10 {} true).1 =
      true := by decide +kernel
  refine ⟨hsuccess, (sync_refines_iff hsuccess).mpr ⟨?_, rfl, rfl, rfl, rfl⟩⟩
  decide

def quotaUser : Settings where
  users := [{ name := [97], password := [112], quotas := { dayMB := 100 } }]

/--
The synchronisation succeeds; the quota of the user is not stored, and the
DNS section of mita is gone.
-/
theorem sync_drops :
    let before : ServerConfig := { dns := some { dualStack := some 1 } }
    (syncMitaUsers anyParsers tagCrypto quotaUser 10 before true).1 = true ∧
      (syncMitaUsers anyParsers tagCrypto quotaUser 10 before true).2.users.map User.quotas = [[]] ∧
      (syncMitaUsers anyParsers tagCrypto quotaUser 10 before true).2.dns =
        none := by
  refine ⟨?_, ?_, ?_⟩ <;> decide +kernel

end

end Mieru.Panel
