import Mieru.Server.ApplyConfig
import Mieru.Server.Revocation

/-!
# The server daemon

`serverRunFunc` and the management service: the stored configuration, the muxes
that were created, and the two references to a mux.  `socks5ServerRef` leads to
the mux that the proxy serves; `Reload` works on the mux of `serverMuxRef`, which
only the start of the daemon sets.

The calls of the management service come one after another.  The tasks of the
muxes happen at any time, also between the steps of `Reload`.
-/

namespace Mieru.Appctl

open Mieru.Foundation
open Mieru.Cipher (Crypto User tagCrypto)
open Mieru.Protocol hiding TransportProtocol
open Mieru.Appctlpb (ServerConfig Parsers flatPortBindings)

/-! ## The settings of a configuration -/

def textOf (bytes : Bytes) : String := (String.fromUTF8? ⟨bytes.toArray⟩).getD ""

/-- `UserListToMap`. -/
def userListToMap (users : List Appctlpb.User) : List User :=
  (KeyedList.toMap Appctlpb.User.getName users).map fun user =>
    ⟨textOf user.getName, textOf user.getPassword, textOf user.getHashedPassword⟩

/-- `PortBindingsToUnderlayProperties` for bindings that have been checked. -/
def portBindingsToUnderlayProperties (config : ServerConfig) : List UnderlayProperties :=
  match flatPortBindings config.portBindings with
  | .error _ => []
  | .ok bindings => bindings.map fun binding =>
    { mtu := if config.mtu.getD 0 ≠ 0 then (config.mtu.getD 0).toNat else 1400
      transportProtocol :=
        if binding.protocol = some .tcp then .streamTransport else .packetTransport
      localAddr := ":" ++ toString (binding.port.getD 0) }

def hintIsMandatory (config : ServerConfig) : Bool :=
  (config.advancedSettings.getD {}).userHintIsMandatory.getD false

/-! ## The daemon -/

inductive ReloadState where
  | notCalled
  | settingEndpoints (mux : Nat) (config : ServerConfig)
  | settingUsers (mux : Nat) (config : ServerConfig)
  | settingHint (mux : Nat) (config : ServerConfig)
  | succeeded
  | failed

structure Daemon where
  stored : ServerConfig
  started : Bool := false
  /-- `log.Fatalf` was called. -/
  exited : Bool := false
  /-- All muxes that were created; a reference is an index. -/
  muxes : List Mux := []
  socks5ServerRef : Option Nat := none
  serverMuxRef : Option Nat := none
  /-- Muxes of stopped socks5 servers that are still open. -/
  stopping : List Nat := []
  reload : ReloadState := .notCalled

inductive DaemonEvent where
  | startUp (listens : UnderlayProperties → Bool)
  | start (listens : UnderlayProperties → Bool)
  | stop
  | setConfig (config : ServerConfig)
  | reload
  | reloadStep (listens : UnderlayProperties → Bool)
  | serveEnds (mux : Nat)
  | serveFails (mux : Nat)
  | task (mux : Nat) (task : MuxTask)

namespace Daemon

variable (parsers : Parsers) (crypto : Crypto) (keys : Int → Bytes → List Bytes)

def newMux (config : ServerConfig) : Mux :=
  ((({} : Mux).setServerUsers (userListToMap config.users)
    ).setServerUserHintIsMandatory (hintIsMandatory config)
    ).setEndpoints (portBindingsToUnderlayProperties config) fun _ => false

def isValid (config : ServerConfig) : Bool :=
  (Appctlpb.validateFullServerConfig parsers config).isOk

def launch (d : Daemon) (listens : UnderlayProperties → Bool) : Daemon :=
  match (newMux d.stored).start listens with
  | .ok mux =>
    { d with
      muxes := d.muxes ++ [mux]
      socks5ServerRef := some d.muxes.length }
  | _ => { d with exited := true }

/-- `serverRunFunc`: the proxy is started if the configuration is valid. -/
def startUp (d : Daemon) (listens : UnderlayProperties → Bool) : Daemon :=
  let d := { d with started := true }
  if isValid parsers d.stored then
    { d.launch listens with serverMuxRef := some d.muxes.length }
  else d

def start (d : Daemon) (listens : UnderlayProperties → Bool) : Daemon :=
  if isValid parsers d.stored = false then d
  else if d.socks5ServerRef.isSome then d
  else d.launch listens

def stop (d : Daemon) : Daemon :=
  { d with
    socks5ServerRef := none
    stopping := d.socks5ServerRef.toList ++ d.stopping }

/-- `StoreServerConfig` checks nothing. -/
def setConfig (d : Daemon) (config : ServerConfig) : Daemon :=
  { d with stored := Appctlpb.setConfig crypto d.stored config }

/-- `Reload` up to the point where it has loaded the reference. -/
def beginReload (d : Daemon) : ReloadState :=
  if isValid parsers d.stored = false then .failed
  else
    match d.serverMuxRef with
    | some mux => .settingEndpoints mux d.stored
    | none => .succeeded

def onMux (d : Daemon) (index : Nat) (f : Mux → Option Mux) : Option Daemon :=
  match d.muxes[index]? with
  | some mux => (f mux).map fun mux => { d with muxes := d.muxes.set index mux }
  | none => none

def reloadStep (d : Daemon) (listens : UnderlayProperties → Bool) : Option Daemon :=
  match d.reload with
  | .settingEndpoints mux config =>
    ({ d with reload := .settingUsers mux config }).onMux mux fun m =>
      some (m.setEndpoints (portBindingsToUnderlayProperties config) listens)
  | .settingUsers mux config =>
    ({ d with reload := .settingHint mux config }).onMux mux fun m =>
      some (m.setServerUsers (userListToMap config.users))
  | .settingHint mux config =>
    ({ d with reload := .succeeded }).onMux mux fun m =>
      some (m.setServerUserHintIsMandatory (hintIsMandatory config))
  | _ => none

def ready (d : Daemon) : Bool :=
  d.started && !d.exited && match d.reload with
    | .settingEndpoints _ _ => false
    | .settingUsers _ _ => false
    | .settingHint _ _ => false
    | _ => true

def next (d : Daemon) : DaemonEvent → Option Daemon
  | .startUp listens => if d.started then none else some (d.startUp parsers listens)
  | .start listens =>
    if d.ready then some { d.start parsers listens with reload := .notCalled }
    else none
  | .stop => if d.ready then some { d.stop with reload := .notCalled } else none
  | .setConfig config =>
    if d.ready then some { d.setConfig crypto config with reload := .notCalled }
    else none
  | .reload =>
    if d.ready then some { d with reload := d.beginReload parsers } else none
  | .reloadStep listens => if d.exited then none else d.reloadStep listens
  | .serveEnds mux =>
    if mux ∈ d.stopping then
      ({ d with stopping := d.stopping.erase mux }).onMux mux fun m =>
        some m.close
    else none
  | .serveFails mux =>
    match d.muxes[mux]? with
    | some m => if m.acceptHasErr then some { d with exited := true } else none
    | none => none
  | .task mux task =>
    if d.exited then none
    else d.onMux mux fun m => m.runTask crypto keys task

def IsInitial (d : Daemon) : Prop := d = { stored := d.stored }

theorem isInitial_of_config (config : ServerConfig) : IsInitial { stored := config } := rfl

end Daemon

def daemonSystem (parsers : Parsers) (crypto : Crypto) (keys : Int → Bytes → List Bytes) :
    System Daemon DaemonEvent :=
  .ofNext Daemon.IsInitial (Daemon.next parsers crypto keys)

/-! ## The settings of a mux -/

structure KnowsUsers (m : Mux) (known : List User) : Prop where
  mux : m.users = known
  made : ∀ u ∈ m.made, u.users = known
  packets : ∀ p ∈ m.packets, p.underlay.users = known

structure KnowsHint (m : Mux) (hint : Bool) : Prop where
  mux : m.userHintIsMandatory = hint
  made : ∀ u ∈ m.made, u.userHintIsMandatory = hint
  packets : ∀ p ∈ m.packets, p.underlay.userHintIsMandatory = hint

structure Uses (m : Mux) (config : ServerConfig) : Prop where
  users : KnowsUsers m (userListToMap config.users)
  hint : KnowsHint m (hintIsMandatory config)

section

variable {m m' : Mux} {known : List User} {hint : Bool}

theorem KnowsUsers.keepsSettings (h : KnowsUsers m known)
    (hkeeps : m.KeepsSettings m') : KnowsUsers m' known where
  mux := hkeeps.users.trans h.mux
  made := by
    intro u hu
    obtain hu | ⟨p, rfl⟩ := hkeeps.made u hu
    · exact h.made u hu
    · exact h.mux
  packets := by
    intro p hp
    obtain ⟨before, hbefore, hsame⟩ | hmade := hkeeps.packets p hp
    · exact hsame.users.trans (h.packets before hbefore)
    · exact h.made p.underlay hmade

theorem KnowsHint.keepsSettings (h : KnowsHint m hint)
    (hkeeps : m.KeepsSettings m') : KnowsHint m' hint where
  mux := hkeeps.userHintIsMandatory.trans h.mux
  made := by
    intro u hu
    obtain hu | ⟨p, rfl⟩ := hkeeps.made u hu
    · exact h.made u hu
    · exact h.mux
  packets := by
    intro p hp
    obtain ⟨before, hbefore, hsame⟩ | hmade := hkeeps.packets p hp
    · exact hsame.userHintIsMandatory.trans (h.packets before hbefore)
    · exact h.made p.underlay hmade

theorem Uses.keepsSettings {config : ServerConfig} (h : Uses m config)
    (hkeeps : m.KeepsSettings m') : Uses m' config :=
  ⟨h.users.keepsSettings hkeeps, h.hint.keepsSettings hkeeps⟩

theorem keepsSettings_close (m : Mux) : m.KeepsSettings m.close := by
  unfold Mux.close
  split
  · exact Mux.keepsSettings_of_eq rfl rfl rfl rfl (List.Subset.refl _)
  · exact Mux.keepsSettings_of_eq rfl rfl rfl rfl (List.nil_subset _)

theorem knowsUsers_setServerUsers (users : List User) (hused : m.used = true)
    (hmade : m.made = []) : KnowsUsers (m.setServerUsers users) users where
  mux := rfl
  made := by
    intro u hu
    rw [show (m.setServerUsers users).made = m.made from rfl, hmade] at hu
    cases hu
  packets := by
    intro p hp
    simp only [Mux.setServerUsers, hused, if_true, List.mem_map] at hp
    obtain ⟨before, -, rfl⟩ := hp
    rfl

end

/-! ## Reload -/

namespace Daemon

variable {parsers : Parsers} {crypto : Crypto} {keys : Int → Bytes → List Bytes} {d d' : Daemon}
  {listens : UnderlayProperties → Bool}

/--
`Reload` finds the mux that is running, no packet underlay is being made while
it sets the users, and the existing packet underlays already have the setting
for user hints that it sets.
-/
structure ReloadsRunning (d : Daemon) (event : DaemonEvent) : Prop where
  mux : event = .reload → ∀ i, d.socks5ServerRef = some i → d.serverMuxRef = some i
  made : ∀ listens, event = .reloadStep listens → ∀ i config m,
    d.reload = .settingUsers i config → d.muxes[i]? = some m → m.made = []
  hint : ∀ listens, event = .reloadStep listens → ∀ i config m,
    d.reload = .settingHint i config → d.muxes[i]? = some m →
      (∀ u ∈ m.made, u.userHintIsMandatory = hintIsMandatory config) ∧
      ∀ p ∈ m.packets, p.underlay.userHintIsMandatory = hintIsMandatory config

def Progress (d : Daemon) : Prop :=
  match d.reload with
  | .settingEndpoints i config =>
    config = d.stored ∧ ∀ j, d.socks5ServerRef = some j → j = i
  | .settingUsers i config =>
    config = d.stored ∧ ∀ j, d.socks5ServerRef = some j → j = i
  | .settingHint i config =>
    config = d.stored ∧ ∀ j, d.socks5ServerRef = some j → j = i ∧
      ∃ m, d.muxes[j]? = some m ∧ KnowsUsers m (userListToMap config.users)
  | .succeeded => ∀ j, d.socks5ServerRef = some j → ∃ m, d.muxes[j]? = some m ∧ Uses m d.stored
  | _ => True

structure Consistent (d : Daemon) : Prop where
  running : ∀ i, d.socks5ServerRef = some i → ∃ m, d.muxes[i]? = some m ∧ m.used = true
  progress : d.Progress
  before : d.started = false → d.reload = .notCalled

theorem onMux_eq_some {index : Nat} {f : Mux → Option Mux} (h : d.onMux index f = some d') :
    ∃ m m', d.muxes[index]? = some m ∧ f m = some m' ∧
      d' = { d with muxes := d.muxes.set index m' } := by
  unfold onMux at h
  split at h
  · rename_i m hm
    obtain ⟨m', hf, rfl⟩ := Option.map_eq_some_iff.mp h
    exact ⟨m, m', hm, hf, rfl⟩
  · cases h

theorem exists_set {index i : Nat} {m m' : Mux} {P : Mux → Prop} (hm : d.muxes[index]? = some m)
    (hP : P m → P m') (h : ∃ other, d.muxes[i]? = some other ∧ P other) :
    ∃ other, (d.muxes.set index m')[i]? = some other ∧ P other := by
  obtain ⟨other, hother, hholds⟩ := h
  by_cases hindex : index = i
  · subst hindex
    cases hm.symm.trans hother
    refine ⟨m', ?_, hP hholds⟩
    rw [List.getElem?_set_self]
    exact (List.getElem?_eq_some_iff.mp hm).1
  · refine ⟨other, ?_, hholds⟩
    rw [List.getElem?_set_ne hindex]
    exact hother

theorem Consistent.setMux {index : Nat} {m m' : Mux} (h : d.Consistent)
    (hm : d.muxes[index]? = some m) (hkeeps : m.KeepsSettings m') :
    { d with muxes := d.muxes.set index m' }.Consistent where
  running := by
    intro i hi
    apply exists_set hm _ (h.running i hi)
    exact fun hused => hkeeps.used.trans hused
  progress := by
    have hprogress := h.progress
    unfold Progress at hprogress ⊢
    dsimp only
    split
    · rename_i hreload
      rw [hreload] at hprogress
      exact hprogress
    · rename_i hreload
      rw [hreload] at hprogress
      exact hprogress
    · rename_i hreload
      rw [hreload] at hprogress
      refine ⟨hprogress.1, ?_⟩
      intro j hj
      obtain ⟨hindex, hknows⟩ := hprogress.2 j hj
      exact ⟨hindex, exists_set hm (fun h => h.keepsSettings hkeeps) hknows⟩
    · rename_i hreload
      rw [hreload] at hprogress
      intro j hj
      exact exists_set hm (fun h => h.keepsSettings hkeeps) (hprogress j hj)
    · trivial
  before := h.before

theorem used_of_start {m m' : Mux} (h : m.start listens = .ok m') : m'.used = true := by
  obtain ⟨_, _, _, rfl⟩ := Mux.start_eq_ok h
  rfl

theorem running_launch (listens : UnderlayProperties → Bool)
    (h : ∀ i, d.socks5ServerRef = some i → ∃ m, d.muxes[i]? = some m ∧ m.used = true) :
    ∀ i, (d.launch listens).socks5ServerRef = some i →
      ∃ m, (d.launch listens).muxes[i]? = some m ∧ m.used = true := by
  unfold launch
  split
  · rename_i mux hstart
    intro i hi
    cases hi
    refine ⟨mux, ?_, used_of_start hstart⟩
    simp
  · exact h

theorem consistent_of_running (hreload : d.reload = .notCalled)
    (h : ∀ i, d.socks5ServerRef = some i → ∃ m, d.muxes[i]? = some m ∧ m.used = true) :
    d.Consistent where
  running := h
  progress := by
    unfold Progress
    rw [hreload]
    trivial
  before _ := hreload

theorem reload_launch (listens : UnderlayProperties → Bool) :
    (d.launch listens).reload = d.reload := by
  unfold launch
  split <;> rfl

theorem Consistent.startUp (h : d.Consistent) (hstarted : d.started = false)
    (listens : UnderlayProperties → Bool) : (d.startUp parsers listens).Consistent := by
  have hbefore := h.before hstarted
  unfold Daemon.startUp
  dsimp only
  split
  · apply consistent_of_running
    · exact (reload_launch listens).trans hbefore
    · exact running_launch (d := { d with started := true }) listens h.running
  · exact consistent_of_running hbefore h.running

theorem Consistent.start (h : d.Consistent) (listens : UnderlayProperties → Bool) :
    { d.start parsers listens with reload := .notCalled }.Consistent := by
  apply consistent_of_running rfl
  unfold Daemon.start
  split
  · exact h.running
  split
  · exact h.running
  · exact running_launch listens h.running

theorem Consistent.beginReload (h : d.Consistent) (hready : d.ready = true)
    (hguard : d.ReloadsRunning .reload) :
    { d with reload := d.beginReload parsers }.Consistent where
  running := h.running
  progress := by
    have hmux := hguard.mux rfl
    unfold Progress Daemon.beginReload
    dsimp only
    split_ifs
    · trivial
    · cases hserver : d.serverMuxRef with
      | some index =>
        refine ⟨rfl, ?_⟩
        intro j hj
        have hsame := hmux j hj
        rw [hserver] at hsame
        exact (Option.some.inj hsame).symm
      | none =>
        intro j hj
        have hsame := hmux j hj
        rw [hserver] at hsame
        cases hsame
  before := by
    intro hstarted
    simp [ready, show d.started = false from hstarted] at hready

theorem Consistent.reloadStep (h : d.Consistent) (hguard : d.ReloadsRunning (.reloadStep listens))
    (hstep : d.reloadStep listens = some d') : d'.Consistent := by
  have hprogress := h.progress
  unfold Daemon.reloadStep at hstep
  unfold Progress at hprogress
  split at hstep
  · rename_i index config hreload
    rw [hreload] at hprogress
    obtain ⟨m, m', hm, heq, rfl⟩ := onMux_eq_some hstep
    cases heq
    refine ⟨?_, hprogress, ?_⟩
    · intro i hi
      apply exists_set hm _ (h.running i hi)
      exact fun hused => (m.setEndpoints_frame _ listens).1.trans hused
    · intro hstarted
      cases (h.before hstarted).symm.trans hreload
  · rename_i index config hreload
    rw [hreload] at hprogress
    obtain ⟨m, m', hm, heq, rfl⟩ := onMux_eq_some hstep
    cases heq
    refine ⟨?_, ⟨hprogress.1, ?_⟩, ?_⟩
    · intro i hi
      exact exists_set hm (fun hused => hused) (h.running i hi)
    · intro j hj
      obtain rfl := hprogress.2 j hj
      refine ⟨rfl, m.setServerUsers (userListToMap config.users), ?_, ?_⟩
      · exact List.getElem?_set_self (List.getElem?_eq_some_iff.mp hm).1
      · obtain ⟨running, hrunning, hused⟩ := h.running j hj
        cases hm.symm.trans hrunning
        exact knowsUsers_setServerUsers _ hused (hguard.made listens rfl j config m hreload hm)
    · intro hstarted
      cases (h.before hstarted).symm.trans hreload
  · rename_i index config hreload
    rw [hreload] at hprogress
    obtain ⟨m, m', hm, heq, rfl⟩ := onMux_eq_some hstep
    cases heq
    refine ⟨?_, ?_, ?_⟩
    · intro i hi
      exact exists_set hm (fun hused => hused) (h.running i hi)
    · intro j hj
      obtain ⟨rfl, known, hknown, husers⟩ := hprogress.2 j hj
      cases hm.symm.trans hknown
      obtain ⟨hmade, hpackets⟩ := hguard.hint listens rfl j config m hreload hm
      refine ⟨_, List.getElem?_set_self (List.getElem?_eq_some_iff.mp hm).1, ?_⟩
      rw [← show config = d.stored from hprogress.1]
      exact ⟨⟨husers.mux, husers.made, husers.packets⟩, rfl, hmade, hpackets⟩
    · intro hstarted
      cases (h.before hstarted).symm.trans hreload
  · cases hstep

theorem Consistent.next {event : DaemonEvent} (h : d.Consistent) (hguard : d.ReloadsRunning event)
    (hstep : d.next parsers crypto keys event = some d') : d'.Consistent := by
  cases event with
  | startUp listens =>
    obtain ⟨hstarted, hstep⟩ := Option.ite_none_left_eq_some.mp hstep
    cases hstep
    exact h.startUp (by simpa using hstarted) listens
  | start listens =>
    simp only [Daemon.next] at hstep
    split at hstep <;> cases hstep
    exact h.start listens
  | stop =>
    simp only [Daemon.next] at hstep
    split at hstep <;> cases hstep
    apply consistent_of_running rfl
    intro i hi
    cases hi
  | setConfig config =>
    simp only [Daemon.next] at hstep
    split at hstep <;> cases hstep
    exact consistent_of_running rfl h.running
  | reload =>
    obtain ⟨hready, hstep⟩ := Option.ite_none_right_eq_some.mp hstep
    cases hstep
    exact h.beginReload hready hguard
  | reloadStep listens =>
    obtain ⟨-, hstep⟩ := Option.ite_none_left_eq_some.mp hstep
    exact h.reloadStep hguard hstep
  | serveEnds index =>
    obtain ⟨-, hstep⟩ := Option.ite_none_right_eq_some.mp hstep
    obtain ⟨m, m', hm, heq, rfl⟩ := onMux_eq_some hstep
    cases heq
    have hset := h.setMux hm (keepsSettings_close m)
    exact ⟨hset.running, hset.progress, hset.before⟩
  | serveFails index =>
    simp only [Daemon.next] at hstep
    split at hstep
    · split at hstep <;> cases hstep
      exact ⟨h.running, h.progress, h.before⟩
    · cases hstep
  | task index task =>
    obtain ⟨-, hstep⟩ := Option.ite_none_left_eq_some.mp hstep
    obtain ⟨m, m', hm, htask, rfl⟩ := onMux_eq_some hstep
    exact h.setMux hm (Mux.keepsSettings_runTask htask)

theorem consistent_of_reachable
    (h : (daemonSystem parsers crypto keys).ReachableBy Daemon.ReloadsRunning d) :
    d.Consistent := by
  induction h with
  | @init d hinit =>
    have hd : d = { stored := d.stored } := hinit
    rw [hd]
    exact consistent_of_running rfl (by simp)
  | step _ hguard hstep ih => exact ih.next hguard hstep

/--
When `Reload` has succeeded and a proxy is running, the mux that it serves uses
the stored users and the stored setting for user hints.
-/
theorem reload_reaches_running_mux
    (h : (daemonSystem parsers crypto keys).ReachableBy Daemon.ReloadsRunning d)
    (hreload : d.reload = .succeeded) (i : Nat) (hrunning : d.socks5ServerRef = some i) :
    ∃ m, d.muxes[i]? = some m ∧ Uses m d.stored := by
  have hprogress := (consistent_of_reachable h).progress
  unfold Progress at hprogress
  rw [hreload] at hprogress
  exact hprogress i hrunning

end Daemon

/-! ## Three daemons -/

structure Settings where
  users : List String
  hint : Bool
  packetHints : List Bool
  deriving DecidableEq

namespace Daemon

def settings (d : Daemon) : Option Settings :=
  match d.reload, d.socks5ServerRef.bind (d.muxes[·]?) with
  | .succeeded, some m =>
    some {
      users := m.users.map User.name
      hint := m.userHintIsMandatory
      packetHints :=
        m.packets.map fun p => p.underlay.userHintIsMandatory }
  | _, _ => none

def serverConfig (name : String) (hint : Bool) : ServerConfig where
  portBindings := [{ port := some 8964, protocol := some .udp }]
  users := [{ name := some (bytesOf name), hashedPassword := some (bytesOf "01") }]
  advancedSettings := some { userHintIsMandatory := some hint }

def reloadEvents : List DaemonEvent :=
  .reload :: List.replicate 3 (.reloadStep fun _ => true)

def madeEvents : List DaemonEvent :=
  [.task 0 (.makePacket udpEndpoint), .task 0 (.addPacket 0)]

def checkEvent (d : Daemon) : DaemonEvent → Bool
  | .reload => d.socks5ServerRef == d.serverMuxRef
  | .reloadStep _ =>
    match d.reload with
    | .settingUsers i _ => d.muxes[i]?.all (·.made.isEmpty)
    | .settingHint i config => d.muxes[i]?.all fun m =>
      m.made.isEmpty && m.packets.all fun p =>
        p.underlay.userHintIsMandatory == hintIsMandatory config
    | _ => true
  | _ => true

theorem reloadsRunning_of_checkEvent (d : Daemon) (event : DaemonEvent)
    (h : d.checkEvent event = true) : d.ReloadsRunning event where
  mux := by
    rintro rfl i hi
    have hsame : d.socks5ServerRef = d.serverMuxRef := by
      simpa [checkEvent] using h
    exact hsame.symm.trans hi
  made := by
    rintro listens rfl i config m hreload hm
    simpa [checkEvent, hreload, hm] using h
  hint := by
    rintro listens rfl i config m hreload hm
    have hchecked : m.made = [] ∧ ∀ p ∈ m.packets,
        p.underlay.userHintIsMandatory = hintIsMandatory config := by
      simpa [checkEvent, hreload, hm] using h
    refine ⟨?_, hchecked.2⟩
    intro u hu
    rw [hchecked.1] at hu
    cases hu

/-- A daemon that starts with a valid configuration can be reloaded. -/
theorem reload_reaches_running_mux_bob :
    ∃ d m, (daemonSystem Appctlpb.anyParsers tagCrypto fun _ => passwordKeys).ReachableBy
        Daemon.ReloadsRunning d ∧
      d.settings = some ⟨["bob"], true, [true]⟩ ∧ d.muxes[0]? = some m ∧ Uses m d.stored := by
  obtain ⟨d, hreachable, hsettings, hserver⟩ : ∃ d,
      (daemonSystem Appctlpb.anyParsers tagCrypto fun _ => passwordKeys).ReachableBy
        Daemon.ReloadsRunning d ∧
      d.settings = some ⟨["bob"], true, [true]⟩ ∧ d.socks5ServerRef = some 0 :=
    System.exists_reachableBy reloadsRunning_of_checkEvent
      (isInitial_of_config (serverConfig "alice" true))
      (.startUp (fun _ => true) :: madeEvents ++
        .setConfig (serverConfig "bob" true) :: reloadEvents) (by decide +kernel)
  have hreload : d.reload = .succeeded := by
    unfold settings at hsettings
    split at hsettings
    · assumption
    · cases hsettings
  obtain ⟨m, hm, huses⟩ :=
    reload_reaches_running_mux hreachable hreload 0 hserver
  exact ⟨d, m, hreachable, hsettings, hm, huses⟩

/--
`Reload` succeeds, and the running mux keeps its users when it was started by
the management service, and its packet underlays keep their setting for user
hints in any case.
-/
theorem reload_misses_running_mux :
    (∃ d, (daemonSystem Appctlpb.anyParsers tagCrypto fun _ => passwordKeys).Reachable d ∧
      d.stored.users.map Appctlpb.User.getName = [bytesOf "bob"] ∧
      d.settings = some ⟨["alice"], false, []⟩) ∧
    ∃ d, (daemonSystem Appctlpb.anyParsers tagCrypto fun _ => passwordKeys).Reachable d ∧
      hintIsMandatory d.stored = true ∧ d.settings = some ⟨["alice"], true, [false]⟩ := by
  constructor
  · exact System.exists_reachable (isInitial_of_config {})
      [.startUp fun _ => true, .setConfig (serverConfig "alice" false), .start fun _ => true,
        .setConfig (serverConfig "bob" false), .reload] (by decide +kernel)
  · exact System.exists_reachable (isInitial_of_config (serverConfig "alice" false))
      (.startUp (fun _ => true) :: madeEvents ++
        .setConfig (serverConfig "alice" true) :: reloadEvents) (by decide +kernel)

end Daemon

end Mieru.Appctl
