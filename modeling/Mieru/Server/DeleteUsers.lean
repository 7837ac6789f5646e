import Mieru.Foundation.TransitionSystem
import Mieru.Server.ApplyConfig

/-!
# Deleting users

`serverDeleteUserFunc` reads the configuration of the daemon, removes users
from its copy and sends the copy back.  Each of the two calls holds the lock
of the configuration file; nothing is held between them.
-/

namespace Mieru.Appctlpb

open Mieru.Foundation
open Mieru.Cipher

inductive Command where
  | idle
  | started (names : List Bytes)
  | read (names : List Bytes) (config : ServerConfig)
  | succeeded (names : List Bytes)
  | failed (names : List Bytes)

def Command.names : Command → List Bytes
  | .idle => []
  | .started names | .read names _ | .succeeded names | .failed names => names

inductive SetResult where
  | done
  /-- The configuration is stored, but the caller gets an error. -/
  | unanswered
  | refused
  deriving DecidableEq

inductive OperatorEvent where
  | run (id : Nat) (names : List Bytes)
  | getConfig (id : Nat) (answered : Bool)
  | setConfig (id : Nat) (result : SetResult)

structure Operators where
  initial : ServerConfig
  stored : ServerConfig
  commands : Nat → Command := fun _ => .idle

def removeUsers (names : List Bytes) (config : ServerConfig) : ServerConfig :=
  { config with users := config.users.filter fun user => user.getName ∉ names }

namespace Operators

def setCommand (s : Operators) (id : Nat) (command : Command) : Operators :=
  { s with commands := Function.update s.commands id command }

def setStored (s : Operators) (config : ServerConfig) : Operators :=
  { s with stored := config }

def next (crypto : Crypto) (s : Operators) : OperatorEvent → Option Operators
  | .run id names =>
    match s.commands id with
    | .idle => some (s.setCommand id (.started names))
    | _ => none
  | .getConfig id answered =>
    match s.commands id with
    | .started names =>
      some (s.setCommand id (if answered then .read names s.stored else .failed names))
    | _ => none
  | .setConfig id result =>
    match s.commands id with
    | .read names config =>
      let after := Appctlpb.setConfig crypto s.stored (removeUsers names config)
      match result with
      | .done => some ((s.setStored after).setCommand id (.succeeded names))
      | .unanswered => some ((s.setStored after).setCommand id (.failed names))
      | .refused => some (s.setCommand id (.failed names))
    | _ => none

def IsInitial (s : Operators) : Prop :=
  s.stored = s.initial ∧ s.commands = fun _ => .idle

end Operators

def operatorSystem (crypto : Crypto) : System Operators OperatorEvent :=
  System.ofNext Operators.IsInitial (Operators.next crypto)

namespace Operators

variable {crypto : Crypto} {s s' : Operators}

/-- A command stores only while the configuration is the one it has read. -/
def Unchanged (s : Operators) (event : OperatorEvent) : Prop :=
  ∀ id result names config, event = .setConfig id result →
    s.commands id = .read names config → s.stored = config

structure UsersOK (crypto : Crypto) (s : Operators) : Prop where
  deleted : ∀ id names, s.commands id = .succeeded names →
    ∀ user ∈ s.stored.users, user.getName ∉ names
  kept : ∀ user ∈ s.initial.users, (∀ id, user.getName ∉ (s.commands id).names) →
    user ∈ s.stored.users ∨ hashUserPassword crypto user ∈ s.stored.users

theorem UsersOK.setCommand {id : Nat} {command : Command} (h : s.UsersOK crypto)
    (hnames : (s.commands id).names ⊆ command.names)
    (hrunning : ∀ names, command ≠ .succeeded names) :
    (s.setCommand id command).UsersOK crypto where
  deleted other names hother user huser := by
    by_cases hid : other = id
    · subst hid
      simp only [Operators.setCommand, Function.update_self] at hother
      exact absurd hother (hrunning names)
    · simp only [Operators.setCommand, Function.update_of_ne hid] at hother
      exact h.deleted other names hother user huser
  kept user huser hfree := by
    refine h.kept user huser fun other => ?_
    have hother := hfree other
    by_cases hid : other = id
    · subst hid
      simp only [Operators.setCommand, Function.update_self] at hother
      exact fun hmem => hother (hnames hmem)
    · simpa only [Operators.setCommand, Function.update_of_ne hid] using hother

theorem hashUserPassword_idem (user : User) :
    hashUserPassword crypto (hashUserPassword crypto user) = hashUserPassword crypto user := by
  have hnone : (hashUserPassword crypto user).getPassword = [] := by
    unfold hashUserPassword
    split
    · assumption
    · rfl
  generalize hashUserPassword crypto user = hashed at hnone
  rw [hashUserPassword, if_pos hnone]

theorem mem_users_setConfig {names : List Bytes} {config : ServerConfig} {user : User} :
    user ∈ (Appctlpb.setConfig crypto config (removeUsers names config)).users ↔
      ∃ before ∈ config.users, before.getName ∉ names ∧ hashUserPassword crypto before = user := by
  simp only [Appctlpb.setConfig, storeServerConfig, removeUsers, List.mem_map,
    List.mem_filter, decide_eq_true_eq, and_assoc]

theorem UsersOK.store {id : Nat} {names : List Bytes} {command : Command} (h : s.UsersOK crypto)
    (hread : s.commands id = .read names s.stored) (hcommand : command.names = names) :
    ((s.setStored (Appctlpb.setConfig crypto s.stored
      (removeUsers names s.stored))).setCommand id command).UsersOK crypto where
  deleted other gone hother user huser := by
    obtain ⟨before, hbefore, hname, rfl⟩ := mem_users_setConfig.mp huser
    rw [getName_hashUserPassword]
    by_cases hid : other = id
    · subst hid
      simp only [Operators.setCommand, Function.update_self] at hother
      rw [hother] at hcommand
      cases hcommand
      exact hname
    · simp only [Operators.setCommand, Function.update_of_ne hid] at hother
      exact h.deleted other gone hother before hbefore
  kept user huser hfree := by
    have hname : user.getName ∉ names := by
      have hself := hfree id
      simpa only [Operators.setCommand, Function.update_self, hcommand] using hself
    have hbefore := h.kept user huser fun other => by
      by_cases hid : other = id
      · rw [hid, hread]
        exact hname
      · simpa only [Operators.setCommand, setStored, Function.update_of_ne hid] using hfree other
    refine .inr (mem_users_setConfig.mpr ?_)
    rcases hbefore with hmem | hmem
    · exact ⟨user, hmem, hname, rfl⟩
    · refine ⟨hashUserPassword crypto user, hmem, ?_, hashUserPassword_idem user⟩
      rwa [getName_hashUserPassword]

theorem UsersOK.next (h : s.UsersOK crypto) {event : OperatorEvent}
    (hguard : s.Unchanged event) (hnext : s.next crypto event = some s') : s'.UsersOK crypto := by
  cases event with
  | run id names =>
    simp only [Operators.next] at hnext
    split at hnext
    · rename_i hidle
      cases hnext
      refine h.setCommand ?_ (by simp)
      simp [hidle, Command.names]
    · cases hnext
  | getConfig id answered =>
    simp only [Operators.next] at hnext
    split at hnext
    · rename_i names hstarted
      cases hnext
      refine h.setCommand ?_ ?_
      · cases answered <;> simp [hstarted, Command.names]
      · cases answered <;> simp
    · cases hnext
  | setConfig id result =>
    simp only [Operators.next] at hnext
    split at hnext
    · rename_i names config hread
      obtain rfl := hguard id result names config rfl hread
      cases result with
      | done =>
        cases hnext
        exact h.store hread rfl
      | unanswered =>
        cases hnext
        exact h.store hread rfl
      | refused =>
        cases hnext
        refine h.setCommand ?_ (by simp)
        simp [hread, Command.names]
    · cases hnext

theorem IsInitial.usersOK (h : s.IsInitial) : s.UsersOK crypto := by
  obtain ⟨hstored, hcommands⟩ := h
  refine ⟨?_, ?_⟩
  · intro id names hid
    rw [hcommands] at hid
    cases hid
  · intro user huser _
    rw [hstored]
    exact .inl huser

/--
If every command finds the configuration unchanged when it stores, no user of
a command that has succeeded is in the configuration, and every user that no
command names is still there.
-/
theorem deletions_not_lost (h : (operatorSystem crypto).ReachableBy Unchanged s) :
    (∀ id names, s.commands id = .succeeded names → ∀ user ∈ s.stored.users, user.getName ∉ names) ∧
    ∀ user ∈ s.initial.users, (∀ id, user.getName ∉ (s.commands id).names) → user ∈ s.stored.users ∨
        hashUserPassword crypto user ∈ s.stored.users := by
  have husers : s.UsersOK crypto := by
    induction h with
    | init hinit => exact IsInitial.usersOK hinit
    | step _ hguard hnext ih => exact ih.next hguard hnext
  exact ⟨husers.deleted, husers.kept⟩

def threeUsers : Operators :=
  let config : ServerConfig :=
    { users := [[97], [98], [99]].map fun name =>
        { name := some name, hashedPassword := some [48] } }
  { initial := config, stored := config }

theorem isInitial_threeUsers : threeUsers.IsInitial := ⟨rfl, rfl⟩

def checkUnchanged (s : Operators) : OperatorEvent → Bool
  | .setConfig id _ =>
    match s.commands id with
    | .read _ config => s.stored == config
    | _ => true
  | _ => true

theorem unchanged_of_check (s : Operators) (event : OperatorEvent)
    (h : s.checkUnchanged event = true) : s.Unchanged event := by
  rintro id result names config rfl hread
  simpa [checkUnchanged, hread] using h

def report (s : Operators) : List Bytes × List Bool :=
  (s.stored.users.map User.getName, (List.range 2).map fun id =>
    match s.commands id with
    | .succeeded _ => true
    | _ => false)

/-- One command after the other. -/
theorem deletions_not_lost_serial : ∃ s, (operatorSystem tagCrypto).ReachableBy Unchanged s ∧
      s.report = ([[99]], [true, true]) ∧ (∀ id names, s.commands id = .succeeded names →
        ∀ user ∈ s.stored.users, user.getName ∉ names) ∧
      ∀ user ∈ s.initial.users, (∀ id, user.getName ∉ (s.commands id).names) →
        user ∈ s.stored.users ∨ hashUserPassword tagCrypto user ∈ s.stored.users := by
  obtain ⟨s, hreachable, hreport⟩ : ∃ s, (operatorSystem tagCrypto).ReachableBy Unchanged s ∧
      s.report = ([[99]], [true, true]) :=
    System.exists_reachableBy unchanged_of_check isInitial_threeUsers
      [.run 0 [[97]], .getConfig 0 true, .setConfig 0 .done,
        .run 1 [[98]], .getConfig 1 true, .setConfig 1 .done] (by decide +kernel)
  exact ⟨s, hreachable, hreport, deletions_not_lost hreachable⟩

/-- Both commands read before either stores: the first deletion is undone. -/
theorem deletion_lost : ∃ s, (operatorSystem tagCrypto).Reachable s ∧
      s.commands 0 = .succeeded [[97]] ∧ s.commands 1 = .succeeded [[98]] ∧
      s.stored.users.map User.getName = [[97], [99]] := by
  have hrun : System.runEvents (Operators.next tagCrypto) threeUsers
      [.run 0 [[97]], .getConfig 0 true, .run 1 [[98]], .getConfig 1 true,
        .setConfig 0 .done, .setConfig 1 .done] = some _ := rfl
  refine ⟨_, System.Reachable.run (.init isInitial_threeUsers) hrun, rfl, rfl, ?_⟩
  decide +kernel

end Operators

end Mieru.Appctlpb
