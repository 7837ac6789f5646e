import Mieru.Foundation.TransitionSystem
import Mieru.Panel.Synchronisation

/-!
# Concurrent edits of users

A request changes the configuration of the panel under its lock, takes a
snapshot, and applies the snapshot to mita.  Another request may change the
configuration and apply it in between; the older snapshot then comes last.
-/

namespace Mieru.Panel

open Mieru.Foundation
open Mieru.Cipher (Crypto tagCrypto)
open Mieru.Appctlpb

structure NewUser where
  name : Bytes
  password : Bytes
  quotaDay : Int := 0
  quotaMonth : Int := 0
  expiresAt : Int := 0
  maxDevices : Int := 0
  deriving DecidableEq

structure UserPatch where
  quotaDay : Option Int := none
  quotaMonth : Option Int := none
  expiresAt : Option Int := none
  maxDevices : Option Int := none
  deriving DecidableEq

inductive Edit where
  | create (req : NewUser) (token : Bytes)
  | delete (name : Bytes)
  | update (name : Bytes) (req : UserPatch)
  | regenerate (name : Bytes) (newPass : Bytes)
  deriving DecidableEq

def createUser (req : NewUser) (token : Bytes) (users : List PanelUser) : Option (List PanelUser) :=
  let name := trimSpace req.name
  if name = [] ∨ req.password = [] then none
  else if users.any fun user => user.name = name then none
  else some (users ++ [{
    name := name
    password := req.password
    subToken := token
    quotas := { dayMB := req.quotaDay, monthMB := req.quotaMonth }
    expiresAt := req.expiresAt
    maxDevices := if req.maxDevices < 0 then 0 else req.maxDevices }])

def deleteUser (name : Bytes) (users : List PanelUser) : Option (List PanelUser) :=
  if users.any fun user => user.name = name then
    some (users.filter fun user => user.name ≠ name)
  else none

def changeUser (name : Bytes) (change : PanelUser → PanelUser) :
    List PanelUser → Option (List PanelUser)
  | [] => none
  | user :: users =>
    if user.name = name then some (change user :: users)
    else (changeUser name change users).map fun rest => user :: rest

def patchUser (req : UserPatch) (user : PanelUser) : PanelUser :=
  { user with
    quotas := {
      dayMB := req.quotaDay.getD user.quotas.dayMB
      monthMB := req.quotaMonth.getD user.quotas.monthMB }
    expiresAt := req.expiresAt.getD user.expiresAt
    maxDevices :=
      match req.maxDevices with
      | some count => if count < 0 then 0 else count
      | none => user.maxDevices }

def Edit.apply : Edit → List PanelUser → Option (List PanelUser)
  | .create req token => createUser req token
  | .delete name => deleteUser name
  | .update name req => changeUser name (patchUser req)
  | .regenerate name newPass =>
    changeUser name fun user => { user with password := newPass }

inductive EditTask where
  | idle
  | started (edit : Edit)
  | updated
  | snapshotted (cfg : Settings)
  | timed (cfg : Settings) (now : Int)
  | stored
  | succeeded
  | failed

structure EditEnv where
  written : Bool := true
  applied : Bool := true
  reloaded : Bool := true

structure Editing where
  settings : Settings
  mita : ServerConfig
  now : Int := 0
  tasks : Nat → EditTask := fun _ => .idle
  /-- The time that was read for the users applied last. -/
  appliedAt : Option Int := none

inductive EditEvent where
  | request (id : Nat) (edit : Edit)
  | step (id : Nat) (env : EditEnv)
  | tick (now : Int)

namespace Editing

section

variable (parsers : Parsers) (crypto : Crypto)

def update (s : Editing) (env : EditEnv) (edit : Edit) : Editing × EditTask :=
  match edit.apply s.settings.users with
  | none => (s, .failed)
  | some users =>
    if env.written then
      ({ s with settings := { s.settings with users := users } }, .updated)
    else (s, .failed)

def applyUsers (s : Editing) (env : EditEnv) (cfg : Settings) (now : Int) : Editing × EditTask :=
  if env.applied then
    match syncMitaUsers parsers crypto cfg now s.mita true with
    | (true, mita) => ({ s with mita := mita, appliedAt := some now }, .stored)
    | (false, mita) => ({ s with mita := mita }, .failed)
  else (s, .failed)

def move (s : Editing) (env : EditEnv) : EditTask → Option (Editing × EditTask)
  | .idle | .succeeded | .failed => none
  | .started edit => some (s.update env edit)
  | .updated => some (s, .snapshotted s.settings)
  | .snapshotted cfg => some (s, .timed cfg s.now)
  | .timed cfg now => some (s.applyUsers parsers crypto env cfg now)
  | .stored => some (s, if env.reloaded then .succeeded else .failed)

def setTask (s : Editing) (id : Nat) (task : EditTask) : Editing :=
  { s with tasks := Function.update s.tasks id task }

def next (s : Editing) : EditEvent → Option Editing
  | .request id edit =>
    match s.tasks id with
    | .idle => some (s.setTask id (.started edit))
    | _ => none
  | .step id env =>
    (s.move parsers crypto env (s.tasks id)).map fun (s, task) =>
      s.setTask id task
  | .tick now => if s.now ≤ now then some { s with now := now } else none

end

def IsInitial (s : Editing) : Prop :=
  s.tasks = (fun _ => .idle) ∧ s.appliedAt = none

end Editing

def editSystem (parsers : Parsers) (crypto : Crypto) : System Editing EditEvent :=
  System.ofNext Editing.IsInitial (Editing.next parsers crypto)

namespace Editing

variable {crypto : Crypto} {s : Editing} {env : EditEnv} {id : Nat}

/-- The users are applied only while the snapshot is the configuration. -/
def Current (s : Editing) (event : EditEvent) : Prop :=
  ∀ id env cfg now, event = .step id env → s.tasks id = .timed cfg now → s.settings = cfg

/-- Mita has the users that had not expired when they were applied. -/
def InSync (crypto : Crypto) (s : Editing) : Prop :=
  ∃ time, s.appliedAt = some time ∧ s.mita.users = (s.settings.active time).map fun user =>
      hashUserPassword crypto (sentUser user)

end Editing

def EditTask.pending : EditTask → Bool
  | .updated | .snapshotted _ | .timed _ _ | .failed => true
  | _ => false

def EditTask.untouched : EditTask → Bool
  | .idle | .started _ => true
  | _ => false

namespace Editing

variable {crypto : Crypto} {s : Editing} {env : EditEnv} {id : Nat}

def Settled (crypto : Crypto) (s : Editing) : Prop :=
  (∃ id, (s.tasks id).pending = true) ∨ s.InSync crypto ∨ ∀ id, (s.tasks id).untouched = true

theorem pending_or_inSync (h : s.move parsers crypto env task = some (s', task'))
    (hcurrent : ∀ cfg now, task = .timed cfg now → s.settings = cfg) :
    task'.pending = true ∨ s'.InSync crypto ∨ task = .stored ∧ task' = .succeeded ∧ s' = s := by
  cases task with
  | idle | succeeded | failed => cases h
  | started edit =>
    have hupdate := Option.some.inj h
    unfold update at hupdate
    split at hupdate
    · cases hupdate
      exact .inl rfl
    · split at hupdate
      · cases hupdate
        exact .inl rfl
      · cases hupdate
        exact .inl rfl
  | updated | snapshotted =>
    cases h
    exact .inl rfl
  | timed cfg now =>
    have happly := Option.some.inj h
    unfold applyUsers at happly
    split at happly
    · split at happly
      · rename_i mita hsync
        cases happly
        refine .inr (.inl ⟨now, rfl, ?_⟩)
        have hsuccess : (syncMitaUsers parsers crypto cfg now s.mita true).1 =
            true := by rw [hsync]
        obtain ⟨level, -, hafter⟩ := syncMitaUsers_eq hsuccess
        rw [hsync] at hafter
        rw [hcurrent cfg now rfl]
        exact congrArg ServerConfig.users hafter
      · cases happly
        exact .inl rfl
    · cases happly
      exact .inl rfl
  | stored =>
    cases h
    cases env.reloaded with
    | true => exact .inr (.inr ⟨rfl, rfl, rfl⟩)
    | false => exact .inl rfl

theorem Settled.next (h : s.Settled crypto) {event : EditEvent}
    (hguard : s.Current event) (hnext : s.next parsers crypto event = some s') :
    s'.Settled crypto := by
  cases event with
  | request id edit =>
    simp only [Editing.next] at hnext
    split at hnext
    · rename_i hidle
      cases hnext
      rcases h with ⟨other, hother⟩ | hsync | huntouched
      · refine .inl ⟨other, ?_⟩
        have hne : other ≠ id := by
          rintro rfl
          rw [hidle] at hother
          cases hother
        simpa only [setTask, Function.update_of_ne hne] using hother
      · exact .inr (.inl hsync)
      · refine .inr (.inr fun other => ?_)
        by_cases hne : other = id
        · simp only [hne, setTask, Function.update_self]
          rfl
        · simpa only [setTask, Function.update_of_ne hne] using huntouched other
    · cases hnext
  | step id env =>
    obtain ⟨⟨after, task⟩, hmove, rfl⟩ := Option.map_eq_some_iff.mp hnext
    obtain hpending | hsync | ⟨hstored, hsucceeded, rfl⟩ :=
      pending_or_inSync hmove fun cfg now => hguard id env cfg now rfl
    · exact .inl ⟨id, by simpa only [setTask, Function.update_self] using hpending⟩
    · exact .inr (.inl hsync)
    · rcases h with ⟨other, hother⟩ | hsync | huntouched
      · refine .inl ⟨other, ?_⟩
        have hne : other ≠ id := by
          rintro rfl
          rw [hstored] at hother
          cases hother
        simpa only [setTask, Function.update_of_ne hne] using hother
      · exact .inr (.inl hsync)
      · have hid := huntouched id
        rw [hstored] at hid
        cases hid
  | tick now =>
    obtain ⟨-, hnext⟩ := Option.ite_none_right_eq_some.mp hnext
    cases hnext
    exact h

theorem settled_of_reachable (h : (editSystem parsers crypto).ReachableBy Current s) :
    s.Settled crypto := by
  induction h with
  | init hinit =>
    refine .inr (.inr fun id => ?_)
    rw [hinit.1]
    rfl
  | step _ hguard hnext ih => exact ih.next hguard hnext

/--
If a request applies its snapshot only while it is still the configuration of
the panel, then once all requests have succeeded mita has the users of the
final configuration that had not expired when they were applied.
-/
theorem edits_converge (h : (editSystem parsers crypto).ReachableBy Current s)
    (hfinished : ∀ id, s.tasks id = .idle ∨ s.tasks id = .succeeded)
    (hsome : ∃ id, s.tasks id = .succeeded) : s.InSync crypto := by
  rcases settled_of_reachable h with ⟨id, hpending⟩ | hsync | huntouched
  · rcases hfinished id with hid | hid
    · rw [hid] at hpending
      cases hpending
    · rw [hid] at hpending
      cases hpending
  · exact hsync
  · obtain ⟨id, hid⟩ := hsome
    have huntouched := huntouched id
    rw [hid] at huntouched
    cases huntouched

def editPanel : Editing where
  settings := { users := [{ name := [97], password := [112] },
    { name := [98], password := [113] }] }
  mita := {}

theorem isInitial_editPanel : editPanel.IsInitial := ⟨rfl, rfl⟩

def editSteps (id count : Nat) : List EditEvent :=
  List.replicate count (.step id {})

def checkCurrent (s : Editing) : EditEvent → Bool
  | .step id _ =>
    match s.tasks id with
    | .timed cfg _ => s.settings == cfg
    | _ => true
  | _ => true

theorem current_of_check (s : Editing) (event : EditEvent)
    (h : s.checkCurrent event = true) : s.Current event := by
  rintro id env cfg now rfl htask
  simpa [checkCurrent, htask] using h

def serialEdits : List EditEvent :=
  [EditEvent.request 0 (.delete [97])] ++ editSteps 0 5 ++
    [EditEvent.request 1 (.create { name := [99], password := [114] } [])] ++
    editSteps 1 5

theorem edits_converge_serial : ∃ s, (editSystem anyParsers tagCrypto).ReachableBy Current s ∧
      s.mita.users.map User.getName = [[98], [99]] ∧ s.InSync tagCrypto := by
  have hrun : System.runEvents (System.checked checkCurrent (Editing.next anyParsers tagCrypto))
      editPanel serialEdits = some _ := rfl
  have hreachable : (editSystem anyParsers tagCrypto).ReachableBy Current _ :=
    System.ReachableBy.runChecked current_of_check (.init isInitial_editPanel) hrun
  refine ⟨_, hreachable, by decide +kernel, edits_converge hreachable ?_ ⟨0, rfl⟩⟩
  intro id
  match id with
  | 0 => exact .inr rfl
  | 1 => exact .inr rfl
  | id + 2 => exact .inl rfl

/--
The request that creates `c` has its snapshot, with `a` in it, before `a` is
deleted, and applies it last.  Both requests succeed, and mita has `a`.
-/
theorem edits_diverge : ∃ s, (editSystem anyParsers tagCrypto).Reachable s ∧
      s.tasks 0 = .succeeded ∧ s.tasks 1 = .succeeded ∧
      s.settings.users.map PanelUser.name = [[98], [99]] ∧
      s.mita.users.map User.getName = [[97], [98], [99]] := by
  have hrun : System.runEvents (Editing.next anyParsers tagCrypto) editPanel
      ([EditEvent.request 0 (.create { name := [99], password := [114] } [])] ++
        editSteps 0 3 ++ [EditEvent.request 1 (.delete [97])] ++
        editSteps 1 5 ++ editSteps 0 2) = some _ := rfl
  refine ⟨_, System.Reachable.run (.init isInitial_editPanel) hrun, rfl, rfl, ?_, ?_⟩
  · decide +kernel
  · decide +kernel

end Editing

end Mieru.Panel
