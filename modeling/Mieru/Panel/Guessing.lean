import Mieru.Foundation.SlidingWindow
import Mieru.Panel.Steps

/-!
# Guessing the second factor

A login step checks the lockout, evaluates the code and records a failure, in
three accesses that other requests come between.  If the requests of one user
do not overlap there, and a code is evaluated at the time its request has
read, the lockout is a counter in a sliding window.
-/

namespace Mieru.Panel

open Mieru.Foundation

variable {l : Lockout} {cfg : Config} {req : LoginPayload} {now time : Int} {key : Bytes}
  {state : Persisted} {reply : Reply} {event : PanelEvent} {count : Nat}

def Task.user : Task → Option Bytes
  | .totpUnlocked _ req _ | .totpChallenged _ req _ _ | .totpState _ req _ _ _
  | .totpBackup _ req _ _ _ _ _ | .totpAccepted _ req _ _ _
  | .totpRejected req _ => some req.username
  | _ => none

def Task.pending (user : Bytes) : Task → Option Int
  | .totpRejected req now => if req.username = user then some now else none
  | _ => none

def Task.stamp (user : Bytes) : Task → Option Int
  | .totpBackup _ req now _ _ _ _ | .totpRejected req now =>
    if req.username = user then some now else none
  | _ => none

theorem Task.pending_eq_none {user : Bytes} {task : Task}
    (h : task.user ≠ some user) : task.pending user = none := by
  cases task with
  | totpRejected req now =>
    have hne : req.username ≠ user := fun heq => h (congrArg some heq)
    simp [pending, hne]
  | _ => rfl

theorem Task.stamp_eq_none {user : Bytes} {task : Task}
    (h : task.user ≠ some user) : task.stamp user = none := by
  cases task with
  | totpBackup cfg req =>
    have hne : req.username ≠ user := fun heq => h (congrArg some heq)
    simp [stamp, hne]
  | totpRejected req now =>
    have hne : req.username ≠ user := fun heq => h (congrArg some heq)
    simp [stamp, hne]
  | _ => rfl

namespace Lockout

variable {l l' : Lockout} {user other : Bytes} {now time : Int}

theorem check_locked (h : l.check user now = (l', some time)) : l' = l := by
  unfold check at h
  split at h
  · cases h
  · split at h
    · cases h
      rfl
    · cases h

theorem setLocked_self {until? : Option Int}
    (h : l.lockedUntil user = until?) : l.setLocked user until? = l := by
  have hsame : (l.setLocked user until?).lockedUntil = l.lockedUntil := by
    funext other
    simp only [setLocked]
    split
    · rename_i heq
      rw [heq, h]
    · rfl
  cases l
  exact congrArg (Lockout.mk _) hsame

theorem check_unlocked (h : l.check user now = (l', none)) : l' = l.setLocked user none ∧
      ∀ stop, l.lockedUntil user = some stop → stop ≤ now := by
  unfold check at h
  split at h
  · rename_i hnone
    cases h
    exact ⟨(setLocked_self hnone).symm, by simp [hnone]⟩
  · rename_i time htime
    split at h
    · cases h
    · cases h
      refine ⟨rfl, ?_⟩
      intro stop hstop
      cases htime.symm.trans hstop
      omega

theorem setLocked_other {until? : Option Int} (h : other ≠ user) :
    (l.setLocked user until?).lockedUntil other = l.lockedUntil other := by
  simp [setLocked, h]

theorem recordFailure_of_none (h : l.lockedUntil user = none) :
    l.recordFailure user now = l.addFailure user now := by
  simp [recordFailure, h]

theorem addFailure_other (h : other ≠ user) :
    (l.addFailure user now).1.failTimes other = l.failTimes other ∧
      (l.addFailure user now).1.lockedUntil other = l.lockedUntil other := by
  unfold addFailure
  dsimp only
  split <;> simp [setFailTimes, setLocked, h]

theorem recordFailure_other (l : Lockout) (now : Int) (h : other ≠ user) :
    (l.recordFailure user now).1.failTimes other = l.failTimes other ∧
      (l.recordFailure user now).1.lockedUntil other = l.lockedUntil other := by
  unfold recordFailure
  split
  · split
    · exact ⟨rfl, rfl⟩
    · exact addFailure_other h
  · exact addFailure_other h

end Lockout

namespace App

variable {crypto : PanelCrypto} {p p' : App} {task task' : Task}
  {env : StepEnv} {user : Bytes} {owner id : Nat}

def lockout (p : App) : Lockout := p.totpLockout.getD {}

def failures (p : App) (user : Bytes) : List Int :=
  (p.history.evaluations.filter fun e => e.user == user && !e.accepted).map Evaluation.time

def successes (p : App) (user : Bytes) : List Int :=
  (p.history.verifications.filter fun v => v.1 == user).map Prod.snd

def window (p : App) (user : Bytes) (pending : Option Int) : Window where
  kept := p.lockout.failTimes user
  lock := p.lockout.lockedUntil user
  failures := p.failures user
  successes := p.successes user
  pending := pending
  now := p.now

def WindowOK (p : App) (user : Bytes) (pending : Option Int) : Prop :=
  (p.window user pending).Bounded lockoutWindow lockoutFailures

def StampOK (p : App) (user : Bytes) (task : Task) : Prop :=
  ∀ time, task.stamp user = some time → time ≤ p.now ∧ ∀ failure ∈ p.failures user, failure ≤ time

structure UserOK (p : App) (user : Bytes) (owner : Nat) : Prop where
  alone : ∀ id, (p.tasks id).user = some user → id = owner
  bounded : p.WindowOK user ((p.tasks owner).pending user)
  unlocked : (p.tasks owner).user = some user → p.lockout.lockedUntil user = none
  stamp : p.StampOK user (p.tasks owner)

structure GuessOK (p : App) : Prop where
  lockout : p.totpLockout ≠ none
  timed : ∀ id cfg req now, p.tasks id = .totpTimed cfg req now → now ≤ p.now
  evaluations : ∀ e ∈ p.history.evaluations, e.locked = false
  users : ∀ user, ∃ owner, p.UserOK user owner

/--
A login passes the lockout only while no other login of its user is between
the lockout and its end, and a code is evaluated at the time its request has
read.
-/
def Exclusive (p : App) (event : PanelEvent) : Prop :=
  ∀ id env, event = .step id env → (∀ cfg req now, p.tasks id = .totpTimed cfg req now →
      ∀ other, (p.tasks other).user ≠ some req.username) ∧
    ∀ cfg req now key state, p.tasks id = .totpState cfg req now key state → p.now = now

theorem setTask_same (id : Nat) (task : Task) : (p.setTask id task).tasks id = task := by
  simp [App.setTask]

theorem setTask_other {other : Nat} (h : other ≠ id) :
    (p.setTask id task).tasks other = p.tasks other := by
  simp [App.setTask, Function.update_of_ne h]

theorem UserOK.act (h : p.UserOK user owner) (htasks : p'.tasks = p.tasks)
    (hwindow : p'.WindowOK user (task'.pending user))
    (hunlocked : task'.user = some user → p'.lockout.lockedUntil user = none)
    (hstamp : p'.StampOK user task') : (p'.setTask owner task').UserOK user owner where
  alone id hid := by
    by_cases hne : id = owner
    · exact hne
    · rw [setTask_other hne, htasks] at hid
      exact h.alone id hid
  bounded := by
    rw [setTask_same]
    exact hwindow
  unlocked := by
    rw [setTask_same]
    exact hunlocked
  stamp := by
    rw [setTask_same]
    exact hstamp

theorem UserOK.other (h : p.UserOK user owner) (htasks : p'.tasks = p.tasks)
    (hwindow : p'.window user = p.window user) (hne : owner ≠ id) (htask : task'.user ≠ some user) :
    (p'.setTask id task').UserOK user owner where
  alone other hother := by
    by_cases hid : other = id
    · rw [hid, setTask_same] at hother
      exact absurd hother htask
    · rw [setTask_other hid, htasks] at hother
      exact h.alone other hother
  bounded := by
    rw [setTask_other hne, htasks]
    unfold WindowOK
    exact hwindow ▸ h.bounded
  unlocked := by
    rw [setTask_other hne, htasks]
    intro howner
    have hlock := congrArg Window.lock (congrFun hwindow none)
    exact hlock.trans (h.unlocked howner)
  stamp := by
    rw [setTask_other hne, htasks]
    have hnow : p'.now = p.now :=
      congrArg Window.now (congrFun hwindow none)
    have hfailures : p'.failures user = p.failures user :=
      congrArg Window.failures (congrFun hwindow none)
    intro time htime
    change time ≤ p'.now ∧ ∀ failure ∈ p'.failures user, failure ≤ time
    rw [hnow, hfailures]
    exact h.stamp time htime

theorem UserOK.quiet (h : p.UserOK user owner) (htasks : p'.tasks = p.tasks)
    (hwindow : p'.window user = p.window user) (hpending : (p.tasks id).pending user = none)
    (hpending' : task'.pending user = none)
    (huser : task'.user = some user → (p.tasks id).user = some user)
    (hstamp : p'.StampOK user task') : (p'.setTask id task').UserOK user owner := by
  by_cases hid : owner = id
  · subst hid
    refine h.act htasks ?_ ?_ hstamp
    · have hbounded := h.bounded
      rw [hpending] at hbounded
      unfold WindowOK
      rw [hpending', hwindow]
      exact hbounded
    · intro htask
      have hlock := congrArg Window.lock (congrFun hwindow none)
      exact hlock.trans (h.unlocked (huser htask))
  · refine h.other htasks hwindow hid ?_
    intro htask
    exact hid (h.alone id (huser htask)).symm

theorem stampOK_of_none (h : task.stamp user = none) : p.StampOK user task := by
  intro time htime
  cases h.symm.trans htime

theorem UserOK.leave (h : p.UserOK user owner) (htasks : p'.tasks = p.tasks)
    (hwindow : p'.window user = p.window user) (hpending : (p.tasks id).pending user = none)
    (htask : task'.user ≠ some user) : (p'.setTask id task').UserOK user owner :=
  h.quiet htasks hwindow hpending (Task.pending_eq_none htask) (fun huser => absurd huser htask)
    (stampOK_of_none (Task.stamp_eq_none htask))

theorem lockout_eq (h : p.totpLockout = some l) : p.lockout = l := by
  simp [lockout, h]

theorem failures_addEvaluation (accepted : Bool) (name : Bytes) :
    (p.addEvaluation name accepted).failures user = p.failures user ++
        if name = user ∧ accepted = false then [p.now] else [] := by
  simp only [failures, addEvaluation, List.filter_append, List.map_append, List.filter_singleton]
  by_cases hname : name = user <;> cases accepted <;>
    simp [hname, beq_eq_false_iff_ne.mpr]

theorem window_accepted (name : Bytes) :
    (p.addEvaluation name true).window user = p.window user := by
  funext pending
  simp only [window, failures_addEvaluation]
  simp [successes, lockout, addEvaluation]

theorem window_addEvaluation_other {name : Bytes} (accepted : Bool) (h : name ≠ user) :
    (p.addEvaluation name accepted).window user = p.window user := by
  funext pending
  simp only [window, failures_addEvaluation]
  simp [h, successes, lockout, addEvaluation]

theorem window_setLockout {l' : Lockout} (h : p.totpLockout = some l)
    (hfails : l'.failTimes user = l.failTimes user)
    (hlock : l'.lockedUntil user = l.lockedUntil user) :
    window { p with totpLockout := some l' } user = p.window user := by
  funext pending
  simp [window, lockout, h, hfails, hlock, failures, successes]

theorem UserOK.enter (h : p.UserOK req.username owner) (hlockout : p.totpLockout = some l)
    (hnow : now ≤ p.now) (hended : ∀ stop, l.lockedUntil req.username = some stop → stop ≤ now)
    (hfree : ∀ other, (p.tasks other).user ≠ some req.username) :
    (setTask { p with totpLockout := some (l.setLocked req.username none) } id
      (.totpUnlocked cfg req now)).UserOK req.username id where
  alone other hother := by
    by_cases hid : other = id
    · exact hid
    · rw [setTask_other hid] at hother
      exact absurd hother (hfree other)
  bounded := by
    rw [setTask_same]
    have hbounded := h.bounded
    rw [Task.pending_eq_none (hfree owner)] at hbounded
    have hopen := Window.Bounded.unlock hbounded (by
      intro stop hstop
      have hlock : p.lockout.lockedUntil req.username = some stop := hstop
      rw [lockout_eq hlockout] at hlock
      exact Int.le_trans (hended stop hlock) hnow)
    simpa [WindowOK, window, lockout, hlockout, Lockout.setLocked, failures,
      successes, App.setTask, Task.pending] using hopen
  unlocked := by
    intro
    simp [lockout, App.setTask, Lockout.setLocked]
  stamp := by
    rw [setTask_same]
    exact stampOK_of_none rfl

theorem UserOK.fail (h : p.UserOK req.username owner)
    (htask : p.tasks owner = .totpState cfg req now key state) (hnow : p.now = now) :
    ((p.addEvaluation req.username false).setTask owner
      (.totpRejected req now)).UserOK req.username owner := by
  have hlock := h.unlocked (by rw [htask]; rfl)
  have hfailures : (p.addEvaluation req.username false).failures req.username =
      p.failures req.username ++ [p.now] := by
    rw [failures_addEvaluation, if_pos ⟨rfl, rfl⟩]
  refine h.act rfl ?_ (fun _ => hlock) ?_
  · have hbounded := h.bounded
    rw [htask] at hbounded
    have hfail := Window.Bounded.fail hbounded hlock rfl
    simp only [WindowOK, window, hfailures]
    simpa [window, Task.pending, hnow, lockout, addEvaluation, successes] using hfail
  · intro time htime
    have heq : now = time := by simpa [Task.stamp] using htime
    subst heq
    refine ⟨Int.le_of_eq hnow.symm, ?_⟩
    intro failure hfailure
    rw [hfailures] at hfailure
    rcases List.mem_append.mp hfailure with hfailure | hfailure
    · have hle := h.bounded.failures_le failure hfailure
      exact Int.le_trans hle (Int.le_of_eq hnow)
    · rw [List.mem_singleton.mp hfailure]
      exact Int.le_of_eq hnow

theorem UserOK.record (h : p.UserOK req.username owner) (hlockout : p.totpLockout = some l)
    (htask : p.tasks owner = .totpRejected req now) : (setTask { p with
        totpLockout := some (l.recordFailure req.username now).1 } owner
      (.replied reply)).UserOK req.username owner := by
  have hlock : l.lockedUntil req.username = none := by
    have hnone := h.unlocked (by rw [htask]; rfl)
    rwa [lockout_eq hlockout] at hnone
  have hbounded := h.bounded
  obtain ⟨hle, hlast⟩ := h.stamp now (by rw [htask]; simp [Task.stamp])
  have hpending : (p.tasks owner).pending req.username = some now := by
    rw [htask]
    simp [Task.pending]
  rw [hpending] at hbounded
  have hwindow : (p.window req.username (some now)).lock = none := by
    simp [window, lockout_eq hlockout, hlock]
  refine h.act rfl ?_ (fun huser => by cases huser) (stampOK_of_none rfl)
  rw [Lockout.recordFailure_of_none hlock]
  unfold Lockout.addFailure
  dsimp only
  split
  · have hstop : now + lockoutWindow ≤ now + lockoutDuration := Int.le_refl _
    have hlocked := Window.Bounded.lockOut hbounded rfl hwindow hle hlast hstop (by decide)
    simpa [WindowOK, window, lockout, Lockout.setFailTimes, Lockout.setLocked,
      Task.pending, failures, successes] using hlocked
  · rename_i hfew
    have hrecent : l.recent req.username now =
        Window.Bounded.recent lockoutWindow now (l.failTimes req.username) :=
      rfl
    have hcounted := Window.Bounded.count hbounded rfl hwindow hle (by
      simpa [window, lockout_eq hlockout, hrecent] using hfew)
    simpa [WindowOK, window, lockout, hlockout, Lockout.setFailTimes, hrecent,
      Task.pending, failures, successes, hlock] using hcounted

theorem UserOK.succeed (h : p.UserOK req.username owner) (hlockout : p.totpLockout ≠ none) :
    ((p.accept crypto cfg req key state time).1.setTask owner
      (.replied reply)).UserOK req.username owner := by
  refine h.act rfl ?_ (fun huser => by cases huser) (stampOK_of_none rfl)
  obtain ⟨l, hl⟩ := Option.ne_none_iff_exists'.mp hlockout
  have hreset := Window.Bounded.succeed h.bounded (by decide)
  simpa [WindowOK, window, accept, addIssue, lockout, hl, Lockout.clear,
    Lockout.setFailTimes, Lockout.setLocked, failures, successes,
    Task.pending] using hreset

theorem window_accept_other (h : user ≠ req.username) :
    (p.accept crypto cfg req key state time).1.window user = p.window user := by
  funext pending
  have hne : req.username ≠ user := h.symm
  cases hlockout : p.totpLockout <;>
    simp [window, accept, addIssue, lockout, hlockout, Lockout.clear,
      Lockout.setFailTimes, Lockout.setLocked, failures, successes, h, hne]

theorem reject_eq (h : p.totpLockout = some l) : (p.reject req now).1 = { p with
      totpLockout := some (l.recordFailure req.username now).1 } := by
  unfold reject
  rw [h]
  dsimp only
  split
  · rename_i hrecord
    rw [hrecord]
  · rename_i hrecord
    rw [hrecord]

theorem UserOK.announce {idx : Nat} {file : StoreFile} (h : p.UserOK req.username owner)
    (htask : p.tasks owner = .totpBackup cfg req now key state time idx) :
    ((p.setFile file).setTask owner (.totpRejected req now)).UserOK req.username owner := by
  have hbounded := h.bounded
  rw [htask] at hbounded
  have hstamp := h.stamp
  rw [htask] at hstamp
  refine h.act rfl ?_ (fun _ => h.unlocked (by rw [htask]; rfl)) ?_
  · have hannounced := Window.Bounded.announce hbounded rfl now
    simpa [WindowOK, window, Task.pending, setFile, lockout, failures, successes] using hannounced
  · intro stamp hstamped
    exact hstamp stamp hstamped

theorem Moves.userOK (h : Moves crypto env p task p' task') (hok : p.GuessOK)
    (hguard : p.Exclusive (.step id env)) (htask : p.tasks id = task)
    (hrejected : ∀ req now, task ≠ .totpRejected req now) (user : Bytes) :
    ∃ owner, (p'.setTask id task').UserOK user owner := by
  obtain ⟨owner, huser⟩ := hok.users user
  have hpending : (p.tasks id).pending user = none := by
    rw [htask]
    cases task with
    | totpRejected req now => exact absurd rfl (hrejected req now)
    | _ => rfl
  have hleave : p'.tasks = p.tasks → p'.window user = p.window user → task'.user ≠ some user →
      ∃ owner, (p'.setTask id task').UserOK user owner :=
    fun htasks hwindow htask' =>
      ⟨owner, huser.leave htasks hwindow hpending htask'⟩
  cases h with
  | noLockout hnone => exact absurd hnone hok.lockout
  | locked hlockout hcheck =>
    rw [Lockout.check_locked hcheck]
    exact ⟨owner, huser.leave rfl (window_setLockout hlockout rfl rfl)
      hpending (by simp [Task.user])⟩
  | @unlocked cfg req now l l' hlockout hcheck =>
    obtain ⟨rfl, hended⟩ := Lockout.check_unlocked hcheck
    by_cases hname : user = req.username
    · subst hname
      exact ⟨id, huser.enter hlockout (hok.timed id cfg req now htask) hended
        ((hguard id env rfl).1 cfg req now htask)⟩
    · refine ⟨owner, huser.leave rfl ?_ hpending ?_⟩
      · exact window_setLockout hlockout rfl (Lockout.setLocked_other hname)
      · intro htask'
        exact hname (Option.some.inj htask').symm
  | challenged | readState | removed =>
    refine ⟨owner, huser.quiet rfl rfl hpending rfl ?_ (stampOK_of_none rfl)⟩
    rw [htask]
    exact fun h => h
  | totpCode =>
    refine ⟨owner, huser.quiet rfl (window_accepted _) hpending rfl ?_ (stampOK_of_none rfl)⟩
    rw [htask]
    exact fun h => h
  | @backupCode cfg req now key state secret idx =>
    have hnow := (hguard id env rfl).2 cfg req now key state htask
    refine ⟨owner, huser.quiet rfl (window_accepted _) hpending rfl ?_ ?_⟩
    · rw [htask]
      exact fun h => h
    · intro time htime
      have htimes : req.username = user ∧ now = time := by
        simpa [Task.stamp] using htime
      obtain ⟨-, rfl⟩ := htimes
      refine ⟨Int.le_of_eq hnow.symm, ?_⟩
      intro failure hfailure
      rw [failures_addEvaluation] at hfailure
      have hold : failure ∈ p.failures user := by simpa using hfailure
      exact hnow ▸ huser.bounded.failures_le failure hold
  | @wrongCode cfg req now key state =>
    have hnow := (hguard id env rfl).2 cfg req now key state htask
    by_cases hname : req.username = user
    · subst hname
      obtain rfl := huser.alone id (by rw [htask]; rfl)
      exact ⟨id, huser.fail htask hnow⟩
    · refine hleave rfl (window_addEvaluation_other false hname) ?_
      exact fun h => hname (Option.some.inj h)
  | @notRemoved cfg req now key state time idx file file' replaced =>
    by_cases hname : req.username = user
    · subst hname
      obtain rfl := huser.alone id (by rw [htask]; rfl)
      exact ⟨id, huser.announce htask⟩
    · refine hleave rfl rfl ?_
      exact fun h => hname (Option.some.inj h)
  | @accepted cfg req key state time reply =>
    by_cases hname : user = req.username
    · subst hname
      obtain rfl := huser.alone id (by rw [htask]; rfl)
      exact ⟨id, huser.succeed hok.lockout⟩
    · exact hleave rfl (window_accept_other hname) (by simp [Task.user])
  | rejected => exact absurd rfl (hrejected _ _)
  | _ => exact hleave rfl rfl (by simp [Task.user])

theorem userOK_reject (hok : p.GuessOK) (htask : p.tasks id = .totpRejected req now)
    (user : Bytes) :
    ∃ owner, ((p.reject req now).1.setTask id (.replied reply)).UserOK user owner := by
  obtain ⟨l, hl⟩ := Option.ne_none_iff_exists'.mp hok.lockout
  obtain ⟨owner, huser⟩ := hok.users user
  rw [reject_eq hl]
  by_cases hname : user = req.username
  · subst hname
    obtain rfl := huser.alone id (by rw [htask]; rfl)
    exact ⟨id, huser.record hl htask⟩
  · obtain ⟨hfails, hlock⟩ :=
      Lockout.recordFailure_other l now hname
    have hpending : (p.tasks id).pending user = none := by
      refine Task.pending_eq_none ?_
      rw [htask]
      exact fun h => hname (Option.some.inj h).symm
    exact ⟨owner, huser.leave rfl (window_setLockout hl hfails hlock) hpending
      (by simp [Task.user])⟩

theorem move_userOK (hok : p.GuessOK) (hguard : p.Exclusive (.step id env))
    (h : p.move crypto env (p.tasks id) = some (p', task')) (user : Bytes) :
    ∃ owner, (p'.setTask id task').UserOK user owner := by
  have hmoves := moves_of_move h
  generalize htask : p.tasks id = task at h hmoves
  cases task with
  | totpRejected req now =>
    cases h
    exact userOK_reject hok htask user
  | _ => exact hmoves.userOK hok hguard htask (by simp) user

theorem not_isLocked {name : Bytes} (hok : p.GuessOK) (id : Nat)
    (h : (p.tasks id).user = some name) : p.isLocked name = false := by
  obtain ⟨owner, huser⟩ := hok.users name
  obtain rfl := huser.alone id h
  have hlock := huser.unlocked h
  unfold isLocked
  split
  · rfl
  · rename_i l hl
    rw [lockout_eq hl] at hlock
    rw [hlock]

theorem Moves.evaluations (h : Moves crypto env p task p' task')
    (hok : p.GuessOK) (htask : p.tasks id = task) :
    ∀ e ∈ p'.history.evaluations, e.locked = false := by
  have hadd : ∀ name accepted, task.user = some name →
      ∀ e ∈ (p.addEvaluation name accepted).history.evaluations, e.locked = false := by
    intro name accepted hname e he
    rcases List.mem_append.mp he with he | he
    · exact hok.evaluations e he
    · rw [List.mem_singleton.mp he]
      exact not_isLocked hok id (htask ▸ hname)
  cases h with
  | totpCode => exact hadd _ true rfl
  | backupCode => exact hadd _ true rfl
  | wrongCode => exact hadd _ false rfl
  | _ => exact hok.evaluations

theorem Moves.eq_now (h : Moves crypto env p task p' task')
    (htask : task' = .totpTimed cfg req now) : now = p.now := by
  cases h <;> cases htask
  rfl

theorem Moves.lockout (h : Moves crypto env p task p' task')
    (hlockout : p.totpLockout ≠ none) : p'.totpLockout ≠ none := by
  cases h with
  | locked | unlocked | rejected => simp
  | accepted => simpa [accept, addIssue] using hlockout
  | _ => exact hlockout

theorem user_of_isFirst (h : task.isFirst = true) : task.user = none := by
  cases task <;> trivial

theorem UserOK.tick (h : p.UserOK user owner) (hnow : p.now ≤ now) :
    UserOK { p with now := now } user owner where
  alone := h.alone
  bounded := Window.Bounded.tick h.bounded hnow
  unlocked := h.unlocked
  stamp time htime :=
    ⟨Int.le_trans (h.stamp time htime).1 hnow, (h.stamp time htime).2⟩

theorem GuessOK.next (hok : p.GuessOK) (hguard : p.Exclusive event)
    (h : p.next crypto event = some p') : p'.GuessOK := by
  cases event with
  | request id r =>
    simp only [App.next] at h
    split at h
    · rename_i hidle
      cases h
      have hfirst := isFirst_start p r
      refine ⟨hok.lockout, ?_, hok.evaluations, ?_⟩
      · intro other cfg req now htask
        by_cases hid : other = id
        · rw [hid, setTask_same] at htask
          rw [htask] at hfirst
          cases hfirst
        · rw [setTask_other hid] at htask
          exact hok.timed other cfg req now htask
      · intro user
        obtain ⟨owner, huser⟩ := hok.users user
        refine ⟨owner, huser.leave rfl rfl (by rw [hidle]; rfl) ?_⟩
        rw [user_of_isFirst hfirst]
        simp
    · cases h
  | step id env =>
    obtain ⟨⟨after, task⟩, hmove, rfl⟩ := Option.map_eq_some_iff.mp h
    have hmoves := moves_of_move hmove
    obtain ⟨htasks, hnow, -, -⟩ := hmoves.frame
    refine ⟨hmoves.lockout hok.lockout, ?_, hmoves.evaluations hok rfl,
      move_userOK hok hguard hmove⟩
    intro other cfg req now htask
    change now ≤ after.now
    rw [hnow]
    by_cases hid : other = id
    · rw [hid, setTask_same] at htask
      exact Int.le_of_eq (hmoves.eq_now htask)
    · rw [setTask_other hid, htasks] at htask
      exact hok.timed other cfg req now htask
  | tick now =>
    obtain ⟨hle, h⟩ := Option.ite_none_right_eq_some.mp h
    cases h
    refine ⟨hok.lockout, ?_, hok.evaluations, ?_⟩
    · intro id cfg req time htask
      exact Int.le_trans (hok.timed id cfg req time htask) hle
    · intro user
      obtain ⟨owner, huser⟩ := hok.users user
      exact ⟨owner, huser.tick hle⟩
  | configure config =>
    cases h
    refine ⟨hok.lockout, hok.timed, hok.evaluations, ?_⟩
    intro user
    obtain ⟨owner, huser⟩ := hok.users user
    exact ⟨owner, huser.alone, huser.bounded, huser.unlocked, huser.stamp⟩

def IsFresh (p : App) : Prop := p.IsInitial ∧ p.totpLockout = some {}

theorem IsFresh.guessOK (h : p.IsFresh) : p.GuessOK := by
  obtain ⟨⟨htasks, -, hevaluations, hverifications, -⟩, hlockout⟩ := h
  refine ⟨by simp [hlockout], ?_, by simp [hevaluations], ?_⟩
  · intro id cfg req now htask
    rw [htasks] at htask
    cases htask
  · intro user
    refine ⟨0, ?_, ?_, ?_, ?_⟩
    · intro id hid
      rw [htasks] at hid
      cases hid
    · have hempty : Window.Bounded lockoutWindow lockoutFailures
          { now := p.now } := Window.bounded_empty p.now (by decide)
      rw [htasks]
      simpa [WindowOK, window, lockout, hlockout, failures, hevaluations,
        successes, hverifications, Task.pending] using hempty
    · rw [htasks]
      intro htask
      cases htask
    · rw [htasks]
      exact stampOK_of_none rfl

def wrongCodes (p : App) (user : Bytes) (start : Int) : Nat :=
  p.history.evaluations.countP fun e =>
    e.user == user && !e.accepted && start ≤ e.time && e.time < start + 15 * minute

theorem wrongCodes_eq (p : App) (user : Bytes) (start : Int) : p.wrongCodes user start =
      Window.within lockoutWindow start (p.failures user) := by
  unfold wrongCodes Window.within failures
  rw [List.countP_map, List.countP_filter]
  refine List.countP_congr fun e _ => ?_
  simp only [Function.comp_apply, lockoutWindow, Bool.and_eq_true, decide_eq_true_eq]
  constructor
  · rintro ⟨⟨hfailed, hstart⟩, hstop⟩
    exact ⟨⟨hstart, decide_eq_true hstop⟩, hfailed⟩
  · rintro ⟨⟨hstart, hstop⟩, hfailed⟩
    exact ⟨⟨hfailed, hstart⟩, of_decide_eq_true hstop⟩

end App

def lockoutSystem (crypto : PanelCrypto) : System App PanelEvent :=
  System.ofNext App.IsFresh (App.next crypto)

namespace App

variable {crypto : PanelCrypto} {p : App}

theorem guessOK_of_reachable (h : (lockoutSystem crypto).ReachableBy Exclusive p) : p.GuessOK := by
  induction h with
  | init hinit => exact IsFresh.guessOK hinit
  | step _ hguard hnext ih => exact ih.next hguard hnext

/--
If the logins of one user do not overlap between the lockout and their end,
and each code is evaluated at the time its request has read, then at most five
wrong codes are evaluated in any fifteen minutes without a completed login,
and none while the user is locked out.
-/
theorem guessing_bounded (h : (lockoutSystem crypto).ReachableBy Exclusive p) :
    (∀ user start, (∀ time, (user, time) ∈ p.history.verifications →
        ¬(start ≤ time ∧ time < start + 15 * minute)) → p.wrongCodes user start ≤ 5) ∧
      ∀ e ∈ p.history.evaluations, e.locked = false := by
  have hok := guessOK_of_reachable h
  refine ⟨?_, hok.evaluations⟩
  intro user start hnone
  obtain ⟨owner, huser⟩ := hok.users user
  rw [wrongCodes_eq]
  refine huser.bounded.bound start ?_
  intro time htime
  obtain ⟨⟨name, other⟩, hmem, rfl⟩ := List.mem_map.mp htime
  obtain ⟨hverified, hname⟩ := List.mem_filter.mp hmem
  have heq : name = user := by simpa using hname
  subst heq
  exact hnone other hverified

def guessPanel : App := panelWith { enabled := true, secret := [1] }

def guessRequest : Request :=
  codeRequest (signChallengeToken plainCrypto [97] [99] challengeTTL 0) [48]

def checkExclusive (count : Nat) (p : App) : PanelEvent → Bool
  | .request id _ => id < count
  | .step id _ => id < count && match p.tasks id with
      | .totpTimed _ req _ =>
        (List.range count).all fun other =>
          (p.tasks other).user != some req.username
      | .totpState _ _ now _ _ => p.now == now
      | _ => true
  | _ => true

def Few (count : Nat) (p : App) : Prop := ∀ id, count ≤ id → p.tasks id = .idle

theorem exclusive_of_check (hfew : p.Few count)
    (h : p.checkExclusive count event = true) : p.Exclusive event := by
  rintro id env rfl
  refine ⟨?_, ?_⟩
  · intro cfg req now htask other
    simp only [checkExclusive, htask, Bool.and_eq_true, List.all_eq_true,
      List.mem_range, bne_iff_ne] at h
    by_cases hother : other < count
    · exact h.2 other hother
    · rw [hfew other (by omega)]
      simp [Task.user]
  · intro cfg req now key state htask
    simp only [checkExclusive, htask, Bool.and_eq_true, beq_iff_eq] at h
    exact h.2

theorem Few.next {p' : App} (h : p.Few count) (hcheck : p.checkExclusive count event = true)
    (hnext : p.next crypto event = some p') : p'.Few count := by
  intro other hother
  cases event with
  | request id r =>
    have hid : id < count := by simpa [checkExclusive] using hcheck
    simp only [App.next] at hnext
    split at hnext
    · cases hnext
      rw [setTask_other (by omega)]
      exact h other hother
    · cases hnext
  | step id env =>
    have hid : id < count := by
      simp only [checkExclusive, Bool.and_eq_true, decide_eq_true_eq] at hcheck
      exact hcheck.1
    obtain ⟨⟨after, task⟩, hmove, rfl⟩ := Option.map_eq_some_iff.mp hnext
    rw [setTask_other (by omega), (moves_of_move hmove).frame.1]
    exact h other hother
  | tick now =>
    obtain ⟨-, hnext⟩ := Option.ite_none_right_eq_some.mp hnext
    cases hnext
    exact h other hother
  | configure config =>
    cases hnext
    exact h other hother

theorem reachable_of_checked (hinit : p.IsFresh) {p' : App} {events : List PanelEvent}
    (hrun : System.runEvents (System.checked (checkExclusive count)
      (App.next crypto)) p events = some p') : (lockoutSystem crypto).ReachableBy Exclusive p' := by
  have hfew : p.Few count := fun id _ => by rw [hinit.1.1]
  have hreach : (lockoutSystem crypto).ReachableBy Exclusive p := .init hinit
  clear hinit
  induction events generalizing p with
  | nil =>
    cases hrun
    exact hreach
  | cons event events ih =>
    obtain ⟨middle, hmiddle, hrest⟩ := Option.bind_eq_some_iff.mp hrun
    obtain ⟨hcheck, hmiddle⟩ := Option.ite_none_right_eq_some.mp hmiddle
    exact ih hrest (hfew.next hcheck hmiddle)
      (hreach.step (exclusive_of_check hfew hcheck) hmiddle)

/-- Five wrong codes one after the other; the sixth is not evaluated. -/
theorem guessing_bounded_serial : ∃ p, (lockoutSystem plainCrypto).ReachableBy Exclusive p ∧
      p.wrongCodes [97] 0 = 5 ∧ (∀ user start, (∀ time, (user, time) ∈ p.history.verifications →
          ¬(start ≤ time ∧ time < start + 15 * minute)) → p.wrongCodes user start ≤ 5) ∧
      ∀ e ∈ p.history.evaluations, e.locked = false := by
  have hrun : (System.runEvents (System.checked (checkExclusive 6)
      (App.next plainCrypto)) guessPanel
      ((List.range 5).flatMap (fun id =>
        [.request id guessRequest] ++ steps id 6) ++
        [.request 5 guessRequest] ++ steps 5 2)).map
        (fun p => p.wrongCodes [97] 0) = some 5 := by decide +kernel
  obtain ⟨p, hp, hreport⟩ := Option.map_eq_some_iff.mp hrun
  have hreachable : (lockoutSystem plainCrypto).ReachableBy Exclusive p :=
    reachable_of_checked ⟨isInitial_panelWith _, rfl⟩ hp
  exact ⟨p, hreachable, hreport, guessing_bounded hreachable⟩

/--
Six logins pass the lockout before the first failure is recorded.  All six
codes are evaluated at one time, the last one while the user is locked out.
-/
theorem guessing_unbounded : ∃ p, (lockoutSystem plainCrypto).Reachable p ∧
      p.history.verifications = [] ∧ p.wrongCodes [97] 0 = 6 ∧
      p.history.evaluations.map Evaluation.locked = [false, false, false, false, false, true] := by
  exact System.exists_reachable
    (show guessPanel.IsFresh from ⟨isInitial_panelWith _, rfl⟩)
    ((List.range 6).flatMap (fun id => [.request id guessRequest] ++ steps id 4) ++
      (List.range 6).flatMap (fun id => steps id 2)) (by decide +kernel)

end App

end Mieru.Panel
