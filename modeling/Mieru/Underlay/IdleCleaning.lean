import Mathlib.Logic.Function.Basic
import Mieru.Cipher.KeyGen
import Mieru.Foundation.TransitionSystem

/-!
# Idle underlays of a client

`DialContext` picks an underlay under the lock of the mux, reserves it under
the lock of its scheduler, and attaches the session under neither.
`cleanUnderlay` reads the number of sessions and the scheduler one after the
other before it closes an underlay.  Each access to what the goroutines share
is a step, and the clock moves between the steps.
-/

namespace Mieru.Protocol

open Mieru.Foundation

def scheduleIdleTime (random : Nat) : Int :=
  Cipher.keyRefreshInterval + random * 1000000000

structure ScheduleController where
  pending : Int := 0
  lastScheduleTime : Option Int := none
  disableTime : Option Int := none
  deriving DecidableEq

namespace ScheduleController

def isDisabled (c : ScheduleController) (now : Int) : Bool :=
  c.disableTime.any fun time => now - time > 0

def incPending (c : ScheduleController) (now : Int) : ScheduleController × Bool :=
  if c.isDisabled now then (c, false)
  else ({ c with pending := c.pending + 1, lastScheduleTime := some now }, true)

def decPending (c : ScheduleController) (now : Int) : ScheduleController :=
  { c with pending := c.pending - 1, lastScheduleTime := some now }

/-- The zero time is longer ago than any interval. -/
def idle (c : ScheduleController) (random : Nat) (now : Int) : Bool :=
  (c.disableTime.any fun time => now - time > scheduleIdleTime random) &&
    c.lastScheduleTime.all fun time => now - time > scheduleIdleTime random

def tryDisableIdle (c : ScheduleController) (random : Nat) (now : Int) :
    ScheduleController × Bool :=
  if c.disableTime.isSome then (c, false)
  else if c.pending > 0 then (c, false)
  else if c.lastScheduleTime.any fun time => now - time < scheduleIdleTime random then (c, false)
  else ({ c with disableTime := some now }, true)

def setRemainingTime (c : ScheduleController) (d now : Int) : ScheduleController :=
  if d < 0 ∨ c.disableTime.isSome then c else { c with disableTime := some (now + d) }

end ScheduleController

structure ClientUnderlay where
  scheduler : ScheduleController := {}
  sessions : Nat := 0
  done : Bool := false
  cleaned : Bool := false
  deriving DecidableEq

inductive Visit where
  | readDone
  | countSessions
  | readIdle
  | close
  | countAgain
  | tryDisable
  | readTraffic
  | disable
  deriving DecidableEq

/-- A call of `DialContext`, or one of `cleanUnderlay` by the ticker. -/
inductive DialTask where
  | idle
  | cleaning (also dial : Bool) (visit : Visit) (todo remaining : List Nat)
  | creating (again : Bool)
  | reserving (u : Nat) (again : Bool)
  /-- Before `AddSession`, with the time of an `IncPending` that succeeded. -/
  | adding (u : Nat) (reserved : Option Int)
  | added (u : Nat) (reserved : Option Int)
  | finished
  deriving DecidableEq

structure ClientMux where
  clock : Int := 0
  locked : Bool := false
  underlays : List Nat := []
  underlay : Nat → Option ClientUnderlay := fun _ => none
  tasks : Nat → DialTask := fun _ => .idle

/-- What a step finds: the underlay that is picked, the one that is created
and its disable time, the traffic, and whether `AddSession` succeeds. -/
structure DialChoice where
  pick : Option Nat := none
  created : Option (Nat × Option Int) := none
  overloaded : Bool := false
  attached : Bool := true

inductive ClientEvent where
  | start (id : Nat) (also dial : Bool)
  | step (id : Nat) (choice : DialChoice)
  | removeSession (u : Nat)
  | shut (u : Nat)
  | tick (d : Nat)

namespace ClientMux

variable (random : Nat)

def setUnderlay (m : ClientMux) (u : Nat) (x : ClientUnderlay) : ClientMux :=
  { m with underlay := Function.update m.underlay u (some x) }

def setTask (m : ClientMux) (id : Nat) (task : DialTask) : ClientMux :=
  { m with tasks := Function.update m.tasks id task }

def cleanStep (m : ClientMux) (choice : DialChoice) (also dial : Bool) (u : Nat)
    (x : ClientUnderlay) (rest remaining : List Nat) : Visit → ClientMux × DialTask
  | .readDone =>
    (m, if x.done then .cleaning also dial .readDone rest remaining
      else .cleaning also dial .countSessions (u :: rest) remaining)
  | .countSessions =>
    (m, if x.sessions = 0 then .cleaning also dial .readIdle (u :: rest) remaining
      else .cleaning also dial .countAgain (u :: rest) (remaining ++ [u]))
  | .readIdle =>
    (m, if x.scheduler.idle random m.clock then .cleaning also dial .close (u :: rest) remaining
      else .cleaning also dial .countAgain (u :: rest) (remaining ++ [u]))
  | .close =>
    (m.setUnderlay u { x with done := true, cleaned := true },
      .cleaning also dial .countAgain (u :: rest) remaining)
  | .countAgain =>
    (m, if also = false then .cleaning also dial .readDone rest remaining
      else if x.sessions = 0 then .cleaning also dial .tryDisable (u :: rest) remaining
      else .cleaning also dial .readTraffic (u :: rest) remaining)
  | .tryDisable =>
    (m.setUnderlay u { x with scheduler := (x.scheduler.tryDisableIdle random m.clock).1 },
      .cleaning also dial .readTraffic (u :: rest) remaining)
  | .readTraffic =>
    (m, if x.scheduler.disableTime = none ∧ choice.overloaded then
        .cleaning also dial .disable (u :: rest) remaining
      else .cleaning also dial .readDone rest remaining)
  | .disable =>
    (m.setUnderlay u { x with scheduler := x.scheduler.setRemainingTime 0 m.clock },
      .cleaning also dial .readDone rest remaining)

def move (m : ClientMux) (choice : DialChoice) : DialTask → Option (ClientMux × DialTask)
  | .idle | .finished => none
  | .cleaning _ dial _ [] remaining =>
    let m := { m with underlays := remaining, locked := false }
    if dial then
      match choice.pick with
      | none => some (m, .creating false)
      -- `maybePickExistingUnderlay` has read earlier that it is not disabled.
      | some u => if u ∈ remaining then some (m, .reserving u false) else none
    else some (m, .finished)
  | .cleaning also dial visit (u :: rest) remaining =>
    (m.underlay u).map fun x => m.cleanStep random choice also dial u x rest remaining visit
  | .creating again =>
    match choice.created with
    | none => some (m, .finished)
    | some (u, disableTime) =>
      if m.locked ∨ (m.underlay u).isSome then none
      else some ({ m with underlays := m.underlays ++ [u] }.setUnderlay u
        { scheduler := { disableTime := disableTime } }, .reserving u again)
  | .reserving u again =>
    (m.underlay u).map fun x =>
      match x.scheduler.incPending m.clock with
      | (c, true) => (m.setUnderlay u { x with scheduler := c }, .adding u (some m.clock))
      | (_, false) => (m, if again then .adding u none else .creating true)
  | .adding u reserved =>
    (m.underlay u).map fun x =>
      (if choice.attached then m.setUnderlay u { x with sessions := x.sessions + 1 } else m,
        .added u reserved)
  | .added u _ =>
    (m.underlay u).map fun x =>
      (m.setUnderlay u { x with scheduler := x.scheduler.decPending m.clock }, .finished)

def next (m : ClientMux) : ClientEvent → Option ClientMux
  | .start id also dial =>
    match m.tasks id with
    | .idle =>
      if m.locked then none
      else some ({ m with locked := true }.setTask id
        (.cleaning (also || dial) dial .readDone m.underlays []))
    | _ => none
  | .step id choice =>
    (m.move random choice (m.tasks id)).map fun (m, task) => m.setTask id task
  | .removeSession u =>
    (m.underlay u).map fun x => m.setUnderlay u { x with sessions := x.sessions - 1 }
  | .shut u => (m.underlay u).map fun x => m.setUnderlay u { x with done := true }
  | .tick d => some { m with clock := m.clock + d }

def IsInitial (m : ClientMux) : Prop :=
  m.underlay = (fun _ => none) ∧ m.tasks = fun _ => .idle

def system : System ClientMux ClientEvent := System.ofNext IsInitial (next random)

def Later (m m' : ClientMux) : Prop := (System.ofNext (· = m) (next random)).Reachable m'

end ClientMux

def DialTask.reservation : DialTask → Option (Nat × Int)
  | .adding u reserved | .added u reserved => reserved.map fun time => (u, time)
  | _ => none

def DialTask.closing : DialTask → Option Nat
  | .cleaning _ _ .close (u :: _) _ => some u
  | _ => none

/-- The disable time is not changed once it is set. -/
structure ClientUnderlay.Keeps (now : Int) (x x' : ClientUnderlay) : Prop where
  disableTime : ∀ d, x.scheduler.disableTime = some d → x'.scheduler.disableTime = some d
  lastScheduleTime : x'.scheduler.lastScheduleTime = x.scheduler.lastScheduleTime ∨
    x'.scheduler.lastScheduleTime = some now
  cleaned : x.cleaned = true → x'.cleaned = true

theorem ClientUnderlay.Keeps.refl (now : Int) (x : ClientUnderlay) : x.Keeps now x :=
  ⟨fun _ h => h, .inl rfl, fun h => h⟩

namespace ClientMux

def Cleaned (m : ClientMux) (u : Nat) : Prop := ∃ x, m.underlay u = some x ∧ x.cleaned = true

def Closing (m : ClientMux) (u : Nat) : Prop := ∃ id, (m.tasks id).closing = some u

def Reserved (m : ClientMux) (u : Nat) (time : Int) : Prop :=
  ∃ id, (m.tasks id).reservation = some (u, time)

variable {random : Nat} {m m₁ m' : ClientMux} {u id : Nat} {x x' : ClientUnderlay}

/-- The underlays change and the goroutines do not. -/
structure Evolves (m m₁ : ClientMux) : Prop where
  clock : m₁.clock = m.clock
  tasks : m₁.tasks = m.tasks
  keeps : ∀ u x, m.underlay u = some x → ∃ x', m₁.underlay u = some x' ∧ x.Keeps m.clock x'
  cleaned : ∀ u, m₁.Cleaned u → m.Cleaned u ∨ m.Closing u

theorem Evolves.of_eq (hclock : m₁.clock = m.clock) (htasks : m₁.tasks = m.tasks)
    (hunderlay : m₁.underlay = m.underlay) : m.Evolves m₁ where
  clock := hclock
  tasks := htasks
  keeps u x hx := ⟨x, hunderlay ▸ hx, .refl _ x⟩
  cleaned u := by
    rintro ⟨x, hx, hcleaned⟩
    exact .inl ⟨x, hunderlay ▸ hx, hcleaned⟩

theorem Evolves.set (hx : m.underlay u = some x) (hkeeps : x.Keeps m.clock x')
    (hcleaned : x'.cleaned = true → x.cleaned = true ∨ m.Closing u) :
    m.Evolves (m.setUnderlay u x') where
  clock := rfl
  tasks := rfl
  keeps v y hy := by
    by_cases hv : v = u
    · subst hv
      cases hx.symm.trans hy
      exact ⟨x', by simp [setUnderlay], hkeeps⟩
    · exact ⟨y, by simpa [setUnderlay, hv] using hy, .refl _ y⟩
  cleaned v := by
    rintro ⟨y, hy, hclean⟩
    by_cases hv : v = u
    · subst hv
      simp only [setUnderlay, Function.update_self, Option.some.injEq] at hy
      subst hy
      exact (hcleaned hclean).imp_left fun h => ⟨x, hx, h⟩
    · exact .inl ⟨y, by simpa [setUnderlay, hv] using hy, hclean⟩

theorem Evolves.create (hnone : m.underlay u = none) (hcleaned : x.cleaned = false)
    (underlays : List Nat) : m.Evolves ({ m with underlays := underlays }.setUnderlay u x) where
  clock := rfl
  tasks := rfl
  keeps v y hy := by
    have hv : v ≠ u := by
      rintro rfl
      cases hnone.symm.trans hy
    exact ⟨y, by simpa [setUnderlay, hv] using hy, .refl _ y⟩
  cleaned v := by
    rintro ⟨y, hy, hclean⟩
    by_cases hv : v = u
    · subst hv
      simp only [setUnderlay, Function.update_self, Option.some.injEq] at hy
      subst hy
      cases hcleaned.symm.trans hclean
    · exact .inl ⟨y, by simpa [setUnderlay, hv] using hy, hclean⟩

def Schedules (m m' : ClientMux) (u : Nat) : Prop :=
  (∃ x, m.underlay u = some x ∧ x.scheduler.isDisabled m.clock = false) ∧
    ∃ x', m'.underlay u = some x' ∧ x'.scheduler.lastScheduleTime = some m.clock

structure Effect (random : Nat) (m m' : ClientMux) : Prop where
  clock : m.clock ≤ m'.clock
  keeps : ∀ u x, m.underlay u = some x → ∃ x', m'.underlay u = some x' ∧ x.Keeps m.clock x'
  cleaned : ∀ u, m'.Cleaned u → m.Cleaned u ∨ m.Closing u
  reserved : ∀ u time, m'.Reserved u time →
    m.Reserved u time ∨ time = m.clock ∧ m.Schedules m' u
  closing : ∀ u, m'.Closing u → m.Closing u ∨
    ∃ x, m.underlay u = some x ∧ x.scheduler.idle random m.clock = true

theorem Evolves.effect (h : m.Evolves m') : Effect random m m' where
  clock := Int.le_of_eq h.clock.symm
  keeps := h.keeps
  cleaned := h.cleaned
  reserved u time := by
    rintro ⟨id, hid⟩
    exact .inl ⟨id, h.tasks ▸ hid⟩
  closing u := by
    rintro ⟨id, hid⟩
    exact .inl ⟨id, h.tasks ▸ hid⟩

theorem Evolves.setTask (h : m.Evolves m₁) (id : Nat) {task : DialTask}
    (hreserved : ∀ u time, task.reservation = some (u, time) →
      (m.tasks id).reservation = some (u, time) ∨ time = m.clock ∧ m.Schedules m₁ u)
    (hclosing : ∀ u, task.closing = some u →
      ∃ x, m.underlay u = some x ∧ x.scheduler.idle random m.clock = true) :
    Effect random m (m₁.setTask id task) where
  clock := Int.le_of_eq h.clock.symm
  keeps := h.keeps
  cleaned := h.cleaned
  reserved u time := by
    rintro ⟨other, hother⟩
    by_cases hid : other = id
    · subst hid
      refine (hreserved u time (by simpa [ClientMux.setTask] using hother)).imp_left fun h => ?_
      exact ⟨other, h⟩
    · exact .inl ⟨other, by simpa [ClientMux.setTask, hid, h.tasks] using hother⟩
  closing u := by
    rintro ⟨other, hother⟩
    by_cases hid : other = id
    · exact .inr (hclosing u (by simpa [ClientMux.setTask, hid] using hother))
    · exact .inl ⟨other, by simpa [ClientMux.setTask, hid, h.tasks] using hother⟩

theorem Evolves.quiet (h : m.Evolves m₁) (id : Nat) {task : DialTask}
    (hreserved : task.reservation = none) (hclosing : task.closing = none) :
    Effect random m (m₁.setTask id task) :=
  h.setTask id (by simp [hreserved]) (by simp [hclosing])

theorem keeps_tryDisableIdle (now : Int) (x : ClientUnderlay) :
    x.Keeps now { x with scheduler := (x.scheduler.tryDisableIdle random now).1 } := by
  unfold ScheduleController.tryDisableIdle
  split_ifs with hset
  · exact .refl now x
  · exact .refl now x
  · exact .refl now x
  · exact ⟨fun d hd => absurd (by simp [hd]) hset, .inl rfl, fun h => h⟩

theorem keeps_setRemainingTime (now d : Int) (x : ClientUnderlay) :
    x.Keeps now { x with scheduler := x.scheduler.setRemainingTime d now } := by
  unfold ScheduleController.setRemainingTime
  split_ifs with hset
  · exact .refl now x
  · exact ⟨fun d hd => absurd (.inr (by simp [hd])) hset, .inl rfl, fun h => h⟩

theorem effect_cleanStep {choice : DialChoice} {also dial : Bool} {visit : Visit}
    {rest remaining : List Nat} (hx : m.underlay u = some x)
    (htask : m.tasks id = .cleaning also dial visit (u :: rest) remaining) :
    Effect random m ((m.cleanStep random choice also dial u x rest remaining visit).1.setTask id
      (m.cleanStep random choice also dial u x rest remaining visit).2) := by
  have hsame : m.Evolves m := .of_eq rfl rfl rfl
  cases visit with
  | readDone =>
    simp only [cleanStep]
    split <;> exact hsame.quiet id rfl rfl
  | countSessions =>
    simp only [cleanStep]
    split <;> exact hsame.quiet id rfl rfl
  | readIdle =>
    simp only [cleanStep]
    split
    · rename_i hidle
      refine hsame.setTask id (by simp [DialTask.reservation]) fun v hv => ?_
      cases hv
      exact ⟨x, hx, hidle⟩
    · exact hsame.quiet id rfl rfl
  | close =>
    have hclosing : m.Closing u := ⟨id, by simp [htask, DialTask.closing]⟩
    have hset : m.Evolves (m.setUnderlay u { x with done := true, cleaned := true }) :=
      .set hx ⟨fun _ h => h, .inl rfl, fun _ => rfl⟩ fun _ => .inr hclosing
    exact hset.quiet id rfl rfl
  | countAgain =>
    simp only [cleanStep]
    split_ifs <;> exact hsame.quiet id rfl rfl
  | tryDisable => exact (Evolves.set hx (keeps_tryDisableIdle m.clock x) .inl).quiet id rfl rfl
  | readTraffic =>
    simp only [cleanStep]
    split <;> exact hsame.quiet id rfl rfl
  | disable => exact (Evolves.set hx (keeps_setRemainingTime m.clock 0 x) .inl).quiet id rfl rfl

theorem effect_move {choice : DialChoice} {task : DialTask}
    (h : m.move random choice (m.tasks id) = some (m₁, task)) :
    Effect random m (m₁.setTask id task) := by
  cases htask : m.tasks id with
  | idle => simp [htask, move] at h
  | finished => simp [htask, move] at h
  | cleaning also dial visit todo remaining =>
    rw [htask] at h
    cases todo with
    | nil =>
      have hunlock : m.Evolves { m with underlays := remaining, locked := false } :=
        .of_eq rfl rfl rfl
      simp only [move] at h
      split at h
      · split at h
        · cases h
          exact hunlock.quiet id rfl rfl
        · split at h
          · cases h
            exact hunlock.quiet id rfl rfl
          · cases h
      · cases h
        exact hunlock.quiet id rfl rfl
    | cons u rest =>
      obtain ⟨x, hx, heq⟩ := Option.map_eq_some_iff.mp h
      have heffect : Effect random m
          ((m.cleanStep random choice also dial u x rest remaining visit).1.setTask id
            (m.cleanStep random choice also dial u x rest remaining visit).2) :=
        effect_cleanStep hx htask
      rwa [heq] at heffect
  | creating again =>
    simp only [htask, move] at h
    split at h
    · cases h
      exact (Evolves.of_eq rfl rfl rfl).quiet id rfl rfl
    · split at h
      · cases h
      · rename_i hfree
        cases h
        have hnone := Option.not_isSome_iff_eq_none.mp (not_or.mp hfree).2
        exact (Evolves.create hnone rfl _).quiet id rfl rfl
  | reserving u again =>
    rw [htask] at h
    obtain ⟨x, hx, heq⟩ := Option.map_eq_some_iff.mp h
    by_cases hdisabled : x.scheduler.isDisabled m.clock = true
    · simp only [ScheduleController.incPending, hdisabled, if_true] at heq
      cases heq
      have hsame : m.Evolves m := .of_eq rfl rfl rfl
      cases again
      · exact hsame.quiet id rfl rfl
      · exact hsame.quiet id rfl rfl
    · simp only [ScheduleController.incPending, hdisabled] at heq
      cases heq
      have hset : m.Evolves (m.setUnderlay u { x with scheduler :=
          { x.scheduler with
            pending := x.scheduler.pending + 1, lastScheduleTime := some m.clock } }) :=
        .set hx ⟨fun _ h => h, .inr rfl, fun h => h⟩ .inl
      refine hset.setTask id (fun v time hv => ?_) (by simp [DialTask.closing])
      cases hv
      exact .inr ⟨rfl, ⟨x, hx, by simpa using hdisabled⟩, _, Function.update_self .., rfl⟩
  | adding u reserved =>
    rw [htask] at h
    obtain ⟨x, hx, heq⟩ := Option.map_eq_some_iff.mp h
    cases heq
    have hevolves : m.Evolves (if choice.attached then
        m.setUnderlay u { x with sessions := x.sessions + 1 } else m) := by
      split
      · exact .set hx ⟨fun _ h => h, .inl rfl, fun h => h⟩ .inl
      · exact .of_eq rfl rfl rfl
    refine hevolves.setTask id (fun v time hv => .inl ?_) (by simp [DialTask.closing])
    rw [htask]
    exact hv
  | added u reserved =>
    rw [htask] at h
    obtain ⟨x, hx, heq⟩ := Option.map_eq_some_iff.mp h
    cases heq
    have hset : m.Evolves (m.setUnderlay u
        { x with scheduler := x.scheduler.decPending m.clock }) :=
      .set hx ⟨fun _ h => h, .inr rfl, fun h => h⟩ .inl
    exact hset.quiet id rfl rfl

theorem effect_next {event : ClientEvent} (h : m.next random event = some m') :
    Effect random m m' := by
  cases event with
  | start id also dial =>
    simp only [next] at h
    split at h
    · split at h
      · cases h
      · cases h
        refine Evolves.quiet (Evolves.of_eq ?_ ?_ ?_) id rfl rfl <;> rfl
    · cases h
  | step id choice =>
    obtain ⟨⟨m₁, task⟩, hmove, rfl⟩ := Option.map_eq_some_iff.mp h
    exact effect_move hmove
  | removeSession u =>
    obtain ⟨x, hx, rfl⟩ := Option.map_eq_some_iff.mp h
    refine Evolves.effect (Evolves.set hx ?_ .inl)
    exact ⟨fun _ h => h, .inl rfl, fun h => h⟩
  | shut u =>
    obtain ⟨x, hx, rfl⟩ := Option.map_eq_some_iff.mp h
    refine Evolves.effect (Evolves.set hx ?_ .inl)
    exact ⟨fun _ h => h, .inl rfl, fun h => h⟩
  | tick d =>
    cases h
    have hclock : m.clock ≤ m.clock + d := by omega
    exact ⟨hclock, fun u x hx => ⟨x, hx, .refl _ x⟩, fun _ h => .inl h, fun _ _ h => .inl h,
      fun _ h => .inl h⟩

/-- The underlay is disabled, and what was reserved on it is long ago. -/
def Unused (random : Nat) (m : ClientMux) (u : Nat) : Prop :=
  (∃ x d, m.underlay u = some x ∧ x.scheduler.disableTime = some d ∧
    d + scheduleIdleTime random < m.clock) ∧
  ∀ time, m.Reserved u time → time + scheduleIdleTime random < m.clock

structure Inv (random : Nat) (m : ClientMux) : Prop where
  reserved : ∀ u time, m.Reserved u time → time ≤ m.clock ∧ ∃ x last, m.underlay u = some x ∧
    x.scheduler.lastScheduleTime = some last ∧ time ≤ last
  unused : ∀ u, m.Cleaned u ∨ m.Closing u → m.Unused random u

theorem scheduleIdleTime_pos (random : Nat) : 0 < scheduleIdleTime random := by
  simp only [scheduleIdleTime, Cipher.keyRefreshInterval]
  omega

theorem isDisabled_of_lt {c : ScheduleController} {d now : Int} (hd : c.disableTime = some d)
    (hlt : d + scheduleIdleTime random < now) : c.isDisabled now = true := by
  have hpos := scheduleIdleTime_pos random
  simp only [ScheduleController.isDisabled, hd, Option.any_some, decide_eq_true_eq]
  omega

theorem Effect.unused (h : Effect random m m') (hunused : m.Unused random u) :
    m'.Unused random u := by
  obtain ⟨⟨x, d, hx, hd, hlt⟩, hreserved⟩ := hunused
  obtain ⟨x', hx', hkeeps⟩ := h.keeps u x hx
  have hclock := h.clock
  refine ⟨⟨x', d, hx', hkeeps.disableTime d hd, by omega⟩, fun time htime => ?_⟩
  rcases h.reserved u time htime with hold | ⟨_, ⟨y, hy, hfree⟩, _⟩
  · have hlong := hreserved time hold
    omega
  · cases hx.symm.trans hy
    cases hfree.symm.trans (isDisabled_of_lt hd hlt)

theorem Inv.unused_of_idle (h : Inv random m) (hx : m.underlay u = some x)
    (hidle : x.scheduler.idle random m.clock = true) : m.Unused random u := by
  simp only [ScheduleController.idle, Bool.and_eq_true, Option.any_eq_true,
    Option.all_eq_true, decide_eq_true_eq] at hidle
  obtain ⟨⟨d, hd, hdisabled⟩, hlast⟩ := hidle
  refine ⟨⟨x, d, hx, hd, by omega⟩, fun time htime => ?_⟩
  obtain ⟨_, y, last, hy, hlasttime, hle⟩ := h.reserved u time htime
  cases hx.symm.trans hy
  have hlong := hlast last hlasttime
  omega

theorem Inv.step (h : Inv random m) (heffect : Effect random m m') : Inv random m' where
  reserved u time htime := by
    have hclock := heffect.clock
    rcases heffect.reserved u time htime with hold | ⟨rfl, _, x', hx', hlast⟩
    · obtain ⟨hle, x, last, hx, hlast, hlasttime⟩ := h.reserved u time hold
      obtain ⟨x', hx', hkeeps⟩ := heffect.keeps u x hx
      refine ⟨by omega, x', ?_⟩
      rcases hkeeps.lastScheduleTime with hsame | hnow
      · exact ⟨last, hx', hsame.trans hlast, hlasttime⟩
      · exact ⟨m.clock, hx', hnow, hle⟩
    · exact ⟨hclock, x', m.clock, hx', hlast, Int.le_refl _⟩
  unused u hu := by
    have hold : m.Cleaned u ∨ m.Closing u ∨
        ∃ x, m.underlay u = some x ∧ x.scheduler.idle random m.clock = true := by
      rcases hu with hcleaned | hclosing
      · exact (heffect.cleaned u hcleaned).imp_right .inl
      · exact .inr (heffect.closing u hclosing)
    rcases hold with hcleaned | hclosing | ⟨x, hx, hidle⟩
    · exact heffect.unused (h.unused u (.inl hcleaned))
    · exact heffect.unused (h.unused u (.inr hclosing))
    · exact heffect.unused (h.unused_of_idle hx hidle)

theorem Inv.of_reachable (h : (system random).Reachable m) : Inv random m := by
  refine h.invariant ?_ fun m event m' hinv hstep => hinv.step (effect_next hstep)
  rintro m ⟨hunderlay, htasks⟩
  refine ⟨?_, ?_⟩
  · rintro u time ⟨id, hid⟩
    simp [htasks, DialTask.reservation] at hid
  · rintro u (⟨x, hx, _⟩ | ⟨id, hid⟩)
    · simp [hunderlay] at hx
    · simp [htasks, DialTask.closing] at hid

theorem Inv.incPending_eq_false (h : Inv random m) (hx : m.underlay u = some x)
    (hcleaned : x.cleaned = true) : (x.scheduler.incPending m.clock).2 = false := by
  obtain ⟨⟨y, d, hy, hd, hlt⟩, _⟩ := h.unused u (.inl ⟨x, hx, hcleaned⟩)
  cases hx.symm.trans hy
  simp [ScheduleController.incPending, isDisabled_of_lt hd hlt]

def Preserves (m m' : ClientMux) : Prop :=
  ∀ u x, m.underlay u = some x → ∃ x', m'.underlay u = some x' ∧
    (∀ d, x.scheduler.disableTime = some d → x'.scheduler.disableTime = some d) ∧
    (x.cleaned = true → x'.cleaned = true)

theorem Later.preserves (hlater : Later random m m') (h : (system random).Reachable m) :
    (system random).Reachable m' ∧ m.Preserves m' := by
  refine System.Reachable.invariant
    (P := fun m' => (system random).Reachable m' ∧ m.Preserves m') ?_ ?_ hlater
  · rintro _ rfl
    exact ⟨h, fun u x hx => ⟨x, hx, fun _ hd => hd, fun hc => hc⟩⟩
  · rintro m₁ event m₂ ⟨hreach, hkeeps⟩ hstep
    refine ⟨hreach.step hstep, fun u x hx => ?_⟩
    obtain ⟨x₁, hx₁, hdisabled, hcleaned⟩ := hkeeps u x hx
    obtain ⟨x₂, hx₂, hnext⟩ := (effect_next hstep).keeps u x₁ hx₁
    exact ⟨x₂, hx₂, fun d hd => hnext.disableTime d (hdisabled d hd),
      fun hc => hnext.cleaned (hcleaned hc)⟩

/-- An underlay is not closed as idle while a session that was scheduled to it
may still be attached; its disable time is set once, and what was closed as
idle is never scheduled to again. -/
theorem cleaned_not_in_use (h : (system random).Reachable m) :
    (∀ id u time, (m.tasks id).reservation = some (u, time) →
      m.clock ≤ time + scheduleIdleTime random → ¬m.Cleaned u) ∧
    ∀ m', Later random m m' → ∀ u x, m.underlay u = some x → ∃ x', m'.underlay u = some x' ∧
      (∀ d, x.scheduler.disableTime = some d → x'.scheduler.disableTime = some d) ∧
      (x.cleaned = true → (x'.scheduler.incPending m'.clock).2 = false) := by
  refine ⟨fun id u time hid hclock hcleaned => ?_, fun m' hlater u x hx => ?_⟩
  · have hlong := ((Inv.of_reachable h).unused u (.inl hcleaned)).2 time ⟨id, hid⟩
    omega
  · obtain ⟨hreach, hkeeps⟩ := hlater.preserves h
    obtain ⟨x', hx', hdisabled, hcleaned⟩ := hkeeps u x hx
    exact ⟨x', hx', hdisabled, fun hc =>
      (Inv.of_reachable hreach).incPending_eq_false hx' (hcleaned hc)⟩

def dialEvents : List ClientEvent :=
  [.start 0 true true, .step 0 {}, .step 0 { created := some (0, none) }, .step 0 {}, .tick 5]

theorem cleaned_not_in_use_dial :
    ∃ m, System.runEvents (next 0) {} dialEvents = some m ∧
      (m.tasks 0).reservation = some (0, 0) ∧ ¬m.Cleaned 0 := by
  have hinit : (system 0).Reachable {} := .init ⟨rfl, rfl⟩
  have hrun : System.runEvents (next 0) {} dialEvents = some _ := rfl
  exact ⟨_, hrun, rfl, (cleaned_not_in_use (hinit.run hrun)).1 0 0 0 rfl (by decide)⟩

end ClientMux

end Mieru.Protocol
