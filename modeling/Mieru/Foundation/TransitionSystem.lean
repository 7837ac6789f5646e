import Mathlib.Data.List.Basic

/-!
# Labelled transition systems

A system is a set of initial states and a labelled step relation.  Runs are
sequences of steps from an initial state.  An invariant holds initially and is
kept by every step; a guarded invariant only needs the steps whose label and
state before the step meet a condition.  A system given by a partial function
can also be run on a list of events.
-/

namespace Mieru.Foundation

structure System (σ ε : Type) where
  init : σ → Prop
  step : σ → ε → σ → Prop

namespace System

variable {σ ε : Type} {S : System σ ε} {next : σ → ε → Option σ} {guard : σ → ε → Prop}
  {events : List ε} {state after : σ}

inductive ReachableBy (S : System σ ε) (guard : σ → ε → Prop) : σ → Prop
  | init {state : σ} : S.init state → ReachableBy S guard state
  | step {state next : σ} {event : ε} : ReachableBy S guard state →
      guard state event → S.step state event next → ReachableBy S guard next

def Reachable (S : System σ ε) : σ → Prop :=
  S.ReachableBy fun _ _ => True

theorem Reachable.init {state : σ} (h : S.init state) : S.Reachable state :=
  ReachableBy.init h

theorem Reachable.step {state next : σ} {event : ε} (h : S.Reachable state)
    (hstep : S.step state event next) : S.Reachable next :=
  ReachableBy.step h trivial hstep

theorem ReachableBy.invariant {P : σ → Prop} (hinit : ∀ state, S.init state → P state)
    (hstep : ∀ state event next, P state → guard state event → S.step state event next → P next)
    {state : σ} (h : S.ReachableBy guard state) : P state := by
  induction h with
  | init hstate => exact hinit _ hstate
  | step _ hguard hnext ih => exact hstep _ _ _ ih hguard hnext

theorem Reachable.invariant {P : σ → Prop} (hinit : ∀ state, S.init state → P state)
    (hstep : ∀ state event next, P state → S.step state event next → P next)
    {state : σ} (h : S.Reachable state) : P state :=
  ReachableBy.invariant hinit
    (fun state event next hinv _ hnext => hstep state event next hinv hnext) h

def ofNext (init : σ → Prop) (next : σ → ε → Option σ) : System σ ε where
  init := init
  step state event after := next state event = some after

def runEvents (next : σ → ε → Option σ) : σ → List ε → Option σ
  | state, [] => some state
  | state, event :: events =>
    (next state event).bind fun after => runEvents next after events

theorem runEvents_append {state middle after : σ} {first rest : List ε}
    (hfirst : runEvents next state first = some middle)
    (hrest : runEvents next middle rest = some after) :
    runEvents next state (first ++ rest) = some after := by
  induction first generalizing state with
  | nil =>
    cases hfirst
    exact hrest
  | cons event first ih =>
    obtain ⟨next, hnext, hlater⟩ := Option.bind_eq_some_iff.mp hfirst
    exact Option.bind_eq_some_iff.mpr ⟨next, hnext, ih hlater⟩

/-- Every event of the list meets the guard in the state it happens in. -/
def Guarded (guard : σ → ε → Prop) (next : σ → ε → Option σ) : σ → List ε → Prop
  | _, [] => True
  | state, event :: events => guard state event ∧
      ∀ after, next state event = some after → Guarded guard next after events

theorem ReachableBy.run {init : σ → Prop} (h : (ofNext init next).ReachableBy guard state)
    (hguarded : Guarded guard next state events) (hrun : runEvents next state events = some after) :
    (ofNext init next).ReachableBy guard after := by
  induction events generalizing state with
  | nil =>
    cases hrun
    exact h
  | cons event events ih =>
    obtain ⟨middle, hmiddle, hrest⟩ := Option.bind_eq_some_iff.mp hrun
    obtain ⟨hguard, hlater⟩ := hguarded
    exact ih (h.step hguard hmiddle) (hlater middle hmiddle) hrest

theorem guarded_of_forall (h : ∀ event ∈ events, ∀ state, guard state event) (state : σ) :
    Guarded guard next state events := by
  induction events generalizing state with
  | nil => trivial
  | cons event events ih =>
    obtain ⟨hevent, hevents⟩ := List.forall_mem_cons.mp h
    exact ⟨hevent state, fun after _ => ih hevents after⟩

theorem Reachable.run {init : σ → Prop} (h : (ofNext init next).Reachable state)
    (hrun : runEvents next state events = some after) : (ofNext init next).Reachable after :=
  ReachableBy.run h (guarded_of_forall (fun _ _ _ => trivial) state) hrun

def checked (check : σ → ε → Bool) (next : σ → ε → Option σ) (state : σ) (event : ε) : Option σ :=
  if check state event then next state event else none

theorem ReachableBy.runChecked {init : σ → Prop} {check : σ → ε → Bool}
    (hcheck : ∀ state event, check state event = true → guard state event)
    (h : (ofNext init next).ReachableBy guard state)
    (hrun : runEvents (checked check next) state events = some after) :
    (ofNext init next).ReachableBy guard after := by
  induction events generalizing state with
  | nil =>
    cases hrun
    exact h
  | cons event events ih =>
    obtain ⟨middle, hmiddle, hrest⟩ := Option.bind_eq_some_iff.mp hrun
    obtain ⟨hpassed, hmiddle⟩ := Option.ite_none_right_eq_some.mp hmiddle
    exact ih (h.step (hcheck state event hpassed) hmiddle) hrest

/-! A property of a reachable state is shown by running to that state. -/

variable {I P : σ → Prop} [DecidablePred P]

theorem exists_reachable (hinit : I state) (events : List ε)
    (h : (runEvents next state events).any (fun after => decide (P after)) = true) :
    ∃ after, (ofNext I next).Reachable after ∧ P after := by
  obtain ⟨after, hrun, hafter⟩ := (Option.any_eq_true ..).mp h
  exact ⟨after, Reachable.run (.init hinit) hrun, of_decide_eq_true hafter⟩

theorem exists_reachableBy {check : σ → ε → Bool}
    (hcheck : ∀ state event, check state event = true → guard state event) (hinit : I state)
    (events : List ε)
    (h : (runEvents (checked check next) state events).any (fun after => decide (P after)) = true) :
    ∃ after, (ofNext I next).ReachableBy guard after ∧ P after := by
  obtain ⟨after, hrun, hafter⟩ := (Option.any_eq_true ..).mp h
  exact ⟨after, ReachableBy.runChecked hcheck (.init hinit) hrun, of_decide_eq_true hafter⟩

end System

end Mieru.Foundation
