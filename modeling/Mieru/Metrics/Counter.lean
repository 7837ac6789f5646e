import Mathlib.Data.Int.ModEq
import Mieru.Foundation.BinarySearch
import Mieru.Foundation.Outcome

/-!
# Time-series counters

`Counter` of `counter.go`.  Times are nanoseconds since the Unix epoch, and the
history keeps milliseconds.  Amounts are `int64`, so sums wrap.  A roll-up
reads the clock once for every entry it looks at: `clock pass index` is what it
reads in the given pass at the given entry.
-/

namespace Mieru.Metrics

open Mieru.Foundation

variable {h : History} {group added : List Added} {last : Option History} {history : List History}

inductive RollUpLabel where
  | noRollUp
  | rollUpToSecond
  | rollUpToMinute
  | rollUpToHour
  | rollUpToDay
  deriving DecidableEq, Repr

structure History where
  timeUnixMilli : Int
  delta : Int
  rollUp : RollUpLabel
  deriving DecidableEq, Repr

structure Counter where
  name : String
  value : Int := 0
  timeSeries : Bool := false
  history : List History := []
  op : UInt64 := 0
  deriving DecidableEq, Repr

def addInt64 (a b : Int) : Int := (a + b).bmod 18446744073709551616

def unixMilli (t : Int) : Int := t / 1000000

def zeroMilli : Int := -62135596800000

/-- `Time.Truncate` of a time and by a duration of whole milliseconds. -/
def truncate (milli d : Int) : Int := milli - (milli - zeroMilli) % d

/-- The arguments of `doRollUp`: an age in nanoseconds, a unit in milliseconds. -/
structure Pass where
  fromLabel : RollUpLabel
  toLabel : RollUpLabel
  rollUpDuration : Int
  truncateDuration : Int

def History.since (h : History) (now : Int) : Int :=
  now - h.timeUnixMilli * 1000000

def Pass.applies (pass : Pass) (now : Int) (h : History) : Bool :=
  h.rollUp = pass.fromLabel ∧ pass.rollUpDuration < h.since now

def Pass.rolled (pass : Pass) (h : History) : History where
  timeUnixMilli := truncate h.timeUnixMilli pass.truncateDuration
  delta := h.delta
  rollUp := pass.toLabel

/--
Rolling up an entry while `last` is open: what is finished by it, and the entry
that is open afterwards.
-/
def Pass.collect (pass : Pass) (last : Option History) (h : History) : List History × History :=
  match last with
  | none => ([], pass.rolled h)
  | some last =>
    if last.timeUnixMilli = (pass.rolled h).timeUnixMilli then
      ([], { last with delta := addInt64 last.delta h.delta })
    else ([last], pass.rolled h)

def doRollUpFrom (pass : Pass) (clock : Nat → Int) :
    Nat → Option History → List History → List History
  | _, last, [] => last.toList
  | index, last, h :: rest =>
    if pass.applies (clock index) h then
      let collected := pass.collect last h
      collected.1 ++ doRollUpFrom pass clock (index + 1) (some collected.2) rest
    else
      last.toList ++ h :: doRollUpFrom pass clock (index + 1) none rest

def doRollUp (pass : Pass) (clock : Nat → Int) (history : List History) : List History :=
  doRollUpFrom pass clock 0 none history

def rollUpInterval : UInt64 := 1000
def rollUpToSecond : Int := 2000000000
def rollUpSecondToMinute : Int := 120000000000
def rollUpMinuteToHour : Int := 7200000000000
def rollUpHourToDay : Int := 691200000000000

def second : Int := 1000
def minute : Int := 60000
def hour : Int := 3600000
def day : Int := 86400000

open RollUpLabel in
def passes : List Pass :=
  [⟨noRollUp, .rollUpToSecond, rollUpToSecond, second⟩,
    ⟨.rollUpToSecond, .rollUpToSecond, rollUpToSecond, second⟩,
    ⟨.rollUpToSecond, .rollUpToMinute, rollUpSecondToMinute, minute⟩,
    ⟨.rollUpToMinute, .rollUpToMinute, rollUpSecondToMinute, minute⟩,
    ⟨.rollUpToMinute, .rollUpToHour, rollUpMinuteToHour, hour⟩,
    ⟨.rollUpToHour, .rollUpToHour, rollUpMinuteToHour, hour⟩,
    ⟨.rollUpToHour, .rollUpToDay, rollUpHourToDay, day⟩,
    ⟨.rollUpToDay, .rollUpToDay, rollUpHourToDay, day⟩]

def rollUpWith (clock : Nat → Nat → Int) : Nat → List Pass → List History → List History
  | _, [], history => history
  | index, pass :: rest, history =>
    rollUpWith clock (index + 1) rest (doRollUp pass (clock index) history)

namespace Counter

def rollUp (c : Counter) (clock : Nat → Nat → Int) : Counter :=
  if c.op % rollUpInterval ≠ 0 then c
  else { c with history := rollUpWith clock 0 passes c.history }

/-- `Name`, `Type`, `Load` and the queries count as an operation. -/
def touch (c : Counter) : Counter := { c with op := c.op + 1 }

def addWithTime (c : Counter) (clock : Nat → Nat → Int) (delta time : Int) : Counter :=
  let c := c.touch
  if delta = 0 then c
  else
    let c := { c with value := addInt64 c.value delta }
    if c.timeSeries then
      rollUp { c with
        history := c.history ++ [⟨unixMilli time, delta, .noRollUp⟩] } clock
    else c

def add (c : Counter) (clock : Nat → Nat → Int) (delta time : Int) : Outcome String Counter :=
  if delta < 0 then .panic "Can't add a negative value to Counter"
  else .ok (c.addWithTime clock delta time)

def isAfter (t : Int) (h : History) : Bool := t < h.timeUnixMilli * 1000000

def sumDeltas (history : List History) : Int :=
  history.foldl (fun sum h => addInt64 sum h.delta) 0

def deltaBetween (c : Counter) (t1 t2 : Int) : Outcome String Int :=
  if t2 < t1 then .panic "t2 must be later than t1"
  else if !c.timeSeries then
    .panic s!"{c.name} is not a time series Counter"
  else
    let t1Idx := searchList (isAfter t1) c.history
    let t2Idx := searchList (isAfter t2) c.history
    .ok (sumDeltas ((c.history.take t2Idx).drop t1Idx))

end Counter

theorem addInt64_modEq (a b : Int) : addInt64 a b ≡ a + b [ZMOD 18446744073709551616] :=
  Int.bmod_emod

theorem addInt64_congr {a b c d : Int} (h : a + b ≡ c + d [ZMOD 18446744073709551616]) :
    addInt64 a b = addInt64 c d := by
  have hsame : (a + b) % ((18446744073709551616 : Nat) : Int) =
      (c + d) % ((18446744073709551616 : Nat) : Int) := h
  rw [addInt64, addInt64, ← Int.emod_bmod, hsame, Int.emod_bmod]

structure Added where
  time : Int
  delta : Int
  deriving DecidableEq, Repr

def total : List Added → Int
  | [] => 0
  | added :: rest => added.delta + total rest

theorem total_append (front back : List Added) :
    total (front ++ back) = total front + total back := by
  induction front with
  | nil => simp [total]
  | cons added rest ih =>
    simp only [List.cons_append, total, ih]
    omega

/--
An entry stands for a group of amounts: it holds their sum, and its time is
related to the time of each.
-/
structure StandsFor (R : Int → Added → Prop) (h : History) (group : List Added) : Prop where
  delta : h.delta ≡ total group [ZMOD 18446744073709551616]
  time : ∀ added ∈ group, R h.timeUnixMilli added
  ne_nil : group ≠ []

inductive Represents (R : Int → Added → Prop) :
    List History → List Added → Prop
  | nil : Represents R [] []
  | cons {h : History} {group : List Added} {history : List History}
      {added : List Added} : StandsFor R h group →
      Represents R history added → Represents R (h :: history) (group ++ added)

section

variable {R : Int → Added → Prop} {pass : Pass}

theorem Represents.append {front back : List History} {a b : List Added}
    (hfront : Represents R front a) (hback : Represents R back b) :
    Represents R (front ++ back) (a ++ b) := by
  induction hfront with
  | nil => exact hback
  | cons hentry _ ih =>
    rw [List.append_assoc]
    exact .cons hentry ih

theorem represents_singleton (hentry : StandsFor R h group) : Represents R [h] group := by
  have hsingle := Represents.cons hentry .nil
  rwa [List.append_nil] at hsingle

def Collected (R : Int → Added → Prop) : Option History → List Added → Prop
  | none, group => group = []
  | some last, group => StandsFor R last group

theorem Collected.represents (h : Collected R last group) : Represents R last.toList group := by
  cases last with
  | none =>
    cases h
    exact .nil
  | some last => exact represents_singleton h

theorem StandsFor.rolled (hentry : StandsFor R h group)
    (htruncate : ∀ milli added, R milli added → R (truncate milli pass.truncateDuration) added) :
    StandsFor R (pass.rolled h) group :=
  ⟨hentry.delta, fun added hadded => htruncate _ _ (hentry.time added hadded), hentry.ne_nil⟩

theorem StandsFor.merge {last : History} {more : List Added} (hlast : StandsFor R last group)
    (hentry : StandsFor R h more) (htime : last.timeUnixMilli = h.timeUnixMilli) :
    StandsFor R { last with delta := addInt64 last.delta h.delta } (group ++ more) := by
  refine ⟨?_, ?_, ?_⟩
  · rw [total_append]
    exact (addInt64_modEq _ _).trans (hlast.delta.add hentry.delta)
  · intro added hadded
    obtain hadded | hadded := List.mem_append.mp hadded
    · exact hlast.time added hadded
    · dsimp only
      rw [htime]
      exact hentry.time added hadded
  · exact List.append_ne_nil_of_left_ne_nil hlast.ne_nil _

theorem Collected.collect {more : List Added} (hlast : Collected R last group)
    (hrolled : StandsFor R (pass.rolled h) more) :
    ∃ done opened, done ++ opened = group ++ more ∧ Represents R (pass.collect last h).1 done ∧
      StandsFor R (pass.collect last h).2 opened := by
  cases last with
  | none =>
    cases hlast
    exact ⟨[], more, rfl, .nil, hrolled⟩
  | some last =>
    unfold Pass.collect
    dsimp only
    split
    · rename_i htime
      exact ⟨[], group ++ more, rfl, .nil, StandsFor.merge (h := pass.rolled h) hlast hrolled htime⟩
    · exact ⟨group, more, rfl, represents_singleton hlast, hrolled⟩

theorem Represents.doRollUpFrom {clock : Nat → Int}
    (htruncate : ∀ milli added, R milli added → R (truncate milli pass.truncateDuration) added)
    (h : Represents R history added) (index : Nat) (hlast : Collected R last group) :
    Represents R (doRollUpFrom pass clock index last history) (group ++ added) := by
  have hnone : Collected R none [] := rfl
  induction h generalizing index last group with
  | nil =>
    rw [List.append_nil]
    exact hlast.represents
  | @cons h more history added hentry hrest ih =>
    rw [Metrics.doRollUpFrom]
    split
    · obtain ⟨done, opened, hgroups, hdone, hopened⟩ :=
        hlast.collect (hentry.rolled htruncate)
      rw [← List.append_assoc, ← hgroups, List.append_assoc]
      exact hdone.append (ih (index + 1) hopened)
    · have hkept : Represents R (h :: Metrics.doRollUpFrom pass clock (index + 1) none history)
          (more ++ added) :=
        .cons hentry (ih (index + 1) hnone)
      exact hlast.represents.append hkept

theorem Represents.doRollUp {clock : Nat → Int}
    (htruncate : ∀ milli added, R milli added → R (truncate milli pass.truncateDuration) added)
    (h : Represents R history added) : Represents R (doRollUp pass clock history) added := by
  have hnone : Collected R none [] := rfl
  exact h.doRollUpFrom htruncate 0 hnone

theorem Represents.rollUpWith {clock : Nat → Nat → Int} {passes : List Pass}
    (htruncate : ∀ pass ∈ passes, ∀ milli added, R milli added →
      R (truncate milli pass.truncateDuration) added)
    (index : Nat) (h : Represents R history added) :
    Represents R (rollUpWith clock index passes history) added := by
  induction passes generalizing index history with
  | nil => exact h
  | cons pass rest ih =>
    obtain ⟨hpass, hrest⟩ := List.forall_mem_cons.mp htruncate
    exact ih hrest (index + 1) (h.doRollUp hpass)

end

theorem Represents.sumDeltas {R : Int → Added → Prop} (h : Represents R history added) (sum : Int) :
    history.foldl (fun sum h => addInt64 sum h.delta) sum ≡
      sum + total added [ZMOD 18446744073709551616] := by
  induction h generalizing sum with
  | nil =>
    rw [List.foldl_nil, total, Int.add_zero]
  | @cons h group history added hentry _ ih =>
    rw [List.foldl_cons, total_append]
    have hstep := (addInt64_modEq sum h.delta).trans (hentry.delta.add_left sum)
    have hsum := (ih (addInt64 sum h.delta)).trans (hstep.add_right (total added))
    rwa [Int.add_assoc] at hsum

end Mieru.Metrics
