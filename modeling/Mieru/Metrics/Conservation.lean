import Mieru.Metrics.Counter

/-!
# Roll-ups conserve the amounts

Operations on a time-series counter in any order, with any timestamps and any
clock readings.  The history always adds up to the value, and a roll-up never
makes it longer.
-/

namespace Mieru.Metrics

variable {c : Counter} {added : List Added} {R : Int → Added → Prop}

/-- A call of a method; a query only counts as an operation. -/
inductive Operation where
  | add (delta time : Int) (clock : Nat → Nat → Int)
  | query

namespace Counter

/-- An `Add` that panics leaves the counter as it is. -/
def apply (c : Counter) : Operation → Counter
  | .add delta time clock =>
    match c.add clock delta time with
    | .ok after => after
    | _ => c
  | .query => c.touch

def run (c : Counter) (operations : List Operation) : Counter :=
  operations.foldl apply c

end Counter

def addsOf : List Operation → List Added
  | [] => []
  | .add delta time _ :: rest =>
    if 0 < delta then ⟨time, delta⟩ :: addsOf rest else addsOf rest
  | .query :: rest => addsOf rest

theorem addsOf_cons (operation : Operation) (rest : List Operation) :
    addsOf (operation :: rest) = addsOf [operation] ++ addsOf rest := by
  cases operation with
  | query => rfl
  | add delta time clock =>
    simp only [addsOf]
    split <;> rfl

namespace Counter

theorem apply_cases (hseries : c.timeSeries = true) (operation : Operation) :
    (c.apply operation).timeSeries = true ∧
    ((addsOf [operation] = [] ∧ (c.apply operation).history = c.history ∧
        (c.apply operation).value = c.value) ∨
      ∃ delta time clock, operation = .add delta time clock ∧ 0 < delta ∧
        (c.apply operation).value = addInt64 c.value delta ∧
        ((c.apply operation).history = c.history ++ [⟨unixMilli time, delta, .noRollUp⟩] ∨
          (c.apply operation).history = rollUpWith clock 0 passes
            (c.history ++ [⟨unixMilli time, delta, .noRollUp⟩]))) := by
  cases operation with
  | query => exact ⟨hseries, .inl ⟨rfl, rfl, rfl⟩⟩
  | add delta time clock =>
    by_cases hnegative : delta < 0
    · have hpositive : ¬ 0 < delta := by omega
      simp only [apply, add, if_pos hnegative, addsOf, if_neg hpositive]
      exact ⟨hseries, .inl ⟨trivial, trivial, trivial⟩⟩
    · by_cases hzero : delta = 0
      · subst hzero
        simp only [apply, add, addWithTime, touch, addsOf, if_true, Int.lt_irrefl, if_false]
        exact ⟨hseries, .inl ⟨trivial, trivial, trivial⟩⟩
      · simp only [apply, add, if_neg hnegative, addWithTime, touch,
          if_neg hzero, hseries, if_true, rollUp]
        split
        · exact ⟨rfl, .inr ⟨delta, time, clock, rfl, by omega, rfl, .inl rfl⟩⟩
        · exact ⟨rfl, .inr ⟨delta, time, clock, rfl, by omega, rfl, .inr rfl⟩⟩

end Counter

def IsInt64 (x : Int) : Prop := x.bmod 18446744073709551616 = x

theorem isInt64_addInt64 (a b : Int) : IsInt64 (addInt64 a b) :=
  Int.bmod_bmod

theorem IsInt64.foldl {sum : Int} (h : IsInt64 sum) (history : List History) :
    IsInt64 (history.foldl (fun sum h => addInt64 sum h.delta) sum) := by
  induction history generalizing sum with
  | nil => exact h
  | cons entry rest ih => exact ih (isInt64_addInt64 sum entry.delta)

theorem IsInt64.eq_bmod {x y : Int} (h : IsInt64 x) (hxy : x ≡ y [ZMOD 18446744073709551616]) :
    x = y.bmod 18446744073709551616 := by
  have hsame : x % ((18446744073709551616 : Nat) : Int) =
      y % ((18446744073709551616 : Nat) : Int) := hxy
  rw [← h, ← Int.emod_bmod, hsame, Int.emod_bmod]

theorem sumDeltas_eq {history : List History} (h : Represents R history added) :
    Counter.sumDeltas history = (total added).bmod 18446744073709551616 := by
  have hsum := h.sumDeltas 0
  rw [Int.zero_add] at hsum
  have hzero : IsInt64 0 := rfl
  exact (hzero.foldl history).eq_bmod hsum

structure Balanced (c : Counter) (added : List Added) : Prop where
  timeSeries : c.timeSeries = true
  history : Represents (fun _ _ => True) c.history added
  value : c.value = (total added).bmod 18446744073709551616

theorem represents_added {time delta : Int} (h : R (unixMilli time) ⟨time, delta⟩) :
    Represents R [⟨unixMilli time, delta, .noRollUp⟩] [⟨time, delta⟩] := by
  refine represents_singleton ⟨?_, ?_, List.cons_ne_nil _ _⟩
  · rw [total, total, Int.add_zero]
  · intro added hadded
    obtain rfl := List.mem_singleton.mp hadded
    exact h

theorem Balanced.apply (h : Balanced c added) (operation : Operation) :
    Balanced (c.apply operation) (added ++ addsOf [operation]) := by
  obtain ⟨hseries, hsame | hadd⟩ := Counter.apply_cases h.timeSeries operation
  · obtain ⟨hnone, hhistory, hvalue⟩ := hsame
    refine ⟨hseries, ?_, ?_⟩
    · rw [hnone, List.append_nil, hhistory]
      exact h.history
    · rw [hnone, List.append_nil, hvalue]
      exact h.value
  · obtain ⟨delta, time, clock, rfl, hpositive, hvalue, hhistory⟩ := hadd
    have hadds : addsOf [.add delta time clock] = [⟨time, delta⟩] :=
      if_pos hpositive
    have hentry : Represents (fun _ _ => True)
        [⟨unixMilli time, delta, .noRollUp⟩] [⟨time, delta⟩] :=
      represents_added trivial
    have happended := h.history.append hentry
    rw [hadds]
    refine ⟨hseries, ?_, ?_⟩
    · obtain hhistory | hhistory := hhistory
      · rw [hhistory]
        exact happended
      · rw [hhistory]
        exact happended.rollUpWith (fun _ _ _ _ _ => trivial) 0
    · rw [hvalue, h.value, total_append]
      simp only [addInt64, total, Int.add_zero, Int.bmod_add_bmod]

theorem Balanced.run (h : Balanced c added) (operations : List Operation) :
    Balanced (c.run operations) (added ++ addsOf operations) := by
  induction operations generalizing c added with
  | nil =>
    rw [addsOf, List.append_nil]
    exact h
  | cons operation rest ih =>
    rw [addsOf_cons, ← List.append_assoc]
    exact ih (h.apply operation)

def History.key (h : History) : Int × RollUpLabel := (h.timeUnixMilli, h.rollUp)

def Pass.shift (pass : Pass) (now : Int) (h : History) : History :=
  if pass.applies now h then pass.rolled h else h

def Pass.shiftFrom (pass : Pass) (clock : Nat → Int) : Nat → List History → List History
  | _, [] => []
  | index, h :: rest =>
    pass.shift (clock index) h :: pass.shiftFrom clock (index + 1) rest

theorem length_shiftFrom (pass : Pass) (clock : Nat → Int) (index : Nat) (history : List History) :
    (pass.shiftFrom clock index history).length = history.length := by
  induction history generalizing index with
  | nil => rfl
  | cons h rest ih => rw [Pass.shiftFrom, List.length_cons, ih, List.length_cons]

theorem key_doRollUpFrom (pass : Pass) (clock : Nat → Int) (index : Nat)
    (last : Option History) (history : List History) :
    List.Sublist ((doRollUpFrom pass clock index last history).map History.key)
      (last.toList.map History.key ++ (pass.shiftFrom clock index history).map History.key) := by
  induction history generalizing index last with
  | nil =>
    rw [doRollUpFrom, Pass.shiftFrom, List.map_nil, List.append_nil]
  | cons h rest ih =>
    rw [doRollUpFrom, Pass.shiftFrom, Pass.shift]
    split
    · dsimp only
      rw [List.map_append, List.map_cons]
      have hrest := ih (index + 1) (some (pass.collect last h).2)
      cases last with
      | none => exact hrest
      | some last =>
        unfold Pass.collect at hrest ⊢
        dsimp only at hrest ⊢
        split
        · rename_i htime
          rw [if_pos htime] at hrest
          exact hrest.trans ((List.sublist_cons_self _ _).cons_cons _)
        · rename_i htime
          rw [if_neg htime] at hrest
          exact hrest.cons_cons _
    · rw [List.map_append, List.map_cons, List.map_cons]
      exact ((ih (index + 1) none).cons_cons _).append_left _

theorem length_doRollUp_le (pass : Pass) (clock : Nat → Int) (history : List History) :
    (doRollUp pass clock history).length ≤ history.length := by
  have hlength := (key_doRollUpFrom pass clock 0 none history).length_le
  rw [List.length_map, List.length_append, List.length_map, List.length_map,
    length_shiftFrom] at hlength
  rw [doRollUp]
  simpa using hlength

theorem length_rollUpWith_le (clock : Nat → Nat → Int) (index : Nat)
    (passes : List Pass) (history : List History) :
    (rollUpWith clock index passes history).length ≤ history.length := by
  induction passes generalizing index history with
  | nil => exact Nat.le_refl _
  | cons pass rest ih =>
    exact Nat.le_trans (ih (index + 1) _) (length_doRollUp_le _ _ _)

theorem Counter.length_rollUp_le (c : Counter) (clock : Nat → Nat → Int) :
    (c.rollUp clock).history.length ≤ c.history.length := by
  unfold Counter.rollUp
  split
  · exact Nat.le_refl _
  · exact length_rollUpWith_le clock 0 passes c.history

/--
In every state of a time-series counter the deltas of the history add up to
the value.  A roll-up does not make the history longer, and an `Add` that rolls
up leaves at most the entry it has added besides.
-/
theorem rollUp_conserves (name : String) (operations : List Operation) :
    let c := Counter.run { name := name, timeSeries := true } operations
    Counter.sumDeltas c.history = c.value ∧
      (∀ clock, (c.rollUp clock).history.length ≤ c.history.length) ∧
      ∀ operation, (c.apply operation).history.length ≤
        c.history.length + (addsOf [operation]).length := by
  have hstart : Balanced { name := name, timeSeries := true } [] :=
    ⟨rfl, .nil, rfl⟩
  have hrun := hstart.run operations
  refine ⟨?_, fun clock => Counter.length_rollUp_le _ clock, fun operation => ?_⟩
  · rw [sumDeltas_eq hrun.history, hrun.value]
  · rcases (Counter.apply_cases hrun.timeSeries operation).2 with
      ⟨-, hsame, -⟩ | ⟨delta, time, clock, rfl, hdelta, -, happended | hrolled⟩
    · rw [hsame]
      exact Nat.le_add_right _ _
    · simp [happended, addsOf, hdelta]
    · rw [hrolled]
      refine Nat.le_trans (length_rollUpWith_le clock 0 passes _) ?_
      simp [addsOf, hdelta]

end Mieru.Metrics
