import Mathlib.Data.List.Basic

/-!
# Failures in a sliding window

A counter keeps the times of recent failures and locks when there are `limit`
of them within `width`.  A success resets it.  While the lock is respected,
no interval of length `width` without a success holds more than `limit`
failures, whatever the clock does between them.
-/

namespace Mieru.Foundation

structure Window where
  kept : List Int := []
  lock : Option Int := none
  failures : List Int := []
  successes : List Int := []
  pending : Option Int := none
  now : Int

namespace Window

def since (start : Int) (times : List Int) : Nat :=
  times.countP fun time => start ≤ time

def within (width start : Int) (times : List Int) : Nat :=
  times.countP fun time => start ≤ time && time < start + width

def slack (start : Int) : Option Int → Nat
  | none => 0
  | some time => if start ≤ time then 1 else 0

variable {width start : Int} {limit : Nat} {w : Window}

theorem since_append (start : Int) (times more : List Int) :
    since start (times ++ more) = since start times + since start more :=
  List.countP_append ..

theorem since_le_length (start : Int) (times : List Int) : since start times ≤ times.length :=
  List.countP_le_length

theorem since_eq_zero {times : List Int} (h : ∀ time ∈ times, time < start) :
    since start times = 0 := by
  rw [since, List.countP_eq_zero]
  intro time htime
  have hlt := h time htime
  simp only [decide_eq_true_eq]
  omega

theorem within_eq_since {times : List Int} (h : ∀ time ∈ times, time < start + width) :
    within width start times = since start times := by
  refine List.countP_congr fun time htime => ?_
  simp [h time htime]

theorem within_append (times more : List Int) : within width start (times ++ more) =
      within width start times + within width start more :=
  List.countP_append ..

/--
The invariant: an interval that has not ended and has no success is either
locked to its end, or its failures are among those that still count.
-/
structure Bounded (width : Int) (limit : Nat) (w : Window) : Prop where
  failures_le : ∀ time ∈ w.failures, time ≤ w.now
  successes_le : ∀ time ∈ w.successes, time ≤ w.now
  few : w.kept.length < limit
  running : ∀ start, w.now < start + width → (∀ time ∈ w.successes, time < start) →
    (∃ stop, w.lock = some stop ∧ start + width ≤ stop ∧ since start w.failures ≤ limit) ∨
      since start w.failures ≤ since start w.kept + slack start w.pending
  bound : ∀ start, (∀ time ∈ w.successes, ¬(start ≤ time ∧ time < start + width)) →
    within width start w.failures ≤ limit

theorem bounded_empty (now : Int) (hlimit : 0 < limit) : Bounded width limit { now := now } where
  failures_le := by simp
  successes_le := by simp
  few := hlimit
  running _ _ _ := .inr (Nat.zero_le _)
  bound _ _ := Nat.zero_le _

namespace Bounded

theorem tick (h : Bounded width limit w) {now : Int} (hnow : w.now ≤ now) :
    Bounded width limit { w with now := now } where
  failures_le time htime := Int.le_trans (h.failures_le time htime) hnow
  successes_le time htime := Int.le_trans (h.successes_le time htime) hnow
  few := h.few
  running start hopen hsuccess :=
    h.running start (Int.lt_of_le_of_lt hnow hopen) hsuccess
  bound := h.bound

theorem unlock (h : Bounded width limit w) (hlock : ∀ stop, w.lock = some stop → stop ≤ w.now) :
    Bounded width limit { w with lock := none } where
  failures_le := h.failures_le
  successes_le := h.successes_le
  few := h.few
  running start hopen hsuccess := by
    rcases h.running start hopen hsuccess with ⟨stop, hstop, hle, -⟩ | hle
    · have hended := hlock stop hstop
      have hnow : w.now < start + width := hopen
      omega
    · exact .inr hle
  bound := h.bound

theorem fail (h : Bounded width limit w) (hlock : w.lock = none) (hpending : w.pending = none) :
    Bounded width limit { w with
      failures := w.failures ++ [w.now], pending := some w.now } where
  failures_le := by
    intro time htime
    rcases List.mem_append.mp htime with htime | htime
    · exact h.failures_le time htime
    · exact Int.le_of_eq (List.mem_singleton.mp htime)
  successes_le := h.successes_le
  few := h.few
  running start hopen hsuccess := by
    have hle := (h.running start hopen hsuccess).resolve_left (by simp [hlock])
    rw [hpending, slack, Nat.add_zero] at hle
    refine .inr ?_
    rw [since_append]
    have hone : since start [w.now] = slack start (some w.now) := by
      simp [since, slack, List.countP_cons]
    rw [hone]
    exact Nat.add_le_add_right hle _
  bound start hsuccess := by
    rw [within_append]
    by_cases hin : start ≤ w.now ∧ w.now < start + width
    · have hbefore : ∀ time ∈ w.successes, time < start := by
        intro time htime
        have hle := h.successes_le time htime
        have hnot := hsuccess time htime
        omega
      have hcount := (h.running start hin.2 hbefore).resolve_left (by simp [hlock])
      rw [hpending, slack, Nat.add_zero] at hcount
      have hall : within width start w.failures = since start w.failures :=
        within_eq_since fun time htime =>
          Int.lt_of_le_of_lt (h.failures_le time htime) hin.2
      have hone : within width start [w.now] ≤ 1 := List.countP_le_length
      have hkept := since_le_length start w.kept
      have hfew := h.few
      omega
    · have hnone : within width start [w.now] = 0 := by
        simp [within, List.countP_cons]
        omega
      rw [hnone]
      exact h.bound start hsuccess

theorem announce (h : Bounded width limit w) (hpending : w.pending = none)
    (time : Int) : Bounded width limit { w with pending := some time } where
  failures_le := h.failures_le
  successes_le := h.successes_le
  few := h.few
  running start hopen hsuccess := by
    rcases h.running start hopen hsuccess with hlocked | hle
    · exact .inl hlocked
    · rw [hpending, slack, Nat.add_zero] at hle
      exact .inr (Nat.le_trans hle (Nat.le_add_right _ _))
  bound := h.bound

def recent (width time : Int) (kept : List Int) : List Int :=
  kept.filter (fun other => time - width ≤ other) ++ [time]

theorem since_recent {time : Int} (kept : List Int) (hstart : time < start + width) :
    since start (recent width time kept) = since start kept + slack start (some time) := by
  rw [recent, since_append]
  have hkept : since start (kept.filter fun other => time - width ≤ other) =
      since start kept := by
    rw [since, List.countP_filter]
    refine List.countP_congr fun other _ => ?_
    simp only [Bool.and_eq_true, decide_eq_true_eq]
    omega
  rw [hkept]
  simp [since, slack, List.countP_cons]

theorem length_recent_le (h : Bounded width limit w) (time : Int) :
    (recent width time w.kept).length ≤ limit := by
  have hfew := h.few
  have hfilter := List.length_filter_le (fun other => decide (time - width ≤ other)) w.kept
  simp only [recent, List.length_append, List.length_singleton]
  omega

theorem count {time : Int} (h : Bounded width limit w) (hpending : w.pending = some time)
    (hlock : w.lock = none) (htime : time ≤ w.now)
    (hfew : (recent width time w.kept).length < limit) : Bounded width limit { w with
      kept := recent width time w.kept, pending := none } where
  failures_le := h.failures_le
  successes_le := h.successes_le
  few := hfew
  running start hopen hsuccess := by
    have hle := (h.running start hopen hsuccess).resolve_left (by simp [hlock])
    rw [hpending] at hle
    have hnow : w.now < start + width := hopen
    have hrecent := since_recent w.kept (show time < start + width by omega)
    refine .inr ?_
    rw [hrecent]
    exact hle
  bound := h.bound

theorem lockOut {time stop : Int} (h : Bounded width limit w) (hpending : w.pending = some time)
    (hlock : w.lock = none) (htime : time ≤ w.now) (hlast : ∀ other ∈ w.failures, other ≤ time)
    (hstop : time + width ≤ stop) (hlimit : 0 < limit) : Bounded width limit { w with
      kept := [], lock := some stop, pending := none } where
  failures_le := h.failures_le
  successes_le := h.successes_le
  few := hlimit
  running start hopen hsuccess := by
    have hle := (h.running start hopen hsuccess).resolve_left (by simp [hlock])
    rw [hpending] at hle
    have hnow : w.now < start + width := hopen
    by_cases hbefore : start ≤ time
    · refine .inl ⟨stop, rfl, by omega, Nat.le_trans hle ?_⟩
      have hrecent := since_recent w.kept (show time < start + width by omega)
      rw [← hrecent]
      exact Nat.le_trans (since_le_length _ _) (h.length_recent_le time)
    · refine .inr ?_
      have hnone : since start w.failures = 0 := by
        refine since_eq_zero fun other hother => ?_
        have hother := hlast other hother
        omega
      rw [hnone]
      exact Nat.zero_le _
  bound := h.bound

theorem succeed (h : Bounded width limit w) (hlimit : 0 < limit) : Bounded width limit { w with
      kept := [], lock := none, pending := none,
      successes := w.successes ++ [w.now] } where
  failures_le := h.failures_le
  successes_le := by
    intro time htime
    rcases List.mem_append.mp htime with htime | htime
    · exact h.successes_le time htime
    · exact Int.le_of_eq (List.mem_singleton.mp htime)
  few := hlimit
  running start hopen hsuccess := by
    have hnow := hsuccess w.now (by simp)
    refine .inr ?_
    have hnone : since start w.failures = 0 := by
      refine since_eq_zero fun time htime => ?_
      have hle := h.failures_le time htime
      omega
    rw [hnone]
    exact Nat.zero_le _
  bound start hsuccess := by
    refine h.bound start fun time htime => ?_
    exact hsuccess time (by simp [htime])

end Bounded

end Window

end Mieru.Foundation
