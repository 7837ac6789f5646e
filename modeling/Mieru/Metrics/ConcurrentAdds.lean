import Mieru.Foundation.TransitionSystem
import Mieru.Metrics.Windows

/-!
# Concurrent additions

`Add` reads the clock before it takes the lock of the counter.  Calls that are
between the two can be appended in another order than that of their timestamps,
and then the history is not sorted.  It is sorted in every run in which the
lock goes to the call with the earliest timestamp and a roll-up reads one
instant.
-/

namespace Mieru.Metrics

open Mieru.Foundation

structure SharedCounter where
  counter : Counter
  now : Int
  pending : List Added := []

/--
The roll-up of an `append` may read anything: the clock goes on while the lock
is held.
-/
inductive AddEvent where
  | advance (elapsed : Nat)
  | read (delta : Int)
  | append (index : Nat) (clock : Nat → Nat → Int)

namespace SharedCounter

def next (s : SharedCounter) : AddEvent → Option SharedCounter
  | .advance elapsed => some { s with now := s.now + elapsed }
  | .read delta =>
    -- A negative amount panics before the clock is read.
    if delta < 0 then none
    else some { s with pending := s.pending ++ [⟨s.now, delta⟩] }
  | .append index clock =>
    match s.pending[index]? with
    | none => none
    | some call =>
      some { s with
        counter := s.counter.addWithTime clock call.delta call.time
        pending := s.pending.eraseIdx index }

def Starts (s : SharedCounter) : Prop :=
  s.counter.timeSeries = true ∧ s.counter.history = [] ∧ s.pending = []

def system : System SharedCounter AddEvent := System.ofNext Starts next

/--
The call that appends has the earliest timestamp of those under way, and its
roll-up reads one instant.
-/
def InOrder (s : SharedCounter) : AddEvent → Prop
  | .append index clock =>
    (∀ call, s.pending[index]? = some call → ∀ other ∈ s.pending, call.time ≤ other.time) ∧
    clock = fun _ _ => clock 0 0
  | _ => True

structure Inv (s : SharedCounter) : Prop where
  timeSeries : s.counter.timeSeries = true
  arranged : Arranged s.counter.history
  nonneg : ∀ call ∈ s.pending, 0 ≤ call.delta
  pending_le : ∀ call ∈ s.pending, call.time ≤ s.now
  before_pending : ∀ entry ∈ s.counter.history, ∀ call ∈ s.pending,
    entry.timeUnixMilli ≤ unixMilli call.time
  before_now : ∀ entry ∈ s.counter.history, entry.timeUnixMilli ≤ unixMilli s.now

end SharedCounter

theorem rollUpWith_time_le {now : Int} {stages : List Pass} {level : Nat}
    (hstaged : Staged level stages) (index : Nat) {history : List History}
    {bound : Int} (hbound : ∀ entry ∈ history, entry.timeUnixMilli ≤ bound) :
    ∀ entry ∈ rollUpWith (fun _ _ => now) index stages history, entry.timeUnixMilli ≤ bound := by
  induction stages generalizing level history index with
  | nil => exact hbound
  | cons pass rest ih =>
    obtain ⟨hregular, hrest⟩ := hstaged
    refine ih hrest (index + 1) fun entry hentry => ?_
    obtain ⟨before, hbefore, hkey⟩ := mem_doRollUp hentry
    have htime := (Prod.mk.inj hkey).1
    rw [← htime]
    exact Int.le_trans (shift_time_le hregular before) (hbound before hbefore)

theorem Counter.apply_add {c : Counter} {delta : Int} (h : 0 ≤ delta)
    (time : Int) (clock : Nat → Nat → Int) :
    c.apply (.add delta time clock) = c.addWithTime clock delta time := by
  have hnot : ¬ delta < 0 := by omega
  simp only [Counter.apply, Counter.add, if_neg hnot]

theorem Arranged.addWithTime {c : Counter} (hseries : c.timeSeries = true)
    (harranged : Arranged c.history) {delta time : Int} (hdelta : 0 ≤ delta)
    {clock : Nat → Nat → Int} (hclock : clock = fun _ _ => clock 0 0)
    (hlate : ∀ entry ∈ c.history, entry.timeUnixMilli ≤ unixMilli time) :
    (c.addWithTime clock delta time).timeSeries = true ∧
    Arranged (c.addWithTime clock delta time).history ∧
    ∀ entry ∈ (c.addWithTime clock delta time).history, entry.timeUnixMilli ≤ unixMilli time := by
  rw [← Counter.apply_add hdelta]
  have happended : ∀ entry ∈ c.history ++ [⟨unixMilli time, delta, .noRollUp⟩],
      entry.timeUnixMilli ≤ unixMilli time := by
    intro entry hentry
    obtain hentry | hentry := List.mem_append.mp hentry
    · exact hlate entry hentry
    · obtain rfl := List.mem_singleton.mp hentry
      exact Int.le_refl _
  obtain ⟨hafter, hsame | hadd⟩ :=
    Counter.apply_cases hseries (.add delta time clock)
  · obtain ⟨-, hhistory, -⟩ := hsame
    rw [hhistory]
    exact ⟨hafter, harranged, hlate⟩
  · obtain ⟨_, _, _, heq, -, -, hhistory⟩ := hadd
    cases heq
    have hpresent : Arranged (c.history ++ [⟨unixMilli time, delta, .noRollUp⟩]) :=
      harranged.append hlate
    obtain hhistory | hhistory := hhistory
    · rw [hhistory]
      exact ⟨hafter, hpresent, happended⟩
    · rw [hhistory, hclock]
      rw [hclock] at hafter
      exact ⟨hafter, hpresent.rollUp _, rollUpWith_time_le staged_passes 0 happended⟩

namespace SharedCounter

variable {s after : SharedCounter}

theorem Inv.next (h : s.Inv) {event : AddEvent} (hguard : s.InOrder event)
    (hnext : s.next event = some after) : after.Inv := by
  cases event with
  | advance elapsed =>
    cases hnext
    have hlater : s.now ≤ s.now + elapsed := by omega
    exact ⟨h.timeSeries, h.arranged, h.nonneg,
      fun call hcall => Int.le_trans (h.pending_le call hcall) hlater,
      h.before_pending,
      fun entry hentry => Int.le_trans (h.before_now entry hentry) (unixMilli_mono hlater)⟩
  | read delta =>
    obtain ⟨hdelta, hnext⟩ := Option.ite_none_left_eq_some.mp hnext
    cases hnext
    have hpending : ∀ call, call ∈ s.pending ++ [⟨s.now, delta⟩] →
        call ∈ s.pending ∨ call = ⟨s.now, delta⟩ := by
      intro call hcall
      rwa [List.mem_append, List.mem_singleton] at hcall
    refine ⟨h.timeSeries, h.arranged, ?_, ?_, ?_, h.before_now⟩
    · intro call hcall
      obtain hcall | rfl := hpending call hcall
      · exact h.nonneg call hcall
      · exact Int.not_lt.mp hdelta
    · intro call hcall
      obtain hcall | rfl := hpending call hcall
      · exact h.pending_le call hcall
      · exact Int.le_refl _
    · intro entry hentry call hcall
      obtain hcall | rfl := hpending call hcall
      · exact h.before_pending entry hentry call hcall
      · exact h.before_now entry hentry
  | append index clock =>
    simp only [SharedCounter.next] at hnext
    split at hnext
    · cases hnext
    · rename_i call hcall
      cases hnext
      obtain ⟨hearliest, hclock⟩ := hguard
      have hmem : call ∈ s.pending := List.mem_of_getElem? hcall
      obtain ⟨hseries, harranged, htimes⟩ :=
        h.arranged.addWithTime h.timeSeries (h.nonneg call hmem) hclock
          fun entry hentry => h.before_pending entry hentry call hmem
      have hpending : ∀ other ∈ s.pending.eraseIdx index,
          other ∈ s.pending := fun other => List.mem_of_mem_eraseIdx
      refine ⟨hseries, harranged, ?_, ?_, ?_, ?_⟩
      · exact fun other hother => h.nonneg other (hpending other hother)
      · exact fun other hother => h.pending_le other (hpending other hother)
      · intro entry hentry other hother
        have hafter := hearliest call hcall other (hpending other hother)
        exact Int.le_trans (htimes entry hentry) (unixMilli_mono hafter)
      · intro entry hentry
        exact Int.le_trans (htimes entry hentry) (unixMilli_mono (h.pending_le call hmem))

/-- With the appends in the order of the timestamps the history is sorted. -/
theorem concurrent_sorted (h : system.ReachableBy InOrder s) : SortedByTime s.counter.history := by
  have hinv : s.Inv := by
    refine System.ReachableBy.invariant (P := Inv) ?_ ?_ h
    · rintro start ⟨hseries, hhistory, hpending⟩
      have harranged : Arranged start.counter.history := by
        rw [hhistory]
        exact ⟨List.Pairwise.nil, fun entry hentry => by cases hentry⟩
      refine ⟨hseries, harranged, ?_, ?_, ?_, ?_⟩
      · rw [hpending]
        intro call hcall
        cases hcall
      · rw [hpending]
        intro call hcall
        cases hcall
      · rw [hhistory]
        intro entry hentry
        cases hentry
      · rw [hhistory]
        intro entry hentry
        cases hentry
    · intro state event later hstate hguard hstep
      exact hstate.next hguard hstep
  exact hinv.arranged.sorted

def newCounter : SharedCounter :=
  { counter := { name := "UploadBytes", timeSeries := true }, now := 0 }

def twoAdds (first : Nat) : List AddEvent :=
  [.read 1, .advance 1000000000, .read 1,
    .append first (fun _ _ => 1000000000), .append 0 (fun _ _ => 1000000000)]

def historyOf (s : SharedCounter) : List History := s.counter.history

theorem concurrent_sorted_twoAdds : ∃ s, system.ReachableBy InOrder s ∧
      historyOf s = [⟨0, 1, .noRollUp⟩, ⟨1000, 1, .noRollUp⟩] ∧ SortedByTime s.counter.history := by
  have hrun : System.runEvents next newCounter (twoAdds 0) = some _ := rfl
  have hguarded : System.Guarded InOrder next newCounter (twoAdds 0) := by
    refine ⟨trivial, fun _ h₁ => ?_⟩
    obtain rfl := Option.some.inj h₁
    refine ⟨trivial, fun _ h₂ => ?_⟩
    obtain rfl := Option.some.inj h₂
    refine ⟨trivial, fun _ h₃ => ?_⟩
    obtain rfl := Option.some.inj h₃
    refine ⟨⟨?_, rfl⟩, fun _ h₄ => ?_⟩
    · intro call hcall
      cases hcall
      decide
    · obtain rfl := Option.some.inj h₄
      refine ⟨⟨?_, rfl⟩, fun _ _ => trivial⟩
      intro call hcall
      cases hcall
      decide
  have hreach : system.ReachableBy InOrder _ :=
    System.ReachableBy.run (.init ⟨rfl, rfl, rfl⟩) hguarded hrun
  exact ⟨_, hreach, by decide +kernel, concurrent_sorted hreach⟩

/--
The call with the later timestamp gets the lock first.  The history is not
sorted, and a query misses an amount that was added after its start.
-/
theorem concurrent_unsorted : ∃ s, system.Reachable s ∧ ¬ SortedByTime s.counter.history ∧
      s.counter.deltaBetween 500000000 1000000000 = .ok 0 := by
  exact System.exists_reachable (show newCounter.Starts from ⟨rfl, rfl, rfl⟩) (twoAdds 1)
    (by decide +kernel)

end SharedCounter

end Mieru.Metrics
