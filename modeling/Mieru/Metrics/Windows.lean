import Mieru.Metrics.Conservation

/-!
# Traffic windows after roll-ups

A roll-up that reads one clock instant keeps the history sorted: an entry is
moved back only to a multiple of its new unit, and every entry before it that
stays in place is already at such a multiple.  No entry leaves the day of the
amounts it stands for, so a query over a window is off by less than a day.
-/

namespace Mieru.Metrics

open Mieru.Foundation

variable {h : History} {level : Nat} {history : List History} {added : List Added} {t : Int}
  {c : Counter}

section

variable {d milli : Int}

theorem truncate_eq (hzero : d ∣ zeroMilli) : truncate milli d = d * (milli / d) := by
  obtain ⟨q, hq⟩ := hzero
  have hmod : (milli - zeroMilli) % d = milli % d := by
    rw [hq, Int.sub_mul_emod_self_left]
  have hdivision := Int.mul_ediv_add_emod milli d
  rw [truncate, hmod]
  omega

theorem truncate_le (hpositive : 0 < d) (hzero : d ∣ zeroMilli) : truncate milli d ≤ milli := by
  rw [truncate_eq hzero]
  exact Int.mul_ediv_self_le (Int.ne_of_gt hpositive)

theorem dvd_truncate (hzero : d ∣ zeroMilli) : d ∣ truncate milli d := by
  rw [truncate_eq hzero]
  exact Int.dvd_mul_right d _

theorem le_truncate (hpositive : 0 < d) (hzero : d ∣ zeroMilli) {bound : Int}
    (hbound : d ∣ bound) (hle : bound ≤ milli) : bound ≤ truncate milli d := by
  obtain ⟨q, rfl⟩ := hbound
  rw [truncate_eq hzero]
  have hq : q ≤ milli / d := by
    apply Int.le_ediv_of_mul_le hpositive
    rwa [Int.mul_comm]
  exact Int.mul_le_mul_of_nonneg_left hq (Int.le_of_lt hpositive)

theorem truncate_mono (hpositive : 0 < d) (hzero : d ∣ zeroMilli)
    {later : Int} (hle : milli ≤ later) : truncate milli d ≤ truncate later d :=
  le_truncate hpositive hzero (dvd_truncate hzero) (Int.le_trans (truncate_le hpositive hzero) hle)

end

namespace RollUpLabel

def labels : List RollUpLabel :=
  [noRollUp, rollUpToSecond, rollUpToMinute, rollUpToHour, rollUpToDay]

theorem mem_labels (label : RollUpLabel) : label ∈ labels := by
  cases label <;> decide

def rank : RollUpLabel → Nat
  | noRollUp => 0
  | rollUpToSecond => 1
  | rollUpToMinute => 2
  | rollUpToHour => 3
  | rollUpToDay => 4

theorem rank_injective {label other : RollUpLabel}
    (h : label.rank = other.rank) : label = other := by
  cases label <;> cases other <;> first | rfl | cases h

def unit : RollUpLabel → Int
  | noRollUp => 1
  | rollUpToSecond => second
  | rollUpToMinute => minute
  | rollUpToHour => hour
  | rollUpToDay => day

def limit : RollUpLabel → Int
  | noRollUp => Metrics.rollUpToSecond
  | rollUpToSecond => rollUpSecondToMinute
  | rollUpToMinute => rollUpMinuteToHour
  | rollUpToHour => rollUpHourToDay
  | rollUpToDay => rollUpHourToDay

end RollUpLabel

/--
A pass that can run once all labels below `level` are gone from the old
entries, and the level after it.
-/
structure Pass.Regular (pass : Pass) (level : Nat) : Prop where
  unit : pass.truncateDuration = pass.toLabel.unit
  positive : 0 < pass.truncateDuration
  divides_zero : pass.truncateDuration ∣ zeroMilli
  divides_day : pass.truncateDuration ∣ day
  level_from : pass.fromLabel.rank ≤ level
  level_to : level ≤ pass.toLabel.rank
  finer : ∀ label ∈ RollUpLabel.labels,
    label.rank < pass.fromLabel.rank → label.limit ≤ pass.rollUpDuration
  coarser : ∀ label ∈ RollUpLabel.labels,
    pass.fromLabel.rank < label.rank → pass.truncateDuration ∣ label.unit
  relabel : pass.fromLabel ≠ pass.toLabel → pass.rollUpDuration = pass.fromLabel.limit

def Pass.nextLevel (pass : Pass) (level : Nat) : Nat :=
  if pass.fromLabel = pass.toLabel then level else pass.fromLabel.rank + 1

def Staged : Nat → List Pass → Prop
  | _, [] => True
  | level, pass :: rest => pass.Regular level ∧ Staged (pass.nextLevel level) rest

theorem staged_passes : Staged 0 passes := by
  refine ⟨?_, ?_, ?_, ?_, ?_, ?_, ?_, ?_, trivial⟩ <;>
    exact ⟨rfl, by decide, by decide, by decide, by decide, by decide,
      by decide, by decide, by decide⟩

def SortedByTime (history : List History) : Prop :=
  history.Pairwise fun h later => h.timeUnixMilli ≤ later.timeUnixMilli

instance (history : List History) : Decidable (SortedByTime history) :=
  inferInstanceAs (Decidable (history.Pairwise _))

structure Arranged (history : List History) : Prop where
  sorted : SortedByTime history
  aligned : ∀ h ∈ history, h.rollUp.unit ∣ h.timeUnixMilli

def Quiet (now : Int) (label : RollUpLabel) (history : List History) : Prop :=
  ∀ h ∈ history, h.rollUp = label → h.since now ≤ label.limit

section

variable {pass : Pass} {level : Nat} {now : Int} {history : List History}

theorem applies_iff : pass.applies now h = true ↔
      h.rollUp = pass.fromLabel ∧ pass.rollUpDuration < h.since now := by
  simp [Pass.applies]

theorem shiftFrom_const (index : Nat) :
    pass.shiftFrom (fun _ => now) index history = history.map (pass.shift now) := by
  induction history generalizing index with
  | nil => rfl
  | cons h rest ih => rw [Pass.shiftFrom, ih, List.map_cons]

theorem key_doRollUp_sublist : List.Sublist ((doRollUp pass (fun _ => now) history).map History.key)
      ((history.map (pass.shift now)).map History.key) := by
  have hkeys := key_doRollUpFrom pass (fun _ => now) 0 none history
  rwa [shiftFrom_const] at hkeys

theorem mem_doRollUp (hmem : h ∈ doRollUp pass (fun _ => now) history) :
    ∃ before ∈ history, (pass.shift now before).key = h.key := by
  have hkey := key_doRollUp_sublist.subset (List.mem_map_of_mem hmem)
  rw [List.map_map] at hkey
  exact List.mem_map.mp hkey

theorem shift_time_le (hregular : pass.Regular level) (h : History) :
    (pass.shift now h).timeUnixMilli ≤ h.timeUnixMilli := by
  unfold Pass.shift
  split
  · exact truncate_le hregular.positive hregular.divides_zero
  · exact Int.le_refl _

variable (hregular : pass.Regular level) (harranged : Arranged history)
  (hquiet : ∀ label, label.rank < level → Quiet now label history)

include hregular harranged hquiet

theorem old_entry (hmem : h ∈ history) (hold : pass.rollUpDuration < h.since now) :
    pass.applies now h = true ∨ pass.truncateDuration ∣ h.timeUnixMilli := by
  rcases Nat.lt_trichotomy h.rollUp.rank pass.fromLabel.rank with
    hfiner | hsame | hcoarser
  · have hyoung := hquiet h.rollUp (Nat.lt_of_lt_of_le hfiner hregular.level_from) h hmem rfl
    have hlimit := hregular.finer h.rollUp h.rollUp.mem_labels hfiner
    omega
  · exact .inl (applies_iff.mpr ⟨RollUpLabel.rank_injective hsame, hold⟩)
  · have hunit := hregular.coarser h.rollUp h.rollUp.mem_labels hcoarser
    exact .inr (Int.dvd_trans hunit (harranged.aligned h hmem))

theorem shift_mono {later : History} (hmem : h ∈ history)
    (hle : h.timeUnixMilli ≤ later.timeUnixMilli) :
    (pass.shift now h).timeUnixMilli ≤ (pass.shift now later).timeUnixMilli := by
  by_cases hlater : pass.applies now later = true
  · have hold : pass.rollUpDuration < h.since now := by
      have hlaterOld := (applies_iff.mp hlater).2
      unfold History.since at hlaterOld ⊢
      omega
    rw [Pass.shift, Pass.shift, if_pos hlater]
    split
    · exact truncate_mono hregular.positive hregular.divides_zero hle
    · rename_i hkept
      obtain happlies | hdvd := old_entry hregular harranged hquiet hmem hold
      · exact absurd happlies hkept
      · exact le_truncate hregular.positive hregular.divides_zero hdvd hle
  · have hkept : pass.shift now later = later := if_neg hlater
    rw [hkept]
    exact Int.le_trans (shift_time_le hregular h) hle

theorem arranged_doRollUp : Arranged (doRollUp pass (fun _ => now) history) := by
  have hshifted : ((history.map (pass.shift now)).map History.key).Pairwise
      fun h later => h.1 ≤ later.1 := by
    rw [List.map_map, List.pairwise_map]
    refine List.Pairwise.imp_of_mem ?_ harranged.sorted
    intro h later hmem _ hle
    exact shift_mono hregular harranged hquiet hmem hle
  constructor
  · have hkeys := hshifted.sublist key_doRollUp_sublist
    rwa [List.pairwise_map] at hkeys
  · intro h hmem
    obtain ⟨before, hbefore, hkey⟩ := mem_doRollUp hmem
    obtain ⟨htime, hlabel⟩ := Prod.mk.inj hkey
    rw [← htime, ← hlabel, Pass.shift]
    split
    · dsimp only [Pass.rolled]
      rw [← hregular.unit]
      exact dvd_truncate hregular.divides_zero
    · exact harranged.aligned before hbefore

omit harranged in
theorem quiet_doRollUp {label : RollUpLabel} (hlabel : label.rank < pass.nextLevel level) :
    Quiet now label (doRollUp pass (fun _ => now) history) := by
  intro h hmem hsame
  obtain ⟨before, hbefore, hkey⟩ := mem_doRollUp hmem
  obtain ⟨htime, hbeforeLabel⟩ := Prod.mk.inj hkey
  have hsince : h.since now = (pass.shift now before).since now := by
    rw [History.since, History.since, htime]
  rw [hsince]
  rw [hsame] at hbeforeLabel
  by_cases happlies : pass.applies now before = true
  · -- A rolled-up entry has the new label, which is not below the level.
    rw [Pass.shift, if_pos happlies] at hbeforeLabel
    have hto : pass.toLabel = label := hbeforeLabel
    have hlevel := hregular.level_to
    have hfrom := hregular.level_from
    rw [← hto] at hlabel
    unfold Pass.nextLevel at hlabel
    split at hlabel
    · omega
    · rename_i hne
      have hranks : pass.fromLabel.rank = pass.toLabel.rank := by omega
      exact absurd (RollUpLabel.rank_injective hranks) hne
  · rw [Pass.shift, if_neg happlies] at hbeforeLabel ⊢
    unfold Pass.nextLevel at hlabel
    split at hlabel
    · exact hquiet label hlabel before hbefore hbeforeLabel
    · rename_i hne
      rcases Nat.lt_or_eq_of_le (Nat.le_of_lt_succ hlabel) with hfiner | hfrom
      · exact hquiet label (Nat.lt_of_lt_of_le hfiner hregular.level_from)
          before hbefore hbeforeLabel
      · have hlabelFrom := RollUpLabel.rank_injective hfrom
        rw [hlabelFrom, ← hregular.relabel hne]
        by_contra hold
        exact happlies (applies_iff.mpr ⟨hbeforeLabel.trans hlabelFrom, by omega⟩)

end

theorem Arranged.rollUpWith {now : Int} {stages : List Pass} (hstaged : Staged level stages)
    (h : Arranged history) (hquiet : ∀ label, label.rank < level → Quiet now label history)
    (index : Nat) : Arranged (rollUpWith (fun _ _ => now) index stages history) := by
  induction stages generalizing level history index with
  | nil => exact h
  | cons pass rest ih =>
    obtain ⟨hregular, hrest⟩ := hstaged
    exact ih hrest (arranged_doRollUp hregular h hquiet)
      (fun label hlabel => quiet_doRollUp hregular hquiet hlabel) (index + 1)

theorem Arranged.rollUp (h : Arranged history) (now : Int) :
    Arranged (Metrics.rollUpWith (fun _ _ => now) 0 passes history) :=
  h.rollUpWith staged_passes (fun label hlabel => by cases hlabel) 0

def SameDay (milli : Int) (added : Added) : Prop :=
  day * (unixMilli added.time / day) ≤ milli ∧ milli ≤ unixMilli added.time

theorem sameDay_unixMilli (time delta : Int) : SameDay (unixMilli time) ⟨time, delta⟩ :=
  ⟨Int.mul_ediv_self_le (by decide), Int.le_refl _⟩

theorem SameDay.truncate {pass : Pass} (hregular : pass.Regular level) {milli : Int} {added : Added}
    (h : SameDay milli added) : SameDay (truncate milli pass.truncateDuration) added := by
  refine ⟨?_, ?_⟩
  · exact le_truncate hregular.positive hregular.divides_zero
      (Int.dvd_mul_of_dvd_left hregular.divides_day) h.1
  · exact Int.le_trans (truncate_le hregular.positive hregular.divides_zero) h.2

theorem regular_of_mem {stages : List Pass}
    (hstaged : Staged level stages) {pass : Pass} (hmem : pass ∈ stages) :
    ∃ level, pass.Regular level := by
  induction stages generalizing level with
  | nil => cases hmem
  | cons first rest ih =>
    obtain ⟨hregular, hrest⟩ := hstaged
    obtain rfl | hmem := List.mem_cons.mp hmem
    · exact ⟨level, hregular⟩
    · exact ih hrest hmem

def Operation.OneInstant : Operation → Prop
  | .add _ _ clock => clock = fun _ _ => clock 0 0
  | .query => True

structure Tracked (c : Counter) (added : List Added) : Prop where
  timeSeries : c.timeSeries = true
  history : Represents SameDay c.history added
  arranged : Arranged c.history

theorem Represents.exists_added {R : Int → Added → Prop} (h : Represents R history added)
    {entry : History} (hmem : entry ∈ history) : ∃ a ∈ added, R entry.timeUnixMilli a := by
  induction h with
  | nil => cases hmem
  | @cons first group history added hentry _ ih =>
    obtain rfl | hmem := List.mem_cons.mp hmem
    · obtain ⟨a, ha⟩ := List.exists_mem_of_ne_nil group hentry.ne_nil
      exact ⟨a, List.mem_append_left _ ha, hentry.time a ha⟩
    · obtain ⟨a, ha, htime⟩ := ih hmem
      exact ⟨a, List.mem_append_right _ ha, htime⟩

theorem unixMilli_mono {later : Int} (h : t ≤ later) : unixMilli t ≤ unixMilli later :=
  Int.ediv_le_ediv (by decide) h

theorem Arranged.append (h : Arranged history) {milli delta : Int}
    (hlate : ∀ entry ∈ history, entry.timeUnixMilli ≤ milli) :
    Arranged (history ++ [⟨milli, delta, .noRollUp⟩]) := by
  constructor
  · refine List.pairwise_append.mpr ⟨h.sorted, List.pairwise_singleton _ _, ?_⟩
    intro entry hentry last hlast
    obtain rfl := List.mem_singleton.mp hlast
    exact hlate entry hentry
  · intro entry hentry
    obtain hentry | hentry := List.mem_append.mp hentry
    · exact h.aligned entry hentry
    · obtain rfl := List.mem_singleton.mp hentry
      exact Int.one_dvd milli

theorem Tracked.apply (h : Tracked c added)
    {operation : Operation} (hinstant : operation.OneInstant)
    (hlate : ∀ a ∈ added, ∀ b ∈ addsOf [operation], a.time ≤ b.time) :
    Tracked (c.apply operation) (added ++ addsOf [operation]) := by
  obtain ⟨hseries, hsame | hadd⟩ := Counter.apply_cases h.timeSeries operation
  · obtain ⟨hnone, hhistory, -⟩ := hsame
    rw [hnone, List.append_nil]
    refine ⟨hseries, ?_, ?_⟩ <;> rw [hhistory]
    · exact h.history
    · exact h.arranged
  · obtain ⟨delta, time, clock, rfl, hpositive, -, hhistory⟩ := hadd
    have hadds : addsOf [.add delta time clock] = [⟨time, delta⟩] :=
      if_pos hpositive
    have hentry : Represents SameDay [⟨unixMilli time, delta, .noRollUp⟩] [⟨time, delta⟩] :=
      represents_added (sameDay_unixMilli time delta)
    have happended := h.history.append hentry
    have harranged : Arranged (c.history ++ [⟨unixMilli time, delta, .noRollUp⟩]) := by
      refine h.arranged.append fun entry hmem => ?_
      obtain ⟨a, ha, hday⟩ := h.history.exists_added hmem
      rw [hadds] at hlate
      exact Int.le_trans hday.2 (unixMilli_mono (hlate a ha _ List.mem_cons_self))
    have hclock : clock = fun _ _ => clock 0 0 := hinstant
    rw [hadds]
    obtain hhistory | hhistory := hhistory
    · refine ⟨hseries, ?_, ?_⟩ <;> rw [hhistory]
      · exact happended
      · exact harranged
    · refine ⟨hseries, ?_, ?_⟩ <;> rw [hhistory]
      · refine happended.rollUpWith (fun pass hpass milli added hday => ?_) 0
        obtain ⟨level, hregular⟩ := regular_of_mem staged_passes hpass
        exact hday.truncate hregular
      · rw [hclock]
        exact harranged.rollUp (clock 0 0)

theorem Tracked.run (h : Tracked c added) {operations : List Operation}
    (hinstant : ∀ operation ∈ operations, operation.OneInstant)
    (hordered : ((added ++ addsOf operations).map Added.time).Pairwise (· ≤ ·)) :
    Tracked (c.run operations) (added ++ addsOf operations) := by
  induction operations generalizing c added with
  | nil =>
    rw [addsOf, List.append_nil]
    exact h
  | cons operation rest ih =>
    obtain ⟨hfirst, hrest⟩ := List.forall_mem_cons.mp hinstant
    rw [addsOf_cons, ← List.append_assoc] at hordered ⊢
    refine ih (h.apply hfirst ?_) hrest hordered
    rw [List.map_append, List.pairwise_append, List.map_append, List.pairwise_append] at hordered
    intro a ha b hb
    exact hordered.1.2.2 a.time (List.mem_map_of_mem ha) b.time (List.mem_map_of_mem hb)

end Mieru.Metrics
