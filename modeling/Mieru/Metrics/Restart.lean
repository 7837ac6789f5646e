import Mieru.Metrics.Registry

/-!
# Metrics over a restart

Apart from the count of operations, which only says when a history is next
rolled up, a pass over a dump changes every group by what was dumped of it, and
two passes reach a fixed point.  A new process that is not ahead of the dump
gets back every counter.
-/

namespace Mieru.Metrics

open Mieru.Foundation

variable {dumped : Int} {pbGroup : MetricGroupPB} {groupName : String} {c : Counter}

def Metric.snapshot : Metric → Metric
  | .counter c => .counter { c with op := 0 }
  | .gauge value => .gauge value

/-- The metrics of a process without their counts of operations. -/
def snapshot (group : Option MetricGroup) : Option MetricGroup :=
  group.map fun group metricName => (group metricName).map Metric.snapshot

def restoredValue (dumped value : Int) : Int :=
  if 0 < subInt64 dumped value then dumped else value

def restore (src : MetricPB) : Metric → Metric
  | .counter c =>
    if src.name = c.name ∧ src.type = c.type then
      .counter { c with
        value := restoredValue src.value c.value
        history := src.history }
    else .counter c
  | .gauge value => .gauge value

theorem restoredValue_idem (dumped value : Int) :
    restoredValue dumped (restoredValue dumped value) = restoredValue dumped value := by
  have hself : subInt64 dumped dumped = 0 := by
    rw [subInt64, Int.sub_self]
    rfl
  by_cases h : 0 < subInt64 dumped value
  · have hvalue : restoredValue dumped value = dumped := if_pos h
    rw [hvalue, restoredValue, hself, if_neg (Int.lt_irrefl 0)]
  · have hvalue : restoredValue dumped value = value := if_neg h
    rw [hvalue, hvalue]

theorem restoredValue_of_le {value : Int} (hint : IsInt64 dumped)
    (hvalue : 0 ≤ value) (hle : value ≤ dumped) : restoredValue dumped value = dumped := by
  have hhigh := Int.bmod_lt (x := dumped) (m := 18446744073709551616) (by decide)
  unfold IsInt64 at hint
  have hsub : subInt64 dumped value = dumped - value :=
    Int.bmod_eq_of_le (by omega) (by omega)
  unfold restoredValue
  rw [hsub]
  split <;> omega

theorem addInt64_subInt64 (hint : IsInt64 dumped)
    (value : Int) : addInt64 value (subInt64 dumped value) = dumped := by
  have hsame : addInt64 value (subInt64 dumped value) = addInt64 0 dumped := by
    refine addInt64_congr ?_
    have hsub : subInt64 dumped value ≡ dumped - value [ZMOD 18446744073709551616] := Int.bmod_emod
    have hsum := hsub.add_left value
    have hcancel : value + (dumped - value) = 0 + dumped := by omega
    rwa [hcancel] at hsum
  rw [hsame, addInt64, Int.zero_add]
  exact hint

theorem restore_idem (src : MetricPB) (metric : Metric) :
    restore src (restore src metric) = restore src metric := by
  cases metric with
  | gauge value => rfl
  | counter c =>
    by_cases h : src.name = c.name ∧ src.type = c.type
    · have hrestore : restore src (.counter c) = .counter { c with
          value := restoredValue src.value c.value
          history := src.history } := if_pos h
      rw [hrestore]
      refine (if_pos h).trans ?_
      rw [restoredValue_idem]
    · have hrestore : restore src (.counter c) = .counter c := if_neg h
      rw [hrestore, hrestore]

theorem Counter.type_ne_gauge (c : Counter) : c.type ≠ .gauge := by
  unfold Counter.type
  split <;> decide

theorem value_addWithTime_max (hint : IsInt64 dumped)
    (c : Counter) (clock : Nat → Nat → Int) (time : Int) :
    (c.addWithTime clock (max 0 (subInt64 dumped c.value)) time).value =
      restoredValue dumped c.value := by
  rw [(c.addWithTime_spec clock _ time).2.2.1]
  by_cases hpositive : 0 < subInt64 dumped c.value
  · have hmax : max 0 (subInt64 dumped c.value) = subInt64 dumped c.value :=
      Int.max_eq_right (Int.le_of_lt hpositive)
    rw [hmax, if_neg (Int.ne_of_gt hpositive), addInt64_subInt64 hint]
    exact (if_pos hpositive).symm
  · have hmax : max 0 (subInt64 dumped c.value) = 0 :=
      Int.max_eq_left (Int.not_lt.mp hpositive)
    rw [hmax, if_pos rfl]
    exact (if_neg hpositive).symm

theorem snapshot_loadMetric (reading : Reading) {src : MetricPB}
    (hint : src.type ≠ .gauge → IsInt64 src.value) (metric : Metric) :
    (loadMetric reading src metric).snapshot = restore src metric.snapshot := by
  cases metric with
  | gauge value => rfl
  | counter c =>
    by_cases hmatch : src.name = c.name ∧ src.type = c.type
    · have hgauge : src.type ≠ .gauge := hmatch.2 ▸ c.type_ne_gauge
      have hdelta : ¬ max 0 (subInt64 src.value c.value) < 0 := by omega
      have hload : loadCounterFromMetricPB reading c src =
          { c.touch.touch.touch.addWithTime reading.clock
              (max 0 (subInt64 src.value c.value)) reading.time with
            history := src.history } := by
        have hadd : c.touch.touch.touch.apply (.add
            (max 0 (subInt64 src.value c.value)) reading.time reading.clock) =
            c.touch.touch.touch.addWithTime reading.clock
              (max 0 (subInt64 src.value c.value)) reading.time := by
          simp only [Counter.apply, Counter.add, if_neg hdelta]
        rw [← hadd]
        exact (if_neg (not_not_intro hmatch.1)).trans ((if_neg hgauge).trans
          (if_neg (not_not_intro hmatch.2)))
      obtain ⟨hname, hseries, -, -⟩ :=
        c.touch.touch.touch.addWithTime_spec reading.clock
          (max 0 (subInt64 src.value c.value)) reading.time
      have hvalue : (c.touch.touch.touch.addWithTime reading.clock
          (max 0 (subInt64 src.value c.value)) reading.time).value =
            restoredValue src.value c.value :=
        value_addWithTime_max (hint hgauge) c.touch.touch.touch _ _
      rw [loadMetric, hload]
      refine Eq.trans ?_ (if_pos hmatch).symm
      unfold Metric.snapshot
      dsimp only
      rw [hvalue, hname, hseries]
      rfl
    · refine Eq.trans ?_ (if_neg hmatch).symm
      unfold loadMetric loadCounterFromMetricPB
      dsimp only
      split
      · rfl
      · rename_i hname
        split
        · rfl
        · split
          · rfl
          · rename_i htype
            exact absurd ⟨not_not.mp hname, not_not.mp htype⟩ hmatch

theorem metricIn_snapshot (group : Option MetricGroup) (metricName : String) :
    metricIn (snapshot group) metricName = (metricIn group metricName).map Metric.snapshot := by
  cases group <;> rfl

theorem snapshot_registerFromPB (group : Option MetricGroup) (src : MetricPB) :
    snapshot (registerFromPB group src) = registerFromPB (snapshot group) src := by
  unfold registerFromPB
  split
  · rfl
  · refine congrArg some ?_
    funext name
    refine (map_alter Metric.snapshot (fun metric =>
      some (metric.getD (.ofType src.name src.type))) ?_ _ _ _).trans ?_
    · intro metric
      cases metric with
      | none => cases src.type <;> rfl
      | some metric => rfl
    · rw [← funext (metricIn_snapshot group)]

theorem snapshot_loadGroup {load : MetricPB → Metric → Metric}
    (h : ∀ src ∈ pbGroup.metrics, ∀ metric,
      (load src metric).snapshot = restore src metric.snapshot) (group : Option MetricGroup) :
    snapshot (loadGroup load pbGroup group) = loadGroup restore pbGroup (snapshot group) := by
  unfold loadGroup
  generalize pbGroup.metrics = metrics at h
  split
  · rfl
  · cases group with
    | some group =>
      refine congrArg some ?_
      induction metrics generalizing group with
      | nil => rfl
      | cons src rest ih =>
        obtain ⟨hsrc, hrest⟩ := List.forall_mem_cons.mp h
        rw [List.foldl_cons, List.foldl_cons, ih hrest]
        congr 1
        funext name
        refine map_alter Metric.snapshot (Option.map (restore src)) ?_ group src.name name
        intro metric
        cases metric with
        | none => rfl
        | some metric => exact congrArg some (hsrc metric)
    | none =>
      have hfold : ∀ group : Option MetricGroup, snapshot (metrics.foldl registerFromPB group) =
            metrics.foldl registerFromPB (snapshot group) := by
        clear h
        induction metrics with
        | nil => exact fun _ => rfl
        | cons src rest ih =>
          intro group
          rw [List.foldl_cons, List.foldl_cons, ih, snapshot_registerFromPB]
      exact hfold none

def registeredFromPB (src : MetricPB) (metric : Option Metric) : Option Metric :=
  if src.name = "" ∨ src.type = .gauge then metric
  else some (metric.getD (.ofType src.name src.type))

theorem metricIn_foldl_register (metrics : List MetricPB) (group : Option MetricGroup) :
    metricIn (metrics.foldl registerFromPB group) = metrics.foldl (fun held src =>
        alter held src.name (registeredFromPB src)) (metricIn group) := by
  induction metrics generalizing group with
  | nil => rfl
  | cons src rest ih =>
    rw [List.foldl_cons, List.foldl_cons, ih]
    congr 1
    unfold registerFromPB
    by_cases hskip : src.name = "" ∨ src.type = .gauge
    · have hsame : registeredFromPB src = fun metric => metric :=
        funext fun _ => if_pos hskip
      rw [if_pos hskip, hsame, alter_id]
    · have hfresh : registeredFromPB src = fun metric =>
          some (metric.getD (.ofType src.name src.type)) :=
        funext fun _ => if_neg hskip
      rw [if_neg hskip, hfresh]
      rfl

section

variable {m : MetricMap} (hm : Registered m) (order : DumpOrder m)
include hm

theorem groupPB_spec (h : order.groupPB groupName = some pbGroup) :
    groupName ∈ order.groups ∧ pbGroup.name = groupName ∧ groupName ≠ "" ∧
      pbGroup.metrics = (order.metrics groupName).filterMap fun metricName =>
        (metricIn (m groupName) metricName).map (toMetricPB metricName) := by
  obtain ⟨group, hgroup, rfl⟩ := Option.map_eq_some_iff.mp h
  have hsome : (m groupName).isSome = true := by rw [hgroup]; rfl
  refine ⟨(order.mem_groups groupName).mpr hsome, rfl, hm.named groupName hsome, ?_⟩
  rw [hgroup]
  rfl

theorem int64_of_dumped (h : order.groupPB groupName = some pbGroup) {src : MetricPB}
    (hsrc : src ∈ pbGroup.metrics) (hgauge : src.type ≠ .gauge) : IsInt64 src.value := by
  rw [(groupPB_spec hm order h).2.2.2] at hsrc
  obtain ⟨metricName, -, hdumped⟩ := List.mem_filterMap.mp hsrc
  obtain ⟨metric, hmetric, rfl⟩ := Option.map_eq_some_iff.mp hdumped
  cases metric with
  | counter c => exact (hm.sound groupName metricName c hmetric).int64
  | gauge value => exact absurd rfl hgauge

theorem foldl_groupPB (h : order.groupPB groupName = some pbGroup)
    (f : MetricPB → Option Metric → Option Metric)
    (held : String → Option Metric) (metricName : String) :
    pbGroup.metrics.foldl (fun held src => alter held src.name (f src)) held metricName =
      ((metricIn (m groupName) metricName).map (toMetricPB metricName)).elim
        (held metricName) fun src => f src (held metricName) := by
  obtain ⟨hlisted, -, -, hmetrics⟩ := groupPB_spec hm order h
  rw [hmetrics]
  refine foldl_alter_listing MetricPB.name f (fun name src hsrc => ?_)
    (order.nodup_metrics groupName) (fun name src hsrc => ?_) held metricName
  · obtain ⟨metric, -, rfl⟩ := Option.map_eq_some_iff.mp hsrc
    cases metric <;> rfl
  · obtain ⟨metric, hmetric, -⟩ := Option.map_eq_some_iff.mp hsrc
    rw [order.mem_metrics groupName hlisted, hmetric]
    rfl

theorem snapshot_loadFromBytes (reads : String → String → Reading)
    (before : MetricMap) (groupName : String) :
    snapshot (loadFromBytes reads before (order.groups.filterMap order.groupPB) groupName) =
      (order.groupPB groupName).elim (snapshot (before groupName))
        fun pbGroup => loadGroup restore pbGroup (snapshot (before groupName)) := by
  have hpass := foldl_alter_listing MetricGroupPB.name (fun pbGroup => loadGroup
      (fun src => loadMetric (reads pbGroup.name src.name) src) pbGroup)
    (fun _ _ hpb => (groupPB_spec hm order hpb).2.1) order.nodup_groups
    (fun _ _ hpb => (groupPB_spec hm order hpb).1) before groupName
  rw [loadFromBytes, hpass]
  cases hpb : order.groupPB groupName with
  | none => rfl
  | some pbGroup =>
    exact snapshot_loadGroup (fun src hsrc => snapshot_loadMetric _
      (int64_of_dumped hm order hpb hsrc)) _

theorem metricIn_loadGroup (h : order.groupPB groupName = some pbGroup)
    (group : Option MetricGroup) (metricName : String) :
    metricIn (loadGroup restore pbGroup group) metricName =
      ((metricIn (m groupName) metricName).map (toMetricPB metricName)).elim
        (metricIn group metricName) fun src =>
          if group.isSome then (metricIn group metricName).map (restore src)
          else registeredFromPB src none := by
  obtain ⟨-, hname, hne, -⟩ := groupPB_spec hm order h
  have hnot : pbGroup.name ≠ "" := hname ▸ hne
  unfold loadGroup
  rw [if_neg hnot]
  cases group with
  | some group =>
    exact foldl_groupPB hm order h (fun src => Option.map (restore src)) group metricName
  | none =>
    dsimp only
    rw [metricIn_foldl_register]
    exact foldl_groupPB hm order h registeredFromPB (metricIn none) metricName

theorem loadGroup_idem (h : order.groupPB groupName = some pbGroup) (group : MetricGroup) :
    loadGroup restore pbGroup (loadGroup restore pbGroup (some group)) =
      loadGroup restore pbGroup (some group) := by
  have hpoint := metricIn_loadGroup hm order h
  have hsome : ∀ group : MetricGroup, ∃ after,
      loadGroup restore pbGroup (some group) = some after := by
    intro group
    unfold loadGroup
    split <;> exact ⟨_, rfl⟩
  obtain ⟨once, honce⟩ := hsome group
  obtain ⟨twice, htwice⟩ := hsome once
  rw [honce, htwice]
  refine congrArg some ?_
  funext metricName
  have hfirst := hpoint (some group) metricName
  have hsecond := hpoint (some once) metricName
  rw [honce] at hfirst
  rw [htwice] at hsecond
  refine hsecond.trans (Eq.trans ?_ hfirst.symm)
  rw [hfirst]
  cases (metricIn (m groupName) metricName).map (toMetricPB metricName) with
  | none => rfl
  | some src =>
    simp only [Option.elim_some, Option.isSome_some, if_true, Option.map_map]
    congr 1
    funext metric
    exact restore_idem src metric

end

/--
Every group that the new process has is one of the old process, with the same
metrics of the same types.
-/
def SameBuild (m fresh : MetricMap) : Prop :=
  ∀ groupName, (fresh groupName).isSome = true → ∀ metricName,
    (metricIn (fresh groupName) metricName).map Metric.type =
      (metricIn (m groupName) metricName).map Metric.type

/-- No total has passed the largest `int64`. -/
def NonNegative (m : MetricMap) : Prop :=
  ∀ groupName metricName c, metricIn (m groupName) metricName = some (.counter c) → 0 ≤ c.value

theorem restore_toMetricPB {metricName : String} {d : Counter} (hc : c.Sound metricName)
    (hname : d.name = metricName) (htype : d.type = c.type) (hop : d.op = 0) (hvalue : 0 ≤ d.value)
    (hle : d.value ≤ c.value) :
    restore (toMetricPB metricName (.counter c)) (.counter d) = (Metric.counter c).snapshot := by
  have hseries : d.timeSeries = c.timeSeries := by
    unfold Counter.type at htype
    cases hd : d.timeSeries <;> cases hcs : c.timeSeries <;>
      simp [hd, hcs] at htype ⊢
  have hhistory : (if c.timeSeries then c.history else []) = c.history := by
    cases hcs : c.timeSeries with
    | false => exact (hc.history hcs).symm
    | true => rfl
  refine (if_pos ⟨hname.symm, htype.symm⟩).trans ?_
  simp only [toMetricPB, hhistory, hname, hseries, hop, ← hc.name,
    restoredValue_of_le hc.int64 hvalue hle, Metric.snapshot]

section

variable {m fresh : MetricMap} (hm : Registered m) (hfresh : Registered fresh)
  (hbuild : SameBuild m fresh) (order : DumpOrder m)
  {groupName metricName : String} {c : Counter}
  (hc : metricIn (m groupName) metricName = some (.counter c))
include hm hfresh hbuild hc

theorem restored_counter (hpb : order.groupPB groupName = some pbGroup) (hpositive : 0 ≤ c.value)
    (hbelow : ∀ d, metricIn (fresh groupName) metricName = some (.counter d) →
      0 ≤ d.value ∧ d.value ≤ c.value) :
    metricIn (loadGroup restore pbGroup (loadGroup restore pbGroup
        (snapshot (fresh groupName)))) metricName = some (Metric.counter c).snapshot := by
  have hsound := hm.sound groupName metricName c hc
  have hpoint := fun group => metricIn_loadGroup hm order hpb group metricName
  simp only [hc, Option.map_some, Option.elim_some] at hpoint
  -- a pass over a group that has the metric
  have hload : ∀ {group : Option MetricGroup} {metric : Metric},
      metricIn group metricName = some metric →
      metricIn (loadGroup restore pbGroup group) metricName =
        some (restore (toMetricPB metricName (.counter c)) metric) := by
    intro group metric hmetric
    obtain ⟨held, rfl, -⟩ := Option.bind_eq_some_iff.mp hmetric
    rw [hpoint, hmetric]
    rfl
  cases hgroup : fresh groupName with
  | some group =>
    have htypes := hbuild groupName (by rw [hgroup]; rfl) metricName
    rw [hc] at htypes
    obtain ⟨metric, hmetric, htype⟩ := Option.map_eq_some_iff.mp htypes
    cases metric with
    | gauge value => exact absurd htype.symm c.type_ne_gauge
    | counter d =>
      obtain ⟨hvalue, hle⟩ := hbelow d hmetric
      have hname := (hfresh.sound groupName metricName d hmetric).name
      have hfirst : metricIn (snapshot (some group)) metricName =
          some (.counter { d with op := 0 }) := by
        rw [metricIn_snapshot, ← hgroup, hmetric]
        rfl
      have hrestored : restore (toMetricPB metricName (.counter c))
          (.counter { d with op := 0 }) = (Metric.counter c).snapshot :=
        restore_toMetricPB hsound hname htype rfl hvalue hle
      rw [hload (hload hfirst), restore_idem, hrestored]
  | none =>
    have hfirst : metricIn (loadGroup restore pbGroup (snapshot none))
        metricName = some (.ofType metricName c.type) := by
      rw [hpoint]
      have hnot : ¬ (metricName = "" ∨ c.type = .gauge) :=
        not_or.mpr ⟨hsound.named, c.type_ne_gauge⟩
      exact if_neg hnot
    rw [hload hfirst]
    refine congrArg some ?_
    have hnew : Metric.ofType metricName c.type = .counter
        { name := metricName, timeSeries := c.timeSeries } := by
      unfold Counter.type
      cases c.timeSeries <;> rfl
    rw [hnew]
    exact restore_toMetricPB hsound rfl rfl rfl (Int.le_refl 0) hpositive

end

theorem counter_of_snapshot {metric : Metric} (h : metric.snapshot = (Metric.counter c).snapshot) :
    ∃ d : Counter, metric = .counter d ∧ d.name = c.name ∧ d.value = c.value ∧
      d.timeSeries = c.timeSeries ∧ d.history = c.history ∧
      ∀ t1 t2, d.deltaBetween t1 t2 = c.deltaBetween t1 t2 := by
  cases metric with
  | gauge value => cases h
  | counter d =>
    have hsame : { d with op := 0 } = { c with op := 0 } :=
      Metric.counter.inj h
    obtain ⟨hname, hvalue, hseries, hhistory, -⟩ := Counter.mk.inj hsame
    refine ⟨d, rfl, hname, hvalue, hseries, hhistory, fun t1 t2 => ?_⟩
    unfold Counter.deltaBetween
    rw [hname, hseries, hhistory]

/--
As long as no total has passed the largest `int64`, a new process of the same
build that is not ahead of the dump gets every counter back, and loading the
dump again changes nothing.
-/
theorem restart_restores {m fresh : MetricMap} (hm : Registered m)
    (hfresh : Registered fresh) (hbuild : SameBuild m fresh)
    (hbelow : ∀ groupName metricName c d, metricIn (m groupName) metricName = some (.counter c) →
      metricIn (fresh groupName) metricName = some (.counter d) → d.value ≤ c.value)
    (hmPositive : NonNegative m) (hfreshPositive : NonNegative fresh)
    {path : String} (hpath : path ≠ "") (order : DumpOrder m)
    (reads again : Bool → String → String → Reading) :
    ∃ dump loaded after, dumpMetricsNow path order = .ok dump ∧
      loadMetricsFromDump path (.ok dump) reads fresh = .ok loaded ∧
      (∀ groupName metricName c, metricIn (m groupName) metricName = some (.counter c) →
        ∃ d, metricIn (loaded groupName) metricName = some (.counter d) ∧
          d.name = c.name ∧ d.value = c.value ∧ d.timeSeries = c.timeSeries ∧
          d.history = c.history ∧ ∀ t1 t2, d.deltaBetween t1 t2 = c.deltaBetween t1 t2) ∧
      loadMetricsFromDump path (.ok dump) again loaded = .ok after ∧
      ∀ groupName, snapshot (after groupName) = snapshot (loaded groupName) := by
  have hpass := snapshot_loadFromBytes hm order
  refine ⟨_, _, _, if_neg hpath, if_neg hpath, ?_, if_neg hpath, ?_⟩
  · intro groupName metricName c hc
    obtain ⟨group, hgroup, -⟩ := Option.bind_eq_some_iff.mp hc
    obtain ⟨pbGroup, hpb⟩ : ∃ pbGroup, order.groupPB groupName = some pbGroup := by
      unfold DumpOrder.groupPB
      rw [hgroup]
      exact ⟨_, rfl⟩
    have hrestored := restored_counter hm hfresh hbuild order hc hpb
      (hmPositive groupName metricName c hc) fun d hd =>
        ⟨hfreshPositive groupName metricName d hd, hbelow groupName metricName c d hc hd⟩
    have hboth : metricIn (snapshot (loadFromBytes (reads true) (loadFromBytes (reads false) fresh
          (order.groups.filterMap order.groupPB))
        (order.groups.filterMap order.groupPB) groupName)) metricName =
          some (Metric.counter c).snapshot := by
      rw [hpass, hpass, hpb]
      exact hrestored
    rw [metricIn_snapshot] at hboth
    obtain ⟨metric, hmetric, heq⟩ := Option.map_eq_some_iff.mp hboth
    obtain ⟨d, rfl, hd⟩ := counter_of_snapshot heq
    exact ⟨d, hmetric, hd⟩
  · intro groupName
    rw [hpass, hpass, hpass, hpass]
    cases hpb : order.groupPB groupName with
    | none => rfl
    | some pbGroup =>
      have hidem := loadGroup_idem hm order hpb
      simp only [Option.elim_some]
      cases snapshot (fresh groupName) with
      | some group => rw [hidem, hidem, hidem]
      | none =>
        cases hfirst : loadGroup restore pbGroup none with
        | none => simp only [hfirst]
        | some registered => rw [hidem, hidem]

def aliceHas (c : Counter) : MetricMap := fun groupName =>
  if groupName = "user - alice" then
    some fun metricName =>
      if metricName = "UploadBytes" then some (.counter c) else none
  else none

def uploadedBytes (amounts : List Int) : Counter :=
  Counter.run { name := "UploadBytes", timeSeries := true }
    (amounts.map fun amount => .add amount 0 fun _ _ => 0)

theorem metricIn_aliceHas {metricName : String} {metric : Metric}
    (h : metricIn (aliceHas c groupName) metricName = some metric) :
    groupName = "user - alice" ∧ metricName = "UploadBytes" ∧ metric = .counter c := by
  unfold aliceHas at h
  split at h
  · dsimp only [metricIn, Option.bind_some] at h
    split at h
    · cases h
      exact ⟨by assumption, by assumption, rfl⟩
    · cases h
  · cases h

theorem registered_aliceHas (amounts : List Int) :
    Registered (aliceHas (uploadedBytes amounts)) := by
  have hsound : ∀ (operations : List Operation) (c : Counter),
      c.Sound "UploadBytes" → (c.run operations).Sound "UploadBytes" := by
    intro operations
    induction operations with
    | nil => exact fun _ h => h
    | cons operation rest ih => exact fun c h => ih _ (h.apply operation)
  refine ⟨?_, ?_⟩
  · rintro groupName hsome rfl
    cases hsome
  · intro groupName metricName c hc
    obtain ⟨-, rfl, hcounter⟩ := metricIn_aliceHas hc
    cases hcounter
    exact hsound _ _ ⟨by decide, rfl, rfl, fun _ => rfl⟩

def aliceOrder (c : Counter) : DumpOrder (aliceHas c) where
  groups := ["user - alice"]
  nodup_groups := by decide
  mem_groups groupName := by simp [aliceHas]
  metrics _ := ["UploadBytes"]
  nodup_metrics _ := by decide
  mem_metrics groupName hgroup metricName := by
    rw [List.mem_singleton.mp hgroup]
    simp [aliceHas, metricIn]

theorem sameBuild_empty (m : MetricMap) : SameBuild m fun _ => none := by
  intro groupName hsome
  cases hsome

theorem restart_restores_uploads : ∃ dump loaded, dumpMetricsNow "metrics.pb"
        (aliceOrder (uploadedBytes [7, 5])) = .ok dump ∧ loadMetricsFromDump "metrics.pb" (.ok dump)
        (fun _ _ _ => ⟨1, fun _ _ => 1⟩) (fun _ => none) = .ok loaded ∧
      ∃ d, metricIn (loaded "user - alice") "UploadBytes" = some (.counter d) ∧ d.value = 12 := by
  obtain ⟨dump, loaded, -, hdump, hload, hrestored, -⟩ :=
    restart_restores (registered_aliceHas [7, 5]) registered_empty
      (sameBuild_empty _) (fun _ _ _ _ _ hnone => (by cases hnone))
      (fun _ _ c hc => by
        cases (metricIn_aliceHas hc).2.2
        decide) (fun _ _ _ hnone => (by cases hnone))
      (by decide : "metrics.pb" ≠ "") (aliceOrder (uploadedBytes [7, 5]))
      (fun _ _ _ => ⟨1, fun _ _ => 1⟩) (fun _ _ _ => ⟨2, fun _ _ => 2⟩)
  obtain ⟨d, hd, -, hvalue, -⟩ :=
    hrestored "user - alice" "UploadBytes" (uploadedBytes [7, 5]) rfl
  exact ⟨dump, loaded, hdump, hload, d, hd, hvalue.trans (by decide)⟩

/-- A total that has wrapped is not restored: its counter starts again. -/
theorem restart_wrapped :
    let wrapped := uploadedBytes [9223372036854775807, 1]
    Registered (aliceHas wrapped) ∧ SameBuild (aliceHas wrapped) (fun _ => none) ∧
      wrapped.value = -9223372036854775808 ∧
      ∃ dump loaded d, dumpMetricsNow "metrics.pb" (aliceOrder wrapped) = .ok dump ∧
        loadMetricsFromDump "metrics.pb" (.ok dump)
          (fun _ _ _ => ⟨1, fun _ _ => 1⟩) (fun _ => none) = .ok loaded ∧
        metricIn (loaded "user - alice") "UploadBytes" = some (.counter d) ∧
        d.value = 0 := by
  refine ⟨registered_aliceHas _, sameBuild_empty _, by decide, _, _, _, rfl,
    rfl, rfl, by decide +kernel⟩

end Mieru.Metrics
