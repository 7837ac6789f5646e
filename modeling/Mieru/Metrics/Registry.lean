import Mieru.Foundation.PartialMap
import Mieru.Metrics.Conservation

/-!
# The metric registry, and dumping and loading it

`RegisterMetric`, `DumpMetricsNow` and `LoadMetricsFromDump`.  A group is kept
under its name, as are its metrics.  The message that is dumped stands for its
encoding.  Loading goes through the dump twice: a group that is missing is
registered by the first pass and filled by the second.
-/

namespace Mieru.Metrics

open Mieru.Foundation

inductive MetricType where
  | counter
  | counterTimeSeries
  | gauge
  deriving DecidableEq, Repr

inductive Metric where
  | counter (c : Counter)
  | gauge (value : Int)
  deriving DecidableEq, Repr

abbrev MetricGroup := String → Option Metric

abbrev MetricMap := String → Option MetricGroup

def Counter.type (c : Counter) : MetricType :=
  if c.timeSeries then .counterTimeSeries else .counter

namespace Metric

def type : Metric → MetricType
  | counter c => c.type
  | gauge _ => .gauge

def ofType (metricName : String) : MetricType → Metric
  | .counter => counter { name := metricName }
  | .counterTimeSeries => counter { name := metricName, timeSeries := true }
  | .gauge => gauge 0

end Metric

def metricIn (group : Option MetricGroup) (metricName : String) : Option Metric :=
  group.bind fun group => group metricName

def registerIn (metricName : String) (metricType : MetricType)
    (group : Option MetricGroup) : Option MetricGroup :=
  some (alter (metricIn group) metricName fun metric =>
    some (metric.getD (.ofType metricName metricType)))

structure MetricPB where
  name : String
  type : MetricType
  value : Int
  history : List History
  deriving DecidableEq, Repr

structure MetricGroupPB where
  name : String
  metrics : List MetricPB
  deriving DecidableEq, Repr

def toMetricPB (metricName : String) : Metric → MetricPB
  | .counter c => ⟨metricName, c.type, c.value, if c.timeSeries then c.history else []⟩
  | .gauge value => ⟨metricName, .gauge, value, []⟩

/-- The orders in which `Range` goes through the groups and their metrics. -/
structure DumpOrder (m : MetricMap) where
  groups : List String
  nodup_groups : groups.Nodup
  mem_groups : ∀ groupName, groupName ∈ groups ↔ (m groupName).isSome = true
  metrics : String → List String
  nodup_metrics : ∀ groupName, (metrics groupName).Nodup
  mem_metrics : ∀ groupName ∈ groups, ∀ metricName, metricName ∈ metrics groupName ↔
      (metricIn (m groupName) metricName).isSome = true

def DumpOrder.groupPB {m : MetricMap} (order : DumpOrder m)
    (groupName : String) : Option MetricGroupPB :=
  (m groupName).map fun group =>
    { name := groupName
      metrics := (order.metrics groupName).filterMap fun metricName =>
        (group metricName).map (toMetricPB metricName) }

def dumpMetricsNow (path : String) {m : MetricMap} (order : DumpOrder m) :
    Except String (List MetricGroupPB) :=
  if path = "" then .error "can't dump metrics: file path is not set"
  else .ok (order.groups.filterMap order.groupPB)

structure Reading where
  time : Int
  clock : Nat → Nat → Int

def subInt64 (a b : Int) : Int := (a - b).bmod 18446744073709551616

/-- `Name`, `Type` and `Load` count as operations of the counter. -/
def loadCounterFromMetricPB (reading : Reading) (dst : Counter) (src : MetricPB) : Counter :=
  let dst := dst.touch
  if src.name ≠ dst.name then dst
  else if src.type = .gauge then dst
  else
    let dst := dst.touch
    if src.type ≠ dst.type then dst
    else
      let dst := dst.touch
      let delta := max 0 (subInt64 src.value dst.value)
      let dst := dst.apply (.add delta reading.time reading.clock)
      { dst with history := src.history }

def loadMetric (reading : Reading) (src : MetricPB) : Metric → Metric
  | .counter c => .counter (loadCounterFromMetricPB reading c src)
  | .gauge value => .gauge value

def registerFromPB (group : Option MetricGroup) (src : MetricPB) : Option MetricGroup :=
  if src.name = "" ∨ src.type = .gauge then group
  else registerIn src.name src.type group

def loadGroup (load : MetricPB → Metric → Metric) (pbGroup : MetricGroupPB)
    (group : Option MetricGroup) : Option MetricGroup :=
  if pbGroup.name = "" then group
  else
    match group with
    | some group => some (pbGroup.metrics.foldl (fun group src =>
      alter group src.name (Option.map (load src))) group)
    | none => pbGroup.metrics.foldl registerFromPB none

/-- `reads` are the readings for the counter of a group. -/
def loadFromBytes (reads : String → String → Reading) (m : MetricMap)
    (groups : List MetricGroupPB) : MetricMap :=
  groups.foldl (fun m pbGroup => alter m pbGroup.name (loadGroup
    (fun src => loadMetric (reads pbGroup.name src.name) src) pbGroup)) m

/-- `file` is what reading and unmarshalling the file gives. -/
def loadMetricsFromDump (path : String) (file : Except String (List MetricGroupPB))
    (reads : Bool → String → String → Reading) (m : MetricMap) : Except String MetricMap :=
  if path = "" then .error "can't load metrics dump: file path is not set"
  else
    match file with
    | .error err => .error err
    | .ok groups =>
      let m := loadFromBytes (reads false) m groups
      .ok (loadFromBytes (reads true) m groups)

/--
The counter is under its name, its value is an `int64`, and only a time series
has a history.
-/
structure Counter.Sound (metricName : String) (c : Counter) : Prop where
  named : metricName ≠ ""
  name : c.name = metricName
  int64 : IsInt64 c.value
  history : c.timeSeries = false → c.history = []

/-- Groups and metrics have names, and the counters are sound. -/
structure Registered (m : MetricMap) : Prop where
  named : ∀ groupName, (m groupName).isSome = true → groupName ≠ ""
  sound : ∀ groupName metricName c,
    metricIn (m groupName) metricName = some (.counter c) → c.Sound metricName

theorem registered_empty : Registered fun _ => none :=
  ⟨fun _ h => (by cases h), fun _ _ _ h => (by cases h)⟩

theorem Counter.addWithTime_spec (c : Counter) (clock : Nat → Nat → Int) (delta time : Int) :
    (c.addWithTime clock delta time).name = c.name ∧
    (c.addWithTime clock delta time).timeSeries = c.timeSeries ∧
    (c.addWithTime clock delta time).value =
      (if delta = 0 then c.value else addInt64 c.value delta) ∧
    (c.timeSeries = false → (c.addWithTime clock delta time).history = c.history) := by
  unfold Counter.addWithTime Counter.touch
  by_cases hzero : delta = 0
  · simp [hzero]
  · cases hseries : c.timeSeries with
    | false => simp [hzero]
    | true =>
      simp only [hzero, if_false, if_true, Counter.rollUp]
      split <;> simp

theorem Counter.Sound.apply {metricName : String} {c : Counter}
    (h : c.Sound metricName) (operation : Operation) : (c.apply operation).Sound metricName := by
  cases operation with
  | query => exact ⟨h.named, h.name, h.int64, h.history⟩
  | add delta time clock =>
    by_cases hnegative : delta < 0
    · simp only [Counter.apply, Counter.add, if_pos hnegative]
      exact h
    · simp only [Counter.apply, Counter.add, if_neg hnegative]
      obtain ⟨hname, hseries, hvalue, hhistory⟩ :=
        c.addWithTime_spec clock delta time
      refine ⟨h.named, hname.trans h.name, ?_, fun hnot => ?_⟩
      · rw [hvalue]
        split
        · exact h.int64
        · exact isInt64_addInt64 _ _
      · rw [hseries] at hnot
        rw [hhistory hnot]
        exact h.history hnot

end Mieru.Metrics
