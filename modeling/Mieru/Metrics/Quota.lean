import Mieru.Metrics.Registry
import Mieru.Server.ApplyConfig

/-!
# Quotas

`Session.checkQuota` of `session.go`.  The window of a quota starts some days
ago, and the duration is an `int64` number of nanoseconds.
-/

namespace Mieru.Metrics

open Mieru.Foundation
open Mieru.Appctlpb

def mulInt64 (a b : Int) : Int := (a * b).bmod 18446744073709551616

/-- `now.Add(-time.Duration(days) * 24 * time.Hour)`. -/
def windowStart (now days : Int) : Int :=
  now + mulInt64 (mulInt64 (-days) 24) 3600000000000

def daysBefore (now days : Int) : Int := now - days * 86400000000000

def userMetricGroup (userName : String) : String := "user - " ++ userName

def Metric.asCounter : Metric → Outcome String Counter
  | counter c => .ok c
  | gauge _ => .panic "interface conversion: metrics.Metric is not *metrics.Counter"

def deltaOf (metric : Metric) (t1 t2 : Int) : Outcome String Int :=
  metric.asCounter.bind fun c => c.deltaBetween t1 t2

section

variable (start : Int → Int → Int)

/-- The loop over the quotas; the clock is read once for each of them. -/
def checkQuotas (upload download : Metric) (clock : Nat → Int) :
    Nat → List Quota → Outcome String (Bool × Option String)
  | _, [] => .ok (true, none)
  | index, quota :: rest =>
    let now := clock index
    let before := start now (quota.days.getD 0)
    (deltaOf upload before now).bind fun uploadBytes =>
      (deltaOf download before now).bind fun downloadBytes =>
        if quota.megabytes.getD 0 < (addInt64 uploadBytes downloadBytes).tdiv 1048576 then
          .ok (false, none)
        else checkQuotas upload download clock (index + 1) rest

def checkQuotaWith (users : List (String × User)) (m : MetricMap) (clock : Nat → Int)
    (userName : String) : Outcome String (Bool × Option String) :=
  if users = [] then .ok (true, some "no registered user")
  else
    match users.lookup userName with
    | none => .ok (true, some s!"user {userName} is not found")
    | some user =>
      if user.quotas = [] then .ok (true, none)
      else
        let groupName := userMetricGroup userName
        match m groupName with
        | none => .ok (true, some s!"metric group {groupName} is not found")
        | some group =>
          match group "UploadBytes" with
          | none => .ok (true, some s!"metric UploadBytes in group {groupName} is not found")
          | some upload =>
            match group "DownloadBytes" with
            | none => .ok (true, some s!"metric DownloadBytes in group {groupName} is not found")
            | some download => checkQuotas start upload download clock 0 user.quotas

end

def checkQuota : List (String × User) → MetricMap → (Nat → Int) → String →
    Outcome String (Bool × Option String) :=
  checkQuotaWith windowStart

/-- What `Session.input` makes of the result: the error is only logged. -/
def quotaAllows : Outcome String (Bool × Option String) → Outcome Empty Bool
  | .ok (ok, _) => .ok ok
  | .error _ => .ok true
  | .panic message => .panic message

theorem quotaAllows_calm {result : Outcome String (Bool × Option String)} (h : ¬ result.Panics)
    (message : String) : quotaAllows result ≠ .panic message := by
  cases result with
  | ok _ => simp [quotaAllows]
  | error _ => simp [quotaAllows]
  | panic _ => exact absurd trivial h

theorem windowStart_eq {days : Int} (hpos : 0 < days) (hfits : days ≤ 106751) (now : Int) :
    windowStart now days = daysBefore now days := by
  have hhours : mulInt64 (-days) 24 = -days * 24 := by
    apply Int.bmod_eq_of_le <;> omega
  have hnanos : mulInt64 (-days * 24) 3600000000000 = -days * 24 * 3600000000000 := by
    apply Int.bmod_eq_of_le <;> omega
  rw [windowStart, daysBefore, hhours, hnanos]
  omega

def DaysFit (user : User) : Prop :=
  ∀ quota ∈ user.quotas, quota.days.getD 0 ≤ 106751

/-- The metrics of the user are what `RegisterMetric` makes of them in a
session: counters with a time series. -/
def SeriesOf (m : MetricMap) (userName : String) : Prop :=
  ∀ metricName metric, metricIn (m (userMetricGroup userName)) metricName = some metric →
    metric.type = .counterTimeSeries

theorem positive_of_valid {user : User} (h : validateServerConfigSingleUser user = .ok ()) :
    ∀ quota ∈ user.quotas, 0 < quota.days.getD 0 ∧ 0 < quota.megabytes.getD 0 := by
  intro quota hquota
  simp only [validateServerConfigSingleUser, except_ok_bind] at h
  obtain ⟨_, -, _, -, _, -, _, -, hquotas⟩ := h
  have hvalid := forM_eq_ok.mp hquotas quota hquota
  simp only [validateQuota, except_ok_bind] at hvalid
  obtain ⟨⟨⟩, hdays, hmegabytes⟩ := hvalid
  exact ⟨by simpa using check_eq_ok.mp hdays, by simpa using check_eq_ok.mp hmegabytes⟩

theorem deltaOf_ok {metric : Metric} (h : metric.type = .counterTimeSeries) {t1 t2 : Int}
    (ht : t1 ≤ t2) : ∃ delta, deltaOf metric t1 t2 = .ok delta := by
  cases metric with
  | gauge value => cases h
  | counter c =>
    have hseries : c.timeSeries = true := by
      simpa [Metric.type, Counter.type] using h
    simp [deltaOf, Metric.asCounter, Counter.deltaBetween, hseries, not_lt.mpr ht]

theorem checkQuotas_spec {upload download : Metric} (hup : upload.type = .counterTimeSeries)
    (hdown : download.type = .counterTimeSeries) (clock : Nat → Int) (quotas : List Quota)
    (hquotas : ∀ quota ∈ quotas, 0 < quota.days.getD 0 ∧ quota.days.getD 0 ≤ 106751) (index : Nat) :
    checkQuotas windowStart upload download clock index quotas =
        checkQuotas daysBefore upload download clock index quotas ∧
      ¬ (checkQuotas windowStart upload download clock index quotas).Panics := by
  induction quotas generalizing index with
  | nil => simp [checkQuotas]
  | cons quota rest ih =>
    obtain ⟨⟨hpos, hfits⟩, hrest⟩ := List.forall_mem_cons.mp hquotas
    have hbefore : daysBefore (clock index) (quota.days.getD 0) ≤ clock index := by
      unfold daysBefore
      omega
    obtain ⟨uploaded, huploaded⟩ := deltaOf_ok hup hbefore
    obtain ⟨downloaded, hdownloaded⟩ := deltaOf_ok hdown hbefore
    simp only [checkQuotas, windowStart_eq hpos hfits, huploaded, hdownloaded, Outcome.ok_bind]
    split
    · simp
    · exact ih hrest (index + 1)

/-- For a user that validation accepts and whose days fit, `checkQuota` does
not panic, and each window starts the given number of days before now. -/
theorem checkQuota_of_daysFit {users : List (String × User)} {m : MetricMap} {userName : String}
    (hvalid : ∀ user, users.lookup userName = some user →
      validateServerConfigSingleUser user = .ok () ∧ DaysFit user)
    (hseries : SeriesOf m userName) (clock : Nat → Int) :
    checkQuota users m clock userName = checkQuotaWith daysBefore users m clock userName ∧
      ¬ (checkQuota users m clock userName).Panics := by
  unfold checkQuota checkQuotaWith
  split
  · simp
  split
  · simp
  rename_i user huser
  obtain ⟨haccepted, hfits⟩ := hvalid user huser
  split
  · simp
  dsimp only
  split
  · simp
  rename_i group hgroup
  have hin : ∀ {metricName metric}, group metricName = some metric →
      metric.type = .counterTimeSeries := by
    intro metricName metric hmetric
    refine hseries metricName metric ?_
    rw [hgroup]
    exact hmetric
  split
  · simp
  rename_i upload hupload
  split
  · simp
  rename_i download hdownload
  exact checkQuotas_spec (hin hupload) (hin hdownload) clock user.quotas
    (fun quota hquota => ⟨(positive_of_valid haccepted quota hquota).1, hfits quota hquota⟩) 0

/-! ## A window that wraps

An entry that is older than every duration of 64 bits is in no window of the
program, and it is in the window of a quota with enough days. -/

def spentAt (milli : Int) (metricName : String) : Counter where
  name := metricName
  timeSeries := true
  history := [⟨milli, 2251799813685248, .noRollUp⟩]

def spentMetrics (milli : Int) : MetricMap := fun _ =>
  some fun metricName => some (.counter (spentAt milli metricName))

theorem deltaBetween_spentAt (milli : Int) (metricName : String) {t1 t2 : Int} (h : t1 ≤ t2) :
    (spentAt milli metricName).deltaBetween t1 t2 = .ok
      (if t1 < milli * 1000000 ∧ milli * 1000000 ≤ t2 then 2251799813685248 else 0) := by
  simp only [Counter.deltaBetween, spentAt, if_neg (Int.not_lt.mpr h), Bool.not_true,
    Bool.false_eq_true, if_false, searchList_singleton, Counter.isAfter]
  by_cases h1 : t1 < milli * 1000000
  · by_cases h2 : t2 < milli * 1000000
    · simp [h1, h2, Counter.sumDeltas]
    · simp [h1, h2, Counter.sumDeltas, addInt64]
  · by_cases h2 : t2 < milli * 1000000
    · omega
    · simp [h1, h2, Counter.sumDeltas]

theorem le_windowStart (now days : Int) : now - 9223372036854775808 ≤ windowStart now days := by
  have hwrapped := Int.le_bmod (x := mulInt64 (-days) 24 * 3600000000000)
    (m := 18446744073709551616) (by decide)
  unfold windowStart
  rw [mulInt64]
  omega

/-- The program does not see the entry. -/
theorem checkQuotas_spent_wrapped {milli now : Int} {upload download : String}
    (hold : milli * 1000000 < now - 9223372036854775808) (quotas : List Quota)
    (hpos : ∀ quota ∈ quotas, 0 ≤ quota.megabytes.getD 0) (index : Nat) :
    checkQuotas windowStart (.counter (spentAt milli upload)) (.counter (spentAt milli download))
      (fun _ => now) index quotas ≠ .ok (false, none) := by
  induction quotas generalizing index with
  | nil => simp [checkQuotas]
  | cons quota rest ih =>
    obtain ⟨hquota, hrest⟩ := List.forall_mem_cons.mp hpos
    have hstart := le_windowStart now (quota.days.getD 0)
    by_cases hlate : now < windowStart now (quota.days.getD 0)
    · simp [checkQuotas, deltaOf, Metric.asCounter, Counter.deltaBetween, hlate]
    · have hmissed : ¬ (windowStart now (quota.days.getD 0) < milli * 1000000 ∧
          milli * 1000000 ≤ now) := by omega
      simp only [checkQuotas, deltaOf, Metric.asCounter, Outcome.ok_bind,
        deltaBetween_spentAt _ _ (Int.not_lt.mp hlate), if_neg hmissed]
      rw [if_neg (by simp [addInt64]; omega)]
      exact ih hrest (index + 1)

/-- Counted in days, the window of one quota has it. -/
theorem checkQuotas_spent_exact {milli now : Int} {upload download : String} {quotas : List Quota}
    (hpos : ∀ quota ∈ quotas, 0 < quota.days.getD 0 ∧ quota.megabytes.getD 0 ≤ 2147483647)
    (hnow : milli * 1000000 ≤ now)
    (hspent : ∃ quota ∈ quotas, daysBefore now (quota.days.getD 0) < milli * 1000000)
    (index : Nat) :
    checkQuotas daysBefore (.counter (spentAt milli upload)) (.counter (spentAt milli download))
      (fun _ => now) index quotas = .ok (false, none) := by
  induction quotas generalizing index with
  | nil => simp at hspent
  | cons quota rest ih =>
    obtain ⟨⟨hdays, hquota⟩, hrest⟩ := List.forall_mem_cons.mp hpos
    have hbefore : daysBefore now (quota.days.getD 0) ≤ now := by
      unfold daysBefore
      omega
    simp only [checkQuotas, deltaOf, Metric.asCounter, Outcome.ok_bind,
      deltaBetween_spentAt _ _ hbefore]
    split
    · have hsum : (addInt64 2251799813685248 2251799813685248).tdiv 1048576 = 4294967296 := by
        decide
      exact if_pos (by omega)
    · rename_i hout
      split
      · rfl
      · refine ih hrest ?_ (index + 1)
        obtain ⟨other, hother, hin⟩ := hspent
        rcases List.mem_cons.mp hother with rfl | hmem
        · exact absurd ⟨hin, hnow⟩ hout
        · exact ⟨other, hmem, hin⟩

/-- A user that validation accepts is checked without a panic and with windows
that start the given number of days before now, whatever the metrics and the
times are, exactly if no quota has more than 106751 days. -/
theorem checkQuota_exact {user : User} {userName : String}
    (hvalid : validateServerConfigSingleUser user = .ok ())
    (hint32 : ∀ quota ∈ user.quotas, quota.megabytes.getD 0 ≤ 2147483647) :
    (∀ users m clock, users.lookup userName = some user → SeriesOf m userName →
      checkQuota users m clock userName = checkQuotaWith daysBefore users m clock userName ∧
        ¬ (checkQuota users m clock userName).Panics) ↔ DaysFit user := by
  constructor
  · intro hexact quota hquota
    by_contra hlong
    let milli := 1 - quota.days.getD 0 * 86400000
    have hpos := positive_of_valid hvalid
    obtain ⟨hsame, -⟩ := hexact [(userName, user)] (spentMetrics milli) (fun _ => 0) (by simp)
      (by rintro metricName metric ⟨⟩; rfl)
    have hne : user.quotas ≠ [] := List.ne_nil_of_mem hquota
    simp only [checkQuota, checkQuotaWith, List.lookup_cons_self, spentMetrics, hne] at hsame
    simp only [List.cons_ne_nil, if_false] at hsame
    refine checkQuotas_spent_wrapped (by omega) user.quotas
      (fun quota h => (hpos quota h).2.le) 0 (hsame.trans ?_)
    refine checkQuotas_spent_exact (fun quota h => ⟨(hpos quota h).1, hint32 quota h⟩)
      (by omega) ⟨quota, hquota, ?_⟩ 0
    unfold daysBefore
    omega
  · intro hfits users m clock huser hseries
    refine checkQuota_of_daysFit ?_ hseries clock
    intro found hfound
    cases huser.symm.trans hfound
    exact ⟨hvalid, hfits⟩

def quotaUser (days : Int) : User :=
  { name := some [97], password := some [98]
    quotas := [{ days := some days, megabytes := some 1 }] }

def quotaMetrics : MetricMap := fun _ =>
  some fun metricName => some (.ofType metricName .counterTimeSeries)

theorem seriesOf_quotaMetrics (userName : String) : SeriesOf quotaMetrics userName := by
  intro metricName metric hmetric
  cases hmetric
  rfl

theorem checkQuota_exact_week : ¬ (checkQuota [("a", quotaUser 7)] quotaMetrics
    (fun _ => 1700000000000000000) "a").Panics := by
  have hfits : DaysFit (quotaUser 7) := by simp [DaysFit, quotaUser]
  exact ((checkQuota_exact (by decide) (by simp [quotaUser])).mpr hfits _ _ _ rfl
    (seriesOf_quotaMetrics "a")).2

/-- With 106752 days the window starts after now. -/
theorem checkQuota_panics : validateServerConfigSingleUser (quotaUser 106752) = .ok () ∧
    SeriesOf quotaMetrics "a" ∧
    checkQuota [("a", quotaUser 106752)] quotaMetrics (fun _ => 1700000000000000000) "a" =
      .panic "t2 must be later than t1" :=
  ⟨by decide, seriesOf_quotaMetrics "a", by decide⟩

end Mieru.Metrics
