import Mathlib.Tactic.Linarith
import Mathlib.Tactic.Ring
import Mieru.Panel.RateLimit

/-!
# How many calls a token bucket allows

In an interval of `D` seconds a key gets at most `burst + rate * D` calls
through.  The tokens a key could use at a time are the potential: they grow
with the rate, each allowed call takes one, and a bucket that is reaped was
full.
-/

namespace Mieru.Panel

open Mieru.Foundation

namespace Limiter

/-- The tokens of a key for a call at `now`. -/
def available (l : Limiter) (key : Bytes) (now : Int) : ℚ := (l.refilled key now).tokens

def run : Limiter → List (Bytes × Int) → List (Bytes × Int × Bool)
  | _, [] => []
  | l, (key, now) :: calls =>
    (key, now, (l.allow key now).2) :: run (l.allow key now).1 calls

def allowed (key : Bytes) (start stop : Int) (log : List (Bytes × Int × Bool)) : Nat :=
  log.countP fun entry =>
    entry.1 = key && entry.2.2 && (start ≤ entry.2.1 && entry.2.1 ≤ stop)

def elapsed (start stop : Int) : ℚ := ((stop - start : Int) : ℚ) / (second : ℚ)

structure Sound (l : Limiter) (now : Int) : Prop where
  burst : 0 ≤ l.burst
  rate : 0 ≤ l.rate
  keep : l.burst ≤ (l.expireAt : ℚ) / (second : ℚ) * l.rate
  tokens : ∀ key b, l.buckets key = some b → 0 ≤ b.tokens
  lastFill : ∀ key b, l.buckets key = some b → b.lastFill ≤ now

variable {l : Limiter} {key other : Bytes} {now later start stop : Int} {calls : List (Bytes × Int)}

theorem elapsed_nonneg (h : start ≤ stop) : 0 ≤ elapsed start stop := by
  have hdiff : (0 : ℚ) ≤ ((stop - start : Int) : ℚ) := by exact_mod_cast Int.sub_nonneg.mpr h
  have hsecond : (0 : ℚ) ≤ (second : ℚ) := by
    norm_num [second]
  exact div_nonneg hdiff hsecond

theorem elapsed_add (start middle stop : Int) :
    elapsed start middle + elapsed middle stop = elapsed start stop := by
  unfold elapsed
  rw [← add_div]
  push_cast
  ring

theorem available_none (h : l.buckets key = none) : l.available key now = l.burst := by
  simp [available, refilled, h]

theorem available_some {b : Bucket} (h : l.buckets key = some b) :
    l.available key now = min (b.tokens + elapsed b.lastFill now * l.rate) l.burst := by
  simp [available, refilled, h, elapsed]

theorem available_le (l : Limiter) (key : Bytes) (now : Int) : l.available key now ≤ l.burst := by
  cases h : l.buckets key with
  | none => rw [available_none h]
  | some b =>
    rw [available_some h]
    exact min_le_right _ _

theorem Sound.available_nonneg (h : l.Sound now) (hlater : now ≤ later) :
    0 ≤ l.available key later := by
  cases hb : l.buckets key with
  | none =>
    rw [available_none hb]
    exact h.burst
  | some b =>
    rw [available_some hb]
    have helapsed := elapsed_nonneg ((h.lastFill key b hb).trans hlater)
    exact le_min (add_nonneg (h.tokens key b hb) (mul_nonneg helapsed h.rate)) h.burst

theorem Sound.available_later (h : l.Sound now) (hstart : start ≤ stop) :
    l.available key stop ≤ l.available key start + elapsed start stop * l.rate := by
  have hgain := mul_nonneg (elapsed_nonneg hstart) h.rate
  cases hb : l.buckets key with
  | none =>
    rw [available_none hb, available_none hb]
    linarith
  | some b =>
    rw [available_some hb, available_some hb, ← elapsed_add b.lastFill start stop, add_mul,
      ← min_add_add_right]
    refine min_le_min ?_ ?_
    · linarith
    · linarith

theorem available_reap (h : l.Sound now) (hlater : now ≤ later) :
    (l.reap now).available key later = l.available key later := by
  cases hb : l.buckets key with
  | none =>
    have hreaped : (l.reap now).buckets key = none := by simp [reap, hb]
    rw [available_none hb, available_none hreaped]
    rfl
  | some b =>
    by_cases hkept : now - b.lastFill ≤ l.expireAt
    · have hreaped : (l.reap now).buckets key = some b := by
        simp [reap, hb]
        omega
      rw [available_some hb, available_some hreaped]
      rfl
    · have hreaped : (l.reap now).buckets key = none := by
        simp [reap, hb]
        omega
      have hlong : (l.expireAt : ℚ) / (second : ℚ) ≤ elapsed b.lastFill later := by
        refine div_le_div_of_nonneg_right ?_ (by norm_num [second])
        exact_mod_cast (by omega : l.expireAt ≤ later - b.lastFill)
      have hfull : l.burst ≤ b.tokens + elapsed b.lastFill later * l.rate := by
        have hgain := mul_le_mul_of_nonneg_right hlong h.rate
        linarith [h.keep, h.tokens key b hb]
      rw [available_some hb, available_none hreaped, min_eq_right hfull]
      rfl

theorem Sound.setBucket (h : l.Sound now) (hlater : now ≤ later) {b : Bucket}
    (htokens : 0 ≤ b.tokens) (hfill : b.lastFill = later) : (l.setBucket key b).Sound later := by
  refine ⟨h.burst, h.rate, h.keep, ?_, ?_⟩
  · intro other c hc
    simp only [Limiter.setBucket] at hc
    split at hc
    · cases hc
      exact htokens
    · exact h.tokens other c hc
  · intro other c hc
    simp only [Limiter.setBucket] at hc
    split at hc
    · cases hc
      exact hfill.le
    · exact (h.lastFill other c hc).trans hlater

theorem Sound.reap (h : l.Sound now) (time : Int) : (l.reap time).Sound now := by
  refine ⟨h.burst, h.rate, h.keep, ?_, ?_⟩
  · intro key b hb
    exact h.tokens key b (Option.filter_eq_some_iff.mp hb).1
  · intro key b hb
    exact h.lastFill key b (Option.filter_eq_some_iff.mp hb).1

def spent (l : Limiter) (key : Bytes) (now : Int) : Bucket :=
  if l.available key now < 1 then l.refilled key now
  else { l.refilled key now with tokens := l.available key now - 1 }

theorem allow_eq (l : Limiter) (key : Bytes) (now : Int) : l.allow key now =
      ((l.setBucket key (l.spent key now)).reap now, decide (1 ≤ l.available key now)) := by
  unfold allow spent available
  dsimp only
  split
  · rename_i hfew
    simp [hfew]
  · rename_i hfew
    simp [not_lt.mp hfew]

theorem lastFill_spent (l : Limiter) (key : Bytes) (now : Int) :
    (l.spent key now).lastFill = now := by
  have hrefilled : (l.refilled key now).lastFill = now := by
    unfold refilled
    split <;> rfl
  unfold spent
  split <;> exact hrefilled

theorem tokens_spent (l : Limiter) (key : Bytes) (now : Int) : (l.spent key now).tokens =
      l.available key now - if 1 ≤ l.available key now then 1 else 0 := by
  unfold spent
  split
  · rename_i hfew
    rw [if_neg (not_le.mpr hfew), sub_zero]
    rfl
  · rename_i hmany
    rw [if_pos (not_lt.mp hmany)]

theorem Sound.spent (h : l.Sound now) (hlater : now ≤ later) :
    (l.setBucket key (l.spent key later)).Sound later := by
  refine h.setBucket hlater ?_ (lastFill_spent l key later)
  rw [tokens_spent]
  have hnonneg : 0 ≤ l.available key later := h.available_nonneg hlater
  split <;> linarith

theorem Sound.allow (key : Bytes) (h : l.Sound now) (hlater : now ≤ later) :
    (l.allow key later).1.Sound later := by
  rw [allow_eq]
  exact (h.spent hlater).reap later

theorem available_allow (key other : Bytes) (h : l.Sound now) (hlater : now ≤ later) :
    (l.allow key later).1.available other later +
        (if other = key ∧ (l.allow key later).2 = true then 1 else 0) =
      l.available other later := by
  rw [allow_eq, available_reap (h.spent hlater) (Int.le_refl later)]
  by_cases hkey : other = key
  · subst hkey
    have hset : (l.setBucket other (l.spent other later)).buckets other =
        some (l.spent other later) := by simp [Limiter.setBucket]
    have hzero : elapsed later later = 0 := by simp [elapsed]
    have hle := available_le l other later
    rw [available_some hset, lastFill_spent, tokens_spent, hzero, zero_mul, add_zero, min_eq_left]
    · simp
    · have hburst : (l.setBucket other (l.spent other later)).burst = l.burst := rfl
      rw [hburst]
      split <;> linarith
  · have hset : (l.setBucket key (l.spent key later)).buckets other = l.buckets other := by
      simp [Limiter.setBucket, hkey]
    have hsame : (l.setBucket key (l.spent key later)).available other later =
        l.available other later := by
      simp only [available, refilled, hset]
      rfl
    simp [hkey, hsame]

theorem rate_allow (l : Limiter) (key : Bytes) (now : Int) : (l.allow key now).1.rate = l.rate := by
  rw [allow_eq]
  rfl

theorem burst_allow (l : Limiter) (key : Bytes) (now : Int) :
    (l.allow key now).1.burst = l.burst := by
  rw [allow_eq]
  rfl

theorem time_of_mem_run {entry : Bytes × Int × Bool} (h : entry ∈ l.run calls) :
    ∃ call ∈ calls, call.2 = entry.2.1 := by
  induction calls generalizing l with
  | nil => cases h
  | cons call calls ih =>
    obtain rfl | h := List.mem_cons.mp h
    · exact ⟨call, List.mem_cons_self, rfl⟩
    · obtain ⟨other, hother, htime⟩ := ih h
      exact ⟨other, List.mem_cons_of_mem _ hother, htime⟩

theorem allowed_cons (k : Bytes) (time : Int) (calls : List (Bytes × Int)) :
    (allowed key start stop (l.run ((k, time) :: calls)) : ℚ) ≤
      (if key = k ∧ (l.allow k time).2 = true then 1 else 0) +
        allowed key start stop ((l.allow k time).1.run calls) := by
  simp only [run, allowed, List.countP_cons, Nat.cast_add]
  rw [add_comm]
  refine add_le_add_left ?_ _
  by_cases hcall : key = k ∧ (l.allow k time).2 = true
  · rw [if_pos hcall]
    split <;> simp
  · rw [if_neg hcall, if_neg]
    · simp
    · simp only [Bool.and_eq_true, decide_eq_true_eq]
      exact fun h => hcall ⟨h.1.1.symm, h.1.2⟩

theorem allowed_eq_zero (h : ∀ call ∈ calls, stop < call.2) :
    allowed key start stop (l.run calls) = 0 := by
  refine List.countP_eq_zero.mpr ?_
  intro entry hentry
  obtain ⟨call, hcall, htime⟩ := time_of_mem_run hentry
  have hlate := h call hcall
  simp only [Bool.and_eq_true, decide_eq_true_eq, not_and]
  omega

/-- The calls that get through are paid by the tokens at the start and by the
refill. -/
theorem allowed_le_available {first : Int} (h : l.Sound now) (hnow : now ≤ first)
    (hfirst : ∀ call ∈ calls, first ≤ call.2) (hclock : calls.Pairwise fun a b => a.2 ≤ b.2)
    (hstop : first ≤ stop) :
    (allowed key start stop (l.run calls) : ℚ) ≤
      l.available key first + elapsed first stop * l.rate := by
  have hgain := mul_nonneg (elapsed_nonneg hstop) h.rate
  have hnonneg : 0 ≤ l.available key first := h.available_nonneg hnow
  induction calls generalizing l now first with
  | nil =>
    simp only [run, allowed, List.countP_nil, Nat.cast_zero]
    linarith
  | cons call calls ih =>
    obtain ⟨k, time⟩ := call
    obtain ⟨hordered, hclock⟩ := List.pairwise_cons.mp hclock
    have htime : first ≤ time := hfirst (k, time) List.mem_cons_self
    by_cases hlate : time ≤ stop
    · have hsound : (l.allow k time).1.Sound time := h.allow k (hnow.trans htime)
      have hrest := ih hsound (Int.le_refl time) hordered hclock hlate
        (mul_nonneg (elapsed_nonneg hlate) hsound.rate)
        (hsound.available_nonneg (Int.le_refl time))
      have htake := available_allow k key h (hnow.trans htime)
      have hgrow : l.available key time ≤ _ := h.available_later htime
      have hsplit : elapsed first stop * l.rate =
          elapsed first time * l.rate + elapsed time stop * l.rate := by
        rw [← elapsed_add first time stop, add_mul]
      have hcount : (allowed key start stop (l.run ((k, time) :: calls)) : ℚ) ≤ _ :=
        allowed_cons k time calls
      rw [rate_allow] at hrest
      linarith
    · have hzero : allowed key start stop (l.run ((k, time) :: calls)) = 0 := by
        refine allowed_eq_zero (List.forall_mem_cons.mpr ⟨not_le.mp hlate, ?_⟩)
        intro call hcall
        exact (not_le.mp hlate).trans_le (hordered call hcall)
      rw [hzero, Nat.cast_zero]
      linarith

theorem allowed_le_of_sound (h : l.Sound now) (hnow : ∀ call ∈ calls, now ≤ call.2)
    (hclock : calls.Pairwise fun a b => a.2 ≤ b.2) (hstop : start ≤ stop) :
    (allowed key start stop (l.run calls) : ℚ) ≤ l.burst + elapsed start stop * l.rate := by
  have hgain := mul_nonneg (elapsed_nonneg hstop) h.rate
  induction calls generalizing l now with
  | nil =>
    simp only [run, allowed, List.countP_nil, Nat.cast_zero]
    linarith [h.burst]
  | cons call calls ih =>
    obtain ⟨k, time⟩ := call
    have htime : now ≤ time := hnow (k, time) List.mem_cons_self
    obtain ⟨hordered, hlater⟩ := List.pairwise_cons.mp hclock
    by_cases hearly : time < start
    · -- The call is before the interval; the limiter stays sound.
      have hrest := ih (h.allow k htime) hordered hlater (by rwa [rate_allow])
      have hcount : allowed key start stop (l.run ((k, time) :: calls)) =
          allowed key start stop ((l.allow k time).1.run calls) := by
        refine List.countP_cons_of_neg ?_
        simp only [Bool.and_eq_true, decide_eq_true_eq, not_and]
        omega
      rw [rate_allow, burst_allow] at hrest
      rwa [hcount]
    · by_cases hlate : time ≤ stop
      · have hall : ∀ call ∈ (k, time) :: calls, time ≤ call.2 :=
          List.forall_mem_cons.mpr ⟨Int.le_refl time, hordered⟩
        have hbound : (allowed key start stop (l.run ((k, time) :: calls)) : ℚ) ≤ _ :=
          allowed_le_available h htime hall hclock hlate
        have hfirst := available_le l key time
        have hmore := mul_nonneg (elapsed_nonneg (not_lt.mp hearly)) h.rate
        rw [← elapsed_add start time stop, add_mul]
        linarith
      · have hzero : allowed key start stop (l.run ((k, time) :: calls)) = 0 := by
          refine allowed_eq_zero (List.forall_mem_cons.mpr ⟨not_le.mp hlate, ?_⟩)
          intro call hcall
          exact (not_le.mp hlate).trans_le (hordered call hcall)
        rw [hzero, Nat.cast_zero]
        linarith [h.burst]

theorem sound_new {burst keepFor : Int} {perSecond : ℚ}
    (hkeep : (new burst perSecond keepFor).burst ≤
      (keepFor : ℚ) / (second : ℚ) * (new burst perSecond keepFor).rate) (now : Int) :
    (new burst perSecond keepFor).Sound now := by
  refine ⟨?_, ?_, hkeep, by simp [new], by simp [new]⟩
  · simp only [new]
    split
    · norm_num
    · rename_i hpos
      exact_mod_cast (not_le.mp hpos).le
  · simp only [new]
    split
    · norm_num
    · rename_i hpos
      exact (not_le.mp hpos).le

/-- In an interval a key gets at most the burst and the refill through,
whatever the calls for other keys are. -/
theorem allowed_le {burst keepFor : Int} {perSecond : ℚ}
    (hkeep : (new burst perSecond keepFor).burst ≤
      (keepFor : ℚ) / (second : ℚ) * (new burst perSecond keepFor).rate)
    {calls : List (Bytes × Int)} (hclock : calls.Pairwise fun a b => a.2 ≤ b.2)
    (key : Bytes) (hstop : start ≤ stop) :
    (allowed key start stop ((new burst perSecond keepFor).run calls) : ℚ) ≤
      (new burst perSecond keepFor).burst +
        elapsed start stop * (new burst perSecond keepFor).rate := by
  cases calls with
  | nil => exact allowed_le_of_sound (sound_new hkeep 0) (by simp) hclock hstop
  | cons call calls =>
    have hnow : ∀ other ∈ call :: calls, call.2 ≤ other.2 :=
      List.forall_mem_cons.mpr ⟨Int.le_refl _, (List.pairwise_cons.mp hclock).1⟩
    exact allowed_le_of_sound (sound_new hkeep call.2) hnow hclock hstop

/-- The login limiter of the panel: five attempts, and five more in a minute. -/
theorem allowed_le_login : (allowed [1] 0 minute
    ((new 5 (1 / 12) (5 * minute)).run [([1], 0), ([2], 3), ([1], second)]) : ℚ) ≤ 10 := by
  have hclock : [([1], 0), ([2], 3), (([1] : Bytes), second)].Pairwise fun a b => a.2 ≤ b.2 := by
    decide
  have hkeep : (new 5 (1 / 12) (5 * minute)).burst ≤
      ((5 * minute : Int) : ℚ) / (second : ℚ) * (new 5 (1 / 12) (5 * minute)).rate := by
    norm_num [new, minute, second]
  have hminute : 0 ≤ minute := by decide
  have hbound := allowed_le hkeep hclock [1] hminute
  norm_num [new, elapsed, minute, second] at hbound ⊢
  exact hbound

end Limiter

end Mieru.Panel
