import Mathlib.Data.List.Dedup
import Mathlib.Data.List.Perm.Subperm
import Mieru.Foundation.Outcome
import Mieru.Foundation.TransitionSystem
import Mieru.Underlay.ReplayCache

/-!
# Runs of the replay cache

What the cache remembers over a sequence of calls.  A signature stays in one of
the two generations for a whole interval as long as fewer others than the
capacity are presented.  Without tags this is the promise of the cache.  With
tags it also matters which tag a generation holds: a replay that is found in
the older generation only is stored in the newer one under its own tag.
-/

namespace Mieru.Protocol

open Mieru.Foundation

variable {data : Bytes} {now : Int} {c : ReplayCache} {calls : List Call}

namespace ReplayCache

def newCache (capacity expireInterval now : Int) : Outcome String ReplayCache :=
  if capacity < 0 then .panic "replay cache capacity can't be negative"
  else if expireInterval ≤ 0 then
    .panic "replay cache expire interval must be a positive time range"
  else
    .ok { capacity := capacity.toNat
          expireTime := now + expireInterval
          expireInterval := expireInterval }

structure Call where
  data : Bytes
  tag : String
  now : Int
  deriving DecidableEq, Repr

def Call.signature (call : Call) : UInt64 := computeSignature call.data

def after (c : ReplayCache) (call : Call) : ReplayCache :=
  (c.isDuplicate call.data call.tag call.now).2

def next (c : ReplayCache) (call : Call) : Option ReplayCache :=
  some (c.after call)

def run (c : ReplayCache) (calls : List Call) : ReplayCache :=
  calls.foldl after c

def Chronological (calls : List Call) : Prop :=
  (calls.map Call.now).Pairwise (· ≤ ·)

instance (calls : List Call) : Decidable (Chronological calls) :=
  inferInstanceAs (Decidable ((calls.map Call.now).Pairwise (· ≤ ·)))

def prepare (c : ReplayCache) (now : Int) : ReplayCache :=
  (c.expire now).rotate now

def otherSignatures (signature : UInt64) (calls : List Call) : List UInt64 :=
  ((calls.map Call.signature).filter (· ≠ signature)).dedup

/--
A call whose signature is in the older generation only has the tag that is
stored there.
-/
def KeepsTag (c : ReplayCache) (call : Call) : Prop :=
  (c.prepare call.now).current.lookup call.signature = none →
    ∀ tag, (c.prepare call.now).previous.lookup call.signature = some tag → tag = call.tag

section

variable {c : ReplayCache} {call : Call} {now : Int}

theorem isDuplicate_found {tag existingTag : String} (hcapacity : c.capacity ≠ 0)
    (h : (c.prepare now).current.lookup (computeSignature data) = some existingTag) :
    c.isDuplicate data tag now = (isReplay existingTag tag, c.prepare now) := by
  unfold prepare at h ⊢
  simp only [isDuplicate, if_neg hcapacity, h]

theorem isDuplicate_new {tag : String} (hcapacity : c.capacity ≠ 0)
    (h : (c.prepare now).current.lookup (computeSignature data) = none) :
    c.isDuplicate data tag now = (((c.prepare now).previous.lookup (computeSignature data)).any
          (isReplay · tag),
        { c.prepare now with
          current := (computeSignature data, tag) :: (c.prepare now).current }) := by
  unfold prepare at h ⊢
  simp only [isDuplicate, if_neg hcapacity, h]
  cases ((c.expire now).rotate now).previous.lookup (computeSignature data) <;>
    rfl

@[simp] theorem capacity_prepare : (c.prepare now).capacity = c.capacity := by
  unfold prepare rotate expire
  split <;> split <;> rfl

@[simp] theorem expireInterval_prepare : (c.prepare now).expireInterval = c.expireInterval := by
  unfold prepare rotate expire
  split <;> split <;> rfl

theorem after_cases (hcapacity : c.capacity ≠ 0) (call : Call) : (∃ existingTag,
      (c.prepare call.now).current.lookup call.signature = some existingTag ∧
        c.after call = c.prepare call.now) ∨
    ((c.prepare call.now).current.lookup call.signature = none ∧ c.after call =
        { c.prepare call.now with
          current := (call.signature, call.tag) :: (c.prepare call.now).current }) := by
  cases hfound : (c.prepare call.now).current.lookup call.signature with
  | some existingTag =>
    refine .inl ⟨existingTag, rfl, ?_⟩
    rw [after, isDuplicate_found hcapacity hfound]
  | none =>
    refine .inr ⟨rfl, ?_⟩
    rw [after, isDuplicate_new hcapacity hfound]
    rfl

theorem le_expireTime_prepare (hinterval : 0 < c.expireInterval) :
    now ≤ (c.prepare now).expireTime := by
  unfold prepare rotate expire
  split
  · split <;> dsimp only <;> omega
  · split
    · dsimp only
      omega
    · omega

theorem lookup_eq_none {entries : List (UInt64 × String)} {signature : UInt64}
    (h : entries.lookup signature = none) : signature ∉ entries.map Prod.fst := by
  intro hmem
  obtain ⟨entry, hentry, rfl⟩ := List.mem_map.mp hmem
  have hne := List.lookup_eq_none_iff.mp h entry hentry
  simp at hne

end

/-- The generations are within the capacity, with each signature once. -/
structure WellFormed (c : ReplayCache) : Prop where
  interval_pos : 0 < c.expireInterval
  nodup : (c.current.map Prod.fst).Nodup
  current_le : c.current.length ≤ c.capacity
  previous_le : c.previous.length ≤ c.capacity

theorem wellFormed_newCache {capacity expireInterval : Int}
    (h : newCache capacity expireInterval now = .ok c) :
    c.WellFormed ∧ c.current = [] ∧ c.previous = [] ∧
      c.expireInterval = expireInterval ∧ c.capacity = capacity.toNat := by
  unfold newCache at h
  split at h
  · cases h
  · split at h
    · cases h
    · cases h
      exact ⟨⟨by dsimp only; omega, List.nodup_nil, Nat.zero_le _,
        Nat.zero_le _⟩, rfl, rfl, rfl, rfl⟩

theorem WellFormed.prepare (h : c.WellFormed) (hcapacity : c.capacity ≠ 0) (now : Int) :
    (c.prepare now).WellFormed ∧ (c.prepare now).current.length < c.capacity := by
  have hexpired : (c.expire now).WellFormed ∧ (c.expire now).capacity = c.capacity := by
    unfold expire
    split
    · exact ⟨⟨h.interval_pos, List.nodup_nil, Nat.zero_le _, Nat.zero_le _⟩, rfl⟩
    · exact ⟨h, rfl⟩
  obtain ⟨hwell, hsame⟩ := hexpired
  unfold ReplayCache.prepare rotate
  split
  · refine ⟨⟨hwell.interval_pos, List.nodup_nil, Nat.zero_le _, hwell.current_le⟩, ?_⟩
    exact Nat.pos_of_ne_zero hcapacity
  · refine ⟨hwell, ?_⟩
    omega

theorem WellFormed.after (h : c.WellFormed) (call : Call) : (c.after call).WellFormed := by
  by_cases hcapacity : c.capacity = 0
  · have hsame : c.after call = c := by
      simp only [ReplayCache.after, isDuplicate, if_pos hcapacity]
    rw [hsame]
    exact h
  · obtain ⟨hprepared, hroom⟩ := h.prepare hcapacity call.now
    obtain ⟨-, -, hafter⟩ | ⟨hnew, hafter⟩ := after_cases hcapacity call
    · rw [hafter]
      exact hprepared
    · rw [hafter]
      refine ⟨hprepared.interval_pos, ?_, ?_, hprepared.previous_le⟩
      · exact List.nodup_cons.mpr ⟨lookup_eq_none hnew, hprepared.nodup⟩
      · rw [List.length_cons]
        exact Nat.lt_of_lt_of_eq hroom capacity_prepare.symm

theorem WellFormed.run (h : c.WellFormed) (calls : List Call) : (c.run calls).WellFormed := by
  induction calls generalizing c with
  | nil => exact h
  | cons call rest ih => exact ih (h.after call)

@[simp] theorem capacity_after (c : ReplayCache) (call : Call) :
    (c.after call).capacity = c.capacity := by
  by_cases hcapacity : c.capacity = 0
  · simp only [after, isDuplicate, if_pos hcapacity]
  · obtain ⟨-, -, hafter⟩ | ⟨-, hafter⟩ := after_cases hcapacity call
    · rw [hafter, capacity_prepare]
    · rw [hafter]
      exact capacity_prepare

@[simp] theorem expireInterval_after (c : ReplayCache) (call : Call) :
    (c.after call).expireInterval = c.expireInterval := by
  by_cases hcapacity : c.capacity = 0
  · simp only [after, isDuplicate, if_pos hcapacity]
  · obtain ⟨-, -, hafter⟩ | ⟨-, hafter⟩ := after_cases hcapacity call
    · rw [hafter, expireInterval_prepare]
    · rw [hafter]
      exact expireInterval_prepare

/--
A signature presented at `s` is in the current generation, which rotates no
earlier than that, or it is in the previous one, whose successor holds only
`others` and rotates a whole interval later.
-/
def Remembers (c : ReplayCache) (signature : UInt64) (tag : String) (s : Int)
    (others : List UInt64) : Prop :=
  (c.current.lookup signature = some tag ∧ s ≤ c.expireTime) ∨ (c.current.lookup signature = none ∧
      c.previous.lookup signature = some tag ∧
      c.current.map Prod.fst ⊆ others ∧
      s + c.expireInterval ≤ c.expireTime)

section

variable {c : ReplayCache} {signature : UInt64} {tag : String} {s : Int} {others : List UInt64}

theorem Remembers.prepare (h : c.Remembers signature tag s others) (hwell : c.WellFormed)
    (hfew : others.length < c.capacity) (hlow : s ≤ now) (hhigh : now ≤ s + c.expireInterval) :
    (c.prepare now).Remembers signature tag s others := by
  have hinterval := hwell.interval_pos
  obtain ⟨hcurrent, htime⟩ | ⟨hcurrent, hprevious, hsubset, htime⟩ := h
  · have hexpire : c.expire now = c := if_neg (by omega)
    rw [ReplayCache.prepare, hexpire, rotate]
    split
    · refine .inr ⟨rfl, hcurrent, List.nil_subset _, ?_⟩
      dsimp only
      omega
    · exact .inl ⟨hcurrent, htime⟩
  · have hexpire : c.expire now = c := if_neg (by omega)
    have hlength : c.current.length < c.capacity := by
      rw [← List.length_map (f := Prod.fst)]
      exact Nat.lt_of_le_of_lt (List.Nodup.subperm hwell.nodup hsubset).length_le hfew
    have hrotate : c.rotate now = c := if_neg (by omega)
    rw [ReplayCache.prepare, hexpire, hrotate]
    exact .inr ⟨hcurrent, hprevious, hsubset, htime⟩

theorem Remembers.after (h : c.Remembers signature tag s others)
    (hwell : c.WellFormed) (hfew : others.length < c.capacity) {call : Call}
    (hlow : s ≤ call.now) (hhigh : call.now ≤ s + c.expireInterval)
    (hother : call.signature ≠ signature → call.signature ∈ others)
    (hsame : call.signature = signature →
      (c.prepare call.now).current.lookup signature = none → call.tag = tag) :
    (c.after call).Remembers signature tag s others := by
  have hinterval := hwell.interval_pos
  have hcapacity : c.capacity ≠ 0 := by omega
  have hprepared := h.prepare hwell hfew hlow hhigh
  obtain ⟨-, -, hafter⟩ | ⟨hnew, hafter⟩ := after_cases hcapacity call
  · rw [hafter]
    exact hprepared
  · rw [hafter]
    by_cases hsignature : call.signature = signature
    · rw [hsignature] at hnew ⊢
      refine .inl ⟨?_, ?_⟩
      · rw [hsame hsignature hnew]
        exact List.lookup_cons_self
      · exact Int.le_trans hlow (le_expireTime_prepare hinterval)
    · have hlookup : ((call.signature, call.tag) :: (c.prepare call.now).current).lookup signature =
            (c.prepare call.now).current.lookup signature := by
        have hne : (signature == call.signature) = false :=
          beq_false_of_ne (Ne.symm hsignature)
        rw [List.lookup_cons, hne]
      obtain ⟨hcurrent, htime⟩ | ⟨hcurrent, hprevious, hsubset, htime⟩ :=
        hprepared
      · exact .inl ⟨hlookup.trans hcurrent, htime⟩
      · refine .inr ⟨hlookup.trans hcurrent, hprevious, ?_, htime⟩
        exact List.cons_subset.mpr ⟨hother hsignature, hsubset⟩

theorem Remembers.isDuplicate (h : c.Remembers signature tag s others) (hwell : c.WellFormed)
    (hfew : others.length < c.capacity) (hdata : computeSignature data = signature)
    (presented : String) (hlow : s ≤ now) (hhigh : now ≤ s + c.expireInterval) :
    (c.isDuplicate data presented now).1 = isReplay tag presented := by
  have hcapacity : c.capacity ≠ 0 := by omega
  obtain ⟨hcurrent, -⟩ | ⟨hcurrent, hprevious, -, -⟩ :=
    h.prepare hwell hfew hlow hhigh
  · rw [← hdata] at hcurrent
    rw [isDuplicate_found hcapacity hcurrent]
  · rw [← hdata] at hcurrent hprevious
    rw [isDuplicate_new hcapacity hcurrent, hprevious]
    rfl

end

theorem guarded_append {guard : ReplayCache → Call → Prop} {before rest : List Call}
    (h : System.Guarded guard next c (before ++ rest)) :
    System.Guarded guard next (c.run before) rest := by
  induction before generalizing c with
  | nil => exact h
  | cons call before ih => exact ih (h.2 _ rfl)

theorem run_append (c : ReplayCache) (before rest : List Call) :
    c.run (before ++ rest) = (c.run before).run rest :=
  List.foldl_append

theorem run_cons (c : ReplayCache) (call : Call) (rest : List Call) :
    c.run (call :: rest) = (c.after call).run rest := rfl

theorem Chronological.suffix {before rest : List Call}
    (h : Chronological (before ++ rest)) : Chronological rest := by
  unfold Chronological at h ⊢
  rw [List.map_append, List.pairwise_append] at h
  exact h.2.1

@[simp] theorem capacity_run (c : ReplayCache) (calls : List Call) :
    (c.run calls).capacity = c.capacity := by
  induction calls generalizing c with
  | nil => rfl
  | cons call rest ih => exact (ih (c.after call)).trans (capacity_after c call)

@[simp] theorem expireInterval_run (c : ReplayCache) (calls : List Call) :
    (c.run calls).expireInterval = c.expireInterval := by
  induction calls generalizing c with
  | nil => rfl
  | cons call rest ih =>
    exact (ih (c.after call)).trans (expireInterval_after c call)

section

variable {c : ReplayCache} {signature : UInt64} {tag : String} {s : Int} {others : List UInt64}

theorem Remembers.run (h : c.Remembers signature tag s others)
    (hwell : c.WellFormed) (hfew : others.length < c.capacity)
    (hclock : ∀ call ∈ calls, s ≤ call.now ∧ call.now ≤ s + c.expireInterval)
    (hothers : ∀ call ∈ calls, call.signature ≠ signature → call.signature ∈ others)
    (hguard : System.Guarded KeepsTag next c calls) :
    (c.run calls).Remembers signature tag s others := by
  induction calls generalizing c with
  | nil => exact h
  | cons call rest ih =>
    obtain ⟨hkeeps, hlater⟩ := hguard
    obtain ⟨⟨hlow, hhigh⟩, hclock⟩ := List.forall_mem_cons.mp hclock
    obtain ⟨hother, hothers⟩ := List.forall_mem_cons.mp hothers
    have hsame : call.signature = signature → (c.prepare call.now).current.lookup signature = none →
          call.tag = tag := by
      intro hsignature hnew
      obtain ⟨hcurrent, -⟩ | ⟨-, hprevious, -, -⟩ :=
        h.prepare hwell hfew hlow hhigh
      · rw [hnew] at hcurrent
        cases hcurrent
      · rw [← hsignature] at hnew hprevious
        exact (hkeeps hnew tag hprevious).symm
    have hnext := h.after hwell hfew hlow hhigh hother hsame
    refine ih hnext (hwell.after call) ?_ ?_ hothers (hlater _ rfl)
    · rw [capacity_after]
      exact hfew
    · rw [expireInterval_after]
      exact hclock

theorem isDuplicate_run {presented : String} {t : Int} {between : List Call} (hwell : c.WellFormed)
    (hcurrent : c.current.lookup (computeSignature data) = some tag) (htime : s ≤ c.expireTime)
    (hclock : Chronological (⟨data, presented, s⟩ :: between ++ [⟨data, presented, t⟩]))
    (hwithin : t ≤ s + c.expireInterval)
    (hfew : (otherSignatures (computeSignature data) between).length < c.capacity)
    (hguard : System.Guarded KeepsTag next c between) :
    ((c.run between).isDuplicate data presented t).1 = isReplay tag presented := by
  have hremembers : c.Remembers (computeSignature data) tag s
      (otherSignatures (computeSignature data) between) := .inl ⟨hcurrent, htime⟩
  unfold Chronological at hclock
  rw [List.cons_append, List.map_cons, List.map_append, List.pairwise_cons,
    List.pairwise_append] at hclock
  obtain ⟨hlow, -, -, hhigh⟩ := hclock
  have hlast : s ≤ t := hlow t (List.mem_append_right _ List.mem_cons_self)
  have hbetween : ∀ call ∈ between, s ≤ call.now ∧ call.now ≤ s + c.expireInterval := by
    intro call hcall
    have hnow := List.mem_map_of_mem (f := Call.now) hcall
    have hle := hhigh _ hnow t List.mem_cons_self
    exact ⟨hlow _ (List.mem_append_left _ hnow), Int.le_trans hle hwithin⟩
  have hothers : ∀ call ∈ between, call.signature ≠ computeSignature data →
        call.signature ∈ otherSignatures (computeSignature data) between := by
    intro call hcall hne
    rw [otherSignatures, List.mem_dedup, List.mem_filter]
    exact ⟨List.mem_map_of_mem hcall, decide_eq_true hne⟩
  have hrun := hremembers.run hwell hfew hbetween hothers hguard
  refine hrun.isDuplicate (hwell.run between) ?_ rfl presented hlast ?_
  · rw [capacity_run]
    exact hfew
  · rw [expireInterval_run]
    exact hwithin

end

/--
While no replay is stored under its own tag, a replay that was detected stays
detected.
-/
theorem detected_stays {capacity expireInterval start : Int} {c : ReplayCache}
    (hc : newCache capacity expireInterval start = .ok c)
    {before between : List Call} {data : Bytes} {tag : String} {s t : Int}
    (htags : ∀ call ∈ before ++ ⟨data, tag, s⟩ :: between, call.tag ≠ emptyTag)
    (hclock : Chronological (before ++ ⟨data, tag, s⟩ :: between ++ [⟨data, tag, t⟩]))
    (hguard : System.Guarded KeepsTag next c (before ++ ⟨data, tag, s⟩ :: between))
    (hdetected : ((c.run before).isDuplicate data tag s).1 = true)
    (hwithin : t ≤ s + expireInterval)
    (hfew : (otherSignatures (computeSignature data) between).length < capacity.toNat) :
    ((c.run (before ++ ⟨data, tag, s⟩ :: between)).isDuplicate data tag t).1 = true := by
  obtain ⟨hwell, -, -, hinterval, hcapacity⟩ := wellFormed_newCache hc
  have hbefore := hwell.run before
  have hpositive : (c.run before).capacity ≠ 0 := by
    rw [capacity_run]
    omega
  obtain ⟨hkeeps, hlater⟩ := guarded_append hguard
  have hnonempty : tag ≠ emptyTag :=
    htags ⟨data, tag, s⟩ (List.mem_append_right _ List.mem_cons_self)
  have hclock : Chronological (⟨data, tag, s⟩ :: between ++ [⟨data, tag, t⟩]) := by
    rw [List.append_assoc] at hclock
    exact hclock.suffix
  -- The detecting call finds the signature in the current generation.
  cases hfound : ((c.run before).prepare s).current.lookup (computeSignature data) with
  | none =>
    rw [isDuplicate_new hpositive hfound] at hdetected
    cases hexisting : ((c.run before).prepare s).previous.lookup (computeSignature data) with
    | none => simp [hexisting] at hdetected
    | some existing =>
      have hsame := hkeeps hfound existing hexisting
      simp [hexisting, hsame, isReplay, hnonempty] at hdetected
  | some existing =>
    rw [isDuplicate_found hpositive hfound] at hdetected
    have hafter : (c.run before).after ⟨data, tag, s⟩ = (c.run before).prepare s := by
      rw [after, isDuplicate_found hpositive hfound]
    have hwellAfter := hbefore.after ⟨data, tag, s⟩
    have hguardAfter := hlater _ rfl
    rw [hafter] at hwellAfter hguardAfter
    rw [run_append, run_cons, hafter, isDuplicate_run hwellAfter hfound
      (le_expireTime_prepare hbefore.interval_pos) hclock _ _ hguardAfter]
    · exact hdetected
    · rw [expireInterval_prepare, expireInterval_run, hinterval]
      exact hwithin
    · rw [capacity_prepare, capacity_run, hcapacity]
      exact hfew

def packetCache : ReplayCache where
  capacity := 4194304
  expireTime := 360000000000
  expireInterval := 360000000000

def replayCalls : List Call :=
  [⟨[1], "client", 359000000000⟩, ⟨[1], "attacker", 361000000000⟩]

/--
With the parameters of the packet underlay: the first replay comes after a
rotation and is detected, the same one a second later is not.
-/
theorem detected_forgotten : ∃ c, newCache 4194304 360000000000 0 = .ok c ∧
      (∀ call ∈ replayCalls, call.tag ≠ emptyTag) ∧
      Chronological (replayCalls ++ [⟨[1], "attacker", 362000000000⟩]) ∧
      ((c.run (replayCalls.take 1)).isDuplicate [1] "attacker" 361000000000).1 = true ∧
      ((c.run replayCalls).isDuplicate [1] "attacker" 362000000000).1 = false :=
  ⟨packetCache, by decide +kernel⟩

def retransmitted : List Call :=
  [⟨[1], "client", 359000000000⟩, ⟨[1], "client", 361000000000⟩]

/-- The client sends again after the rotation, and then the replay is detected twice. -/
theorem detected_stays_twice :
    ((packetCache.run (retransmitted.take 1)).prepare 361000000000).current = [] ∧
      ((packetCache.run (retransmitted ++ [⟨[1], "attacker", 362000000000⟩])).isDuplicate [1]
        "attacker" 363000000000).1 = true := by
  have hguard : System.Guarded KeepsTag next packetCache
      (retransmitted ++ [⟨[1], "attacker", 362000000000⟩]) := by
    refine ⟨fun _ tag htag => ?_, fun second hsecond => ?_⟩
    · cases htag
    obtain rfl := Option.some.inj hsecond
    refine ⟨fun _ tag htag => ?_, fun third hthird => ?_⟩
    · cases htag
      rfl
    obtain rfl := Option.some.inj hthird
    refine ⟨fun hmissing => ?_, fun _ _ => trivial⟩
    cases hmissing
  have hc : newCache 4194304 360000000000 0 = .ok packetCache := rfl
  exact ⟨by decide +kernel, detected_stays hc (by decide) (by decide) hguard (by decide +kernel)
    (by decide) (by decide +kernel)⟩

def Untagged (c : ReplayCache) : Prop :=
  ∀ signature tag, c.current.lookup signature = some tag ∨
    c.previous.lookup signature = some tag → tag = emptyTag

theorem Untagged.prepare (h : c.Untagged) (now : Int) : (c.prepare now).Untagged := by
  have hexpired : (c.expire now).Untagged := by
    unfold expire
    split
    · rintro signature tag (htag | htag) <;> cases htag
    · exact h
  unfold ReplayCache.prepare rotate
  split
  · rintro signature tag (htag | htag)
    · cases htag
    · exact hexpired signature tag (.inl htag)
  · exact hexpired

theorem Untagged.after (h : c.Untagged) {call : Call}
    (htag : call.tag = emptyTag) : (c.after call).Untagged := by
  by_cases hcapacity : c.capacity = 0
  · have hsame : c.after call = c := by
      simp only [ReplayCache.after, isDuplicate, if_pos hcapacity]
    rw [hsame]
    exact h
  · have hprepared := h.prepare call.now
    obtain ⟨-, -, hafter⟩ | ⟨-, hafter⟩ := after_cases hcapacity call
    · rw [hafter]
      exact hprepared
    · rw [hafter]
      rintro signature tag (hlookup | hlookup)
      · rw [List.lookup_cons] at hlookup
        split at hlookup
        · rw [← Option.some.inj hlookup, htag]
        · exact hprepared signature tag (.inl hlookup)
      · exact hprepared signature tag (.inr hlookup)

theorem Untagged.run (h : c.Untagged) (htags : ∀ call ∈ calls, call.tag = emptyTag) :
    (c.run calls).Untagged := by
  induction calls generalizing c with
  | nil => exact h
  | cons call rest ih =>
    obtain ⟨htag, htags⟩ := List.forall_mem_cons.mp htags
    exact ih (h.after htag) htags

theorem Untagged.guarded (h : c.Untagged) (htags : ∀ call ∈ calls, call.tag = emptyTag) :
    System.Guarded KeepsTag next c calls := by
  induction calls generalizing c with
  | nil => trivial
  | cons call rest ih =>
    obtain ⟨htag, htags⟩ := List.forall_mem_cons.mp htags
    refine ⟨fun _ tag hprevious => ?_, fun later hlater => ?_⟩
    · rw [htag]
      exact h.prepare call.now call.signature tag (.inr hprevious)
    · obtain rfl := Option.some.inj hlater
      exact ih (h.after htag) htags

theorem lookup_after (hcapacity : c.capacity ≠ 0) (call : Call) :
    ∃ tag, (c.after call).current.lookup call.signature = some tag := by
  obtain ⟨tag, hfound, hafter⟩ | ⟨-, hafter⟩ := after_cases hcapacity call
  · rw [hafter]
    exact ⟨tag, hfound⟩
  · rw [hafter]
    exact ⟨call.tag, List.lookup_cons_self⟩

theorem le_expireTime_after (hcapacity : c.capacity ≠ 0)
    (hinterval : 0 < c.expireInterval) (call : Call) : call.now ≤ (c.after call).expireTime := by
  have hprepared : call.now ≤ (c.prepare call.now).expireTime :=
    le_expireTime_prepare hinterval
  obtain ⟨-, -, hafter⟩ | ⟨-, hafter⟩ := after_cases hcapacity call
  · rw [hafter]
    exact hprepared
  · rw [hafter]
    exact hprepared

/--
Without tags, data presented twice within the interval is detected unless as
many other signatures as the capacity came in between; and no generation grows
over the capacity.
-/
theorem untagged_remembers {capacity expireInterval start : Int} {c : ReplayCache}
    (hc : newCache capacity expireInterval start = .ok c) :
    (∀ (before between : List Call) (data : Bytes) (s t : Int),
      (∀ call ∈ before ++ between, call.tag = emptyTag) →
      Chronological (before ++ ⟨data, emptyTag, s⟩ :: between ++ [⟨data, emptyTag, t⟩]) →
      t ≤ s + expireInterval →
      (otherSignatures (computeSignature data) between).length < capacity.toNat →
      ((c.run (before ++ ⟨data, emptyTag, s⟩ :: between)).isDuplicate data emptyTag t).1 = true) ∧
    ∀ calls, (c.run calls).current.length ≤ capacity.toNat ∧
      (c.run calls).previous.length ≤ capacity.toNat := by
  obtain ⟨hwell, hcurrent, hprevious, hinterval, hcapacity⟩ :=
    wellFormed_newCache hc
  constructor
  · intro before between data s t htags hclock hwithin hfew
    obtain ⟨hbefore, hbetween⟩ := List.forall_mem_append.mp htags
    rw [List.append_assoc] at hclock
    have hpositive : (c.run before).capacity ≠ 0 := by
      rw [capacity_run]
      omega
    have huntagged : c.Untagged := by
      intro signature tag htag
      rw [hcurrent, hprevious] at htag
      obtain htag | htag := htag <;> cases htag
    have hstored := (huntagged.run hbefore).after
      (rfl : (⟨data, emptyTag, s⟩ : Call).tag = emptyTag)
    obtain ⟨tag, hlookup⟩ := lookup_after hpositive ⟨data, emptyTag, s⟩
    have htime := le_expireTime_after hpositive (hwell.run before).interval_pos ⟨data, emptyTag, s⟩
    rw [run_append, run_cons, isDuplicate_run
      ((hwell.run before).after _) hlookup htime hclock.suffix _ _
      (hstored.guarded hbetween)]
    · simp [isReplay]
    · rw [expireInterval_after, expireInterval_run, hinterval]
      exact hwithin
    · rw [capacity_after, capacity_run, hcapacity]
      exact hfew
  · intro calls
    have hrun := hwell.run calls
    have hsize := hrun.current_le
    have hsize' := hrun.previous_le
    rw [capacity_run, hcapacity] at hsize hsize'
    exact ⟨hsize, hsize'⟩

/-- A second presentation at the end of the interval, with one in between. -/
theorem untagged_remembers_full : ((run { capacity := 2, expireTime := 10, expireInterval := 10 }
        ([] ++ ⟨[1], emptyTag, 9⟩ :: [⟨[2], emptyTag, 15⟩])).isDuplicate [1]
      emptyTag 19).1 = true := by
  have hc : newCache 2 10 0 = .ok { capacity := 2, expireTime := 10, expireInterval := 10 } := rfl
  obtain ⟨hremembers, -⟩ := untagged_remembers hc
  exact hremembers [] [⟨[2], emptyTag, 15⟩] [1] 9 19 (by decide) (by decide)
    (by decide) (by decide +kernel)

end ReplayCache

end Mieru.Protocol
