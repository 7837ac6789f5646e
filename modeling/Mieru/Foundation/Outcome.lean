import Mathlib.Data.List.Basic

/-!
# Outcomes of fallible calls

A call of the modelled program returns a value, returns an error, or panics.
`Eval` is such a call that also records every fixed-width sum it evaluates,
each as the exact sum and the sum the machine word holds, so that the absence
of wrap-around is a property of the computation itself.
-/

namespace Mieru.Foundation

inductive Outcome (ε α : Type) where
  | ok (value : α)
  | error (err : ε)
  | panic (message : String)
  deriving Repr, DecidableEq

namespace Outcome

variable {ε α β : Type} {next : α → Outcome ε β}

def bind (first : Outcome ε α) (next : α → Outcome ε β) : Outcome ε β :=
  match first with
  | .ok value => next value
  | .error err => .error err
  | .panic message => .panic message

def Panics : Outcome ε α → Prop
  | .panic _ => True
  | _ => False

instance (result : Outcome ε α) : Decidable result.Panics :=
  match result with
  | .panic _ => isTrue trivial
  | .ok _ => isFalse id
  | .error _ => isFalse id

def isOk : Outcome ε α → Bool
  | .ok _ => true
  | _ => false

theorem exists_of_isOk {result : Outcome ε α} (h : result.isOk = true) :
    ∃ value, result = .ok value := by
  cases result with
  | ok value => exact ⟨value, rfl⟩
  | error err => cases h
  | panic message => cases h

@[simp] theorem ok_bind (value : α) (next : α → Outcome ε β) :
    (Outcome.ok value).bind next = next value := rfl

@[simp] theorem error_bind (err : ε) (next : α → Outcome ε β) :
    (Outcome.error err : Outcome ε α).bind next = .error err := rfl

@[simp] theorem panic_bind (message : String) (next : α → Outcome ε β) :
    (Outcome.panic message : Outcome ε α).bind next = .panic message := rfl

@[simp] theorem not_panics_ok (value : α) : ¬ (Outcome.ok value : Outcome ε α).Panics := id

@[simp] theorem not_panics_error (err : ε) : ¬ (Outcome.error err : Outcome ε α).Panics := id

@[simp] theorem panics_panic (message : String) :
    (Outcome.panic message : Outcome ε α).Panics := trivial

theorem bind_eq_ok {first : Outcome ε α} {value : β} :
    first.bind next = .ok value ↔ ∃ middle, first = .ok middle ∧ next middle = .ok value := by
  cases first <;> simp

theorem not_panics_bind {first : Outcome ε α} (hfirst : ¬ first.Panics)
    (hnext : ∀ value, ¬ (next value).Panics) : ¬ (first.bind next).Panics := by
  cases first with
  | ok value => exact hnext value
  | error err => exact id
  | panic message => exact absurd trivial hfirst

def elemAt (data : List α) (index : Nat) : Outcome ε α :=
  match data[index]? with
  | some value => .ok value
  | none => .panic s!"index out of range [{index}] with length {data.length}"

def slice (data : List α) (low high : Nat) : Outcome ε (List α) :=
  if low ≤ high ∧ high ≤ data.length then .ok ((data.drop low).take (high - low))
  else .panic s!"slice bounds out of range [{low}:{high}]"

theorem slice_eq_ok (front : List α) {data middle back : List α} {low high : Nat}
    (hdata : data = front ++ (middle ++ back)) (hlow : low = front.length)
    (hhigh : high = low + middle.length) :
    (slice data low high : Outcome ε (List α)) = .ok middle := by
  rw [slice, if_pos (by rw [hdata]; simp only [List.length_append]; omega),
    hdata, hhigh, hlow, List.drop_left, Nat.add_sub_cancel_left,
    List.take_left]

end Outcome

structure WordSum where
  exact : Nat
  stored : Nat
  deriving Repr, DecidableEq

structure Eval (ε α : Type) where
  sums : List WordSum
  outcome : Outcome ε α
  deriving Repr, DecidableEq

namespace Eval

variable {ε α β : Type}

def bind (first : Eval ε α) (next : α → Eval ε β) : Eval ε β :=
  match first.outcome with
  | .ok value => ⟨first.sums ++ (next value).sums, (next value).outcome⟩
  | .error err => ⟨first.sums, .error err⟩
  | .panic message => ⟨first.sums, .panic message⟩

instance : Monad (Eval ε) where
  pure value := ⟨[], .ok value⟩
  bind := Eval.bind

def lift (result : Outcome ε α) : Eval ε α := ⟨[], result⟩

def fail (err : ε) : Eval ε α := ⟨[], .error err⟩

def panic (message : String) : Eval ε α := ⟨[], .panic message⟩

def addUint16 (left right : UInt16) : Eval ε UInt16 :=
  ⟨[⟨left.toNat + right.toNat, (left + right).toNat⟩], .ok (left + right)⟩

def NoWrap (eval : Eval ε α) : Prop :=
  ∀ sum ∈ eval.sums, sum.stored = sum.exact

/-- The call neither panics nor lets a sum wrap around. -/
def Safe (eval : Eval ε α) : Prop :=
  ¬ eval.outcome.Panics ∧ eval.NoWrap

@[simp] theorem outcome_pure (value : α) : (pure value : Eval ε α).outcome = .ok value := rfl

@[simp] theorem pure_bind (value : α) (next : α → Eval ε β) :
    (pure value >>= next : Eval ε β) = next value := rfl

@[simp] theorem outcome_bind (first : Eval ε α) (next : α → Eval ε β) : (first >>= next).outcome =
      first.outcome.bind fun value => (next value).outcome := by
  change (Eval.bind first next).outcome = _
  unfold Eval.bind
  cases first.outcome <;> rfl

theorem outcome_bind_eq_ok {first : Eval ε α} {next : α → Eval ε β}
    {value : β} : (first >>= next).outcome = .ok value ↔ ∃ middle, first.outcome = .ok middle ∧
        (next middle).outcome = .ok value := by
  rw [outcome_bind, Outcome.bind_eq_ok]

@[simp] theorem outcome_lift (result : Outcome ε α) : (lift result).outcome = result := rfl

@[simp] theorem outcome_addUint16 (left right : UInt16) :
    (addUint16 left right : Eval ε UInt16).outcome = .ok (left + right) := rfl

theorem safe_pure (value : α) : (pure value : Eval ε α).Safe :=
  ⟨id, fun _ h => by cases h⟩

theorem safe_fail (err : ε) : (fail err : Eval ε α).Safe :=
  ⟨id, fun _ h => by cases h⟩

theorem not_safe_panic (message : String) : ¬ (panic message : Eval ε α).Safe :=
  fun h => h.1 trivial

theorem safe_lift {result : Outcome ε α} (h : ¬ result.Panics) : (lift result).Safe :=
  ⟨h, fun _ h => by cases h⟩

theorem safe_addUint16_iff (left right : UInt16) : (addUint16 left right : Eval ε UInt16).Safe ↔
      left.toNat + right.toNat < 65536 := by
  have hleft := left.toNat_lt
  have hright := right.toNat_lt
  simp only [Safe, NoWrap, addUint16, Outcome.not_panics_ok, not_false_eq_true,
    List.mem_singleton, forall_eq, true_and, UInt16.toNat_add]
  omega

theorem safe_bind {first : Eval ε α} {next : α → Eval ε β} : (first >>= next).Safe ↔
      first.Safe ∧ ∀ value, first.outcome = .ok value → (next value).Safe := by
  change (Eval.bind first next).Safe ↔ _
  unfold Eval.bind
  cases hfirst : first.outcome with
  | ok value =>
    simp only [Safe, NoWrap, hfirst, List.mem_append, Outcome.not_panics_ok,
      not_false_eq_true, true_and, Outcome.ok.injEq, forall_eq']
    constructor
    · rintro ⟨hpanic, hsums⟩
      exact ⟨fun sum h => hsums sum (.inl h), hpanic, fun sum h => hsums sum (.inr h)⟩
    · rintro ⟨hsums, hpanic, hnext⟩
      exact ⟨hpanic, fun sum h => h.elim (hsums sum) (hnext sum)⟩
  | error err => simp [Safe, NoWrap, hfirst]
  | panic message => simp [Safe, hfirst]

def sliceFrom (data : List β) (low : Nat) : Eval ε (List β) :=
  if low ≤ data.length then pure (data.drop low)
  else panic s!"slice bounds out of range [{low}:{data.length}]"

def sliceTo (data : List β) (high : Nat) : Eval ε (List β) :=
  if high ≤ data.length then pure (data.take high)
  else panic s!"slice bounds out of range [:{high}] with capacity {data.length}"

theorem safe_sliceFrom_iff (data : List β) (low : Nat) :
    (sliceFrom data low : Eval ε (List β)).Safe ↔ low ≤ data.length := by
  unfold sliceFrom
  split
  · simp [safe_pure, *]
  · simp [not_safe_panic, *]

theorem safe_sliceTo_iff (data : List β) (high : Nat) :
    (sliceTo data high : Eval ε (List β)).Safe ↔ high ≤ data.length := by
  unfold sliceTo
  split
  · simp [safe_pure, *]
  · simp [not_safe_panic, *]

theorem sliceFrom_of_le {data : List β} {low : Nat} (h : low ≤ data.length) :
    (sliceFrom data low : Eval ε (List β)) = pure (data.drop low) :=
  if_pos h

theorem sliceTo_of_le {data : List β} {high : Nat} (h : high ≤ data.length) :
    (sliceTo data high : Eval ε (List β)) = pure (data.take high) :=
  if_pos h

end Eval

end Mieru.Foundation
