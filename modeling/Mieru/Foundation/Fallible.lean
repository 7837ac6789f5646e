import Mathlib.Data.List.Forall2

/-!
# Computations that stop at the first error

What it means that a sequence of checks, or the same check over a list,
succeeds.
-/

namespace Mieru.Foundation

variable {ε α β : Type}

theorem except_ok_bind {x : Except ε α} {f : α → Except ε β} {y : β} :
    (x >>= f) = .ok y ↔ ∃ a, x = .ok a ∧ f a = .ok y := by
  cases x with
  | error err => simp [bind, Except.bind]
  | ok a => simp [bind, Except.bind]

theorem except_ok_map {x : Except ε α} {f : α → β} {y : β} :
    x.map f = .ok y ↔ ∃ a, x = .ok a ∧ f a = y := by
  cases x <;> simp [Except.map]

theorem except_ok_then {x : Except ε Unit} {y : Except ε β} {b : β} :
    (x >>= fun _ => y) = .ok b ↔ x = .ok () ∧ y = .ok b := by
  rw [except_ok_bind]
  constructor
  · rintro ⟨⟨⟩, hx, hy⟩
    exact ⟨hx, hy⟩
  · rintro ⟨hx, hy⟩
    exact ⟨(), hx, hy⟩

theorem forM_eq_ok {list : List α} {f : α → Except ε Unit} :
    list.forM f = .ok () ↔ ∀ x ∈ list, f x = .ok () := by
  induction list with
  | nil =>
    constructor
    · intro _ x hx
      cases hx
    · intro _
      rfl
  | cons x rest ih =>
    change (f x >>= fun _ => rest.forM f) = .ok () ↔ _
    rw [except_ok_then, List.forall_mem_cons, ih]

theorem mapM_eq_ok {list : List α} {f : α → Except ε β} {results : List β} :
    list.mapM f = .ok results ↔ List.Forall₂ (fun x y => f x = .ok y) list results := by
  induction list generalizing results with
  | nil =>
    rw [List.mapM_nil, List.forall₂_nil_left_iff]
    constructor
    · intro h
      cases h
      rfl
    · rintro rfl
      rfl
  | cons x rest ih =>
    rw [List.mapM_cons]
    constructor
    · intro h
      obtain ⟨y, hy, hrest⟩ := except_ok_bind.mp h
      obtain ⟨ys, hys, hresults⟩ := except_ok_bind.mp hrest
      cases hresults
      exact .cons hy (ih.mp hys)
    · rintro (_ | ⟨hy, hrest⟩)
      exact except_ok_bind.mpr ⟨_, hy, except_ok_bind.mpr ⟨_, ih.mpr hrest, rfl⟩⟩

theorem mapError_eq_ok {ε' : Type} {x : Except ε α} {f : ε → ε'} {a : α} :
    x.mapError f = .ok a ↔ x = .ok a := by
  cases x <;> simp [Except.mapError]

def refuse (failed : Bool) (err : ε) : Except ε Unit :=
  if failed then .error err else .ok ()

theorem refuse_eq_ok {failed : Bool} {err : ε} : refuse failed err = .ok () ↔ failed = false := by
  cases failed <;> simp [refuse]

end Mieru.Foundation
