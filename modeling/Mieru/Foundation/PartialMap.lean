import Mathlib.Data.List.Nodup

/-!
# Maps as partial functions

Changing a map at one key, and folds of such changes: with distinct keys a fold
can be read off key by key.
-/

namespace Mieru.Foundation

section

variable {κ α ι : Type} [DecidableEq κ]

def alter (m : κ → Option α) (k : κ) (f : Option α → Option α) : κ → Option α :=
  fun k' => if k' = k then f (m k) else m k'

@[simp] theorem alter_same (m : κ → Option α) (k : κ)
    (f : Option α → Option α) : alter m k f k = f (m k) := if_pos rfl

theorem alter_other (m : κ → Option α) {k k' : κ} (h : k' ≠ k)
    (f : Option α → Option α) : alter m k f k' = m k' := if_neg h

theorem alter_id (m : κ → Option α) (k : κ) : alter m k (fun v => v) = m := by
  funext k'
  by_cases h : k' = k
  · rw [h, alter_same]
  · exact alter_other m h _

variable (key : ι → κ) (f : ι → Option α → Option α)

theorem foldl_alter_other {list : List ι} {k : κ} (h : k ∉ list.map key) (m : κ → Option α) :
    list.foldl (fun m x => alter m (key x) (f x)) m k = m k := by
  induction list generalizing m with
  | nil => rfl
  | cons x rest ih =>
    rw [List.map_cons, List.mem_cons, not_or] at h
    rw [List.foldl_cons, ih h.2, alter_other m h.1]

theorem foldl_alter {list : List ι} (hnodup : (list.map key).Nodup)
    (m : κ → Option α) {x : ι} (hx : x ∈ list) :
    list.foldl (fun m x => alter m (key x) (f x)) m (key x) = f x (m (key x)) := by
  induction list generalizing m with
  | nil => cases hx
  | cons first rest ih =>
    rw [List.map_cons, List.nodup_cons] at hnodup
    obtain ⟨hfirst, hrest⟩ := hnodup
    rw [List.foldl_cons]
    obtain rfl | hx := List.mem_cons.mp hx
    · rw [foldl_alter_other key f hfirst, alter_same]
    · have hne : key x ≠ key first := fun heq =>
        hfirst (heq ▸ List.mem_map_of_mem hx)
      rw [ih hrest _ hx, alter_other m hne]

/--
A list of what a map holds, in any order of its keys: a fold over it changes
every key by what the map holds there.
-/
theorem foldl_alter_listing {contents : κ → Option ι}
    (hkey : ∀ k x, contents k = some x → key x = k) {order : List κ} (hnodup : order.Nodup)
    (hmem : ∀ k x, contents k = some x → k ∈ order) (m : κ → Option α) (k : κ) :
    (order.filterMap contents).foldl (fun m x => alter m (key x) (f x)) m k =
      (contents k).elim (m k) fun x => f x (m k) := by
  cases hcontents : contents k with
  | none =>
    refine foldl_alter_other key f ?_ m
    intro hlisted
    obtain ⟨x, hx, rfl⟩ := List.mem_map.mp hlisted
    obtain ⟨k', -, hk'⟩ := List.mem_filterMap.mp hx
    rw [hkey k' x hk', hk'] at hcontents
    cases hcontents
  | some x =>
    have hkeys : ((order.filterMap contents).map key).Nodup := by
      rw [List.map_filterMap]
      refine List.Nodup.filterMap ?_ hnodup
      intro k₁ k₂ k' h₁ h₂
      obtain ⟨x₁, hx₁, rfl⟩ := Option.map_eq_some_iff.mp h₁
      obtain ⟨x₂, hx₂, hsame⟩ := Option.map_eq_some_iff.mp h₂
      rw [← hkey k₁ x₁ hx₁, ← hkey k₂ x₂ hx₂, hsame]
    have hx : x ∈ order.filterMap contents :=
      List.mem_filterMap.mpr ⟨k, hmem k x hcontents, hcontents⟩
    have hfold := foldl_alter key f hkeys m hx
    rw [hkey k x hcontents] at hfold
    exact hfold

theorem map_alter {β : Type} (g : α → β) {change : Option α → Option α} (seen : Option β → Option β)
    (h : ∀ v, (change v).map g = seen (v.map g)) (m : κ → Option α) (k k' : κ) :
    (alter m k change k').map g = alter (fun k => (m k).map g) k seen k' := by
  by_cases hk : k' = k
  · rw [hk, alter_same, alter_same, h]
  · rw [alter_other _ hk, alter_other _ hk]

end

end Mieru.Foundation
