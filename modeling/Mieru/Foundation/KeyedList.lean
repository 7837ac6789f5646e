import Mathlib.Data.List.Sort

/-!
# Lists merged by a key

A list becomes a map from the keys of its elements to the elements, the last
one with a key counting; two lists are merged by such a map and the result is
sorted by the keys.
-/

namespace Mieru.Foundation.KeyedList

variable {α κ : Type} (key : α → κ)

/-- The last element with its key. -/
def IsLast (list : List α) (x : α) : Prop :=
  ∃ front back, list = front ++ x :: back ∧ key x ∉ back.map key

variable {key} in
theorem IsLast.mem {list : List α} {x : α} (h : IsLast key list x) : x ∈ list := by
  obtain ⟨front, back, rfl, -⟩ := h
  simp

theorem isLast_nil (x : α) : ¬ IsLast key [] x := by
  rintro ⟨front, back, h, -⟩
  simp at h

theorem isLast_cons {list : List α} {x y : α} :
    IsLast key (y :: list) x ↔ IsLast key list x ∨ x = y ∧ key x ∉ list.map key := by
  constructor
  · rintro ⟨_ | ⟨z, front⟩, back, h, hback⟩
    · cases h
      exact .inr ⟨rfl, hback⟩
    · cases h
      exact .inl ⟨front, back, rfl, hback⟩
  · rintro (⟨front, back, rfl, hback⟩ | ⟨rfl, hnot⟩)
    · exact ⟨y :: front, back, rfl, hback⟩
    · exact ⟨[], list, rfl, hnot⟩

theorem isLast_of_nodup {list : List α} {x : α} (h : (list.map key).Nodup) :
    IsLast key list x ↔ x ∈ list := by
  refine ⟨IsLast.mem, fun hx => ?_⟩
  obtain ⟨front, back, rfl⟩ := List.append_of_mem hx
  rw [List.map_append, List.map_cons, List.nodup_append] at h
  exact ⟨front, back, rfl, (List.nodup_cons.mp h.2.1).1⟩

variable [DecidableEq κ] {list map : List α} {map : List α}

def insert (map : List α) (x : α) : List α :=
  map.filter (fun other => key other ≠ key x) ++ [x]

def toMap (list : List α) : List α := list.foldl (insert key) []

theorem foldl_insert_of_nodup {list : List α} (h : (list.map key).Nodup) (map : List α) :
    list.foldl (insert key) map = map.filter (fun other => key other ∉ list.map key) ++ list := by
  induction list generalizing map with
  | nil => simp
  | cons x rest ih =>
    obtain ⟨hx, hrest⟩ := List.nodup_cons.mp h
    rw [List.foldl_cons, ih hrest, insert, List.filter_append, List.filter_filter]
    have hself : [x].filter (fun other => key other ∉ rest.map key) = [x] := by
      simp only [List.filter_singleton, hx, not_false_eq_true, decide_true, cond_true]
    rw [hself, List.append_assoc, List.singleton_append]
    congr 1
    refine List.filter_congr fun other _ => ?_
    simp only [List.map_cons, List.mem_cons, not_or, Bool.decide_and]
    rw [Bool.and_comm]

theorem mem_insert {x y : α} : x ∈ insert key map y ↔ x ∈ map ∧ key x ≠ key y ∨ x = y := by
  simp [insert]

theorem mem_foldl {x : α} : x ∈ list.foldl (insert key) map ↔
    IsLast key list x ∨ x ∈ map ∧ key x ∉ list.map key := by
  induction list generalizing map with
  | nil => simp [isLast_nil]
  | cons y rest ih =>
    rw [List.foldl_cons, ih, mem_insert, isLast_cons, List.map_cons, List.mem_cons]
    tauto

theorem mem_toMap {list : List α} {x : α} : x ∈ toMap key list ↔ IsLast key list x := by
  simp [toMap, mem_foldl]

theorem key_mem_insert {x : α} {k : κ} :
    k ∈ (insert key map x).map key ↔ k = key x ∨ k ∈ map.map key := by
  simp only [insert, List.map_append, List.map_singleton, List.mem_append,
    List.mem_singleton, List.mem_map, List.mem_filter, decide_eq_true_eq]
  constructor
  · rintro (⟨y, ⟨hy, -⟩, rfl⟩ | rfl)
    · exact .inr ⟨y, hy, rfl⟩
    · exact .inl rfl
  · rintro (rfl | ⟨y, hy, rfl⟩)
    · exact .inr rfl
    · by_cases hkey : key y = key x
      · exact .inr hkey
      · exact .inl ⟨y, ⟨hy, hkey⟩, rfl⟩

theorem key_mem_foldl {k : κ} : k ∈ (list.foldl (insert key) map).map key ↔
      k ∈ map.map key ∨ k ∈ list.map key := by
  induction list generalizing map with
  | nil => simp
  | cons x rest ih =>
    rw [List.foldl_cons, ih, key_mem_insert, List.map_cons, List.mem_cons]
    tauto

theorem nodup_insert (h : (map.map key).Nodup) (x : α) : ((insert key map x).map key).Nodup := by
  rw [insert, List.map_append, List.nodup_append]
  refine ⟨h.sublist (List.filter_sublist.map key), by simp, ?_⟩
  intro k hk other hother
  obtain ⟨y, hy, rfl⟩ := List.mem_map.mp hk
  rw [List.map_singleton, List.mem_singleton] at hother
  rw [hother]
  exact of_decide_eq_true (List.mem_filter.mp hy).2

theorem nodup_foldl (h : (map.map key).Nodup) : ((list.foldl (insert key) map).map key).Nodup := by
  induction list generalizing map with
  | nil => exact h
  | cons x rest ih => exact ih (nodup_insert key h x)

theorem toMap_of_nodup {list : List α} (h : (list.map key).Nodup) : toMap key list = list := by
  simp [toMap, foldl_insert_of_nodup key h]

theorem isLast_toMap {list : List α} {x : α} :
    IsLast key (toMap key list) x ↔ IsLast key list x := by
  have hnodup : ((toMap key list).map key).Nodup := nodup_foldl key (by simp)
  rw [isLast_of_nodup key hnodup, mem_toMap]

theorem key_mem_toMap {list : List α} {k : κ} :
    k ∈ (toMap key list).map key ↔ k ∈ list.map key := by
  rw [toMap, key_mem_foldl]
  simp

section

variable [LE κ] [DecidableLE κ] {dst src : List α}

def merge (dst src : List α) : List α :=
  (toMap key (dst ++ src)).insertionSort fun x y => key x ≤ key y

theorem mem_merge {x : α} : x ∈ merge key dst src ↔
    IsLast key src x ∨ IsLast key dst x ∧ key x ∉ src.map key := by
  rw [merge, List.mem_insertionSort, toMap, List.foldl_append, mem_foldl, ← toMap, mem_toMap]

theorem key_mem_merge {k : κ} :
    k ∈ (merge key dst src).map key ↔ k ∈ dst.map key ∨ k ∈ src.map key := by
  have hperm : (merge key dst src).Perm (toMap key (dst ++ src)) :=
    List.perm_insertionSort _ _
  rw [(hperm.map key).mem_iff, key_mem_toMap, List.map_append, List.mem_append]

theorem mem_right_of_mem_merge {x : α} (h : x ∈ merge key dst src)
    (hkeys : ∀ y ∈ dst, key y ∈ src.map key) : x ∈ src := by
  rcases (mem_merge key).mp h with hsrc | ⟨hdst, hkey⟩
  · exact hsrc.mem
  · exact absurd (hkeys x hdst.mem) hkey

variable [LT κ] [Std.LawfulOrderLT κ]

theorem merge_eq_right (hsorted : (src.map key).Pairwise (· < ·))
    (hkeys : ∀ x ∈ dst, key x ∈ src.map key) : merge key dst src = src := by
  have hnodup : (src.map key).Nodup := hsorted.imp Std.ne_of_lt
  have hmap : toMap key (dst ++ src) = src := by
    rw [toMap, List.foldl_append, foldl_insert_of_nodup key hnodup]
    have hnone : (dst.foldl (insert key) []).filter
        (fun other => key other ∉ src.map key) = [] := by
      rw [List.filter_eq_nil_iff]
      intro x hx
      simp [hkeys x ((mem_toMap key).mp hx).mem]
    rw [hnone, List.nil_append]
  rw [merge, hmap]
  refine List.Pairwise.insertionSort_eq ?_
  exact (List.pairwise_map.mp hsorted).imp Std.le_of_lt

variable [Std.IsLinearOrder κ]

theorem pairwise_merge (dst src : List α) : ((merge key dst src).map key).Pairwise (· < ·) := by
  have htotal : Std.Total fun x y : α => key x ≤ key y :=
    ⟨fun x y => Std.le_total⟩
  have htrans : IsTrans α fun x y => key x ≤ key y :=
    ⟨fun x y z => Std.le_trans⟩
  have hsorted : (merge key dst src).Pairwise fun x y => key x ≤ key y :=
    List.pairwise_insertionSort _ _
  have hperm : (merge key dst src).Perm (toMap key (dst ++ src)) :=
    List.perm_insertionSort _ _
  have hnodup : ((merge key dst src).map key).Nodup :=
    (hperm.map key).nodup_iff.mpr (nodup_foldl key (by simp))
  rw [List.pairwise_map]
  have hne := List.pairwise_map.mp hnodup
  refine (hsorted.and hne).imp ?_
  rintro x y ⟨hle, hxy⟩
  rw [Std.lt_iff_le_and_ne]
  exact ⟨hle, hxy⟩

theorem nodup_merge (dst src : List α) : ((merge key dst src).map key).Nodup :=
  (pairwise_merge key dst src).imp Std.ne_of_lt

theorem merge_merge (dst src : List α) : merge key (merge key dst src) src = merge key dst src := by
  have hsame : ∀ x, x ∈ merge key (merge key dst src) src ↔ x ∈ merge key dst src := by
    intro x
    rw [mem_merge, isLast_of_nodup key (nodup_merge key dst src), mem_merge]
    tauto
  have hperm := (List.perm_ext_iff_of_nodup (List.Nodup.of_map key (nodup_merge key _ _))
    (List.Nodup.of_map key (nodup_merge key _ _))).mpr hsame
  refine hperm.eq_of_pairwise ?_ (List.pairwise_map.mp (pairwise_merge key _ _))
    (List.pairwise_map.mp (pairwise_merge key _ _))
  intro x y _ _ hxy hyx
  exact absurd hyx (Std.not_gt_of_lt hxy)

theorem keys_of_merge_eq (h : (merge key dst src).map key = src.map key) :
    (src.map key).Pairwise (· < ·) ∧ ∀ x ∈ dst, key x ∈ src.map key := by
  refine ⟨h ▸ pairwise_merge key dst src, ?_⟩
  intro x hx
  rw [← h, key_mem_merge]
  exact .inl (List.mem_map_of_mem hx)

end

end Mieru.Foundation.KeyedList
