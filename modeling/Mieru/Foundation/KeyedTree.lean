import Mathlib.Data.List.Basic

/-!
# Ordered trees with replacement

An ordered tree is observed only through its items in ascending key order, so
it is a list whose keys strictly increase.  Inserting an item whose key is
present replaces the old item, as in a B-tree's `ReplaceOrInsert`.
-/

namespace Mieru.Foundation

variable {α : Type}

def Ascending (key : α → Nat) (items : List α) : Prop :=
  items.Pairwise fun first second => key first < key second

def replaceOrInsert (key : α → Nat) (item : α) : List α → List α
  | [] => [item]
  | head :: rest =>
    if key item < key head then item :: head :: rest
    else if key head < key item then head :: replaceOrInsert key item rest
    else item :: rest

section

variable {key : α → Nat} {items : List α} {item other : α}

theorem mem_replaceOrInsert_of_mem (h : other ∈ replaceOrInsert key item items) :
    other = item ∨ other ∈ items := by
  induction items with
  | nil => simpa [replaceOrInsert] using h
  | cons head rest ih =>
    simp only [replaceOrInsert] at h
    split at h
    · simpa using h
    · split at h
      · rcases List.mem_cons.mp h with rfl | h
        · exact .inr (by simp)
        · rcases ih h with rfl | h
          · exact .inl rfl
          · exact .inr (by simp [h])
      · rcases List.mem_cons.mp h with rfl | h
        · exact .inl rfl
        · exact .inr (by simp [h])

theorem item_mem_replaceOrInsert (item : α) (items : List α) :
    item ∈ replaceOrInsert key item items := by
  induction items with
  | nil => simp [replaceOrInsert]
  | cons head rest ih =>
    simp only [replaceOrInsert]
    split
    · simp
    · split
      · exact List.mem_cons_of_mem _ ih
      · simp

theorem mem_replaceOrInsert_of_key_ne (hmem : other ∈ items) (hkey : key other ≠ key item) :
    other ∈ replaceOrInsert key item items := by
  induction items with
  | nil => cases hmem
  | cons head rest ih =>
    simp only [replaceOrInsert]
    split
    · exact List.mem_cons_of_mem _ hmem
    · rename_i hnotlt
      split
      · rcases List.mem_cons.mp hmem with rfl | hmem
        · simp
        · exact List.mem_cons_of_mem _ (ih hmem)
      · rename_i hnotgt
        rcases List.mem_cons.mp hmem with rfl | hmem
        · omega
        · exact List.mem_cons_of_mem _ hmem

theorem Ascending.replaceOrInsert (h : Ascending key items) (item : α) :
    Ascending key (replaceOrInsert key item items) := by
  induction items with
  | nil => simp [Ascending, Foundation.replaceOrInsert]
  | cons head rest ih =>
    obtain ⟨hhead, hrest⟩ := List.pairwise_cons.mp h
    simp only [Foundation.replaceOrInsert]
    split
    · rename_i hlt
      refine List.pairwise_cons.mpr ⟨?_, h⟩
      intro other hother
      rcases List.mem_cons.mp hother with rfl | hother
      · exact hlt
      · exact Nat.lt_trans hlt (hhead other hother)
    · split
      · rename_i hgt
        refine List.pairwise_cons.mpr ⟨?_, ih hrest⟩
        intro other hother
        rcases mem_replaceOrInsert_of_mem hother with rfl | hother
        · exact hgt
        · exact hhead other hother
      · rename_i hnotlt hnotgt
        have heq : key item = key head := by omega
        refine List.pairwise_cons.mpr ⟨?_, hrest⟩
        intro other hother
        rw [heq]
        exact hhead other hother

theorem Ascending.tail {head : α} {rest : List α}
    (h : Ascending key (head :: rest)) : Ascending key rest :=
  (List.pairwise_cons.mp h).2

theorem Ascending.head_lt {head other : α} {rest : List α}
    (h : Ascending key (head :: rest)) (hother : other ∈ rest) : key head < key other :=
  (List.pairwise_cons.mp h).1 other hother

theorem Ascending.length_le {low high : Nat} (h : Ascending key items)
    (hlow : ∀ item ∈ items, low ≤ key item) (hhigh : ∀ item ∈ items, key item < high) :
    items.length ≤ high - low := by
  induction items generalizing low with
  | nil => simp
  | cons head rest ih =>
    have hrest : rest.length ≤ high - (key head + 1) :=
      ih h.tail (fun other hother => h.head_lt hother)
        (fun other hother => hhigh other (List.mem_cons_of_mem _ hother))
    have hfirst := hlow head List.mem_cons_self
    have hlast := hhigh head List.mem_cons_self
    simp only [List.length_cons]
    omega

theorem Ascending.eq_of_key_eq (h : Ascending key items) (hitem : item ∈ items)
    (hother : other ∈ items) (hkey : key item = key other) : item = other := by
  induction items with
  | nil => cases hitem
  | cons head rest ih =>
    rcases List.mem_cons.mp hitem with rfl | hlater
    · rcases List.mem_cons.mp hother with rfl | hlater
      · rfl
      · exact absurd hkey (Nat.ne_of_lt (h.head_lt hlater))
    · rcases List.mem_cons.mp hother with rfl | hlater'
      · exact absurd hkey (Nat.ne_of_gt (h.head_lt hlater))
      · exact ih h.tail hlater hlater'

theorem replaceOrInsert_of_forall_lt {item : α} (h : ∀ other ∈ items, key other < key item) :
    replaceOrInsert key item items = items ++ [item] := by
  induction items with
  | nil => rfl
  | cons head rest ih =>
    have hhead := h head (by simp)
    simp only [replaceOrInsert, List.cons_append]
    rw [if_neg (by omega), if_pos hhead, ih fun other hother => h other (by simp [hother])]

theorem length_replaceOrInsert_le (item : α) (items : List α) :
    (replaceOrInsert key item items).length ≤ items.length + 1 := by
  induction items with
  | nil => simp [replaceOrInsert]
  | cons head rest ih =>
    simp only [replaceOrInsert]
    split
    · simp
    · split
      · simpa using ih
      · simp

theorem Ascending.map (h : Ascending key items) {update : α → α}
    (hkey : ∀ item, key (update item) = key item) : Ascending key (items.map update) := by
  refine List.pairwise_map.mpr (h.imp ?_)
  intro first second hlt
  rwa [hkey, hkey]

end

end Mieru.Foundation
