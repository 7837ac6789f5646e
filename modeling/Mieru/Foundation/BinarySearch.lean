import Mathlib.Data.List.Basic

/-!
# Binary search for a threshold

The loop of a binary search that looks for the first index at which a
predicate holds.  If the predicate stays true once it is true, the search ends
at that index, and a list is cut there into the elements that fail the
predicate and those that meet it.
-/

namespace Mieru.Foundation

/-- The loop over the half-open interval from `i` to `j`. -/
def searchLoop (f : Nat → Bool) : Nat → Nat → Nat → Nat
  | 0, i, _ => i
  | fuel + 1, i, j =>
    if i < j then
      let h := (i + j) / 2
      if f h then searchLoop f fuel i h else searchLoop f fuel (h + 1) j
    else i

def search (n : Nat) (f : Nat → Bool) : Nat := searchLoop f n 0 n

section

variable {α : Type} {l : List α} {p : α → Bool}

def searchList (p : α → Bool) (l : List α) : Nat :=
  search l.length fun i => l[i]?.any p

theorem searchList_singleton (p : α → Bool) (a : α) :
    searchList p [a] = if p a then 0 else 1 := by
  simp [searchList, search, searchLoop]

end

end Mieru.Foundation
