import Mieru.Foundation.Bytes

/-!
# Input that arrives in chunks

A connection hands over its bytes in pieces of any size.  `readFull` reads a
fixed number of bytes across the pieces; what it returns depends only on the
bytes, not on how they were cut.
-/

namespace Mieru.Foundation

/--
Read exactly `n` bytes: the bytes, and the chunks that are left.  There is no
result when the input ends first.
-/
def readFull : Nat → List Bytes → Option (Bytes × List Bytes)
  | 0, chunks => some ([], chunks)
  | _ + 1, [] => none
  | n + 1, chunk :: rest =>
    if n + 1 < chunk.length then
      some (chunk.take (n + 1), chunk.drop (n + 1) :: rest)
    else
      (readFull (n + 1 - chunk.length) rest).map fun (data, left) =>
        (chunk ++ data, left)

theorem readFull_of_le (chunks : List Bytes) (n : Nat) (h : n ≤ chunks.flatten.length) :
    ∃ left, readFull n chunks = some (chunks.flatten.take n, left) ∧
      left.flatten = chunks.flatten.drop n := by
  induction chunks generalizing n with
  | nil =>
    have hn : n = 0 := by simpa using h
    subst hn
    exact ⟨[], rfl, rfl⟩
  | cons chunk rest ih =>
    cases n with
    | zero => exact ⟨chunk :: rest, rfl, rfl⟩
    | succ n =>
      simp only [List.flatten_cons, List.length_append] at h ⊢
      by_cases hlong : n + 1 < chunk.length
      · refine ⟨chunk.drop (n + 1) :: rest, ?_, ?_⟩
        · rw [readFull, if_pos hlong, List.take_append_of_le_length (by omega)]
        · rw [List.flatten_cons, List.drop_append_of_le_length (by omega)]
      · have htake : chunk.take (n + 1) = chunk :=
          List.take_of_length_le (by omega)
        have hdrop : chunk.drop (n + 1) = [] :=
          List.drop_of_length_le (by omega)
        obtain ⟨left, hleft, hflatten⟩ := ih (n + 1 - chunk.length) (by omega)
        refine ⟨left, ?_, ?_⟩
        · rw [readFull, if_neg hlong, hleft, Option.map_some, List.take_append, htake]
        · rw [hflatten, List.drop_append, hdrop, List.nil_append]

theorem readFull_of_lt (chunks : List Bytes) (n : Nat)
    (h : chunks.flatten.length < n) : readFull n chunks = none := by
  induction chunks generalizing n with
  | nil =>
    cases n with
    | zero => simp at h
    | succ n => rfl
  | cons chunk rest ih =>
    cases n with
    | zero => simp at h
    | succ n =>
      simp only [List.flatten_cons, List.length_append] at h
      rw [readFull, if_neg (by omega), ih _ (by omega)]
      rfl

theorem readFull_append {chunks : List Bytes} {front back : Bytes}
    (h : chunks.flatten = front ++ back) :
    ∃ left, readFull front.length chunks = some (front, left) ∧ left.flatten = back := by
  obtain ⟨left, hread, hleft⟩ := readFull_of_le chunks front.length
    (by rw [h, List.length_append]; omega)
  refine ⟨left, ?_, ?_⟩
  · rw [hread, h, List.take_left]
  · rw [hleft, h, List.drop_left]

theorem length_of_readFull {chunks left : List Bytes} {n : Nat} {data : Bytes}
    (h : readFull n chunks = some (data, left)) : data.length = n := by
  by_cases hn : n ≤ chunks.flatten.length
  · obtain ⟨left', hread, -⟩ := readFull_of_le chunks n hn
    rw [hread] at h
    cases h
    rw [List.length_take]
    omega
  · rw [readFull_of_lt chunks n (by omega)] at h
    cases h

theorem readFull_eq_none_iff (chunks : List Bytes) (n : Nat) :
    readFull n chunks = none ↔ chunks.flatten.length < n := by
  constructor
  · intro h
    by_contra hn
    obtain ⟨left, hread, -⟩ := readFull_of_le chunks n (by omega)
    rw [hread] at h
    cases h
  · exact readFull_of_lt chunks n

end Mieru.Foundation
