import Mathlib.Data.Nat.Digits.Lemmas
import Mieru.Foundation.Bytes

/-!
# Byte strings as counters

A byte string of length `n`, most significant byte first, is a number below
`256 ^ n`.  A function on byte strings that is the successor modulo `256 ^ n`
takes `256 ^ n` different values before it comes back.
-/

namespace Mieru.Foundation

def littleEndian (bytes : Bytes) : Nat :=
  Nat.ofDigits 256 (bytes.map UInt8.toNat)

def bigEndian (bytes : Bytes) : Nat := littleEndian bytes.reverse

theorem littleEndian_cons (low : UInt8) (rest : Bytes) :
    littleEndian (low :: rest) = low.toNat + 256 * littleEndian rest := by
  simp [littleEndian, Nat.ofDigits_cons]

theorem littleEndian_lt (bytes : Bytes) : littleEndian bytes < 256 ^ bytes.length := by
  have hlt : Nat.ofDigits 256 (bytes.map UInt8.toNat) < 256 ^ (bytes.map UInt8.toNat).length := by
    apply Nat.ofDigits_lt_base_pow_length (by omega)
    intro digit hdigit
    obtain ⟨byte, -, rfl⟩ := List.mem_map.mp hdigit
    exact byte.toNat_lt
  rw [List.length_map] at hlt
  exact hlt

theorem bigEndian_lt (bytes : Bytes) : bigEndian bytes < 256 ^ bytes.length := by
  have hlt := littleEndian_lt bytes.reverse
  rw [List.length_reverse] at hlt
  exact hlt

structure IsSuccessor (f : Bytes → Bytes) : Prop where
  length : ∀ bytes, (f bytes).length = bytes.length
  value : ∀ bytes, bigEndian (f bytes) = (bigEndian bytes + 1) % 256 ^ bytes.length

namespace IsSuccessor

variable {f : Bytes → Bytes}

theorem length_iterate (h : IsSuccessor f) (bytes : Bytes) (i : Nat) :
    (f^[i] bytes).length = bytes.length := by
  induction i with
  | zero => rfl
  | succ i ih => rw [Function.iterate_succ_apply', h.length, ih]

theorem value_iterate (h : IsSuccessor f) (bytes : Bytes) (i : Nat) :
    bigEndian (f^[i] bytes) = (bigEndian bytes + i) % 256 ^ bytes.length := by
  induction i with
  | zero =>
    rw [Function.iterate_zero_apply, Nat.add_zero, Nat.mod_eq_of_lt (bigEndian_lt bytes)]
  | succ i ih =>
    rw [Function.iterate_succ_apply', h.value, h.length_iterate, ih, Nat.mod_add_mod, Nat.add_assoc]

theorem iterate_injective (h : IsSuccessor f) (bytes : Bytes) {i j : Nat}
    (hi : i < 256 ^ bytes.length) (hj : j < 256 ^ bytes.length)
    (heq : f^[i] bytes = f^[j] bytes) : i = j := by
  have hvalue := congrArg bigEndian heq
  rw [h.value_iterate, h.value_iterate] at hvalue
  have hmod : i ≡ j [MOD 256 ^ bytes.length] :=
    Nat.ModEq.add_left_cancel' (bigEndian bytes) hvalue
  exact Nat.ModEq.eq_of_lt_of_lt hmod hi hj

theorem nodup_iterates (h : IsSuccessor f) (bytes : Bytes) {k : Nat} (hk : k ≤ 256 ^ bytes.length) :
    ((List.range k).map fun i => f^[i] bytes).Nodup := by
  rw [List.nodup_map_iff_inj_on List.nodup_range]
  intro i hi j hj heq
  rw [List.mem_range] at hi hj
  exact h.iterate_injective bytes (lt_of_lt_of_le hi hk) (lt_of_lt_of_le hj hk) heq

end IsSuccessor

end Mieru.Foundation
