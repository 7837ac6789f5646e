import Mieru.Foundation.Bytes

/-!
# Shared byte buffers

A buffer that several slices look into: reading a slice gives the bytes that
are there now, writing changes what every slice over them reads.
-/

namespace Mieru.Foundation

abbrev Buffer := Nat → UInt8

namespace Buffer

variable {buf : Buffer} {low middle high start : Nat} {data : Bytes}

def read (buf : Buffer) (low high : Nat) : Bytes :=
  (List.range (high - low)).map fun i => buf (low + i)

def write (buf : Buffer) (start : Nat) (data : Bytes) : Buffer := fun i =>
  if start ≤ i ∧ i < start + data.length then byteAt data (i - start) else buf i

@[simp] theorem length_read : (buf.read low high).length = high - low := by
  rw [read, List.length_map, List.length_range]

theorem read_append (hlow : low ≤ middle) (hhigh : middle ≤ high) :
    buf.read low high = buf.read low middle ++ buf.read middle high := by
  have hsize : high - low = (middle - low) + (high - middle) := by omega
  rw [read, read, read, hsize, List.range_add, List.map_append, List.map_map]
  congr 1
  apply List.map_congr_left
  intro i _
  rw [Function.comp_apply, show low + (middle - low + i) = middle + i by omega]

theorem read_write_of_le (h : high ≤ start) :
    (buf.write start data).read low high = buf.read low high := by
  apply List.map_congr_left
  intro i hi
  have hbound := List.mem_range.mp hi
  rw [write, if_neg (by omega)]

theorem read_write_self : (buf.write start data).read start (start + data.length) = data := by
  apply List.ext_getElem?
  intro i
  by_cases hi : i < data.length
  · simp [read, write, byteAt, hi]
  · have hend : ((buf.write start data).read start (start + data.length)).length ≤ i := by
      rw [length_read]
      omega
    rw [List.getElem?_eq_none hend, List.getElem?_eq_none (Nat.not_lt.mp hi)]

theorem read_write_append (h : low ≤ start) :
    (buf.write start data).read low (start + data.length) = buf.read low start ++ data := by
  rw [read_append h (Nat.le_add_right _ _), read_write_of_le (Nat.le_refl _), read_write_self]

theorem take_read {n : Nat} (h : low + n ≤ high) :
    (buf.read low high).take n = buf.read low (low + n) := by
  rw [read_append (Nat.le_add_right low n) h, List.take_left' (by simp)]

end Buffer

end Mieru.Foundation
