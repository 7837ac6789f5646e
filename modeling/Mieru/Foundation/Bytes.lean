import Mathlib.Data.List.Basic

/-!
# Byte strings and big-endian words

Byte strings are lists.  A word is written most significant byte first, and is
read back from a byte string at an offset, as the standard library of the
modelled program does for network formats.
-/

namespace Mieru.Foundation

abbrev Bytes := List UInt8

-- Every membership test in a list of byte strings rests on this one instance.
instance lawfulBEq_bytes : LawfulBEq Bytes := inferInstance

def putUint16 (word : UInt16) : Bytes :=
  [UInt8.ofNat (word.toNat / 256), UInt8.ofNat word.toNat]

def putUint32 (word : UInt32) : Bytes :=
  [UInt8.ofNat (word.toNat / 16777216), UInt8.ofNat (word.toNat / 65536),
    UInt8.ofNat (word.toNat / 256), UInt8.ofNat word.toNat]

def putUint64 (word : UInt64) : Bytes :=
  [UInt8.ofNat (word.toNat / 72057594037927936), UInt8.ofNat (word.toNat / 281474976710656),
    UInt8.ofNat (word.toNat / 1099511627776),
    UInt8.ofNat (word.toNat / 4294967296),
    UInt8.ofNat (word.toNat / 16777216), UInt8.ofNat (word.toNat / 65536),
    UInt8.ofNat (word.toNat / 256), UInt8.ofNat word.toNat]

def byteAt (bytes : Bytes) (offset : Nat) : UInt8 := bytes.getD offset 0

def uint16At (bytes : Bytes) (offset : Nat) : UInt16 :=
  UInt16.ofNat ((byteAt bytes offset).toNat * 256 + (byteAt bytes (offset + 1)).toNat)

def uint32At (bytes : Bytes) (offset : Nat) : UInt32 :=
  UInt32.ofNat ((byteAt bytes offset).toNat * 16777216 + (byteAt bytes (offset + 1)).toNat * 65536 +
    (byteAt bytes (offset + 2)).toNat * 256 +
    (byteAt bytes (offset + 3)).toNat)

@[simp] theorem length_putUint16 (word : UInt16) : (putUint16 word).length = 2 := rfl

theorem putUint64_injective {word other : UInt64}
    (h : putUint64 word = putUint64 other) : word = other := by
  apply UInt64.toNat.inj
  have hword := word.toNat_lt
  have hother := other.toNat_lt
  simp only [putUint64, List.cons.injEq, and_true, ← UInt8.toNat_inj, UInt8.toNat_ofNat'] at h
  omega

theorem byteAt_append_right (front back : Bytes) (offset : Nat) :
    byteAt (front ++ back) (front.length + offset) = byteAt back offset := by
  rw [byteAt, byteAt, List.getD_eq_getElem?_getD, List.getD_eq_getElem?_getD,
    List.getElem?_append_right (Nat.le_add_right _ _), Nat.add_sub_cancel_left]

theorem uint16At_append (front back : Bytes) (word : UInt16) :
    uint16At (front ++ (putUint16 word ++ back)) front.length = word := by
  apply UInt16.toNat.inj
  have hword := word.toNat_lt
  have hfirst := byteAt_append_right front (putUint16 word ++ back) 0
  have hsecond := byteAt_append_right front (putUint16 word ++ back) 1
  simp only [Nat.add_zero] at hfirst
  simp only [uint16At, hfirst, hsecond]
  simp [byteAt, putUint16]
  omega

theorem uint32At_append (front back : Bytes) (word : UInt32) :
    uint32At (front ++ (putUint32 word ++ back)) front.length = word := by
  apply UInt32.toNat.inj
  have hword := word.toNat_lt
  have hbyte := fun offset =>
    byteAt_append_right front (putUint32 word ++ back) offset
  have hfirst := hbyte 0
  simp only [Nat.add_zero] at hfirst
  simp only [uint32At, hfirst, hbyte]
  simp [byteAt, putUint32]
  omega

theorem putUint16_uint16At (bytes : Bytes) (offset : Nat) : putUint16 (uint16At bytes offset) =
      [byteAt bytes offset, byteAt bytes (offset + 1)] := by
  have hfirst := (byteAt bytes offset).toNat_lt
  have hsecond := (byteAt bytes (offset + 1)).toNat_lt
  simp only [putUint16, uint16At, List.cons.injEq, and_true,
    ← UInt8.toNat_inj, UInt8.toNat_ofNat', UInt16.toNat_ofNat']
  omega

theorem putUint32_uint32At (bytes : Bytes) (offset : Nat) : putUint32 (uint32At bytes offset) =
      [byteAt bytes offset, byteAt bytes (offset + 1),
        byteAt bytes (offset + 2), byteAt bytes (offset + 3)] := by
  have hfirst := (byteAt bytes offset).toNat_lt
  have hsecond := (byteAt bytes (offset + 1)).toNat_lt
  have hthird := (byteAt bytes (offset + 2)).toNat_lt
  have hfourth := (byteAt bytes (offset + 3)).toNat_lt
  simp only [putUint32, uint32At, List.cons.injEq, and_true,
    ← UInt8.toNat_inj, UInt8.toNat_ofNat', UInt32.toNat_ofNat']
  omega

end Mieru.Foundation
