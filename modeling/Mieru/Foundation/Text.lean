import Mathlib.Algebra.Group.Nat.Defs
import Mieru.Foundation.Bytes

/-!
# Texts as byte strings

Decimal and hexadecimal numbers, separators and white space, as the standard
library of the modelled program treats them in UTF-8 texts.
-/

namespace Mieru.Foundation

def bytesOf (text : String) : Bytes :=
  text.toList.map fun char => UInt8.ofNat char.toNat

def formatNat (n : Nat) : Bytes :=
  (Nat.toDigits 10 n).map fun char => UInt8.ofNat char.toNat

def formatInt : Int → Bytes
  | .ofNat n => formatNat n
  | .negSucc n => 45 :: formatNat (n + 1)

def isDigitByte (byte : UInt8) : Bool := 48 ≤ byte && byte ≤ 57

def parseNat (text : Bytes) : Option Nat :=
  if text ≠ [] ∧ text.all isDigitByte = true then
    some (text.foldl (fun value byte => 10 * value + (byte.toNat - 48)) 0)
  else none

def parseInt : Bytes → Option Int
  | 45 :: rest => (parseNat rest).bind fun n =>
    if n ≤ 2 ^ 63 then some (-n) else none
  | 43 :: rest => (parseNat rest).bind fun n =>
    if n < 2 ^ 63 then some n else none
  | text => (parseNat text).bind fun n =>
    if n < 2 ^ 63 then some n else none

theorem toNat_ofNat_digit {char : Char} (h : char.isDigit = true) :
    (UInt8.ofNat char.toNat).toNat = char.toNat ∧ 48 ≤ char.toNat ∧ char.toNat ≤ 57 := by
  obtain ⟨hlow, hhigh⟩ := Char.isDigit_iff_toNat.mp h
  have hzero : '0'.toNat = 48 := rfl
  have hnine : '9'.toNat = 57 := rfl
  rw [hzero] at hlow
  rw [hnine] at hhigh
  refine ⟨?_, hlow, hhigh⟩
  rw [UInt8.toNat_ofNat']
  omega

theorem isDigit_of_mem_toDigits {n : Nat} : ∀ char ∈ Nat.toDigits 10 n, char.isDigit = true :=
  fun _ hchar => Nat.isDigit_of_mem_toDigits (by decide) (by decide) hchar

theorem isDigitByte_of_mem_formatNat {n : Nat} {byte : UInt8}
    (h : byte ∈ formatNat n) : isDigitByte byte = true := by
  obtain ⟨char, hchar, rfl⟩ := List.mem_map.mp h
  obtain ⟨hbyte, hlow, hhigh⟩ :=
    toNat_ofNat_digit (isDigit_of_mem_toDigits char hchar)
  simp only [isDigitByte, Bool.and_eq_true, decide_eq_true_eq, UInt8.le_iff_toNat_le, hbyte]
  exact ⟨hlow, hhigh⟩

theorem foldl_digits {chars : List Char} (h : ∀ char ∈ chars, char.isDigit = true) (init : Nat) :
    (chars.map fun char => UInt8.ofNat char.toNat).foldl
      (fun value byte => 10 * value + (byte.toNat - 48)) init = Nat.ofDigitChars 10 chars init := by
  induction chars generalizing init with
  | nil => rfl
  | cons char rest ih =>
    have hbyte := (toNat_ofNat_digit (h char (by simp))).1
    rw [List.map_cons, List.foldl_cons, hbyte, Nat.ofDigitChars_cons]
    exact ih (fun other hother => h other (by simp [hother])) _

theorem all_digits_formatNat (n : Nat) : (formatNat n).all isDigitByte = true := by
  rw [List.all_eq_true]
  exact fun byte => isDigitByte_of_mem_formatNat

theorem parseNat_formatNat (n : Nat) : parseNat (formatNat n) = some n := by
  have hne : formatNat n ≠ [] := by
    simp [formatNat, Nat.toDigits_ne_nil]
  rw [parseNat, if_pos ⟨hne, all_digits_formatNat n⟩, formatNat,
    foldl_digits isDigit_of_mem_toDigits, Nat.ofDigitChars_ten_toDigits]

theorem parseInt_of_digits {text : Bytes} (h : text.all isDigitByte = true) :
    parseInt text = (parseNat text).bind fun n => if n < 2 ^ 63 then some ↑n else none := by
  unfold parseInt
  split
  · cases h
  · cases h
  · rfl

theorem eq_of_parseInt_formatInt {n m : Int} (h : parseInt (formatInt n) = some m) : m = n := by
  cases n with
  | ofNat n =>
    rw [formatInt, parseInt_of_digits (all_digits_formatNat n), parseNat_formatNat,
      Option.bind_some] at h
    split at h
    · cases h
      rfl
    · cases h
  | negSucc n =>
    simp only [formatInt, parseInt, parseNat_formatNat, Option.bind_some] at h
    split at h
    · cases h
      rfl
    · cases h

theorem formatInt_ne_nil (n : Int) : formatInt n ≠ [] := by
  cases n with
  | ofNat n => simp [formatInt, formatNat, Nat.toDigits_ne_nil]
  | negSucc n => simp [formatInt]

theorem parseInt_formatNat {n : Nat} (h : n < 2 ^ 63) : parseInt (formatNat n) = some n := by
  rw [parseInt_of_digits (all_digits_formatNat n), parseNat_formatNat, Option.bind_some, if_pos h]
  rfl

theorem parseInt_formatInt {n : Int} (hlow : 0 ≤ n) (hhigh : n < 9223372036854775808) :
    parseInt (formatInt n) = some n := by
  cases n with
  | ofNat n =>
    have hn : n < 2 ^ 63 := by
      have hcast : (n : Int) < 9223372036854775808 := hhigh
      omega
    exact parseInt_formatNat hn
  | negSucc n => omega

theorem not_mem_formatInt {byte : UInt8} (hdigit : isDigitByte byte = false)
    (hsign : byte ≠ 45) (n : Int) : byte ∉ formatInt n := by
  intro h
  cases n with
  | ofNat n => simp [isDigitByte_of_mem_formatNat h] at hdigit
  | negSucc n =>
    rcases List.mem_cons.mp h with rfl | h
    · exact hsign rfl
    · simp [isDigitByte_of_mem_formatNat h] at hdigit

def hexDigit (n : Nat) : UInt8 :=
  if n < 10 then UInt8.ofNat (48 + n) else UInt8.ofNat (87 + n)

def hexEncode (bytes : Bytes) : Bytes :=
  bytes.flatMap fun byte =>
    [hexDigit (byte.toNat / 16), hexDigit (byte.toNat % 16)]

theorem not_mem_of_mem_splitOn {α : Type} [BEq α] [LawfulBEq α] {sep : α}
    {list part : List α} (h : part ∈ list.splitOn sep) : sep ∉ part := by
  induction list generalizing part with
  | nil =>
    rw [List.splitOn_nil, List.mem_singleton] at h
    simp [h]
  | cons x rest ih =>
    rw [List.splitOn, List.splitOnP_cons_eq_if_modifyHead] at h
    split at h
    · rcases List.mem_cons.mp h with rfl | h
      · simp
      · exact ih h
    · rename_i hx
      cases hparts : List.splitOnP (fun other => other == sep) rest with
      | nil => exact absurd hparts (List.splitOnP_ne_nil _ _)
      | cons first parts =>
        rw [hparts, List.modifyHead_cons] at h
        rcases List.mem_cons.mp h with rfl | h
        · have hfirst : sep ∉ first := ih (by simp [List.splitOn, hparts])
          simp only [List.mem_cons, not_or]
          refine ⟨?_, hfirst⟩
          rintro rfl
          simp at hx
        · exact ih (by simp [List.splitOn, hparts, h])

theorem append_cons_inj {α : Type} {sep : α} {a b c d : List α} (hb : sep ∉ b)
    (hd : sep ∉ d) (h : a ++ sep :: b = c ++ sep :: d) : a = c ∧ b = d := by
  rcases List.append_eq_append_iff.mp h with ⟨mid, rfl, hmid⟩ | ⟨mid, rfl, hmid⟩
  · cases mid with
    | nil => simpa using hmid
    | cons x mid =>
      simp only [List.cons_append, List.cons.injEq] at hmid
      exact absurd (by simp [hmid.2]) hb
  · cases mid with
    | nil => simpa [eq_comm] using hmid
    | cons x mid =>
      simp only [List.cons_append, List.cons.injEq] at hmid
      exact absurd (by simp [hmid.2]) hd

def whiteSpace : List Bytes :=
  [[9], [10], [11], [12], [13], [32], [0xC2, 0x85], [0xC2, 0xA0], [0xE1, 0x9A, 0x80]] ++
  (List.range 11).map (fun n => [0xE2, 0x80, UInt8.ofNat (0x80 + n)]) ++
  [[0xE2, 0x80, 0xA8], [0xE2, 0x80, 0xA9], [0xE2, 0x80, 0xAF],
    [0xE2, 0x81, 0x9F], [0xE3, 0x80, 0x80]]

/-- At most `fuel` of the given characters are dropped from the front. -/
def dropChars (chars : List Bytes) : Nat → Bytes → Bytes
  | 0, text => text
  | fuel + 1, text =>
    match chars.find? fun char => char.isPrefixOf text with
    | some char => dropChars chars fuel (text.drop char.length)
    | none => text

def trimSpace (text : Bytes) : Bytes :=
  let front := dropChars whiteSpace text.length text
  (dropChars (whiteSpace.map List.reverse) front.length front.reverse).reverse

example : trimSpace [32, 0xE2, 0x80, 0x83, 97, 32, 98, 0xC2, 0xA0, 9] = [97, 32, 98] := by decide

end Mieru.Foundation
