import Mieru.Foundation.Bytes

/-!
# Base64 without padding, over the URL alphabet

Three bytes are four digits of six bits.  The decoder skips line breaks and
ignores the bits of the last digit that belong to no byte, so several texts
decode to one byte string; the encoder produces one of them.
-/

namespace Mieru.Foundation.Base64

def encodeDigit (digit : Nat) : UInt8 :=
  if digit < 26 then UInt8.ofNat (65 + digit)
  else if digit < 52 then UInt8.ofNat (97 + (digit - 26))
  else if digit < 62 then UInt8.ofNat (48 + (digit - 52))
  else if digit = 62 then 45
  else 95

def decodeDigit (char : UInt8) : Option Nat :=
  if 65 ≤ char ∧ char ≤ 90 then some (char.toNat - 65)
  else if 97 ≤ char ∧ char ≤ 122 then some (char.toNat - 97 + 26)
  else if 48 ≤ char ∧ char ≤ 57 then some (char.toNat - 48 + 52)
  else if char = 45 then some 62
  else if char = 95 then some 63
  else none

def isLineBreak (char : UInt8) : Bool := char == 10 || char == 13

def digits : Bytes → List Nat
  | [] => []
  | [a] => [a.toNat / 4, a.toNat % 4 * 16]
  | [a, b] => [a.toNat / 4, a.toNat % 4 * 16 + b.toNat / 16, b.toNat % 16 * 4]
  | a :: b :: c :: rest =>
    [a.toNat / 4, a.toNat % 4 * 16 + b.toNat / 16,
      b.toNat % 16 * 4 + c.toNat / 64, c.toNat % 64] ++ digits rest

def ofDigits : List Nat → Option Bytes
  | [] => some []
  | [_] => none
  | [p, q] => some [UInt8.ofNat (p * 4 + q / 16)]
  | [p, q, r] => some [UInt8.ofNat (p * 4 + q / 16), UInt8.ofNat (q % 16 * 16 + r / 4)]
  | p :: q :: r :: t :: rest =>
    (ofDigits rest).map fun bytes =>
      UInt8.ofNat (p * 4 + q / 16) :: UInt8.ofNat (q % 16 * 16 + r / 4) ::
        UInt8.ofNat (r % 4 * 64 + t) :: bytes

def encodeToString (bytes : Bytes) : Bytes := (digits bytes).map encodeDigit

def decodeString (text : Bytes) : Option Bytes :=
  ((text.filter fun char => !isLineBreak char).mapM decodeDigit).bind ofDigits

theorem decodeDigit_encodeDigit {digit : Nat} (h : digit < 64) :
    decodeDigit (encodeDigit digit) = some digit ∧ isLineBreak (encodeDigit digit) = false := by
  have hall : ∀ digit : Fin 64, decodeDigit (encodeDigit digit) = some digit.val ∧
        isLineBreak (encodeDigit digit) = false := by decide
  exact hall ⟨digit, h⟩

theorem lt_of_mem_digits (bytes : Bytes) : ∀ digit ∈ digits bytes, digit < 64 := by
  fun_induction digits bytes with
  | case1 => simp
  | case2 a =>
    have ha := a.toNat_lt
    simp
    omega
  | case3 a b =>
    have ha := a.toNat_lt
    have hb := b.toNat_lt
    simp
    omega
  | case4 a b c rest ih =>
    have ha := a.toNat_lt
    have hb := b.toNat_lt
    intro digit hdigit
    simp only [List.cons_append, List.nil_append, List.mem_cons] at hdigit
    rcases hdigit with rfl | rfl | rfl | rfl | hdigit
    · omega
    · omega
    · have hc := c.toNat_lt
      omega
    · omega
    · exact ih digit hdigit

private theorem ofNat_eq {n : Nat} (byte : UInt8) (h : n = byte.toNat) : UInt8.ofNat n = byte := by
  rw [h, UInt8.ofNat_toNat]

theorem ofDigits_digits (bytes : Bytes) : ofDigits (digits bytes) = some bytes := by
  fun_induction digits bytes with
  | case1 => rfl
  | case2 a =>
    rw [ofDigits, ofNat_eq a (by omega)]
  | case3 a b =>
    have hb := b.toNat_lt
    rw [ofDigits, ofNat_eq a (by omega), ofNat_eq b (by omega)]
  | case4 a b c rest ih =>
    have hb := b.toNat_lt
    have hc := c.toNat_lt
    simp only [List.cons_append, List.nil_append]
    rw [ofDigits, ih, ofNat_eq a (by omega), ofNat_eq b (by omega), ofNat_eq c (by omega)]
    rfl

theorem mapM_decodeDigit {list : List Nat} (h : ∀ digit ∈ list, digit < 64) :
    ((list.map encodeDigit).filter fun char => !isLineBreak char).mapM decodeDigit = some list := by
  induction list with
  | nil => rfl
  | cons digit rest ih =>
    obtain ⟨hdecode, hbreak⟩ := decodeDigit_encodeDigit (h digit (by simp))
    have hrest := ih fun other hother => h other (by simp [hother])
    simp only [List.map_cons, List.filter_cons, hbreak, Bool.not_false,
      if_true, List.mapM_cons, hdecode, hrest]
    rfl

@[simp] theorem decodeString_encodeToString (bytes : Bytes) :
    decodeString (encodeToString bytes) = some bytes := by
  unfold decodeString encodeToString
  rw [mapM_decodeDigit (lt_of_mem_digits bytes)]
  exact ofDigits_digits bytes

end Mieru.Foundation.Base64
