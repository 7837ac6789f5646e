import Mieru.Server.TrafficPattern
import Mieru.Underlay.NewPadding

/-!
# Drawing a nonce

`newNonce` of a cipher with a nonce pattern.  The generators' answers are a
`PaddingDraws`, as for a padding.  A valid pattern rewrites the front of the
random nonce and never fails.
-/

namespace Mieru.Protocol

open Mieru.Foundation
open Mieru.Cipher
open Mieru.Appctlpb (NoncePattern validateNoncePattern validateHexString
  validateNoncePattern_iff)

def nonceTypePrintable : Int := 1
def nonceTypePrintableSubset : Int := 2
def nonceTypeFixed : Int := 3

def common64Set : Bytes := bytesOf
  "!@#$%^&*()ABCDEFGHIJKLMNOPQRSTUVWXYZabcdefghijklmnopqrstuvwxyz<>"

/-- Rewrite `[beginIdx, endIdx)` with characters of `Common64Set`. -/
def toCommon64Set (b : Bytes) (beginIdx endIdx : Nat) : Outcome String Bytes :=
  if endIdx < beginIdx then .panic "begin index > end index"
  else if b.length < endIdx then .panic "index out of range"
  else
    .ok (b.mapIdx fun i c =>
      if beginIdx ≤ i ∧ i < endIdx then
        byteAt common64Set (c &&& 0x3f).toNat
      else c)

/-- A random length in `[minLen, maxLen]` clamped to the nonce size. -/
def nonceRewriteLen (draws : PaddingDraws) (pattern : NoncePattern) : Outcome String Int :=
  let maxLen := min (pattern.maxLen.getD 0) defaultNonceSize
  let minLen := min (pattern.minLen.getD 0) maxLen
  if minLen = maxLen then .ok minLen
  else
    (draws.mrandIntn 0 (maxLen - minLen + 1).toNat).bind fun rangeSize =>
      .ok (minLen + rangeSize)

def rewriteFront (rewrite : Bytes → Nat → Nat → Outcome String Bytes)
    (nonce : Bytes) (endIdx : Int) : Outcome String Bytes :=
  if endIdx < 0 then .panic "begin index > end index"
  else rewrite nonce 0 endIdx.toNat

def fixedFront (draws : PaddingDraws) (pattern : NoncePattern)
    (nonce : Bytes) : Outcome String Bytes :=
  if pattern.customHexStrings = [] then .ok nonce
  else
    (draws.mrandIntn 0 pattern.customHexStrings.length).bind fun idx =>
      match hexDecode ((pattern.customHexStrings.getD idx []).map fun byte =>
          Char.ofNat byte.toNat) with
      | none => .panic "fail to decode hex string"
      | some front =>
        let copyLen := min front.length defaultNonceSize
        .ok (front.take copyLen ++ nonce.drop copyLen)

def applyPattern (draws : PaddingDraws) (pattern : NoncePattern)
    (nonce : Bytes) : Outcome String Bytes :=
  let type := pattern.type.getD 0
  if type = nonceTypePrintable then
    (nonceRewriteLen draws pattern).bind (rewriteFront draws.toPrintableChar nonce)
  else if type = nonceTypePrintableSubset then
    (nonceRewriteLen draws pattern).bind (rewriteFront toCommon64Set nonce)
  else if type = nonceTypeFixed then fixedFront draws pattern nonce
  else .ok nonce

/-- The nonce, and `noncePatternApplied` after the call. -/
def newNonce (draws : PaddingDraws) (enableImplicitNonce : Bool)
    (noncePatternApplied : Bool) (pattern : Option NoncePattern) : Outcome String (Bytes × Bool) :=
  let nonce := draws.read defaultNonceSize
  match pattern with
  | none => .ok (nonce, noncePatternApplied)
  | some pattern =>
    if !enableImplicitNonce && noncePatternApplied && !pattern.applyToAllUDPPacket.getD false then
      .ok (nonce, noncePatternApplied)
    else (applyPattern draws pattern nonce).bind fun nonce =>
      .ok (nonce, true)

theorem validateHexString_eq_ok {index : Nat} {text : Bytes}
    (h : validateHexString index text = .ok ()) :
    ∃ front, hexDecode (text.map fun byte => Char.ofNat byte.toNat) =
      some front ∧ front.length ≤ 12 := by
  unfold validateHexString at h
  split at h
  · cases h
  · rename_i front hfront
    refine ⟨front, hfront, ?_⟩
    simpa using Appctlpb.check_eq_ok.mp h

structure ValidPattern (pattern : NoncePattern) : Prop where
  minLen : 0 ≤ pattern.minLen.getD 0 ∧ pattern.minLen.getD 0 ≤ 12
  maxLen : 0 ≤ pattern.maxLen.getD 0 ∧ pattern.maxLen.getD 0 ≤ 12
  hexStrings : ∀ text ∈ pattern.customHexStrings,
    ∃ front, hexDecode (text.map fun byte => Char.ofNat byte.toNat) = some front ∧ front.length ≤ 12

theorem validPattern_of_validate {pattern : NoncePattern}
    (h : validateNoncePattern pattern = .ok ()) : ValidPattern pattern := by
  obtain ⟨hmin, hmax, -, hhex⟩ := validateNoncePattern_iff.mp h
  have hbounds : ∀ len : Option Int, (∀ value, len = some value → 0 ≤ value ∧ value ≤ 12) →
      0 ≤ len.getD 0 ∧ len.getD 0 ≤ 12 := by
    intro len hlen
    cases len with
    | none => decide
    | some value => exact hlen value rfl
  refine ⟨hbounds _ hmin, hbounds _ hmax, ?_⟩
  intro text htext
  obtain ⟨index, hindex, hget⟩ := List.mem_iff_getElem.mp htext
  have hmem : (text, index) ∈ pattern.customHexStrings.zipIdx := by
    rw [List.mem_zipIdx_iff_getElem?, List.getElem?_eq_getElem hindex, hget]
  exact validateHexString_eq_ok (hhex (text, index) hmem)

section

variable (draws : PaddingDraws) {pattern : NoncePattern} {nonce : Bytes}

theorem nonceRewriteLen_ok (h : ValidPattern pattern) :
    ∃ len, nonceRewriteLen draws pattern = .ok len ∧ 0 ≤ len ∧ len ≤ defaultNonceSize := by
  obtain ⟨hmin, -⟩ := h.minLen
  obtain ⟨hmax, -⟩ := h.maxLen
  unfold nonceRewriteLen
  dsimp only
  split
  · exact ⟨_, rfl, by omega, by omega⟩
  · rename_i hne
    have hlt : min (pattern.minLen.getD 0) (min (pattern.maxLen.getD 0) defaultNonceSize) <
          min (pattern.maxLen.getD 0) defaultNonceSize :=
      lt_of_le_of_ne (min_le_right _ _) hne
    rw [draws.mrandIntn_ok (by omega), Outcome.ok_bind]
    have hdraw := draws.mathIntn_lt 0 (min (pattern.maxLen.getD 0) defaultNonceSize -
        min (pattern.minLen.getD 0)
          (min (pattern.maxLen.getD 0) defaultNonceSize) + 1).toNat (by omega)
    exact ⟨_, rfl, by omega, by omega⟩

theorem toCommon64Set_ok {b : Bytes} {beginIdx endIdx : Nat}
    (hbegin : beginIdx ≤ endIdx) (hend : endIdx ≤ b.length) :
    ∃ p, toCommon64Set b beginIdx endIdx = .ok p ∧ p.length = b.length := by
  unfold toCommon64Set
  rw [if_neg (by omega), if_neg (by omega)]
  exact ⟨_, rfl, List.length_mapIdx⟩

theorem rewriteFront_ok {rewrite : Bytes → Nat → Nat → Outcome String Bytes}
    (hrewrite : ∀ b endIdx, endIdx ≤ b.length →
      ∃ p, rewrite b 0 endIdx = .ok p ∧ p.length = b.length)
    (h : ValidPattern pattern) (hlength : nonce.length = defaultNonceSize) :
    ∃ p, (nonceRewriteLen draws pattern).bind (rewriteFront rewrite nonce) =
      .ok p ∧ p.length = defaultNonceSize := by
  obtain ⟨len, hlen, hlow, hhigh⟩ := nonceRewriteLen_ok draws h
  rw [hlen, Outcome.ok_bind, rewriteFront, if_neg (by omega)]
  obtain ⟨p, hp, hsame⟩ := hrewrite nonce len.toNat (by omega)
  exact ⟨p, hp, hsame.trans hlength⟩

theorem fixedFront_ok (h : ValidPattern pattern) (hlength : nonce.length = defaultNonceSize) :
    ∃ p, fixedFront draws pattern nonce = .ok p ∧ p.length = defaultNonceSize := by
  unfold fixedFront
  split
  · exact ⟨nonce, rfl, hlength⟩
  · rename_i hne
    have hpos : 0 < pattern.customHexStrings.length :=
      List.length_pos_iff.mpr hne
    rw [draws.mrandIntn_ok hpos, Outcome.ok_bind]
    have hidx := draws.mathIntn_lt 0 _ hpos
    have hmem : pattern.customHexStrings.getD
        (draws.mathIntn 0 pattern.customHexStrings.length) [] ∈
          pattern.customHexStrings := by
      rw [List.getD_eq_getElem?_getD, List.getElem?_eq_getElem hidx, Option.getD_some]
      exact List.getElem_mem hidx
    obtain ⟨front, hfront, hshort⟩ := h.hexStrings _ hmem
    rw [hfront]
    refine ⟨_, rfl, ?_⟩
    rw [List.length_append, List.length_take, List.length_drop, hlength]
    omega

theorem applyPattern_ok (h : ValidPattern pattern) (hlength : nonce.length = defaultNonceSize) :
    ∃ p, applyPattern draws pattern nonce = .ok p ∧ p.length = defaultNonceSize := by
  unfold applyPattern
  dsimp only
  split
  · exact rewriteFront_ok draws (fun b endIdx hend =>
      draws.toPrintableChar_ok (Nat.zero_le _) hend) h hlength
  · split
    · exact rewriteFront_ok draws (fun b endIdx hend =>
        toCommon64Set_ok (Nat.zero_le _) hend) h hlength
    · split
      · exact fixedFront_ok draws h hlength
      · exact ⟨nonce, rfl, hlength⟩

end

theorem newNonce_ok (draws : PaddingDraws) (enableImplicitNonce applied : Bool)
    {pattern : Option NoncePattern}
    (h : ∀ valid, pattern = some valid → validateNoncePattern valid = .ok ()) :
    ∃ nonce after, newNonce draws enableImplicitNonce applied pattern =
      .ok (nonce, after) ∧ nonce.length = defaultNonceSize := by
  have hread := draws.length_read defaultNonceSize
  cases pattern with
  | none => exact ⟨_, _, rfl, hread⟩
  | some pattern =>
    unfold newNonce
    dsimp only
    split
    · exact ⟨_, _, rfl, hread⟩
    · obtain ⟨p, hp, hlength⟩ := applyPattern_ok draws
        (validPattern_of_validate (h pattern rfl)) hread
      rw [hp, Outcome.ok_bind]
      exact ⟨_, _, rfl, hlength⟩

end Mieru.Protocol
