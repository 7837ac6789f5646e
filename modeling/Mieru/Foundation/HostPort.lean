import Mieru.Foundation.Text

/-!
# A host and a port in one text

The two are joined by a colon; a host that has colons itself stands in
brackets.  A text is split at its last colon.
-/

namespace Mieru.Foundation

def colon : UInt8 := 58
def openBracket : UInt8 := 91
def closeBracket : UInt8 := 93

def joinHostPort (host port : Bytes) : Bytes :=
  if colon ∈ host then
    openBracket :: (host ++ closeBracket :: colon :: port)
  else host ++ colon :: port

def splitLast (sep : UInt8) : Bytes → Option (Bytes × Bytes)
  | [] => none
  | byte :: rest =>
    match splitLast sep rest with
    | some (front, back) => some (byte :: front, back)
    | none => if byte = sep then some ([], rest) else none

def splitHostPort (hostport : Bytes) : Option (Bytes × Bytes) :=
  match splitLast colon hostport with
  | none => none
  | some (front, port) =>
    if hostport.head? = some openBracket then
      -- The first closing bracket stands just before the last colon.
      if front.getLast? = some closeBracket ∧
          closeBracket ∉ front.dropLast ∧ openBracket ∉ hostport.tail ∧
          closeBracket ∉ port then some (front.tail.dropLast, port)
      else none
    else if colon ∈ front ∨ openBracket ∈ hostport ∨ closeBracket ∈ hostport then none
    else some (front, port)

variable {host port front back : Bytes} {sep : UInt8}

theorem splitLast_of_not_mem {text : Bytes} (h : sep ∉ text) : splitLast sep text = none := by
  induction text with
  | nil => rfl
  | cons byte rest ih =>
    have hbyte : sep ≠ byte := List.ne_of_not_mem_cons h
    simp only [splitLast, ih (List.not_mem_of_not_mem_cons h)]
    exact if_neg (Ne.symm hbyte)

theorem splitLast_append (front : Bytes) (h : sep ∉ back) :
    splitLast sep (front ++ sep :: back) = some (front, back) := by
  induction front with
  | nil => simp [splitLast, splitLast_of_not_mem h]
  | cons byte rest ih =>
    rw [List.cons_append]
    simp only [splitLast, ih]

theorem not_mem_of_splitLast {text : Bytes} (h : splitLast sep text = none) : sep ∉ text := by
  induction text with
  | nil => exact List.not_mem_nil
  | cons byte rest ih =>
    simp only [splitLast] at h
    split at h
    · cases h
    · rename_i hrest
      split at h
      · cases h
      · rename_i hbyte
        exact List.not_mem_cons_of_ne_of_not_mem (Ne.symm hbyte) (ih hrest)

theorem splitLast_eq_some {text front back : Bytes} (h : splitLast sep text = some (front, back)) :
    text = front ++ sep :: back ∧ sep ∉ back := by
  induction text generalizing front with
  | nil => cases h
  | cons byte rest ih =>
    simp only [splitLast] at h
    split at h
    · rename_i front' back' hrest
      cases h
      obtain ⟨hsplit, hback⟩ := ih hrest
      exact ⟨congrArg (byte :: ·) hsplit, hback⟩
    · rename_i hrest
      split at h
      · rename_i hbyte
        cases h
        exact ⟨by rw [hbyte, List.nil_append], not_mem_of_splitLast hrest⟩
      · cases h

theorem port_of_splitHostPort {got : Bytes} (hport : colon ∉ port)
    (h : splitHostPort (front ++ colon :: port) = some (host, got)) : got = port := by
  unfold splitHostPort at h
  rw [splitLast_append front hport] at h
  dsimp only at h
  split at h
  · split at h
    · cases h
      rfl
    · cases h
  · split at h
    · cases h
    · cases h
      rfl

theorem splitHostPort_of_colon {parts : Bytes × Bytes} (hhost : colon ∈ host) (hport : colon ∉ port)
    (h : splitHostPort (joinHostPort host port) = some parts) :
    splitHostPort (host ++ colon :: port) = none := by
  have hopen : openBracket ∉ host := by
    have hjoined : joinHostPort host port =
        (openBracket :: (host ++ [closeBracket])) ++ colon :: port := by
      rw [joinHostPort, if_pos hhost]
      simp
    rw [hjoined] at h
    unfold splitHostPort at h
    rw [splitLast_append _ hport] at h
    dsimp only at h
    split at h
    · split at h
      · rename_i hbrackets
        intro hmem
        apply hbrackets.2.2.1
        simp [hmem]
      · cases h
    · rename_i hhead
      exact absurd rfl hhead
  unfold splitHostPort
  rw [splitLast_append host hport]
  dsimp only
  have hhead : (host ++ colon :: port).head? ≠ some openBracket := by
    cases host with
    | nil => cases hhost
    | cons byte rest =>
      intro heq
      cases heq
      exact hopen List.mem_cons_self
  rw [if_neg hhead, if_pos (.inl hhost)]

theorem colon_not_mem_formatNat (n : Nat) : colon ∉ formatNat n := by
  intro h
  cases isDigitByte_of_mem_formatNat h

end Mieru.Foundation
