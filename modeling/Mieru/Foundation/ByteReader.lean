import Mieru.Foundation.ChunkedInput

/-!
# Readers

A reader hands out the next bytes of its content, or fails if there are too
few.  A tee is a reader that keeps a copy of what it has handed out.
-/

namespace Mieru.Foundation

structure ByteReader (σ ε : Type) where
  readFull : Nat → σ → Except ε (Bytes × σ)
  content : σ → Bytes
  length_eq : ∀ {n state data after}, readFull n state = .ok (data, after) → data.length = n
  content_eq : ∀ {n state data after}, readFull n state = .ok (data, after) →
      content state = data ++ content after
  readFull_ok : ∀ {n state}, n ≤ (content state).length →
    ∃ data after, readFull n state = .ok (data, after)

namespace ByteReader

variable {σ ε : Type} (R : ByteReader σ ε) {state after : σ}

theorem readFull_append {front back : Bytes} (h : R.content state = front ++ back) :
    ∃ after, R.readFull front.length state = .ok (front, after) ∧ R.content after = back := by
  have hle : front.length ≤ (R.content state).length := by
    rw [h, List.length_append]
    omega
  obtain ⟨data, after, hread⟩ := R.readFull_ok hle
  have hcontent := R.content_eq hread
  rw [h] at hcontent
  obtain ⟨rfl, hafter⟩ :=
    List.append_inj hcontent (R.length_eq hread).symm
  exact ⟨after, hread, hafter.symm⟩

def tee : ByteReader (σ × Bytes) ε where
  readFull n s := (R.readFull n s.1).map fun (data, after) =>
    (data, (after, s.2 ++ data))
  content s := R.content s.1
  length_eq := by
    intro n s data after h
    cases hread : R.readFull n s.1 with
    | error err =>
      rw [hread] at h
      cases h
    | ok pair =>
      rw [hread] at h
      cases h
      exact R.length_eq hread
  content_eq := by
    intro n s data after h
    cases hread : R.readFull n s.1 with
    | error err =>
      rw [hread] at h
      cases h
    | ok pair =>
      rw [hread] at h
      cases h
      exact R.content_eq hread
  readFull_ok := by
    intro n s hle
    obtain ⟨data, after, hread⟩ := R.readFull_ok hle
    exact ⟨data, (after, s.2 ++ data), by rw [hread]; rfl⟩

/-- Calls of `readFull` that hand out `data` between the two states. -/
inductive Reads : σ → Bytes → σ → Prop
  | nil (state : σ) : Reads state [] state
  | cons {n : Nat} {state middle after : σ} {data rest : Bytes}
      (hread : R.readFull n state = .ok (data, middle)) (hrest : Reads middle rest after) :
      Reads state (data ++ rest) after

theorem Reads.content_eq {data : Bytes} (h : R.Reads state data after) :
    R.content state = data ++ R.content after := by
  induction h with
  | nil => rfl
  | cons hread _ ih => rw [R.content_eq hread, ih, List.append_assoc]

theorem Reads.copy_eq {s s' : σ × Bytes} {data : Bytes} (h : R.tee.Reads s data s') :
    s'.2 = s.2 ++ data := by
  induction h with
  | nil s => rw [List.append_nil]
  | @cons n s middle s' data rest hread _ ih =>
    cases hdata : R.readFull n s.1 with
    | error err =>
      simp only [tee, hdata] at hread
      cases hread
    | ok pair =>
      simp only [tee, hdata] at hread
      cases hread
      rw [ih, List.append_assoc]

end ByteReader

end Mieru.Foundation
