import Mathlib.Data.Finset.Card
import Mathlib.Data.List.Dedup
import Mieru.Foundation.Bytes
import Mieru.Foundation.TransitionSystem

/-!
# The device limit of a subscription

`HandleSubscription` asks `recordDevice` whether a device may have the profile
and serves it in a later step, with other requests in between.  `recordDevice`
decides inside `Store.Update`; when the file cannot be written the device is
not stored, but the decision stands.
-/

namespace Mieru.Panel

open Mieru.Foundation

structure Subscription where
  devices : List Bytes := []
  allowed : Nat → Option Bytes := fun _ => none
  /-- The fingerprints that were served since the last reset. -/
  served : List Bytes := []

/-- A fetch that the checks before `recordDevice` refuse has no event.
`written` tells whether the file is written. -/
inductive SubscriptionEvent where
  | recordDevice (fetch : Nat) (fp : Bytes) (written : Bool)
  | serve (fetch : Nat)
  | resetDevices (fp : Bytes) (written : Bool)

namespace Subscription

def allow (s : Subscription) (fetch : Nat) (fp : Option Bytes) : Subscription :=
  { s with allowed := Function.update s.allowed fetch fp }

def kept (s : Subscription) (fp : Bytes) : List Bytes :=
  if fp = [] then [] else s.devices.filter fun hash => hash ≠ fp

def next (maxDevices : Nat) (s : Subscription) : SubscriptionEvent → Option Subscription
  | .recordDevice fetch fp written =>
    if (s.allowed fetch).isSome then none
    else if fp ∈ s.devices then some (s.allow fetch (some fp))
    else if maxDevices > 0 ∧ s.devices.length ≥ maxDevices then some s
    else if written then some ({ s with devices := s.devices ++ [fp] }.allow fetch (some fp))
    else some (s.allow fetch (some fp))
  | .serve fetch =>
    (s.allowed fetch).map fun fp => { s.allow fetch none with served := fp :: s.served }
  | .resetDevices fp written =>
    if written then some { s with devices := s.kept fp, served := [] }
    else if fp = [] then some s
    -- The kept devices are already at the front of the shared backing array.
    else some { s with devices := s.kept fp ++ s.devices.drop (s.kept fp).length }

def IsInitial (maxDevices : Nat) (s : Subscription) : Prop :=
  s.devices.length ≤ maxDevices ∧ s.allowed = (fun _ => none) ∧ s.served = []

def system (maxDevices : Nat) : System Subscription SubscriptionEvent :=
  System.ofNext (IsInitial maxDevices) (next maxDevices)

/-- A new device is stored, and no fetch is between its decision and its
response when devices are removed. -/
def Stored (maxDevices : Nat) (s : Subscription) : SubscriptionEvent → Prop
  | .recordDevice _ fp written => fp ∉ s.devices → s.devices.length < maxDevices → written = true
  | .serve _ => True
  | .resetDevices _ written => written = true → ∀ fetch, s.allowed fetch = none

/-- The fingerprints that were allowed since the last reset have a stored
device each, and the stored devices are among them. -/
structure Bounded (maxDevices : Nat) (s : Subscription) (granted : Finset Bytes) : Prop where
  served : ∀ fp ∈ s.served, fp ∈ granted
  allowed : ∀ fetch fp, s.allowed fetch = some fp → fp ∈ granted
  devices : ∀ fp ∈ s.devices, fp ∈ granted
  card : granted.card ≤ s.devices.length
  limit : s.devices.length ≤ maxDevices

variable {maxDevices : Nat} {s after : Subscription} {granted : Finset Bytes}

theorem allow_allowed {fetch other : Nat} {fp : Bytes} {answer : Option Bytes}
    (h : (s.allow fetch answer).allowed other = some fp) :
    answer = some fp ∨ s.allowed other = some fp := by
  by_cases hother : other = fetch
  · subst hother
    exact .inl (by simpa [allow] using h)
  · exact .inr (by simpa [allow, hother] using h)

theorem Bounded.allow (h : Bounded maxDevices s granted) (fetch : Nat) {fp : Bytes}
    (hfp : fp ∈ granted) : Bounded maxDevices (s.allow fetch (some fp)) granted where
  served := h.served
  allowed other fp' hother := by
    rcases allow_allowed hother with heq | hold
    · cases heq
      exact hfp
    · exact h.allowed other fp' hold
  devices := h.devices
  card := h.card
  limit := h.limit

theorem Bounded.append (h : Bounded maxDevices s granted) (fp : Bytes)
    (hroom : s.devices.length < maxDevices) :
    Bounded maxDevices { s with devices := s.devices ++ [fp] } (insert fp granted) where
  served fp' hfp' := Finset.mem_insert_of_mem (h.served fp' hfp')
  allowed fetch fp' hfp' := Finset.mem_insert_of_mem (h.allowed fetch fp' hfp')
  devices fp' hfp' := by
    rcases List.mem_append.mp hfp' with hold | hnew
    · exact Finset.mem_insert_of_mem (h.devices fp' hold)
    · simp [List.mem_singleton.mp hnew]
  card := by
    have hinsert := Finset.card_insert_le fp granted
    have hcard := h.card
    simp only [List.length_append, List.length_singleton]
    omega
  limit := by
    simp only [List.length_append, List.length_singleton]
    omega

theorem Bounded.serve (h : Bounded maxDevices s granted) {fetch : Nat} {fp : Bytes}
    (hfetch : s.allowed fetch = some fp) :
    Bounded maxDevices { s.allow fetch none with served := fp :: s.served } granted where
  served := List.forall_mem_cons.mpr ⟨h.allowed fetch fp hfetch, h.served⟩
  allowed other fp' hother := by
    rcases allow_allowed hother with heq | hold
    · cases heq
    · exact h.allowed other fp' hold
  devices := h.devices
  card := h.card
  limit := h.limit

theorem kept_sublist (s : Subscription) (fp : Bytes) : (s.kept fp).Sublist s.devices := by
  unfold kept
  split
  · exact List.nil_sublist _
  · exact List.filter_sublist

theorem Bounded.reset (h : Bounded maxDevices s granted) (fp : Bytes)
    (hidle : ∀ fetch, s.allowed fetch = none) :
    Bounded maxDevices { s with devices := s.kept fp, served := [] } (s.kept fp).toFinset where
  served := by simp
  allowed fetch fp' hfp' := by simp [hidle fetch] at hfp'
  devices fp' hfp' := List.mem_toFinset.mpr hfp'
  card := List.toFinset_card_le _
  limit := (kept_sublist s fp).length_le.trans h.limit

theorem Bounded.failedReset (h : Bounded maxDevices s granted) (fp : Bytes) :
    Bounded maxDevices { s with devices := s.kept fp ++ s.devices.drop (s.kept fp).length }
      granted := by
  have hkept := kept_sublist s fp
  have hlength : (s.kept fp ++ s.devices.drop (s.kept fp).length).length = s.devices.length := by
    have hle := hkept.length_le
    simp only [List.length_append, List.length_drop]
    omega
  refine ⟨h.served, h.allowed, fun fp' hfp' => ?_, hlength ▸ h.card, hlength ▸ h.limit⟩
  rcases List.mem_append.mp hfp' with hfront | hrest
  · exact h.devices fp' (hkept.subset hfront)
  · exact h.devices fp' (List.mem_of_mem_drop hrest)

theorem Bounded.step (hmax : maxDevices > 0) {event : SubscriptionEvent}
    (h : Bounded maxDevices s granted) (hguard : Stored maxDevices s event)
    (hnext : next maxDevices s event = some after) :
    ∃ granted, Bounded maxDevices after granted := by
  cases event with
  | recordDevice fetch fp written =>
    simp only [next] at hnext
    split_ifs at hnext with hbusy hknown hfull hwritten
    · cases hnext
      exact ⟨granted, h.allow fetch (h.devices fp hknown)⟩
    · cases hnext
      exact ⟨granted, h⟩
    · cases hnext
      have hlimit := h.limit
      exact ⟨_, (h.append fp (by omega)).allow fetch (Finset.mem_insert_self fp granted)⟩
    · have hlimit := h.limit
      exact absurd (hguard hknown (by omega)) hwritten
  | serve fetch =>
    obtain ⟨fp, hfetch, rfl⟩ := Option.map_eq_some_iff.mp hnext
    exact ⟨granted, h.serve hfetch⟩
  | resetDevices fp written =>
    simp only [next] at hnext
    split_ifs at hnext with hwritten hall
    · cases hnext
      exact ⟨_, h.reset fp (hguard hwritten)⟩
    · cases hnext
      exact ⟨granted, h⟩
    · cases hnext
      exact ⟨granted, h.failedReset fp⟩

/-- The fingerprints that were served since the last reset. -/
theorem served_le_maxDevices (hmax : maxDevices > 0)
    (h : (system maxDevices).ReachableBy (Stored maxDevices) s) :
    s.served.dedup.length ≤ maxDevices := by
  have hbounded : ∃ granted, Bounded maxDevices s granted := by
    induction h with
    | init hinit =>
      obtain ⟨hlimit, hallowed, hserved⟩ := hinit
      exact ⟨List.toFinset _, by simp [hserved], by simp [hallowed], by simp,
        List.toFinset_card_le _, hlimit⟩
    | step _ hguard hnext ih =>
      obtain ⟨granted, hbounded⟩ := ih
      exact hbounded.step hmax hguard hnext
  obtain ⟨granted, hbounded⟩ := hbounded
  have hsub : s.served.toFinset ⊆ granted := fun fp hfp =>
    hbounded.served fp (List.mem_toFinset.mp hfp)
  calc s.served.dedup.length
      = s.served.toFinset.card := (List.card_toFinset s.served).symm
    _ ≤ granted.card := Finset.card_le_card hsub
    _ ≤ s.devices.length := hbounded.card
    _ ≤ maxDevices := hbounded.limit

def twoFetches (written : Bool) : List SubscriptionEvent :=
  [.recordDevice 0 [1] written, .serve 0, .recordDevice 1 [2] written, .serve 1]

theorem served_le_maxDevices_two :
    ∃ s, System.runEvents (next 2) {} (twoFetches true) = some s ∧ s.served = [[2], [1]] ∧
      s.served.dedup.length ≤ 2 := by
  have hinit : (system 2).ReachableBy (Stored 2) {} := .init ⟨by decide, rfl, rfl⟩
  have hguarded : System.Guarded (Stored 2) (next 2) {} (twoFetches true) :=
    ⟨fun _ _ => rfl, fun _ _ => ⟨trivial, fun _ _ => ⟨fun _ _ => rfl, fun _ _ =>
      ⟨trivial, fun _ _ => trivial⟩⟩⟩⟩
  exact ⟨_, rfl, rfl, served_le_maxDevices (by decide) (hinit.run hguarded rfl)⟩

/-- The file cannot be written, and both devices are served. -/
theorem served_exceeds :
    ∃ s, System.runEvents (next 1) {} (twoFetches false) = some s ∧ s.served.dedup.length = 2 :=
  ⟨_, rfl, by decide⟩

end Subscription

end Mieru.Panel
