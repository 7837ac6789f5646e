import Mieru.Server.Config

/-!
# Effective traffic patterns

`NewConfig` of the traffic pattern fills every field that is not set from
values which depend on the seed only.  A generated `minLen` does not look at a
`maxLen` that is set.
-/

namespace Mieru.Appctlpb

open Mieru.Foundation

/-- `digest` is the number that `FixedInt` takes from the hash of its hint,
`fixedIntVH` the seed of the host. -/
structure PatternHost where
  digest : Bytes → Nat
  fixedIntVH : Int

section

variable (host : PatternHost) (seed : Int) (unlockAll : Bool)

def PatternHost.fixedInt (n : Int) (field : String) : Int :=
  if n ≤ 0 then 0 else host.digest (formatInt seed ++ bytesOf field) % n

def generateTCPFragment (f : TCPFragment) : TCPFragment where
  enable := some (f.enable.getD
    (unlockAll && host.fixedInt seed 2 ":tcpFragment.enable" = 1))
  maxSleepMs := some (f.maxSleepMs.getD
    (if unlockAll then host.fixedInt seed 100 ":tcpFragment.maxSleepMs" + 1 else 0))

/-- The number that is drawn for a `minLen` that is not set. -/
def drawnMinLen : Int :=
  if unlockAll then host.fixedInt seed 13 ":nonce.minLen"
  else host.fixedInt seed 7 ":nonce.minLen" + 6

def generateMinLen (n : NoncePattern) : Int :=
  n.minLen.getD (drawnMinLen host seed unlockAll)

def generateNoncePattern (n : NoncePattern) : NoncePattern :=
  let minLen := generateMinLen host seed unlockAll n
  { type := some (n.type.getD (if unlockAll then host.fixedInt seed 3 ":nonce.type"
      else host.fixedInt seed 2 ":nonce.type" + 1))
    applyToAllUDPPacket := some (n.applyToAllUDPPacket.getD
      (host.fixedInt seed 2 ":nonce.applyToAllUDPPacket" = 1))
    minLen := some minLen
    maxLen := some (n.maxLen.getD (minLen + host.fixedInt seed (13 - minLen) ":nonce.maxLen"))
    customHexStrings := n.customHexStrings }

end

def PatternHost.seedOf (host : PatternHost) (original : TrafficPattern) : Int :=
  original.seed.getD host.fixedIntVH

def generateImplicitTrafficPattern (host : PatternHost) (original : TrafficPattern) :
    TrafficPattern :=
  let seed := host.seedOf original
  let unlockAll := original.unlockAll.getD false
  { original with
    tcpFragment := some (generateTCPFragment host seed unlockAll (original.tcpFragment.getD {}))
    nonce := some (generateNoncePattern host seed unlockAll (original.nonce.getD {})) }

def newConfig (host : PatternHost) (original : Option TrafficPattern) :
    Except ConfigError (TrafficPattern × TrafficPattern) := do
  let original := original.getD {}
  validateTrafficPattern original
  return (original, generateImplicitTrafficPattern host original)

variable {host : PatternHost} {seed : Int} {unlockAll : Bool} {n : NoncePattern}

theorem validateLen_iff {len : Option Int} {negative large : Int → ConfigError} :
    validateLen len negative large = .ok () ↔
      ∀ value, len = some value → 0 ≤ value ∧ value ≤ 12 := by
  cases len with
  | none => simp [validateLen, pure, Except.pure]
  | some value => simp [validateLen, except_ok_then, check_eq_ok]

theorem validateTCPFragment_iff {f : TCPFragment} : validateTCPFragment f = .ok () ↔
    ∀ ms, f.maxSleepMs = some ms → 0 ≤ ms ∧ ms ≤ 100 := by
  unfold validateTCPFragment
  cases f.maxSleepMs with
  | none => simp [pure, Except.pure]
  | some ms => simp [except_ok_then, check_eq_ok]

theorem validateNoncePattern_iff : validateNoncePattern n = .ok () ↔
    (∀ value, n.minLen = some value → 0 ≤ value ∧ value ≤ 12) ∧
    (∀ value, n.maxLen = some value → 0 ≤ value ∧ value ≤ 12) ∧
    (∀ low high, n.minLen = some low → n.maxLen = some high → low ≤ high) ∧
    ∀ entry ∈ n.customHexStrings.zipIdx, validateHexString entry.2 entry.1 = .ok () := by
  unfold validateNoncePattern
  simp only [except_ok_then, validateLen_iff]
  refine and_congr Iff.rfl (and_congr Iff.rfl ?_)
  have hhex : (forM n.customHexStrings.zipIdx fun entry => validateHexString entry.2 entry.1) =
      .ok () ↔ ∀ entry ∈ n.customHexStrings.zipIdx, validateHexString entry.2 entry.1 = .ok () :=
    forM_eq_ok
  cases n.minLen with
  | none => simpa using hhex
  | some low =>
    cases n.maxLen with
    | none => simpa using hhex
    | some high =>
      rw [← hhex]
      simp [except_ok_then, check_eq_ok]

theorem PatternHost.fixedInt_spec (host : PatternHost) (seed : Int) {n : Int} (h : 0 < n)
    (field : String) : 0 ≤ host.fixedInt seed n field ∧ host.fixedInt seed n field < n := by
  rw [PatternHost.fixedInt, if_neg (by omega)]
  exact ⟨Int.emod_nonneg _ (by omega), Int.emod_lt_of_pos _ h⟩

/-- No upper bound is set, or a lower bound is set as well, or the number that
is drawn for the lower bound is within the upper one. -/
def MinLenFits (host : PatternHost) (original : TrafficPattern) : Prop :=
  let nonce := original.nonce.getD {}
  nonce.maxLen = none ∨ nonce.minLen.isSome ∨ ∃ high, nonce.maxLen = some high ∧
    drawnMinLen host (host.seedOf original) (original.unlockAll.getD false) ≤ high

structure TrafficPattern.Complete (pattern : TrafficPattern) : Prop where
  tcpFragment : ∃ f, pattern.tcpFragment = some f ∧ f.enable.isSome ∧ f.maxSleepMs.isSome
  nonce : ∃ n, pattern.nonce = some n ∧ n.type.isSome ∧ n.applyToAllUDPPacket.isSome ∧
    n.minLen.isSome ∧ n.maxLen.isSome

def Keeps {α : Type} (old new : Option α) : Prop := ∀ value, old = some value → new = some value

/-- Every field that is set keeps its value. -/
structure TrafficPattern.Agrees (original pattern : TrafficPattern) : Prop where
  seed : pattern.seed = original.seed
  unlockAll : pattern.unlockAll = original.unlockAll
  tcpFragment : ∀ f, original.tcpFragment = some f → ∃ f', pattern.tcpFragment = some f' ∧
    Keeps f.enable f'.enable ∧ Keeps f.maxSleepMs f'.maxSleepMs
  nonce : ∀ n, original.nonce = some n → ∃ n', pattern.nonce = some n' ∧
    Keeps n.type n'.type ∧ Keeps n.applyToAllUDPPacket n'.applyToAllUDPPacket ∧
    Keeps n.minLen n'.minLen ∧ Keeps n.maxLen n'.maxLen ∧
    n'.customHexStrings = n.customHexStrings

theorem generateMinLen_spec (h : validateNoncePattern n = .ok ()) :
    0 ≤ generateMinLen host seed unlockAll n ∧ generateMinLen host seed unlockAll n ≤ 12 := by
  have hunlocked := host.fixedInt_spec seed (n := 13) (by decide) ":nonce.minLen"
  have hlocked := host.fixedInt_spec seed (n := 7) (by decide) ":nonce.minLen"
  unfold generateMinLen
  cases hmin : n.minLen with
  | none =>
    rw [Option.getD_none, drawnMinLen]
    split <;> omega
  | some value => exact (validateNoncePattern_iff.mp h).1 value hmin

/-- The bounds that are set are in order, so only a drawn number can be above
`maxLen`. -/
theorem generateMinLen_le_iff (h : validateNoncePattern n = .ok ()) :
    (∀ high, n.maxLen = some high → generateMinLen host seed unlockAll n ≤ high) ↔
      n.maxLen = none ∨ n.minLen.isSome ∨
        ∃ high, n.maxLen = some high ∧ drawnMinLen host seed unlockAll ≤ high := by
  have hordered := (validateNoncePattern_iff.mp h).2.2.1
  unfold generateMinLen
  cases hmax : n.maxLen with
  | none => simp
  | some high =>
    cases hmin : n.minLen with
    | none => simp
    | some low => simpa using hordered low high hmin hmax

theorem validate_generateNoncePattern (h : validateNoncePattern n = .ok ()) :
    validateNoncePattern (generateNoncePattern host seed unlockAll n) = .ok () ↔
      ∀ high, n.maxLen = some high → generateMinLen host seed unlockAll n ≤ high := by
  obtain ⟨-, hmax, -, hhex⟩ := validateNoncePattern_iff.mp h
  have hmin : 0 ≤ generateMinLen host seed unlockAll n ∧ _ := generateMinLen_spec h
  have hrange := host.fixedInt_spec seed
    (n := 13 - generateMinLen host seed unlockAll n) (by omega) ":nonce.maxLen"
  rw [validateNoncePattern_iff]
  simp only [generateNoncePattern, Option.some.injEq, forall_eq']
  constructor
  · rintro ⟨-, -, hle, -⟩ high hhigh
    simpa [hhigh] using hle
  · intro hfits
    cases hn : n.maxLen with
    | none =>
      rw [Option.getD_none]
      exact ⟨hmin, by omega, by omega, hhex⟩
    | some high =>
      refine ⟨hmin, hmax high hn, ?_, hhex⟩
      rintro _ _ rfl rfl
      exact hfits high hn

theorem validate_generateTCPFragment {f : TCPFragment} (h : validateTCPFragment f = .ok ()) :
    validateTCPFragment (generateTCPFragment host seed unlockAll f) = .ok () := by
  have hrange := host.fixedInt_spec seed (n := 100) (by decide) ":tcpFragment.maxSleepMs"
  rw [validateTCPFragment_iff] at h ⊢
  rintro ms ⟨⟩
  cases hms : f.maxSleepMs with
  | none =>
    rw [Option.getD_none]
    split <;> omega
  | some ms => exact h ms hms

theorem keeps_some {α : Type} (old : Option α) (value : α) : Keeps old (some (old.getD value)) := by
  rintro _ rfl
  rfl

/-- The effective pattern is complete and agrees with the original; it is
valid unless its `minLen` is above a `maxLen` that is set. -/
theorem newConfig_effective (host : PatternHost) (original : Option TrafficPattern)
    (h : validateTrafficPattern (original.getD {}) = .ok ()) :
    ∃ effective, newConfig host original = .ok (original.getD {}, effective) ∧
      effective.Complete ∧ (original.getD {}).Agrees effective ∧
      (validateTrafficPattern effective = .ok () ↔ MinLenFits host (original.getD {})) := by
  obtain ⟨hfragment, hnonce⟩ := except_ok_then.mp h
  refine ⟨generateImplicitTrafficPattern host (original.getD {}), ?_, ⟨⟨_, rfl, rfl, rfl⟩,
    ⟨_, rfl, rfl, rfl, rfl, rfl⟩⟩, ⟨rfl, rfl, ?_, ?_⟩, ?_⟩
  · exact except_ok_then.mpr ⟨h, rfl⟩
  · intro f hf
    refine ⟨_, rfl, ?_⟩
    rw [hf]
    exact ⟨keeps_some _ _, keeps_some _ _⟩
  · intro n hn
    refine ⟨_, rfl, ?_⟩
    rw [hn]
    exact ⟨keeps_some _ _, keeps_some _ _, keeps_some _ _, keeps_some _ _, rfl⟩
  · rw [validateTrafficPattern, except_ok_then]
    exact (and_iff_right (validate_generateTCPFragment hfragment)).trans
      ((validate_generateNoncePattern hnonce).trans (generateMinLen_le_iff hnonce))

def plainHost : PatternHost := ⟨fun _ => 0, 0⟩

def cappedPattern : TrafficPattern where
  seed := some 41
  unlockAll := some true
  tcpFragment := some { maxSleepMs := some 30 }
  nonce := some { type := some 2, maxLen := some 3 }

/-- The number 2 is drawn from a hint of fifteen bytes, below the `maxLen` 3. -/
theorem newConfig_effective_capped : ∃ effective,
    newConfig ⟨List.length, 0⟩ (some cappedPattern) = .ok (cappedPattern, effective) ∧
      (effective.nonce.bind fun n => n.minLen) = some 2 ∧
      validateTrafficPattern effective = .ok () := by
  obtain ⟨effective, hnew, -, -, hvalid⟩ :=
    newConfig_effective ⟨List.length, 0⟩ (some cappedPattern) rfl
  refine ⟨effective, hnew, ?_, hvalid.mpr (.inr (.inr ⟨3, rfl, by decide⟩))⟩
  cases hnew
  decide

/-- A pattern with `maxLen` 3 gets a `minLen` of at least 6. -/
theorem newConfig_reversed : ∃ effective,
    newConfig plainHost (some { nonce := some { maxLen := some 3 } }) =
      .ok ({ nonce := some { maxLen := some 3 } }, effective) ∧
    validateTrafficPattern effective = .error (.lensReversed 6 3) :=
  ⟨_, rfl, rfl⟩

end Mieru.Appctlpb
