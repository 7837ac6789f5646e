import Mieru.Cipher.BlockCipher

/-!
# Keys that change with the time

`saltFromTime` and the three keys that are derived from a password.  Times are
nanoseconds since the Unix epoch.  The keys of a time depend only on the
two-minute slot whose middle is nearest to it, and a slot has one key.
-/

namespace Mieru.Cipher

open Mieru.Foundation

def keyRefreshInterval : Int := 120000000000
def defaultKeyLen : Nat := 32

/-- The zero `time.Time`, the start of the year 1. -/
def zeroTime : Int := -62135596800000000000

/-- `Time.Round`: to the nearest multiple of `d` since the zero time. -/
def roundTime (t d : Int) : Int :=
  let r := (t - zeroTime) % d
  if r + r < d then t - r else t + (d - r)

def saltTimes (t : Int) : List Int :=
  let rounded := roundTime t keyRefreshInterval
  [rounded - keyRefreshInterval, rounded, rounded + keyRefreshInterval]

def unixWord (t : Int) : UInt64 :=
  UInt64.ofNat (t / 1000000000 % 18446744073709551616).toNat

/-- `pbkdf2.Key` with the iteration count and key length, and SHA-256. -/
structure KeyDerivation where
  sha256 : Bytes → Bytes
  pbkdf2Key : Bytes → Bytes → Bytes

/-- Lengths, and no two times with one salt or salts with one key. -/
structure KeyDerivation.Lawful (kdf : KeyDerivation) : Prop where
  length_sha256 : ∀ data, (kdf.sha256 data).length = 32
  length_pbkdf2Key : ∀ password salt, (kdf.pbkdf2Key password salt).length = defaultKeyLen
  distinct_salts : ∀ word other,
    kdf.sha256 (putUint64 word) = kdf.sha256 (putUint64 other) → word = other
  distinct_keys : ∀ password salt other, salt.length = 32 → other.length = 32 →
    kdf.pbkdf2Key password salt = kdf.pbkdf2Key password other → salt = other

section

variable (kdf : KeyDerivation)

def saltFromTime (t : Int) : List Bytes :=
  (saltTimes t).map fun t => kdf.sha256 (putUint64 (unixWord t))

def newKey (password salt : Bytes) : Outcome String Bytes :=
  if password = [] then .error "password is empty"
  else .ok (kdf.pbkdf2Key password salt)

def newXChaCha20Poly1305BlockCipher (key : Bytes) : Outcome String BlockCipher :=
  if key.length ≠ 32 then
    .error s!"XChaCha20-Poly1305 key length is {key.length} bytes, want 32 bytes"
  else .ok { key := key }

def blockCiphers (password : Bytes) (stateless : Bool) :
    List Bytes → Outcome String (List BlockCipher)
  | [] => .ok []
  | salt :: rest =>
    (newKey kdf password salt).bind fun cipherKey =>
      (newXChaCha20Poly1305BlockCipher cipherKey).bind fun blockCipher =>
        let blockCipher := if stateless then blockCipher
          else blockCipher.setImplicitNonceMode true
        (blockCiphers password stateless rest).bind fun others =>
          .ok (blockCipher :: others)

def newBlockCipherList (t : Int) (password : Bytes) (stateless : Bool) :
    Outcome String (List BlockCipher) :=
  blockCiphers kdf password stateless (saltFromTime kdf t)

def slot (t : Int) : Int := (t + 60000000000) / 120000000000

def slotKey (password : Bytes) (slot : Int) : Bytes :=
  kdf.pbkdf2Key password (kdf.sha256 (putUint64 (unixWord (slot * keyRefreshInterval))))

def keysAt (password : Bytes) (t : Int) : List Bytes :=
  [slotKey kdf password (slot t - 1), slotKey kdf password (slot t),
    slotKey kdf password (slot t + 1)]

end

theorem roundTime_eq_slot (t : Int) :
    roundTime t keyRefreshInterval = slot t * keyRefreshInterval := by
  unfold roundTime slot zeroTime keyRefreshInterval
  dsimp only
  split <;> omega

theorem saltTimes_eq_slots (t : Int) : saltTimes t = [(slot t - 1) * keyRefreshInterval,
      slot t * keyRefreshInterval, (slot t + 1) * keyRefreshInterval] := by
  unfold saltTimes
  rw [roundTime_eq_slot]
  unfold keyRefreshInterval
  dsimp only
  congr 1
  · omega
  · congr 2
    omega

theorem slot_near {s t : Int} (h : (s - t).natAbs ≤ 120000000000) :
    slot s = slot t - 1 ∨ slot s = slot t ∨ slot s = slot t + 1 := by
  unfold slot
  omega

theorem slot_far {s t : Int} (h : 240000000000 ≤ (s - t).natAbs) :
    slot s ≠ slot t - 1 ∧ slot s ≠ slot t ∧ slot s ≠ slot t + 1 := by
  unfold slot
  omega

/-- The seconds of the three salts are in the range of `int64`. -/
def InRange (t : Int) : Prop :=
  -9223372036854775808 ≤ (slot t - 1) * 120 ∧ (slot t + 1) * 120 < 9223372036854775808

instance (t : Int) : Decidable (InRange t) :=
  inferInstanceAs (Decidable (_ ∧ _))

section

variable {kdf : KeyDerivation} {password : Bytes}

theorem uint64_injective {seconds other : Int}
    (hseconds : -9223372036854775808 ≤ seconds ∧ seconds < 9223372036854775808)
    (hother : -9223372036854775808 ≤ other ∧ other < 9223372036854775808)
    (h : UInt64.ofNat (seconds % 18446744073709551616).toNat =
      UInt64.ofNat (other % 18446744073709551616).toNat) : seconds = other := by
  have hwords := congrArg UInt64.toNat h
  rw [UInt64.toNat_ofNat', UInt64.toNat_ofNat'] at hwords
  omega

theorem unixWord_slot (i : Int) : unixWord (i * keyRefreshInterval) =
    UInt64.ofNat (i * 120 % 18446744073709551616).toNat := by
  have hseconds : i * keyRefreshInterval / 1000000000 = i * 120 := by
    unfold keyRefreshInterval
    omega
  rw [unixWord, hseconds]

theorem unixWord_slot_injective {i j : Int}
    (hi : -9223372036854775808 ≤ i * 120 ∧ i * 120 < 9223372036854775808)
    (hj : -9223372036854775808 ≤ j * 120 ∧ j * 120 < 9223372036854775808)
    (h : unixWord (i * keyRefreshInterval) = unixWord (j * keyRefreshInterval)) : i = j := by
  rw [unixWord_slot, unixWord_slot] at h
  have hseconds := uint64_injective hi hj h
  omega

theorem slotKey_injective (hkdf : kdf.Lawful) {i j : Int}
    (hi : -9223372036854775808 ≤ i * 120 ∧ i * 120 < 9223372036854775808)
    (hj : -9223372036854775808 ≤ j * 120 ∧ j * 120 < 9223372036854775808)
    (h : slotKey kdf password i = slotKey kdf password j) : i = j := by
  apply unixWord_slot_injective hi hj
  apply hkdf.distinct_salts
  exact hkdf.distinct_keys _ _ _ (hkdf.length_sha256 _) (hkdf.length_sha256 _) h

theorem slotKey_mem_keysAt (hkdf : kdf.Lawful) {s t : Int} (hs : InRange s) (ht : InRange t) :
    slotKey kdf password (slot s) ∈ keysAt kdf password t ↔
      slot s = slot t - 1 ∨ slot s = slot t ∨ slot s = slot t + 1 := by
  unfold InRange at hs ht
  simp only [keysAt, List.mem_cons, List.not_mem_nil, or_false]
  constructor
  · rintro (hkey | hkey | hkey)
    · exact .inl (slotKey_injective hkdf (by omega) (by omega) hkey)
    · exact .inr (.inl (slotKey_injective hkdf (by omega) (by omega) hkey))
    · exact .inr (.inr (slotKey_injective hkdf (by omega) (by omega) hkey))
  · rintro (hslot | hslot | hslot) <;> simp [hslot]

theorem blockCiphers_eq_ok (hkdf : kdf.Lawful) (hpassword : password ≠ []) (salts : List Bytes) :
    blockCiphers kdf password true salts =
      .ok (salts.map fun salt => { key := kdf.pbkdf2Key password salt }) := by
  induction salts with
  | nil => rfl
  | cons salt rest ih =>
    have hlength : ¬ (kdf.pbkdf2Key password salt).length ≠ 32 :=
      not_not.mpr (hkdf.length_pbkdf2Key password salt)
    rw [blockCiphers, newKey, if_neg hpassword, Outcome.ok_bind,
      newXChaCha20Poly1305BlockCipher, if_neg hlength, Outcome.ok_bind, ih]
    rfl

theorem newBlockCipherList_eq_ok (hkdf : kdf.Lawful) (hpassword : password ≠ []) (t : Int) :
    newBlockCipherList kdf t password true =
      .ok ((keysAt kdf password t).map fun key => { key := key }) := by
  rw [newBlockCipherList, blockCiphers_eq_ok hkdf hpassword, saltFromTime, saltTimes_eq_slots]
  rfl

end

end Mieru.Cipher
