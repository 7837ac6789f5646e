import Mieru.Foundation.Base64
import Mieru.Foundation.Text

/-!
# Signed tokens of the panel

Session cookies and challenge tokens are a user name, an expiry time and a
signature over both, separated by vertical bars and encoded in base64.  The
two kinds are signed with the same key and have the same form.
-/

namespace Mieru.Panel

open Mieru.Foundation

variable {text username secret : Bytes} {now : Int}

structure PanelCrypto where
  /-- HMAC-SHA256 of a payload. -/
  hmac : (secret payload : Bytes) → Bytes
  /-- Whether bcrypt accepts a password for a hash. -/
  compareHash : (hash password : Bytes) → Bool
  /-- `OpenAESGCM` with a key of 32 bytes. -/
  openAESGCM : (key blob : Bytes) → Option Bytes
  /-- `totp.Validate` at a time. -/
  validateTOTP : (code secret : Bytes) → (now : Int) → Bool
  /-- `strings.ToUpper`. -/
  toUpper : Bytes → Bytes

def second : Int := 1000000000

def minute : Int := 60 * second

def hour : Int := 60 * minute

def unix (now : Int) : Int := now / second

def separator : UInt8 := 124

variable (crypto : PanelCrypto)

def signPayload (payload secret : Bytes) : Bytes :=
  hexEncode (crypto.hmac secret payload)

def tokenPayload (username : Bytes) (expiry : Int) : Bytes :=
  username ++ separator :: formatInt expiry

def tokenValue (payload secret : Bytes) : Bytes :=
  payload ++ separator :: signPayload crypto payload secret

def signToken (username secret : Bytes) (ttl now : Int) : Bytes :=
  Base64.encodeToString (tokenValue crypto (tokenPayload username (unix (now + ttl))) secret)

def setSessionCookie (secret username : Bytes) (now : Int) : Bytes :=
  signToken crypto username secret (24 * hour) now

def challengeTTL : Int := 60 * second

def signChallengeToken (username sessionSecret : Bytes) (ttl now : Int) : Bytes :=
  signToken crypto username sessionSecret ttl now

def tokenParts (text : Bytes) : Option (Bytes × Bytes × Bytes) :=
  match (Base64.decodeString text).map (List.splitOn separator) with
  | some [username, expiry, signature] => some (username, expiry, signature)
  | _ => none

def validateSessionCookie (cookie : Option Bytes) (secret : Bytes) (now : Int) : Bool :=
  match cookie.bind tokenParts with
  | none => false
  | some (username, expiry, signature) =>
    let payload := username ++ separator :: expiry
    if signature ≠ signPayload crypto payload secret then false
    else
      match parseInt expiry with
      | none => false
      | some expiry => unix now ≤ expiry

def verifyChallengeToken (token expectedUsername sessionSecret : Bytes) (now : Int) : Bool :=
  match tokenParts (trimSpace token) with
  | none => false
  | some (username, expiry, signature) =>
    if username ≠ expectedUsername then false
    else
      let payload := username ++ separator :: expiry
      if signature ≠ signPayload crypto payload sessionSecret then false
      else
        match parseInt expiry with
        | none => false
        | some expiry => unix now ≤ expiry

def Signed (secret text payload : Bytes) : Prop :=
  Base64.decodeString text = some (tokenValue crypto payload secret)

def Unexpired (payload username : Bytes) (now : Int) : Prop :=
  ∃ expiry time, payload = username ++ separator :: expiry ∧
    separator ∉ expiry ∧ parseInt expiry = some time ∧ unix now ≤ time

variable {crypto}

theorem signed_signToken (username secret : Bytes) (ttl now : Int) :
    Signed crypto secret (signToken crypto username secret ttl now)
      (tokenPayload username (unix (now + ttl))) :=
  Base64.decodeString_encodeToString _

/-- A text that the encoder produces is determined by what it decodes to. -/
def IsCanonical (text : Bytes) : Prop :=
  ∀ bytes, Base64.decodeString text = some bytes → Base64.encodeToString bytes = text

theorem IsCanonical.eq_signToken {ttl : Int} (hcanonical : IsCanonical text)
    (h : Base64.decodeString (signToken crypto username secret ttl now) =
      Base64.decodeString text) : signToken crypto username secret ttl now = text := by
  unfold signToken at h ⊢
  rw [Base64.decodeString_encodeToString] at h
  exact hcanonical _ h.symm

theorem tokenParts_eq_some {expiry signature : Bytes}
    (h : tokenParts text = some (username, expiry, signature)) :
    Base64.decodeString text = some (username ++ separator :: expiry ++
      separator :: signature) ∧ separator ∉ expiry := by
  unfold tokenParts at h
  split at h
  · rename_i hparts
    cases h
    obtain ⟨bytes, hbytes, hsplit⟩ := Option.map_eq_some_iff.mp hparts
    have hjoin : [separator].intercalate (bytes.splitOn separator) = bytes :=
      List.intercalate_splitOn separator
    have hexpiry : expiry ∈ bytes.splitOn separator := by simp [hsplit]
    rw [hsplit] at hjoin
    refine ⟨?_, not_mem_of_mem_splitOn hexpiry⟩
    rw [hbytes, ← hjoin]
    simp [List.intercalate]
  · cases h

theorem signed_of_parts {expiry : Bytes} (h : tokenParts text = some (username, expiry,
      signPayload crypto (username ++ separator :: expiry) secret)) :
    Signed crypto secret text (username ++ separator :: expiry) :=
  (tokenParts_eq_some h).1

theorem signed_of_validateSessionCookie {value : Bytes}
    (h : validateSessionCookie crypto (some value) secret now = true) :
    ∃ payload username, Signed crypto secret value payload ∧ Unexpired payload username now := by
  unfold validateSessionCookie at h
  split at h
  · cases h
  · rename_i username expiry signature hparts
    dsimp only at h
    split at h
    · cases h
    · rename_i hsignature
      obtain rfl := Decidable.not_not.mp hsignature
      split at h
      · cases h
      · rename_i time htime
        exact ⟨_, username, signed_of_parts hparts, expiry, time, rfl,
          (tokenParts_eq_some hparts).2, htime, by simpa using h⟩

theorem signed_of_verifyChallengeToken {token : Bytes}
    (h : verifyChallengeToken crypto token username secret now = true) :
    ∃ payload, Signed crypto secret (trimSpace token) payload ∧ Unexpired payload username now := by
  unfold verifyChallengeToken at h
  split at h
  · cases h
  · rename_i name expiry signature hparts
    split at h
    · cases h
    · rename_i hname
      obtain rfl := Decidable.not_not.mp hname
      dsimp only at h
      split at h
      · cases h
      · rename_i hsignature
        obtain rfl := Decidable.not_not.mp hsignature
        split at h
        · cases h
        · rename_i time htime
          exact ⟨_, signed_of_parts hparts, expiry, time, rfl,
            (tokenParts_eq_some hparts).2, htime, by simpa using h⟩

theorem not_mem_expiry (expiry : Int) : separator ∉ formatInt expiry :=
  not_mem_formatInt (by decide) (by decide) expiry

theorem Unexpired.tokenPayload {name : Bytes} {expiry : Int}
    (h : Unexpired (tokenPayload name expiry) username now) :
    username = name ∧ unix now ≤ expiry := by
  obtain ⟨text, time, heq, hnot, hparse, hle⟩ := h
  obtain ⟨rfl, rfl⟩ := append_cons_inj (not_mem_expiry expiry) hnot heq
  exact ⟨rfl, eq_of_parseInt_formatInt hparse ▸ hle⟩

end Mieru.Panel
