import Mieru.Cipher.BlockCipher

/-!
# User lookup on the server

The search for the registered user whose key opens the first metadata of a
connection or datagram.  The packet and the stream underlay run the same
search, first over the users whose hint matches the nonce and then, unless the
hint is mandatory, over all users.  A map's iteration order is not fixed, so
the users are a list in any order; `keyList` stands for the keys that
`BlockCipherListFromPassword` derives from a password at the moment of the
call.
-/

namespace Mieru.Cipher

open Mieru.Foundation

variable {data decrypted : Bytes} {block : BlockCipher} {users : List User} {nonce : Nonce}

structure User where
  name : String
  password : String := ""
  hashedPassword : String := ""
  deriving DecidableEq, Repr

def hexDigit? (c : Char) : Option UInt8 :=
  if '0' ≤ c ∧ c ≤ '9' then some (UInt8.ofNat (c.toNat - '0'.toNat))
  else if 'a' ≤ c ∧ c ≤ 'f' then some (UInt8.ofNat (c.toNat - 'a'.toNat + 10))
  else if 'A' ≤ c ∧ c ≤ 'F' then some (UInt8.ofNat (c.toNat - 'A'.toNat + 10))
  else none

/-- `hex.DecodeString`; an odd number of digits is an error. -/
def hexDecode : List Char → Option Bytes
  | [] => some []
  | [_] => none
  | high :: low :: rest => do
      let highDigit ← hexDigit? high
      let lowDigit ← hexDigit? low
      let bytes ← hexDecode rest
      some ((highDigit * 16 + lowDigit) :: bytes)

section

variable (crypto : Crypto) (keyList : Bytes → List Bytes)

def hashPassword (rawPassword uniqueValue : Bytes) : Bytes :=
  crypto.sha256 (rawPassword ++ [0] ++ uniqueValue)

/-- The password a user's keys derive from; `none` if it does not decode. -/
def User.keyPassword (user : User) : Option Bytes :=
  match hexDecode user.hashedPassword.toList with
  | none => none
  | some [] => some (hashPassword crypto (utf8 user.password) (utf8 user.name))
  | some password => some password

def checkUserFromHint (user : String) (nonce : Nonce) : Outcome String Bool :=
  if user = "" then .panic "user is empty"
  else
    .ok (userHint crypto user nonce ==
      nonce.bytes.drop (defaultNonceSize - nonceSuffixLenForUserHint))

/-- `SelectDecrypt`: the first cipher of the list that opens the data. -/
def selectDecrypt (data : Bytes) : List BlockCipher → Option (BlockCipher × Bytes)
  | [] => none
  | block :: rest =>
    match (block.decrypt crypto data).1 with
    | .ok decrypted => some (block, decrypted)
    | _ => selectDecrypt data rest

def tryDecrypt (data password : Bytes) : Option (BlockCipher × Bytes) :=
  selectDecrypt crypto data ((keyList password).map fun key => { key := key })

def tryUsers (data : Bytes) : List User → Option (BlockCipher × Bytes)
  | [] => none
  | user :: rest =>
    match user.keyPassword crypto with
    | none => tryUsers data rest
    | some password =>
      match tryDecrypt crypto keyList data password with
      | some (block, decrypted) =>
        some (block.setBlockContext ⟨user.name⟩, decrypted)
      | none => tryUsers data rest

def hintUsers (nonce : Nonce) : List User → Outcome String (List User)
  | [] => .ok []
  | user :: rest =>
    (checkUserFromHint crypto user.name nonce).bind fun matched =>
      (hintUsers nonce rest).bind fun others =>
        .ok (if matched then user :: others else others)

/--
The search shared by `serverTryDecryptMetadataForNewSession` and
`serverInitRecvBlockCipherAndDecryptMetadata`: a cipher whose context names
the matched user, and the decrypted metadata.
-/
def lookupUser (users : List User) (userHintIsMandatory : Bool)
    (encryptedMeta : Bytes) (nonce : Nonce) : Outcome String (BlockCipher × Bytes) :=
  (hintUsers crypto nonce users).bind fun hinted =>
    match tryUsers crypto keyList encryptedMeta hinted with
    | some matched => .ok matched
    | none =>
      if userHintIsMandatory then
        .error "cipher.TryDecrypt() failed for all users"
      else
        match tryUsers crypto keyList encryptedMeta users with
        | some matched => .ok matched
        | none => .error "cipher.TryDecrypt() failed for all users"

variable {crypto keyList} {blocks : List BlockCipher}

def User.HasKey (crypto : Crypto) (keyList : Bytes → List Bytes) (user : User)
    (key : Bytes) : Prop :=
  ∃ password, user.keyPassword crypto = some password ∧ key ∈ keyList password

theorem selectDecrypt_eq_some (h : selectDecrypt crypto data blocks = some (block, decrypted)) :
    block ∈ blocks ∧ (block.decrypt crypto data).1 = .ok decrypted := by
  induction blocks with
  | nil => cases h
  | cons first rest ih =>
    rw [selectDecrypt] at h
    split at h
    · rename_i hfirst
      cases h
      exact ⟨List.mem_cons_self, hfirst⟩
    · obtain ⟨hmem, hblock⟩ := ih h
      exact ⟨List.mem_cons_of_mem _ hmem, hblock⟩

theorem selectDecrypt_ne_none (hmem : block ∈ blocks)
    (hblock : (block.decrypt crypto data).1 = .ok decrypted) :
    selectDecrypt crypto data blocks ≠ none := by
  induction blocks with
  | nil => cases hmem
  | cons first rest ih =>
    rw [selectDecrypt]
    split
    · simp
    · rename_i hfirst
      obtain rfl | hmem := List.mem_cons.mp hmem
      · exact absurd hblock (hfirst decrypted)
      · exact ih hmem

def Matches (crypto : Crypto) (keyList : Bytes → List Bytes) (users : List User) (data : Bytes)
    (block : BlockCipher) (decrypted : Bytes) : Prop :=
  ∃ user ∈ users, ∃ key, user.HasKey crypto keyList key ∧
    block = { key := key, ctx := ⟨user.name⟩ } ∧
    (BlockCipher.decrypt crypto { key := key } data).1 = .ok decrypted

theorem Matches.mono {more : List User} (h : Matches crypto keyList users data block decrypted)
    (hsubset : users ⊆ more) : Matches crypto keyList more data block decrypted := by
  obtain ⟨user, hmem, hmatched⟩ := h
  exact ⟨user, hsubset hmem, hmatched⟩

def Registered (users : List User) (name : String) : Prop :=
  ∃ user ∈ users, user.name = name

instance (users : List User) (name : String) : Decidable (Registered users name) :=
  inferInstanceAs (Decidable (∃ user ∈ users, user.name = name))

theorem Matches.registered (h : Matches crypto keyList users data block decrypted) :
    Registered users block.ctx.userName := by
  obtain ⟨user, huser, key, -, rfl, -⟩ := h
  exact ⟨user, huser, rfl⟩

theorem tryUsers_eq_some (h : tryUsers crypto keyList data users = some (block, decrypted)) :
    Matches crypto keyList users data block decrypted := by
  induction users with
  | nil => cases h
  | cons user rest ih =>
    rw [tryUsers] at h
    split at h
    · exact (ih h).mono (List.subset_cons_self _ _)
    · rename_i password hpassword
      split at h
      · rename_i matched plaintext htry
        cases h
        obtain ⟨hmem, hopen⟩ := selectDecrypt_eq_some htry
        obtain ⟨key, hkey, rfl⟩ := List.mem_map.mp hmem
        exact ⟨user, List.mem_cons_self, key, ⟨password, hpassword, hkey⟩, rfl, hopen⟩
      · exact (ih h).mono (List.subset_cons_self _ _)

theorem tryUsers_ne_none {user : User} {key : Bytes} (hmem : user ∈ users)
    (hkey : user.HasKey crypto keyList key)
    (hopen : (BlockCipher.decrypt crypto { key := key } data).1 = .ok decrypted) :
    tryUsers crypto keyList data users ≠ none := by
  induction users with
  | nil => cases hmem
  | cons first rest ih =>
    rw [tryUsers]
    obtain rfl | hmem := List.mem_cons.mp hmem
    · obtain ⟨password, hpassword, hkey⟩ := hkey
      rw [hpassword]
      dsimp only
      split
      · simp
      · rename_i htry
        exact absurd htry (selectDecrypt_ne_none (List.mem_map_of_mem hkey) hopen)
    · split
      · exact ih hmem
      · split
        · simp
        · exact ih hmem

def hintMatches (crypto : Crypto) (nonce : Nonce) (user : User) : Bool :=
  userHint crypto user.name nonce == nonce.bytes.drop (defaultNonceSize - nonceSuffixLenForUserHint)

theorem hintUsers_eq_ok (hnamed : ∀ user ∈ users, user.name ≠ "") :
    hintUsers crypto nonce users = .ok (users.filter (hintMatches crypto nonce)) := by
  induction users with
  | nil => rfl
  | cons user rest ih =>
    rw [hintUsers, checkUserFromHint, if_neg (hnamed user List.mem_cons_self),
      ih fun other hother => hnamed other (List.mem_cons_of_mem _ hother)]
    simp only [Outcome.ok_bind, List.filter_cons]
    rfl

theorem hintUsers_subset {hinted : List User}
    (h : hintUsers crypto nonce users = .ok hinted) : hinted ⊆ users := by
  induction users generalizing hinted with
  | nil =>
    cases h
    exact List.Subset.refl []
  | cons user rest ih =>
    obtain ⟨matched, -, hrest⟩ := Outcome.bind_eq_ok.mp h
    obtain ⟨others, hothers, heq⟩ := Outcome.bind_eq_ok.mp hrest
    cases heq
    split
    · exact List.cons_subset_cons user (ih hothers)
    · exact List.subset_cons_of_subset user (ih hothers)

theorem lookupUser_eq_ok {mandatory : Bool} {encryptedMeta : Bytes}
    (h : lookupUser crypto keyList users mandatory encryptedMeta nonce = .ok (block, decrypted)) :
    Matches crypto keyList users encryptedMeta block decrypted := by
  obtain ⟨hinted, hhinted, hrest⟩ := Outcome.bind_eq_ok.mp h
  split at hrest
  · rename_i matched htry
    cases hrest
    exact (tryUsers_eq_some htry).mono (hintUsers_subset hhinted)
  · split at hrest
    · cases hrest
    · split at hrest
      · rename_i matched htry
        cases hrest
        exact tryUsers_eq_some htry
      · cases hrest

variable {users : List User} {mandatory : Bool} {encryptedMeta : Bytes}
  {nonce : Nonce} (hnamed : ∀ user ∈ users, user.name ≠ "")

include hnamed

theorem lookupUser_not_panics :
    ¬ (lookupUser crypto keyList users mandatory encryptedMeta nonce).Panics := by
  rw [lookupUser, hintUsers_eq_ok hnamed, Outcome.ok_bind]
  split
  · simp
  · split
    · simp
    · split <;> simp

theorem lookupUser_of_hasKey {user : User} {key : Bytes}
    (hmem : user ∈ users) (hkey : user.HasKey crypto keyList key)
    (hopen : (BlockCipher.decrypt crypto { key := key } encryptedMeta).1 = .ok decrypted)
    (hhint : mandatory = true → hintMatches crypto nonce user = true) :
    ∃ matched, lookupUser crypto keyList users mandatory encryptedMeta nonce = .ok matched := by
  rw [lookupUser, hintUsers_eq_ok hnamed, Outcome.ok_bind]
  cases hinted : tryUsers crypto keyList encryptedMeta
      (users.filter (hintMatches crypto nonce)) with
  | some matched => exact ⟨matched, rfl⟩
  | none =>
    dsimp only
    split
    · rename_i hmandatory
      have hfilter : user ∈ users.filter (hintMatches crypto nonce) :=
        List.mem_filter.mpr ⟨hmem, hhint hmandatory⟩
      exact absurd hinted (tryUsers_ne_none hfilter hkey hopen)
    · cases hall : tryUsers crypto keyList encryptedMeta users with
      | some matched => exact ⟨matched, rfl⟩
      | none => exact absurd hall (tryUsers_ne_none hmem hkey hopen)

end

end Mieru.Cipher
