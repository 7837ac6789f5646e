import Mieru.Foundation.Bytes
import Mieru.Foundation.Outcome

/-!
# AEAD block ciphers

`AEADBlockCipher` of `cipher.go`.  The AEAD and SHA-256 are parameters, and a
nonce drawn by `newNonce` is an argument of the call that draws it.  A nonce
carries its length, so the length checks of the source that protect slicing
are discharged by the type.
-/

namespace Mieru.Cipher

open Mieru.Foundation

variable {c : BlockCipher}

def defaultNonceSize : Nat := 24
def defaultOverhead : Nat := 16
def noncePrefixLenForUserHint : Nat := 16
def nonceSuffixLenForUserHint : Nat := 4

/-- The cryptographic functions the ciphers are built from. -/
structure Crypto where
  /-- `aead.Seal(nil, nonce, plaintext, nil)` under a key. -/
  sealWith : Bytes → Bytes → Bytes → Bytes
  /-- `aead.Open(nil, nonce, ciphertext, nil)` under a key. -/
  openWith : Bytes → Bytes → Bytes → Option Bytes
  sha256 : Bytes → Bytes

/--
The AEAD opens exactly what it sealed and adds a fixed overhead, and a hash has
a fixed length.
-/
structure Crypto.Lawful (crypto : Crypto) : Prop where
  length_sha256 : ∀ data, (crypto.sha256 data).length = 32
  length_seal : ∀ key nonce plaintext, (crypto.sealWith key nonce plaintext).length =
      plaintext.length + defaultOverhead
  open_seal : ∀ key nonce plaintext,
    crypto.openWith key nonce (crypto.sealWith key nonce plaintext) = some plaintext
  seal_of_open : ∀ key nonce ciphertext plaintext,
    crypto.openWith key nonce ciphertext = some plaintext →
      ciphertext = crypto.sealWith key nonce plaintext

@[ext] structure Nonce where
  bytes : Bytes
  length_bytes : bytes.length = defaultNonceSize
  deriving DecidableEq

namespace Nonce

def ofFront (bytes : Bytes) (h : defaultNonceSize ≤ bytes.length) : Nonce :=
  ⟨bytes.take defaultNonceSize, by rw [List.length_take]; omega⟩

theorem front_le {bytes : Bytes} (h : ¬ bytes.length < defaultNonceSize) :
    defaultNonceSize ≤ bytes.length := Nat.not_lt.mp h

theorem ofFront_append (nonce : Nonce) (rest : Bytes)
    (h : defaultNonceSize ≤ (nonce.bytes ++ rest).length) :
    ofFront (nonce.bytes ++ rest) h = nonce := by
  ext1
  exact List.take_left' nonce.length_bytes

def increaseLow : Bytes → Bytes
  | [] => []
  | low :: rest =>
    if low + 1 ≠ 0 then (low + 1) :: rest else 0 :: increaseLow rest

theorem length_increaseLow (bytes : Bytes) : (increaseLow bytes).length = bytes.length := by
  induction bytes with
  | nil => rfl
  | cons low rest ih =>
    simp only [increaseLow]
    split <;> simp [ih]

/-- `increaseNonce`: the loop runs from the last byte to the first. -/
def increase (nonce : Nonce) : Nonce :=
  ⟨(increaseLow nonce.bytes.reverse).reverse, by
    rw [List.length_reverse, length_increaseLow, List.length_reverse, nonce.length_bytes]⟩

end Nonce

def utf8 (text : String) : Bytes := text.toUTF8.toList

def userHint (crypto : Crypto) (userName : String) (nonce : Nonce) : Bytes :=
  (crypto.sha256 (utf8 userName ++
    nonce.bytes.take noncePrefixLenForUserHint)).take nonceSuffixLenForUserHint

structure BlockContext where
  userName : String := ""
  deriving DecidableEq, Repr

structure BlockCipher where
  key : Bytes
  enableImplicitNonce : Bool := false
  implicitNonce : Option Nonce := none
  ctx : BlockContext := {}
  deriving DecidableEq

structure SealCall where
  key : Bytes
  nonce : Bytes
  plaintext : Bytes
  deriving DecidableEq, Repr

/-- What `Encrypt` returns, the cipher after it and the `Seal` call it made. -/
structure Encrypted where
  bytes : Bytes
  cipher : BlockCipher
  call : SealCall

namespace BlockCipher

variable (crypto : Crypto)

/--
`copy(nonce[len(nonce)-4:], output[:4])`: the hint overwrites the last bytes,
as many as it has.
-/
def addUserHintToNonce (c : BlockCipher) (nonce : Nonce) : Nonce :=
  if c.ctx.userName = "" then nonce
  else
    let hint := userHint crypto c.ctx.userName nonce
    let start := defaultNonceSize - nonceSuffixLenForUserHint
    ⟨nonce.bytes.take start ++ hint ++ nonce.bytes.drop (start + hint.length), by
      have hnonce := nonce.length_bytes
      have hhint : hint.length ≤ nonceSuffixLenForUserHint :=
        List.length_take_le _ _
      simp only [List.length_append, List.length_take, List.length_drop,
        defaultNonceSize, nonceSuffixLenForUserHint, start] at *
      omega⟩

/-- `fresh` is what `newNonce` returns, used when the call needs a new nonce. -/
def encrypt (c : BlockCipher) (fresh : Nonce) (plaintext : Bytes) : Encrypted :=
  if c.enableImplicitNonce then
    match c.implicitNonce with
    | none =>
      let nonce := c.addUserHintToNonce crypto fresh
      { bytes := nonce.bytes ++ crypto.sealWith c.key nonce.bytes plaintext
        cipher := { c with implicitNonce := some nonce }
        call := ⟨c.key, nonce.bytes, plaintext⟩ }
    | some current =>
      let nonce := current.increase
      { bytes := crypto.sealWith c.key nonce.bytes plaintext
        cipher := { c with implicitNonce := some nonce }
        call := ⟨c.key, nonce.bytes, plaintext⟩ }
  else
    let nonce := c.addUserHintToNonce crypto fresh
    { bytes := nonce.bytes ++ crypto.sealWith c.key nonce.bytes plaintext
      cipher := c
      call := ⟨c.key, nonce.bytes, plaintext⟩ }

def encryptWithNonce (c : BlockCipher) (plaintext nonce : Bytes) :
    Outcome String (Bytes × SealCall) :=
  if c.enableImplicitNonce then
    .error "EncryptWithNonce() is not supported when implicit nonce is enabled"
  else if nonce.length ≠ defaultNonceSize then
    .error s!"want nonce size {defaultNonceSize}, got {nonce.length}"
  else
    .ok (crypto.sealWith c.key nonce plaintext, ⟨c.key, nonce, plaintext⟩)

def openResult (result : Option Bytes) : Outcome String Bytes :=
  match result with
  | some plaintext => .ok plaintext
  | none => .error "cipher.AEAD.Open() failed"

def decrypt (c : BlockCipher) (ciphertext : Bytes) : Outcome String Bytes × BlockCipher :=
  if c.enableImplicitNonce then
    match c.implicitNonce with
    | none =>
      if h : ciphertext.length < defaultNonceSize then
        (.error "ciphertext is smaller than nonce size", c)
      else
        let nonce := Nonce.ofFront ciphertext (Nonce.front_le h)
        (openResult (crypto.openWith c.key nonce.bytes (ciphertext.drop defaultNonceSize)),
          { c with implicitNonce := some nonce })
    | some current =>
      let nonce := current.increase
      (openResult (crypto.openWith c.key nonce.bytes ciphertext),
        { c with implicitNonce := some nonce })
  else if ciphertext.length < defaultNonceSize then
    (.error "ciphertext is smaller than nonce size", c)
  else
    (openResult (crypto.openWith c.key (ciphertext.take defaultNonceSize)
        (ciphertext.drop defaultNonceSize)), c)

def decryptWithNonce (c : BlockCipher) (ciphertext nonce : Bytes) : Outcome String Bytes :=
  if c.enableImplicitNonce then
    .error "EncryptWithNonce() is not supported when implicit nonce is enabled"
  else if nonce.length ≠ defaultNonceSize then
    .error s!"want nonce size {defaultNonceSize}, got {nonce.length}"
  else
    openResult (crypto.openWith c.key nonce ciphertext)

def isStateless (c : BlockCipher) : Bool := !c.enableImplicitNonce

theorem enableImplicitNonce_of_isStateless (h : c.isStateless = true) :
    c.enableImplicitNonce = false := by
  simpa [isStateless] using h

theorem encrypt_of_isStateless (h : c.isStateless = true) (fresh : Nonce) (plaintext : Bytes) :
    let nonce := c.addUserHintToNonce crypto fresh
    c.encrypt crypto fresh plaintext =
      { bytes := nonce.bytes ++ crypto.sealWith c.key nonce.bytes plaintext
        cipher := c
        call := ⟨c.key, nonce.bytes, plaintext⟩ } := by
  simp [encrypt, enableImplicitNonce_of_isStateless h]

theorem encryptWithNonce_of_isStateless (h : c.isStateless = true) (plaintext : Bytes)
    (nonce : Nonce) : c.encryptWithNonce crypto plaintext nonce.bytes =
      .ok (crypto.sealWith c.key nonce.bytes plaintext, ⟨c.key, nonce.bytes, plaintext⟩) := by
  simp [encryptWithNonce, enableImplicitNonce_of_isStateless h, nonce.length_bytes]

theorem decrypt_of_isStateless (h : c.isStateless = true) (nonce : Nonce) (ciphertext : Bytes) :
    c.decrypt crypto (nonce.bytes ++ ciphertext) =
      (openResult (crypto.openWith c.key nonce.bytes ciphertext), c) := by
  have htake : (nonce.bytes ++ ciphertext).take defaultNonceSize = nonce.bytes :=
    List.take_left' nonce.length_bytes
  have hdrop : (nonce.bytes ++ ciphertext).drop defaultNonceSize = ciphertext :=
    List.drop_left' nonce.length_bytes
  have hlong : ¬ (nonce.bytes ++ ciphertext).length < defaultNonceSize := by
    rw [List.length_append, nonce.length_bytes]
    omega
  unfold decrypt
  rw [enableImplicitNonce_of_isStateless h, if_neg Bool.false_ne_true, if_neg hlong, htake, hdrop]

theorem decryptWithNonce_of_isStateless (h : c.isStateless = true) (ciphertext : Bytes)
    (nonce : Nonce) : c.decryptWithNonce crypto ciphertext nonce.bytes =
      openResult (crypto.openWith c.key nonce.bytes ciphertext) := by
  simp [decryptWithNonce, enableImplicitNonce_of_isStateless h, nonce.length_bytes]

@[simp] theorem openResult_some (plaintext : Bytes) :
    openResult (some plaintext) = .ok plaintext := rfl

@[simp] theorem openResult_eq_ok_iff (result : Option Bytes) (plaintext : Bytes) :
    openResult result = .ok plaintext ↔ result = some plaintext := by
  cases result <;> simp [openResult]

variable {crypto} in
theorem decrypt_sealed (hlawful : crypto.Lawful) {key : Bytes} (hstateless : c.isStateless = true)
    (hkey : c.key = key) (nonce : Nonce) (plaintext : Bytes) : (c.decrypt crypto (nonce.bytes ++
      crypto.sealWith key nonce.bytes plaintext)).1 = .ok plaintext := by
  rw [decrypt_of_isStateless crypto hstateless, hkey, hlawful.open_seal]
  rfl

variable {crypto} in
theorem eq_of_decrypt_sealed (hlawful : crypto.Lawful) {key : Bytes}
    (hstateless : c.isStateless = true) (hother : c.key ≠ key → ∀ nonce plaintext,
      crypto.openWith c.key nonce (crypto.sealWith key nonce plaintext) = none)
    {nonce : Nonce} {plaintext decrypted : Bytes} (hopen : (c.decrypt crypto (nonce.bytes ++
      crypto.sealWith key nonce.bytes plaintext)).1 = .ok decrypted) :
    c.key = key ∧ decrypted = plaintext := by
  rw [decrypt_of_isStateless crypto hstateless, openResult_eq_ok_iff] at hopen
  have hkey : c.key = key := by
    by_contra hne
    rw [hother hne] at hopen
    cases hopen
  rw [hkey, hlawful.open_seal] at hopen
  exact ⟨hkey, (Option.some.inj hopen).symm⟩

def nextNonce (c : BlockCipher) (fresh : Nonce) : Nonce :=
  match c.implicitNonce with
  | none => c.addUserHintToNonce crypto fresh
  | some current => current.increase

def nonceHeader (c : BlockCipher) (nonce : Nonce) : Bytes :=
  if c.implicitNonce.isNone then nonce.bytes else []

theorem encrypt_of_implicit (h : c.enableImplicitNonce = true) (fresh : Nonce) (plaintext : Bytes) :
    let nonce := c.nextNonce crypto fresh
    c.encrypt crypto fresh plaintext =
      { bytes := c.nonceHeader nonce ++ crypto.sealWith c.key nonce.bytes plaintext
        cipher := { c with implicitNonce := some nonce }
        call := ⟨c.key, nonce.bytes, plaintext⟩ } := by
  unfold encrypt nextNonce nonceHeader
  cases c.implicitNonce <;> simp [h]

theorem decrypt_first (h : c.enableImplicitNonce = true)
    (hnone : c.implicitNonce = none) (nonce : Nonce) (ciphertext : Bytes) :
    c.decrypt crypto (nonce.bytes ++ ciphertext) =
      (openResult (crypto.openWith c.key nonce.bytes ciphertext),
        { c with implicitNonce := some nonce }) := by
  have hlong : ¬ (nonce.bytes ++ ciphertext).length < defaultNonceSize := by
    rw [List.length_append, nonce.length_bytes]
    omega
  unfold decrypt
  simp only [h, hnone, if_true, dif_neg hlong, Nonce.ofFront_append,
    List.drop_left' nonce.length_bytes]

theorem decrypt_of_implicit {send : BlockCipher} (h : c.enableImplicitNonce = true)
    (hnonce : c.implicitNonce = send.implicitNonce) (fresh : Nonce) (ciphertext : Bytes) :
    let nonce := send.nextNonce crypto fresh
    c.decrypt crypto (send.nonceHeader nonce ++ ciphertext) =
      (openResult (crypto.openWith c.key nonce.bytes ciphertext),
        { c with implicitNonce := some nonce }) := by
  intro nonce
  cases hsend : send.implicitNonce with
  | none =>
    rw [nonceHeader, hsend]
    exact decrypt_first crypto h (hnonce.trans hsend) nonce ciphertext
  | some current =>
    have hnext : nonce = current.increase := by
      simp only [nonce, nextNonce, hsend]
    unfold decrypt
    simp [h, hnonce, nonceHeader, hsend, hnext]

def setImplicitNonceMode (c : BlockCipher) (enable : Bool) : BlockCipher :=
  { c with
    enableImplicitNonce := enable
    implicitNonce := if enable then c.implicitNonce else none }

def setBlockContext (c : BlockCipher) (bc : BlockContext) : BlockCipher :=
  { c with ctx := bc }

@[simp] theorem ctx_decrypt (c : BlockCipher) (ciphertext : Bytes) :
    (c.decrypt crypto ciphertext).2.ctx = c.ctx := by
  unfold decrypt
  split
  · split
    · split <;> rfl
    · rfl
  · split <;> rfl

theorem decrypt_not_panics (c : BlockCipher) (ciphertext : Bytes) :
    ¬ (c.decrypt crypto ciphertext).1.Panics := by
  have hopened : ∀ result, ¬ (openResult result).Panics := by
    intro result
    cases result <;> simp [openResult]
  unfold decrypt
  split
  · split
    · split
      · simp
      · exact hopened _
    · exact hopened _
  · split
    · simp
    · exact hopened _

theorem decryptWithNonce_not_panics (c : BlockCipher) (ciphertext nonce : Bytes) :
    ¬ (c.decryptWithNonce crypto ciphertext nonce).Panics := by
  unfold decryptWithNonce openResult
  split
  · simp
  · split
    · simp
    · split <;> simp

end BlockCipher

def keyTag (key : Bytes) : Bytes :=
  (key ++ List.replicate defaultOverhead 0).take defaultOverhead

theorem length_keyTag (key : Bytes) : (keyTag key).length = defaultOverhead := by
  simp [keyTag]

def tagCrypto : Crypto where
  sealWith key _ plaintext := plaintext ++ keyTag key
  openWith key _ ciphertext :=
    let size := ciphertext.length - defaultOverhead
    if ciphertext = ciphertext.take size ++ keyTag key then
      some (ciphertext.take size)
    else none
  sha256 data := (data ++ List.replicate 32 0).take 32

theorem tagCrypto_lawful : tagCrypto.Lawful where
  length_sha256 data := by
    simp [tagCrypto]
  length_seal key nonce plaintext := by
    simp [tagCrypto, length_keyTag]
  open_seal key nonce plaintext := by
    simp [tagCrypto, length_keyTag]
  seal_of_open key nonce ciphertext plaintext h := by
    simp only [tagCrypto] at h ⊢
    split at h
    · cases h
      assumption
    · cases h

end Mieru.Cipher
