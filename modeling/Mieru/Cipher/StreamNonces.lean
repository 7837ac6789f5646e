import Mieru.Cipher.BlockCipher
import Mieru.Foundation.ByteCounter

/-!
# The nonces of a stream

An `AEADBlockCipher` in implicit nonce mode, for an AEAD with nonces of any
size.  The first message is sealed with a fresh nonce and carries it, every
later one with the successor of the nonce before it; the receiver takes the
first nonce from the first message and counts in the same way.
-/

namespace Mieru.Cipher

open Mieru.Foundation

variable {nonce : Bytes} {call : EncryptCall}

/-- `implicitNonce` is empty before the first message. -/
structure StreamCipher where
  nonceSize : Nat
  key : Bytes
  implicitNonce : Bytes := []
  ctx : BlockContext := {}

/-- A call of `Encrypt`, with what `newNonce` returns if it is needed. -/
structure EncryptCall where
  fresh : Option Bytes
  plaintext : Bytes

structure OpenCall where
  key : Bytes
  nonce : Bytes
  ciphertext : Bytes

def increaseNonce (nonce : Bytes) : Bytes :=
  (Nonce.increaseLow nonce.reverse).reverse

namespace StreamCipher

section

variable (crypto : Crypto)

def addUserHintToNonce (c : StreamCipher) (nonce : Bytes) : Outcome String Bytes :=
  if c.ctx.userName = "" then .ok nonce
  else if nonce.length < noncePrefixLenForUserHint + nonceSuffixLenForUserHint then
    .panic s!"nonce length {nonce.length} is too short"
  else
    let hint := (crypto.sha256 (utf8 c.ctx.userName ++
      nonce.take noncePrefixLenForUserHint)).take nonceSuffixLenForUserHint
    let start := nonce.length - nonceSuffixLenForUserHint
    .ok (nonce.take start ++ hint ++ nonce.drop (start + hint.length))

def nextNonce (c : StreamCipher) (fresh : Option Bytes) : Outcome String Bytes :=
  if c.implicitNonce = [] then
    match fresh with
    | none => .error "newNonce() failed"
    | some nonce => c.addUserHintToNonce crypto nonce
  else .ok (increaseNonce c.implicitNonce)

/-- What `Encrypt` returns with the `Seal` call it made, and the cipher after
it. -/
def encrypt (c : StreamCipher) (call : EncryptCall) :
    Outcome String (Bytes × SealCall) × StreamCipher :=
  match c.nextNonce crypto call.fresh with
  | .error err => (.error err, c)
  | .panic message => (.panic message, c)
  | .ok nonce =>
    let dst := crypto.sealWith c.key nonce call.plaintext
    (.ok (if c.implicitNonce = [] then nonce ++ dst else dst, ⟨c.key, nonce, call.plaintext⟩),
      { c with implicitNonce := nonce })

def encryptAll (c : StreamCipher) : List EncryptCall → List (Bytes × SealCall)
  | [] => []
  | call :: calls =>
    match c.encrypt crypto call with
    | (.ok sent, after) => sent :: after.encryptAll calls
    | (.error _, after) => after.encryptAll calls
    | (.panic _, _) => []

/-- The `Open` call of `Decrypt`, if it gets so far, and the cipher after
it. -/
def decrypt (c : StreamCipher) (ciphertext : Bytes) :
    Option OpenCall × Outcome String Bytes × StreamCipher :=
  if c.implicitNonce = [] then
    if ciphertext.length < c.nonceSize then
      (none, .error "ciphertext is smaller than nonce size", c)
    else
      let nonce := ciphertext.take c.nonceSize
      let rest := ciphertext.drop c.nonceSize
      (some ⟨c.key, nonce, rest⟩, BlockCipher.openResult (crypto.openWith c.key nonce rest),
        { c with implicitNonce := nonce })
  else
    let nonce := increaseNonce c.implicitNonce
    (some ⟨c.key, nonce, ciphertext⟩,
      BlockCipher.openResult (crypto.openWith c.key nonce ciphertext),
      { c with implicitNonce := nonce })

def openCalls (c : StreamCipher) : List Bytes → List OpenCall
  | [] => []
  | ciphertext :: rest =>
    (c.decrypt crypto ciphertext).1.toList ++ (c.decrypt crypto ciphertext).2.2.openCalls rest

end

def ofBlock (c : BlockCipher) : StreamCipher where
  nonceSize := defaultNonceSize
  key := c.key
  implicitNonce := (c.implicitNonce.map Nonce.bytes).getD []
  ctx := c.ctx

theorem bytes_ne_nil (nonce : Nonce) : nonce.bytes ≠ [] := by
  intro hnil
  have hlength := nonce.length_bytes
  rw [hnil] at hlength
  cases hlength

theorem addUserHintToNonce_ofBlock (crypto : Crypto) (c : BlockCipher) (nonce : Nonce) :
    (ofBlock c).addUserHintToNonce crypto nonce.bytes =
      .ok (c.addUserHintToNonce crypto nonce).bytes := by
  unfold addUserHintToNonce BlockCipher.addUserHintToNonce
  have hctx : (ofBlock c).ctx = c.ctx := rfl
  rw [hctx]
  split
  · rfl
  · have hlong : ¬ nonce.bytes.length < noncePrefixLenForUserHint + nonceSuffixLenForUserHint := by
      rw [nonce.length_bytes]
      decide
    rw [if_neg hlong, nonce.length_bytes]
    rfl

theorem encrypt_ofBlock (crypto : Crypto) {c : BlockCipher}
    (h : c.enableImplicitNonce = true) (fresh : Nonce) (plaintext : Bytes) :
    (ofBlock c).encrypt crypto ⟨some fresh.bytes, plaintext⟩ =
      (.ok ((c.encrypt crypto fresh plaintext).bytes, (c.encrypt crypto fresh plaintext).call),
        ofBlock (c.encrypt crypto fresh plaintext).cipher) := by
  unfold encrypt BlockCipher.encrypt nextNonce
  rw [h, if_pos rfl]
  cases hnonce : c.implicitNonce with
  | none =>
    have hempty : (ofBlock c).implicitNonce = [] := by
      simp [ofBlock, hnonce]
    rw [if_pos hempty, hempty]
    dsimp only
    rw [addUserHintToNonce_ofBlock]
    rfl
  | some current =>
    have hset : (ofBlock c).implicitNonce = current.bytes := by
      simp [ofBlock, hnonce]
    rw [hset, if_neg (bytes_ne_nil current)]
    dsimp only
    rw [if_neg (bytes_ne_nil current)]
    rfl

theorem decrypt_ofBlock (crypto : Crypto) {c : BlockCipher}
    (h : c.enableImplicitNonce = true) (ciphertext : Bytes) :
    ((ofBlock c).decrypt crypto ciphertext).2 = ((c.decrypt crypto ciphertext).1,
        ofBlock (c.decrypt crypto ciphertext).2) := by
  unfold decrypt BlockCipher.decrypt
  rw [h, if_pos rfl]
  cases hnonce : c.implicitNonce with
  | none =>
    have hempty : (ofBlock c).implicitNonce = [] := by
      simp [ofBlock, hnonce]
    rw [if_pos hempty]
    by_cases hshort : ciphertext.length < defaultNonceSize
    · have hsize : ciphertext.length < (ofBlock c).nonceSize := hshort
      rw [if_pos hsize]
      dsimp only
      rw [dif_pos hshort]
    · have hsize : ¬ ciphertext.length < (ofBlock c).nonceSize := hshort
      rw [if_neg hsize]
      dsimp only
      rw [dif_neg hshort]
      rfl
  | some current =>
    have hset : (ofBlock c).implicitNonce = current.bytes := by
      simp [ofBlock, hnonce]
    rw [hset, if_neg (bytes_ne_nil current)]
    rfl

theorem littleEndian_increaseLow (bytes : Bytes) : littleEndian (Nonce.increaseLow bytes) =
      (littleEndian bytes + 1) % 256 ^ bytes.length := by
  induction bytes with
  | nil => rfl
  | cons low rest ih =>
    have hlow := low.toNat_lt
    by_cases hcarry : low + 1 ≠ 0
    · have hvalue : (low + 1).toNat = low.toNat + 1 := by
        have hne : low.toNat + 1 ≠ 256 := by
          intro heq
          apply hcarry
          apply UInt8.toNat_inj.mp
          rw [UInt8.toNat_add]
          simp [heq]
        rw [UInt8.toNat_add]
        simp only [UInt8.toNat_one]
        omega
      have hsum : littleEndian (Nonce.increaseLow (low :: rest)) =
          littleEndian (low :: rest) + 1 := by
        rw [Nonce.increaseLow, if_pos hcarry, littleEndian_cons, littleEndian_cons, hvalue]
        omega
      have hlt := littleEndian_lt (Nonce.increaseLow (low :: rest))
      rw [Nonce.length_increaseLow, hsum] at hlt
      rw [hsum, Nat.mod_eq_of_lt hlt]
    · -- the byte was 255, and the next one is increased
      have hfull : low.toNat = 255 := by
        have hzero := congrArg UInt8.toNat (not_not.mp hcarry)
        rw [UInt8.toNat_add] at hzero
        simp only [UInt8.toNat_one, UInt8.toNat_zero] at hzero
        omega
      have hsum : 255 + 256 * littleEndian rest + 1 = 256 * (littleEndian rest + 1) := by omega
      rw [Nonce.increaseLow, if_neg hcarry, littleEndian_cons,
        littleEndian_cons, ih, hfull, hsum, List.length_cons, Nat.pow_succ',
        Nat.mul_mod_mul_left]
      exact Nat.zero_add _

theorem isSuccessor_increaseNonce : IsSuccessor increaseNonce where
  length bytes := by
    unfold increaseNonce
    rw [List.length_reverse, Nonce.length_increaseLow, List.length_reverse]
  value bytes := by
    unfold bigEndian increaseNonce
    rw [List.reverse_reverse, littleEndian_increaseLow, List.length_reverse]

def nonceSequence (first : Bytes) (count : Nat) : List Bytes :=
  (List.range count).map fun i => increaseNonce^[i] first

theorem nonceSequence_succ (first : Bytes) (count : Nat) : nonceSequence first (count + 1) =
      first :: nonceSequence (increaseNonce first) count := by
  unfold nonceSequence
  rw [List.range_succ_eq_map, List.map_cons, List.map_map]
  rfl

theorem increaseNonce_ne_nil (h : nonce ≠ []) : increaseNonce nonce ≠ [] := by
  intro hnil
  have hlength := isSuccessor_increaseNonce.length nonce
  rw [hnil] at hlength
  exact h (List.length_eq_zero_iff.mp hlength.symm)

section

variable {crypto : Crypto} {c : StreamCipher}

theorem length_addUserHintToNonce {hinted : Bytes}
    (h : c.addUserHintToNonce crypto nonce = .ok hinted) : hinted.length = nonce.length := by
  unfold addUserHintToNonce at h
  split at h
  · cases h
    rfl
  · split at h
    · cases h
    · rename_i hlong
      cases h
      have hhint := List.length_take_le nonceSuffixLenForUserHint
        (crypto.sha256 (utf8 c.ctx.userName ++ nonce.take noncePrefixLenForUserHint))
      simp only [List.length_append, List.length_take, List.length_drop,
        noncePrefixLenForUserHint, nonceSuffixLenForUserHint] at *
      omega

def nonces (crypto : Crypto) (c : StreamCipher) (calls : List EncryptCall) : List Bytes :=
  (c.encryptAll crypto calls).map fun sent => sent.2.nonce

theorem nonces_cons_ok (h : c.nextNonce crypto call.fresh = .ok nonce) (calls : List EncryptCall) :
    c.nonces crypto (call :: calls) =
      nonce :: nonces crypto { c with implicitNonce := nonce } calls := by
  unfold nonces
  rw [encryptAll, encrypt, h]
  rfl

theorem nonces_cons_error {err : String} (h : c.nextNonce crypto call.fresh = .error err)
    (calls : List EncryptCall) : c.nonces crypto (call :: calls) = c.nonces crypto calls := by
  unfold nonces
  rw [encryptAll, encrypt, h]

theorem nonces_cons_panic {message : String} (h : c.nextNonce crypto call.fresh = .panic message)
    (calls : List EncryptCall) : c.nonces crypto (call :: calls) = [] := by
  unfold nonces
  rw [encryptAll, encrypt, h]
  rfl

theorem nonces_of_set (h : c.implicitNonce ≠ []) (calls : List EncryptCall) :
    c.nonces crypto calls = nonceSequence (increaseNonce c.implicitNonce) calls.length := by
  induction calls generalizing c with
  | nil => rfl
  | cons call calls ih =>
    have hnext : c.nextNonce crypto call.fresh = .ok (increaseNonce c.implicitNonce) := if_neg h
    rw [nonces_cons_ok hnext, List.length_cons, nonceSequence_succ, ih (increaseNonce_ne_nil h)]

theorem length_of_nextNonce {fresh : Option Bytes} (hset : c.implicitNonce = [])
    (hfresh : ∀ bytes, fresh = some bytes → bytes.length = c.nonceSize)
    (h : c.nextNonce crypto fresh = .ok nonce) : nonce.length = c.nonceSize := by
  unfold nextNonce at h
  rw [if_pos hset] at h
  cases fresh with
  | none => cases h
  | some bytes =>
    rw [length_addUserHintToNonce h]
    exact hfresh bytes rfl

theorem nonces_from (crypto : Crypto) (nonce : Bytes) (hset : c.implicitNonce = nonce)
    (calls : List EncryptCall)
    (hfresh : ∀ call ∈ calls, ∀ bytes, call.fresh = some bytes → bytes.length = nonce.length) :
    ∃ count, count ≤ calls.length ∧
      nonce :: c.nonces crypto calls = nonceSequence nonce (count + 1) := by
  by_cases hne : nonce = []
  · -- nonces without bytes are all equal
    subst hne
    induction calls with
    | nil => exact ⟨0, le_rfl, rfl⟩
    | cons call calls ih =>
      rw [List.forall_mem_cons] at hfresh
      obtain ⟨count, hcount, heq⟩ := ih hfresh.2
      cases hnext : c.nextNonce crypto call.fresh with
      | error err =>
        rw [nonces_cons_error hnext]
        exact ⟨count, Nat.le_succ_of_le hcount, heq⟩
      | panic message =>
        rw [nonces_cons_panic hnext]
        exact ⟨0, Nat.zero_le _, rfl⟩
      | ok nonce =>
        have hempty : nonce = [] := by
          have hlength := length_of_nextNonce (c := { c with nonceSize := 0 }) hset hfresh.1 hnext
          exact List.length_eq_zero_iff.mp hlength
        subst hempty
        have hsame : ({ c with implicitNonce := [] } : StreamCipher) = c := by
          rw [← hset]
        refine ⟨count + 1, Nat.succ_le_succ hcount, ?_⟩
        rw [nonces_cons_ok hnext, hsame, heq]
        exact (nonceSequence_succ [] (count + 1)).symm
  · refine ⟨calls.length, le_rfl, ?_⟩
    rw [nonceSequence_succ, nonces_of_set (hset ▸ hne), hset]

theorem nonces_eq (crypto : Crypto) (calls : List EncryptCall)
    (hsize : c.implicitNonce = [] ∨ c.implicitNonce.length = c.nonceSize)
    (hfresh : ∀ call ∈ calls, ∀ bytes, call.fresh = some bytes → bytes.length = c.nonceSize) :
    ∃ first count, first.length = c.nonceSize ∧ count ≤ calls.length ∧
      c.nonces crypto calls = nonceSequence first count := by
  by_cases hset : c.implicitNonce = []
  · clear hsize
    induction calls with
    | nil => exact ⟨List.replicate c.nonceSize 0, 0, by simp, le_rfl, rfl⟩
    | cons call calls ih =>
      rw [List.forall_mem_cons] at hfresh
      cases hnext : c.nextNonce crypto call.fresh with
      | error err =>
        obtain ⟨first, count, hfirst, hcount, heq⟩ := ih hfresh.2
        rw [nonces_cons_error hnext]
        exact ⟨first, count, hfirst, Nat.le_succ_of_le hcount, heq⟩
      | panic message =>
        rw [nonces_cons_panic hnext]
        exact ⟨List.replicate c.nonceSize 0, 0, by simp, Nat.zero_le _, rfl⟩
      | ok nonce =>
        have hlength := length_of_nextNonce hset hfresh.1 hnext
        obtain ⟨count, hcount, heq⟩ := nonces_from crypto
          (c := { c with implicitNonce := nonce }) nonce rfl calls
          (by rw [hlength]; exact hfresh.2)
        rw [nonces_cons_ok hnext]
        exact ⟨nonce, count + 1, hlength, Nat.succ_le_succ hcount, heq⟩
  · refine ⟨_, _, ?_, le_rfl, nonces_of_set hset calls⟩
    rw [isSuccessor_increaseNonce.length]
    exact hsize.resolve_left hset

theorem head_of_encryptAll (hset : c.implicitNonce = []) {calls : List EncryptCall}
    (hfresh : ∀ call ∈ calls, ∀ bytes, call.fresh = some bytes → bytes.length = c.nonceSize)
    {bytes : Bytes} {made : SealCall} {others : List (Bytes × SealCall)}
    (h : c.encryptAll crypto calls = (bytes, made) :: others) :
    made.nonce.length = c.nonceSize ∧ ∃ dst, bytes = made.nonce ++ dst := by
  induction calls with
  | nil => cases h
  | cons call calls ih =>
    rw [List.forall_mem_cons] at hfresh
    rw [encryptAll, encrypt] at h
    cases hnext : c.nextNonce crypto call.fresh with
    | error err =>
      rw [hnext] at h
      exact ih hfresh.2 h
    | panic message =>
      rw [hnext] at h
      cases h
    | ok nonce =>
      rw [hnext] at h
      dsimp only at h
      rw [if_pos hset] at h
      cases h
      exact ⟨length_of_nextNonce hset hfresh.1 hnext, _, rfl⟩

def openNonces (crypto : Crypto) (c : StreamCipher) (ciphertexts : List Bytes) : List Bytes :=
  (c.openCalls crypto ciphertexts).map OpenCall.nonce

theorem openNonces_of_set (h : c.implicitNonce ≠ []) (ciphertexts : List Bytes) :
    c.openNonces crypto ciphertexts =
      nonceSequence (increaseNonce c.implicitNonce) ciphertexts.length := by
  induction ciphertexts generalizing c with
  | nil => rfl
  | cons ciphertext rest ih =>
    have hrest := ih (c := { c with
      implicitNonce := increaseNonce c.implicitNonce })
      (increaseNonce_ne_nil h)
    unfold openNonces at hrest ⊢
    rw [openCalls, decrypt, if_neg h, List.length_cons, nonceSequence_succ, ← hrest]
    rfl

theorem openNonces_eq (hset : c.implicitNonce = []) {first : Bytes}
    (hlong : c.nonceSize ≤ first.length) (rest : List Bytes) : c.openNonces crypto (first :: rest) =
      nonceSequence (first.take c.nonceSize) (rest.length + 1) := by
  have hstep : ∀ (ciphertext : Bytes) (others : List Bytes), c.nonceSize ≤ ciphertext.length →
      c.openNonces crypto (ciphertext :: others) = ciphertext.take c.nonceSize ::
          openNonces crypto { c with implicitNonce := ciphertext.take c.nonceSize } others := by
    intro ciphertext others hsize
    unfold openNonces
    rw [openCalls, decrypt, if_pos hset, if_neg (Nat.not_lt.mpr hsize)]
    rfl
  by_cases hzero : c.nonceSize = 0
  · -- every message is long enough, and no nonce is ever set
    have hsame : ({ c with implicitNonce := [] } : StreamCipher) = c := by
      rw [← hset]
    have hall : ∀ ciphertexts : List Bytes, c.openNonces crypto ciphertexts =
          nonceSequence [] ciphertexts.length := by
      intro ciphertexts
      induction ciphertexts with
      | nil => rfl
      | cons ciphertext others ih =>
        have htake : ciphertext.take c.nonceSize = [] := by
          rw [hzero, List.take_zero]
        rw [hstep ciphertext others (hzero ▸ Nat.zero_le _), htake, hsame, ih, List.length_cons]
        exact (nonceSequence_succ [] others.length).symm
    rw [hall, hzero, List.take_zero, List.length_cons]
  · have hne : first.take c.nonceSize ≠ [] := by
      intro hnil
      have hlength := congrArg List.length hnil
      rw [List.length_take, List.length_nil] at hlength
      omega
    rw [hstep first rest hlong, openNonces_of_set hne, nonceSequence_succ]

end

/-- In any sequence of calls of `Encrypt`, each nonce is the big-endian
successor of the one before it; up to `256 ^ n` of them are pairwise distinct;
and a receiver that starts with the first message opens with the same
nonces. -/
theorem stream_nonces (crypto : Crypto) (c : StreamCipher) (calls : List EncryptCall)
    (hsize : c.implicitNonce = [] ∨ c.implicitNonce.length = c.nonceSize)
    (hfresh : ∀ call ∈ calls, ∀ bytes, call.fresh = some bytes → bytes.length = c.nonceSize) :
    (∀ nonce, (increaseNonce nonce).length = nonce.length ∧ bigEndian (increaseNonce nonce) =
          (bigEndian nonce + 1) % 256 ^ nonce.length) ∧ (∃ first count, first.length = c.nonceSize ∧
        c.nonces crypto calls = nonceSequence first count) ∧
      (calls.length ≤ 256 ^ c.nonceSize → (c.nonces crypto calls).Nodup) ∧
      (c.implicitNonce = [] → ∀ d : StreamCipher, d.nonceSize = c.nonceSize →
        d.implicitNonce = [] → ∀ bytes made others rest,
        c.encryptAll crypto calls = (bytes, made) :: others → rest.length = others.length →
        d.openNonces crypto (bytes :: rest) = c.nonces crypto calls) := by
  obtain ⟨first, count, hfirst, hcount, heq⟩ :=
    nonces_eq crypto calls hsize hfresh
  refine ⟨?_, ⟨first, count, hfirst, heq⟩, ?_, ?_⟩
  · intro nonce
    exact ⟨isSuccessor_increaseNonce.length nonce, isSuccessor_increaseNonce.value nonce⟩
  · intro hcalls
    rw [heq]
    refine isSuccessor_increaseNonce.nodup_iterates first ?_
    rw [hfirst]
    exact hcount.trans hcalls
  · intro hset d hd hunset bytes made others rest hsent hrest
    obtain ⟨hlength, dst, rfl⟩ := head_of_encryptAll hset hfresh hsent
    -- both count from the nonce of the first message
    have hnonces : c.nonces crypto calls = made.nonce :: others.map fun sent => sent.2.nonce := by
      rw [nonces, hsent, List.map_cons]
    have hcountPos : count = others.length + 1 := by
      have hlengths := congrArg List.length (heq.symm.trans hnonces)
      simpa [nonceSequence] using hlengths
    have hhead : first = made.nonce := by
      rw [hnonces, hcountPos, nonceSequence_succ] at heq
      exact (List.cons.inj heq).1.symm
    rw [openNonces_eq hunset (by rw [hd, List.length_append]; omega), heq,
      hcountPos, hrest, hhead, hd, List.take_left' hlength]

/-- Two messages from the last nonce of one byte: the counter wraps around. -/
theorem stream_nonces_wraps :
    let c : StreamCipher := { nonceSize := 1, key := [] }
    let calls : List EncryptCall := [⟨some [255], [1]⟩, ⟨none, [2]⟩]
    c.nonces tagCrypto calls = [[255], [0]] ∧ (c.nonces tagCrypto calls).Nodup := by
  intro c calls
  refine ⟨by decide, (stream_nonces tagCrypto c calls (.inl rfl) ?_).2.2.1 (by decide)⟩
  intro call hcall bytes hbytes
  rcases List.mem_cons.mp hcall with rfl | hcall
  · cases hbytes
    rfl
  · rw [List.mem_singleton.mp hcall] at hbytes
    cases hbytes

end StreamCipher

end Mieru.Cipher
