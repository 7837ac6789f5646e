import Mieru.Underlay.NewNonce
import Mieru.Wire.StreamRoundTrip

/-!
# The two searches for a user

`serverTryDecryptMetadataForNewSession` and
`serverInitRecvBlockCipherAndDecryptMetadata` with the variables that their
loops reuse between failed attempts.  Each `range` over the user map has an
order of its own.  Both searches find exactly the users whose keys open the
metadata, whatever the orders, so they agree with each other.
-/

namespace Mieru.Protocol

open Mieru.Foundation
open Mieru.Cipher

variable {nonce : Nonce} {rest key plaintext : Bytes} {block : BlockCipher} {part : List User}
  {user : User}

structure MapOrders (users : List User) where
  hints : List User
  fallback : List User
  hints_perm : hints.Perm users
  fallback_perm : fallback.Perm users

structure Search where
  matchedBlock : Option BlockCipher := none
  decryptedMeta : Bytes := []
  matchedUserName : String := ""

section

variable (crypto : Crypto) (keyList : Bytes → List Bytes)

/--
One loop of a search.  An attempt that fails resets the block and the
metadata; a password that does not decode is passed over.
-/
def Search.loop (encryptedMeta : Bytes) : List User → Search → Search
  | [], search => search
  | user :: rest, search =>
    match user.keyPassword crypto with
    | none => Search.loop encryptedMeta rest search
    | some password =>
      match tryDecrypt crypto keyList encryptedMeta password with
      | some (block, decrypted) =>
        { matchedBlock := some block
          decryptedMeta := decrypted
          matchedUserName := user.name }
      | none =>
        Search.loop encryptedMeta rest { search with matchedBlock := none, decryptedMeta := [] }

def Search.run {users : List User} (orders : MapOrders users)
    (userHintIsMandatory : Bool) (encryptedMeta : Bytes) (nonce : Nonce) : Outcome String Search :=
  (hintUsers crypto nonce orders.hints).bind fun hintUsers =>
    let search := Search.loop crypto keyList encryptedMeta hintUsers {}
    if search.matchedBlock.isNone && !userHintIsMandatory then
      .ok (Search.loop crypto keyList encryptedMeta orders.fallback search)
    else .ok search

def PacketUnderlay.serverTryDecryptMetadataForNewSession (u : PacketUnderlay)
    (orders : MapOrders u.users) (encryptedMeta : Bytes) (nonce : Nonce) :
    Outcome String (BlockCipher × Bytes) :=
  (Search.run crypto keyList orders u.userHintIsMandatory encryptedMeta nonce).bind fun search =>
      match search.matchedBlock with
      | none => .error "cipher.TryDecrypt() failed for all users"
      | some matchedBlock =>
        .ok (matchedBlock.setBlockContext ⟨search.matchedUserName⟩, search.decryptedMeta)

def StreamUnderlay.serverInitRecvBlockCipherAndDecryptMetadata
    (t : StreamUnderlay) (orders : MapOrders t.users) (encryptedMeta : Bytes) :
    Outcome String (Bytes × BlockCipher) :=
  if t.recv ≠ none then .error "recv cipher is already set"
  else if h : encryptedMeta.length < defaultNonceSize then
    .panic s!"slice bounds out of range [:{defaultNonceSize}]"
  else
    (Search.run crypto keyList orders t.userHintIsMandatory encryptedMeta
      (Nonce.ofFront encryptedMeta (Nonce.front_le h))).bind fun search =>
        match search.matchedBlock with
        | none => .error "cipher.TryDecrypt() failed for all users"
        | some matchedBlock =>
          let recv := (matchedBlock.setBlockContext
            ⟨search.matchedUserName⟩).setImplicitNonceMode true
          let opened := recv.decrypt crypto encryptedMeta
          match opened.1 with
          | .ok decryptedMeta => .ok (decryptedMeta, opened.2)
          | .error err => .error s!"stateful Decrypt() failed: {err}"
          | .panic message => .panic message

/-- No two users of the list have a key in common. -/
def DistinctKeys (users : List User) : Prop :=
  ∀ user ∈ users, ∀ other ∈ users, ∀ key,
    user.HasKey crypto keyList key → other.HasKey crypto keyList key → user = other

/-- What one of the users' keys opens, no other of their keys opens. -/
def WrongKeyFails (users : List User) : Prop :=
  ∀ user ∈ users, ∀ other ∈ users, ∀ key wrong,
    user.HasKey crypto keyList key → other.HasKey crypto keyList wrong →
      wrong ≠ key → ∀ nonce ciphertext plaintext,
        crypto.openWith key nonce ciphertext = some plaintext →
          crypto.openWith wrong nonce ciphertext = none

/-- The user's current keys open the metadata, and the hint is right. -/
structure Opens (mandatory : Bool) (nonce : Nonce) (rest : Bytes) (user : User)
    (key plaintext : Bytes) : Prop where
  hasKey : user.HasKey crypto keyList key
  opens : crypto.openWith key nonce.bytes rest = some plaintext
  hint : mandatory = true → checkUserFromHint crypto user.name nonce = .ok true

end

variable {crypto : Crypto} {keyList : Bytes → List Bytes}

def Search.result (search : Search) : Option (BlockCipher × Bytes) :=
  search.matchedBlock.map fun block =>
    (block.setBlockContext ⟨search.matchedUserName⟩, search.decryptedMeta)

theorem Search.result_loop {encryptedMeta : Bytes} {users : List User}
    {search : Search} (h : search.matchedBlock = none) :
    (Search.loop crypto keyList encryptedMeta users search).result =
      tryUsers crypto keyList encryptedMeta users := by
  -- A loop that starts without a match keeps none until an attempt succeeds.
  induction users generalizing search with
  | nil =>
    rw [loop, tryUsers, result, h]
    rfl
  | cons user rest ih =>
    rw [loop, tryUsers]
    cases user.keyPassword crypto with
    | none => exact ih h
    | some password =>
      dsimp only
      cases tryDecrypt crypto keyList encryptedMeta password with
      | none =>
        apply ih
        rfl
      | some found => rfl

theorem Search.result_eq_none {search : Search} :
    search.result = none ↔ search.matchedBlock = none := by
  rw [result, Option.map_eq_none_iff]

def Search.outcome (search : Search) : Outcome String (BlockCipher × Bytes) :=
  match search.result with
  | none => .error "cipher.TryDecrypt() failed for all users"
  | some matched => .ok matched

def MapOrders.same (users : List User) : MapOrders users :=
  ⟨users, users, .refl users, .refl users⟩

theorem Search.run_same (users : List User) (mandatory : Bool)
    (encryptedMeta : Bytes) (nonce : Nonce) :
    (Search.run crypto keyList (.same users) mandatory encryptedMeta nonce).bind Search.outcome =
      lookupUser crypto keyList users mandatory encryptedMeta nonce := by
  unfold Search.run lookupUser MapOrders.same
  dsimp only
  cases hintUsers crypto nonce users with
  | error err => rfl
  | panic message => rfl
  | ok hinted =>
    have hhinted : (Search.loop crypto keyList encryptedMeta hinted
        {}).result = tryUsers crypto keyList encryptedMeta hinted :=
      Search.result_loop rfl
    rw [Outcome.ok_bind, Outcome.ok_bind, ← hhinted]
    cases hfirst : (Search.loop crypto keyList encryptedMeta hinted {}).matchedBlock with
    | some block =>
      rw [Option.isNone_some, Bool.false_and, if_neg Bool.false_ne_true,
        Outcome.ok_bind, outcome, result, hfirst]
      rfl
    | none =>
      rw [Option.isNone_none, Bool.true_and, Search.result_eq_none.mpr hfirst]
      cases mandatory with
      | true =>
        rw [Bool.not_true, if_neg Bool.false_ne_true, Outcome.ok_bind,
          outcome, Search.result_eq_none.mpr hfirst]
        rfl
      | false =>
        rw [Bool.not_false, if_pos rfl, Outcome.ok_bind, outcome, Search.result_loop hfirst]
        cases tryUsers crypto keyList encryptedMeta users <;> rfl

theorem PacketUnderlay.serverTry_same (u : PacketUnderlay) (encryptedMeta : Bytes) (nonce : Nonce) :
    u.serverTryDecryptMetadataForNewSession crypto keyList (.same u.users) encryptedMeta nonce =
      lookupUser crypto keyList u.users u.userHintIsMandatory encryptedMeta nonce := by
  rw [← Search.run_same, serverTryDecryptMetadataForNewSession]
  congr 1
  funext search
  rw [Search.outcome, Search.result]
  cases search.matchedBlock <;> rfl

theorem StreamUnderlay.serverInit_same {t : StreamUnderlay}
    (hrecv : t.recv = none) (encryptedMeta : Bytes) :
    t.serverInitRecvBlockCipherAndDecryptMetadata crypto keyList (.same t.users) encryptedMeta =
      StreamInput.serverInitRecvBlockCipherAndDecryptMetadata crypto keyList t encryptedMeta := by
  rw [serverInitRecvBlockCipherAndDecryptMetadata, if_neg (not_not.mpr hrecv),
    StreamInput.serverInitRecvBlockCipherAndDecryptMetadata]
  split
  · rfl
  · rw [← Search.run_same]
    cases Search.run crypto keyList (.same t.users) t.userHintIsMandatory encryptedMeta _ with
    | error err => rfl
    | panic message => rfl
    | ok search =>
      rw [Outcome.ok_bind, Outcome.ok_bind, Search.outcome, Search.result]
      cases search.matchedBlock <;> rfl

section

variable {users : List User}

theorem Matches.unique (hdistinct : DistinctKeys crypto keyList users)
    (hfails : WrongKeyFails crypto keyList users) {decrypted decrypted' : Bytes}
    {block' : BlockCipher} (h : Matches crypto keyList users (nonce.bytes ++ rest) block decrypted)
    (h' : Matches crypto keyList users (nonce.bytes ++ rest) block' decrypted') :
    (block, decrypted) = (block', decrypted') := by
  obtain ⟨user, huser, key, hkey, rfl, hopen⟩ := h
  obtain ⟨other, hother, key', hkey', rfl, hopen'⟩ := h'
  rw [BlockCipher.decrypt_of_isStateless crypto rfl,
    BlockCipher.openResult_eq_ok_iff] at hopen hopen'
  have hsame : key' = key := by
    by_contra hne
    have hnone := hfails user huser other hother key key' hkey hkey' hne _ _ _ hopen
    rw [hnone] at hopen'
    cases hopen'
  subst hsame
  obtain rfl := hdistinct user huser other hother key' hkey hkey'
  obtain rfl := Option.some.inj (hopen.symm.trans hopen')
  rfl

theorem tryUsers_eq_some_iff (hdistinct : DistinctKeys crypto keyList users)
    (hfails : WrongKeyFails crypto keyList users) (hpart : part ⊆ users) {decrypted : Bytes} :
    tryUsers crypto keyList (nonce.bytes ++ rest) part = some (block, decrypted) ↔
      Matches crypto keyList part (nonce.bytes ++ rest) block decrypted := by
  refine ⟨tryUsers_eq_some, fun hmatches => ?_⟩
  obtain ⟨user, huser, key, hkey, -, hopen⟩ := id hmatches
  obtain ⟨⟨found, plaintext⟩, hfound⟩ :=
    Option.ne_none_iff_exists'.mp (tryUsers_ne_none huser hkey hopen)
  have hsame := Matches.unique hdistinct hfails
    ((tryUsers_eq_some hfound).mono hpart) (hmatches.mono hpart)
  rw [hfound, hsame]

theorem matches_of_opens {mandatory : Bool} (huser : user ∈ part)
    (h : Opens crypto keyList mandatory nonce rest user key plaintext) :
    Matches crypto keyList part (nonce.bytes ++ rest)
      { key := key, ctx := ⟨user.name⟩ } plaintext := by
  refine ⟨user, huser, key, h.hasKey, rfl, ?_⟩
  rw [BlockCipher.decrypt_of_isStateless crypto rfl, BlockCipher.openResult_eq_ok_iff]
  exact h.opens

theorem opens_of_matches {mandatory : Bool} (hpart : part ⊆ users)
    (hhint : mandatory = true → ∀ user ∈ part, checkUserFromHint crypto user.name nonce = .ok true)
    (h : Matches crypto keyList part (nonce.bytes ++ rest) block plaintext) :
    ∃ user ∈ users, ∃ key, Opens crypto keyList mandatory nonce rest user key plaintext ∧
        block = { key := key, ctx := ⟨user.name⟩ } := by
  obtain ⟨user, huser, key, hkey, hblock, hopen⟩ := h
  rw [BlockCipher.decrypt_of_isStateless crypto rfl, BlockCipher.openResult_eq_ok_iff] at hopen
  exact ⟨user, hpart huser, key,
    ⟨hkey, hopen, fun hmandatory => hhint hmandatory user huser⟩, hblock⟩

variable (hnamed : ∀ user ∈ users, user.name ≠ "") (hdistinct : DistinctKeys crypto keyList users)
  (hfails : WrongKeyFails crypto keyList users)

include hnamed

theorem checkUserFromHint_eq_ok (huser : user ∈ users) :
    checkUserFromHint crypto user.name nonce = .ok true ↔ hintMatches crypto nonce user = true := by
  rw [checkUserFromHint, if_neg (hnamed user huser), hintMatches, Outcome.ok.injEq]

include hdistinct hfails

theorem Search.run_spec (orders : MapOrders users) (mandatory : Bool)
    (nonce : Nonce) (rest : Bytes) :
    ∃ search, Search.run crypto keyList orders mandatory (nonce.bytes ++ rest) nonce = .ok search ∧
      ∀ block plaintext, search.result = some (block, plaintext) ↔ ∃ user ∈ users, ∃ key,
          Opens crypto keyList mandatory nonce rest user key plaintext ∧
            block = { key := key, ctx := ⟨user.name⟩ } := by
  have hhinted : ∀ user, user ∈ orders.hints.filter (hintMatches crypto nonce) ↔
        user ∈ users ∧ hintMatches crypto nonce user = true := by
    intro user
    rw [List.mem_filter, orders.hints_perm.mem_iff]
  have hsubset : orders.hints.filter (hintMatches crypto nonce) ⊆ users :=
    fun user huser => ((hhinted user).mp huser).1
  have hfirst : (Search.loop crypto keyList (nonce.bytes ++ rest)
      (orders.hints.filter (hintMatches crypto nonce)) {}).result =
        tryUsers crypto keyList (nonce.bytes ++ rest)
          (orders.hints.filter (hintMatches crypto nonce)) :=
    Search.result_loop rfl
  rw [Search.run, hintUsers_eq_ok fun user huser =>
    hnamed user (orders.hints_perm.mem_iff.mp huser), Outcome.ok_bind]
  dsimp only
  split
  · rename_i hcond
    rw [Bool.and_eq_true, Option.isNone_iff_eq_none, Bool.not_eq_true'] at hcond
    obtain ⟨hnone, rfl⟩ := hcond
    refine ⟨_, rfl, fun block plaintext => ?_⟩
    rw [Search.result_loop hnone, tryUsers_eq_some_iff hdistinct hfails orders.fallback_perm.subset]
    constructor
    · exact opens_of_matches orders.fallback_perm.subset fun hmandatory => by cases hmandatory
    · rintro ⟨user, huser, key, hopens, rfl⟩
      exact matches_of_opens (orders.fallback_perm.mem_iff.mpr huser) hopens
  · rename_i hcond
    refine ⟨_, rfl, fun block plaintext => ?_⟩
    rw [hfirst]
    constructor
    · intro hfound
      refine opens_of_matches hsubset (fun _ user huser => ?_) (tryUsers_eq_some hfound)
      have huser := (hhinted user).mp huser
      exact (checkUserFromHint_eq_ok hnamed huser.1).mpr huser.2
    · rintro ⟨user, huser, key, hopens, rfl⟩
      cases hmandatory : mandatory with
      | true =>
        rw [tryUsers_eq_some_iff hdistinct hfails hsubset]
        have hhint := (checkUserFromHint_eq_ok hnamed huser).mp (hopens.hint hmandatory)
        exact matches_of_opens ((hhinted user).mpr ⟨huser, hhint⟩) hopens
      | false =>
        -- The hinted users had a match, which is the only one there is.
        rw [hmandatory, Bool.not_false, Bool.and_true,
          Option.isNone_iff_eq_none, ← Search.result_eq_none, hfirst] at hcond
        obtain ⟨⟨found, decrypted⟩, hfound⟩ :=
          Option.ne_none_iff_exists'.mp hcond
        rw [hfound, Matches.unique hdistinct hfails ((tryUsers_eq_some hfound).mono hsubset)
          (matches_of_opens huser hopens)]

end

theorem PacketUnderlay.serverTry_eq_ok {u : PacketUnderlay}
    (hnamed : ∀ user ∈ u.users, user.name ≠ "") (hdistinct : DistinctKeys crypto keyList u.users)
    (hfails : WrongKeyFails crypto keyList u.users) (orders : MapOrders u.users) :
    u.serverTryDecryptMetadataForNewSession crypto keyList orders
        (nonce.bytes ++ rest) nonce = .ok (block, plaintext) ↔
      ∃ user ∈ u.users, ∃ key,
        Protocol.Opens crypto keyList u.userHintIsMandatory nonce rest user key plaintext ∧
          block = { key := key, ctx := ⟨user.name⟩ } := by
  obtain ⟨search, hrun, hresult⟩ := Search.run_spec hnamed hdistinct hfails
    orders u.userHintIsMandatory nonce rest
  rw [← hresult, serverTryDecryptMetadataForNewSession, hrun, Outcome.ok_bind, Search.result]
  cases search.matchedBlock <;> simp

theorem StreamUnderlay.serverInit_eq_ok {t : StreamUnderlay}
    (hrecv : t.recv = none) (hnamed : ∀ user ∈ t.users, user.name ≠ "")
    (hdistinct : DistinctKeys crypto keyList t.users)
    (hfails : WrongKeyFails crypto keyList t.users)
    (orders : MapOrders t.users) {recv : BlockCipher} :
    t.serverInitRecvBlockCipherAndDecryptMetadata crypto keyList orders
        (nonce.bytes ++ rest) = .ok (plaintext, recv) ↔
      ∃ user ∈ t.users, ∃ key, Opens crypto keyList t.userHintIsMandatory nonce rest user key
            plaintext ∧
          recv = { key := key, enableImplicitNonce := true,
                   implicitNonce := some nonce, ctx := ⟨user.name⟩ } := by
  obtain ⟨search, hrun, hresult⟩ := Search.run_spec hnamed hdistinct hfails
    orders t.userHintIsMandatory nonce rest
  have hlong : ¬ (nonce.bytes ++ rest).length < defaultNonceSize := by
    rw [List.length_append, nonce.length_bytes]
    omega
  rw [serverInitRecvBlockCipherAndDecryptMetadata, if_neg (not_not.mpr hrecv),
    dif_neg hlong, Nonce.ofFront_append, hrun, Outcome.ok_bind]
  cases hmatched : search.matchedBlock with
  | none =>
    have hnone := Search.result_eq_none.mpr hmatched
    refine ⟨fun h => (by cases h), ?_⟩
    rintro ⟨user, huser, key, hopens, -⟩
    have hsome := (hresult _ _).mpr ⟨user, huser, key, hopens, rfl⟩
    rw [hnone] at hsome
    cases hsome
  | some matched =>
    have hsome : search.result = some (matched.setBlockContext
        ⟨search.matchedUserName⟩, search.decryptedMeta) := by
      rw [Search.result, hmatched]
      rfl
    obtain ⟨user, huser, key, hopens, hblock⟩ := (hresult _ _).mp hsome
    dsimp only
    rw [hblock, BlockCipher.decrypt_first crypto rfl rfl]
    simp only [BlockCipher.setImplicitNonceMode, hopens.opens,
      BlockCipher.openResult_some, if_true, Outcome.ok.injEq, Prod.mk.injEq]
    constructor
    · rintro ⟨rfl, rfl⟩
      exact ⟨user, huser, key, hopens, rfl⟩
    · rintro ⟨other, hother, key', hopens', rfl⟩
      have hsame := (hresult _ _).mpr ⟨other, hother, key', hopens', rfl⟩
      rw [hsome, hblock] at hsame
      simp only [Option.some.injEq, Prod.mk.injEq, BlockCipher.mk.injEq,
        BlockContext.mk.injEq] at hsame
      obtain ⟨⟨rfl, -, -, hname⟩, rfl⟩ := hsame
      exact ⟨rfl, by rw [hname]⟩

theorem encrypt_sends_hint (hlawful : crypto.Lawful) {c : BlockCipher} (hname : c.ctx.userName ≠ "")
    (hsends : c.enableImplicitNonce = true → c.implicitNonce = none)
    (fresh : Nonce) (plaintext : Bytes) :
    ∃ sent : Nonce, (c.encrypt crypto fresh plaintext).bytes =
        sent.bytes ++ crypto.sealWith c.key sent.bytes plaintext ∧
      checkUserFromHint crypto c.ctx.userName sent = .ok true := by
  refine ⟨c.addUserHintToNonce crypto fresh, ?_, ?_⟩
  · unfold BlockCipher.encrypt
    split
    · rename_i himplicit
      rw [hsends himplicit]
    · rfl
  · have hmatches : hintMatches crypto (c.addUserHintToNonce crypto fresh)
        { name := c.ctx.userName } = true :=
      hintMatches_addUserHint hlawful rfl hname fresh
    rw [checkUserFromHint, if_neg hname]
    exact congrArg Outcome.ok hmatches

/--
Both lookups accept exactly the metadata that a current key of some user
opens, with that user's name and plaintext, whatever orders the map is ranged
over in; and the nonce of a sender that has a user name and a valid nonce
pattern, or none, passes the hint check of that user.
-/
theorem userLookup_iff (hlawful : crypto.Lawful) (u : PacketUnderlay)
    (t : StreamUnderlay) (husers : t.users = u.users)
    (hmandatory : t.userHintIsMandatory = u.userHintIsMandatory)
    (hrecv : t.recv = none) (hnamed : ∀ user ∈ u.users, user.name ≠ "")
    (hdistinct : DistinctKeys crypto keyList u.users)
    (hfails : WrongKeyFails crypto keyList u.users) : (∀ (nonce : Nonce) (rest plaintext : Bytes),
      (∀ (orders : MapOrders u.users) (block : BlockCipher),
        u.serverTryDecryptMetadataForNewSession crypto keyList orders
            (nonce.bytes ++ rest) nonce = .ok (block, plaintext) ↔
          ∃ user ∈ u.users, ∃ key, Opens crypto keyList u.userHintIsMandatory nonce rest user key
                plaintext ∧
              block = { key := key, ctx := ⟨user.name⟩ }) ∧
      (∀ (orders : MapOrders t.users) (recv : BlockCipher),
        t.serverInitRecvBlockCipherAndDecryptMetadata crypto keyList orders
            (nonce.bytes ++ rest) = .ok (plaintext, recv) ↔
          ∃ user ∈ u.users, ∃ key, Opens crypto keyList u.userHintIsMandatory nonce rest user key
                plaintext ∧
              recv = { key := key, enableImplicitNonce := true,
                       implicitNonce := some nonce, ctx := ⟨user.name⟩ })) ∧
    ∀ (draws : PaddingDraws) (applied : Bool)
      (pattern : Option Appctlpb.NoncePattern) (c : BlockCipher)
      (plaintext : Bytes),
      (∀ valid, pattern = some valid → Appctlpb.validateNoncePattern valid = .ok ()) →
      c.ctx.userName ≠ "" →
      (c.enableImplicitNonce = true → c.implicitNonce = none) →
      ∃ fresh after, newNonce draws c.enableImplicitNonce applied pattern =
          .ok (fresh.bytes, after) ∧
        ∃ sent : Nonce, (c.encrypt crypto fresh plaintext).bytes =
            sent.bytes ++ crypto.sealWith c.key sent.bytes plaintext ∧
          checkUserFromHint crypto c.ctx.userName sent = .ok true := by
  refine ⟨fun nonce rest plaintext => ⟨fun orders block => ?_, fun orders recv => ?_⟩, ?_⟩
  · exact u.serverTry_eq_ok hnamed hdistinct hfails orders
  · rw [← husers, ← hmandatory]
    rw [← husers] at hnamed hdistinct hfails
    exact t.serverInit_eq_ok hrecv hnamed hdistinct hfails orders
  · intro draws applied pattern c plaintext hvalid hname hsends
    obtain ⟨bytes, after, hdrawn, hlength⟩ :=
      newNonce_ok draws c.enableImplicitNonce applied hvalid
    exact ⟨⟨bytes, hlength⟩, after, hdrawn, encrypt_sends_hint hlawful hname hsends _ plaintext⟩

def pairUsers : List User :=
  [{ name := "alice", hashedPassword := "01" }, { name := "bob", hashedPassword := "02" }]

def pairOrders : MapOrders pairUsers where
  hints := pairUsers.reverse
  fallback := pairUsers.reverse
  hints_perm := List.reverse_perm pairUsers
  fallback_perm := List.reverse_perm pairUsers

def pairPacketServer : PacketUnderlay where
  base := { transport := .packetTransport, isClient := false, mtu := 1400 }
  users := pairUsers

def pairStreamServer : StreamUnderlay where
  isClient := false
  mtu := 1400
  users := pairUsers

theorem pairUsers_hasKey (h : user.HasKey tagCrypto passwordKeys key) :
    user.keyPassword tagCrypto = some key := by
  obtain ⟨password, hpassword, hkey⟩ := h
  obtain rfl := List.mem_singleton.mp hkey
  exact hpassword

theorem tagCrypto_wrong {wrong nonce ciphertext : Bytes} (hne : keyTag wrong ≠ keyTag key)
    (h : tagCrypto.openWith key nonce ciphertext = some plaintext) :
    tagCrypto.openWith wrong nonce ciphertext = none := by
  simp only [tagCrypto] at h ⊢
  split at h
  · rename_i hkey
    refine if_neg fun hwrong => hne ?_
    exact List.append_cancel_left (hwrong.symm.trans hkey)
  · cases h

theorem pairUsers_distinctKeys : DistinctKeys tagCrypto passwordKeys pairUsers := by
  intro user huser other hother key hkey hother'
  have hsame : ∀ user ∈ pairUsers, ∀ other ∈ pairUsers,
      user.keyPassword tagCrypto = other.keyPassword tagCrypto → user = other := by decide +kernel
  exact hsame user huser other hother
    ((pairUsers_hasKey hkey).trans (pairUsers_hasKey hother').symm)

theorem pairUsers_wrongKeyFails : WrongKeyFails tagCrypto passwordKeys pairUsers := by
  intro user huser other hother key wrong hkey hwrong hne nonce ciphertext plaintext hopen
  have htags : ∀ user ∈ pairUsers, ∀ other ∈ pairUsers, (other.keyPassword tagCrypto).map keyTag =
        (user.keyPassword tagCrypto).map keyTag →
          other.keyPassword tagCrypto = user.keyPassword tagCrypto := by
    decide +kernel
  refine tagCrypto_wrong (fun htag => hne ?_) hopen
  have hsame := htags user huser other hother
  rw [pairUsers_hasKey hkey, pairUsers_hasKey hwrong] at hsame
  exact Option.some.inj (hsame (congrArg some htag))

def zeroNonce : Nonce := ⟨List.replicate 24 0, rfl⟩

/-- What a user sealed without a hint is found by the second loops. -/
theorem userLookup_iff_pair : pairPacketServer.serverTryDecryptMetadataForNewSession tagCrypto
        passwordKeys pairOrders (zeroNonce.bytes ++ tagCrypto.sealWith [1] zeroNonce.bytes [5])
        zeroNonce =
      .ok ({ key := [1], ctx := ⟨"alice"⟩ }, [5]) ∧
    pairStreamServer.serverInitRecvBlockCipherAndDecryptMetadata tagCrypto passwordKeys pairOrders
        (zeroNonce.bytes ++ tagCrypto.sealWith [1] zeroNonce.bytes [5]) =
      .ok ([5], { key := [1], enableImplicitNonce := true,
                  implicitNonce := some zeroNonce, ctx := ⟨"alice"⟩ }) := by
  have hnamed : ∀ user ∈ pairPacketServer.users, user.name ≠ "" := by
    decide +kernel
  obtain ⟨hlookup, -⟩ := userLookup_iff tagCrypto_lawful pairPacketServer
    pairStreamServer rfl rfl rfl hnamed pairUsers_distinctKeys
    pairUsers_wrongKeyFails
  obtain ⟨hpacket, hstream⟩ := hlookup zeroNonce (tagCrypto.sealWith [1] zeroNonce.bytes [5]) [5]
  have hopens : Opens tagCrypto passwordKeys false zeroNonce
      (tagCrypto.sealWith [1] zeroNonce.bytes [5])
      { name := "alice", hashedPassword := "01" } [1] [5] :=
    ⟨⟨[1], by decide +kernel, by decide⟩, by decide +kernel, fun h => by cases h⟩
  exact ⟨(hpacket _ _).mpr ⟨_, List.mem_cons_self, [1], hopens, rfl⟩,
    (hstream _ _).mpr ⟨_, List.mem_cons_self, [1], hopens, rfl⟩⟩

end Mieru.Protocol
