import Mieru.Cipher.KeyGen
import Mieru.Cipher.UserLookup
import Mieru.Foundation.TransitionSystem

/-!
# The key cache

`getBlockCipherList` keeps the ciphers of a password for up to thirty seconds.
A process is its clock, which does not go back, and its cache; calls of several
goroutines can read the clock in one order and store their lists in another.
Whatever the caches hold, a client and a server whose clocks are close have a
key in common, and with clocks far apart they have none.
-/

namespace Mieru.Cipher

open Mieru.Foundation

variable {password : Bytes} {entry : CachedCiphers}

def cacheValidInterval : Int := 30000000000
def cacheValidMaxJitterMs : Nat := 5000

structure CachedCiphers where
  cipherList : List BlockCipher
  createTime : Int
  deriving DecidableEq

/-- `inFlight` are lists that a call has made and not stored yet. -/
structure KeyCache where
  now : Int
  entries : Bytes → Option CachedCiphers := fun _ => none
  inFlight : List (Bytes × CachedCiphers) := []

namespace KeyCache

section

variable (kdf : KeyDerivation)

/-- `createTime.Add(cacheValidInterval - jitter).Before(time.Now())`. -/
def expired (cache : KeyCache) (jitter : Fin cacheValidMaxJitterMs)
    (entry : CachedCiphers) : Bool :=
  entry.createTime + (cacheValidInterval - jitter.val * 1000000) < cache.now

def store (cache : KeyCache) (password : Bytes) (entry : CachedCiphers) : KeyCache :=
  { cache with
    entries := fun pw => if pw = password then some entry else cache.entries pw }

def withMode (stateless : Bool) (blocks : List BlockCipher) : List BlockCipher :=
  if stateless then blocks else blocks.map fun block =>
    block.setImplicitNonceMode true

def load (cache : KeyCache) (jitter : Fin cacheValidMaxJitterMs)
    (password : Bytes) : Option CachedCiphers :=
  (cache.entries password).filter fun entry => !cache.expired jitter entry

def getBlockCipherList (cache : KeyCache) (jitter : Fin cacheValidMaxJitterMs)
    (password : Bytes) (stateless : Bool) : Outcome String (List BlockCipher) × KeyCache :=
  match cache.load jitter password with
  | some entry => (.ok (withMode stateless entry.cipherList), cache)
  | none =>
    match newBlockCipherList kdf cache.now password true with
    | .ok blockCiphers =>
      (.ok (withMode stateless blockCiphers), cache.store password ⟨blockCiphers, cache.now⟩)
    | .error err => (.error s!"newBlockCipherList() failed: {err}", cache)
    | .panic message => (.panic message, cache)

def blockCipherFromPassword (cache : KeyCache) (jitter : Fin cacheValidMaxJitterMs)
    (password : Bytes) (stateless : Bool) : Outcome String BlockCipher :=
  (cache.getBlockCipherList kdf jitter password stateless).1.bind fun cipherList =>
      match cipherList[1]? with
      | some block => .ok block
      | none => .panic "index out of range [1]"

end

inductive CacheEvent where
  | advance (elapsed : Nat)
  | call (jitter : Fin cacheValidMaxJitterMs) (password : Bytes) (stateless : Bool)
  /-- A call that missed the cache reads the clock and makes its list. -/
  | generate (password : Bytes)
  /-- One of the lists in flight is stored, over whatever is there. -/
  | finish (index : Nat)

section

variable (kdf : KeyDerivation)

def next (cache : KeyCache) : CacheEvent → Option KeyCache
  | .advance elapsed =>
    if InRange (cache.now + elapsed) then
      some { cache with now := cache.now + elapsed }
    else none
  | .call jitter password stateless =>
    some (cache.getBlockCipherList kdf jitter password stateless).2
  | .generate password =>
    match newBlockCipherList kdf cache.now password true with
    | .ok blockCiphers =>
      some { cache with
        inFlight := (password, ⟨blockCiphers, cache.now⟩) :: cache.inFlight }
    | _ => none
  | .finish index =>
    match cache.inFlight[index]? with
    | some (password, entry) =>
      some { cache.store password entry with
        inFlight := cache.inFlight.eraseIdx index }
    | none => none

def Starts (cache : KeyCache) : Prop :=
  InRange cache.now ∧ (∀ password, cache.entries password = none) ∧ cache.inFlight = []

def system : System KeyCache CacheEvent :=
  System.ofNext Starts (next kdf)

structure Genuine (now : Int) (password : Bytes) (entry : CachedCiphers) :
    Prop where
  made : newBlockCipherList kdf entry.createTime password true = .ok entry.cipherList
  past : entry.createTime ≤ now
  inRange : InRange entry.createTime

structure Inv (cache : KeyCache) : Prop where
  inRange : InRange cache.now
  entries : ∀ password entry, cache.entries password = some entry →
    Genuine kdf cache.now password entry
  inFlight : ∀ password entry, (password, entry) ∈ cache.inFlight →
    Genuine kdf cache.now password entry

end

variable {kdf : KeyDerivation} {cache cache' : KeyCache}

theorem Genuine.later {now later : Int} (h : Genuine kdf now password entry)
    (hlater : now ≤ later) : Genuine kdf later password entry :=
  ⟨h.made, Int.le_trans h.past hlater, h.inRange⟩

theorem Inv.store (hinv : Inv kdf cache) (hentry : Genuine kdf cache.now password entry) :
    Inv kdf (cache.store password entry) := by
  refine ⟨hinv.inRange, ?_, hinv.inFlight⟩
  intro pw found hfound
  simp only [KeyCache.store] at hfound
  split at hfound
  · rename_i hpw
    cases hfound
    rw [hpw]
    exact hentry
  · exact hinv.entries pw found hfound

theorem Inv.getBlockCipherList (hinv : Inv kdf cache) (jitter : Fin cacheValidMaxJitterMs)
    (password : Bytes) (stateless : Bool) :
    Inv kdf (cache.getBlockCipherList kdf jitter password stateless).2 := by
  unfold KeyCache.getBlockCipherList
  split
  · exact hinv
  · split
    · rename_i blockCiphers hmade
      exact hinv.store ⟨hmade, Int.le_refl _, hinv.inRange⟩
    · exact hinv
    · exact hinv

theorem Inv.next (hinv : Inv kdf cache) {event : CacheEvent}
    (h : cache.next kdf event = some cache') : Inv kdf cache' := by
  cases event with
  | advance elapsed =>
    obtain ⟨hrange, h⟩ := Option.ite_none_right_eq_some.mp h
    cases h
    have hlater : cache.now ≤ cache.now + elapsed :=
      Int.le_add_of_nonneg_right (Int.natCast_nonneg elapsed)
    exact ⟨hrange, fun pw entry hentry => (hinv.entries pw entry hentry).later hlater,
      fun pw entry hentry => (hinv.inFlight pw entry hentry).later hlater⟩
  | call jitter password stateless =>
    cases h
    exact hinv.getBlockCipherList jitter password stateless
  | generate password =>
    simp only [KeyCache.next] at h
    split at h
    · rename_i blockCiphers hmade
      cases h
      refine ⟨hinv.inRange, hinv.entries, ?_⟩
      intro pw entry hentry
      obtain heq | hentry := List.mem_cons.mp hentry
      · cases heq
        exact ⟨hmade, Int.le_refl _, hinv.inRange⟩
      · exact hinv.inFlight pw entry hentry
    · cases h
  | finish index =>
    simp only [KeyCache.next] at h
    split at h
    · rename_i password entry hindex
      cases h
      have hmem : (password, entry) ∈ cache.inFlight :=
        List.mem_of_getElem? hindex
      have hstored := hinv.store (hinv.inFlight password entry hmem)
      refine ⟨hstored.inRange, hstored.entries, ?_⟩
      intro pw other hother
      exact hinv.inFlight pw other (List.mem_of_mem_eraseIdx hother)
    · cases h

theorem inv_of_reachable (h : (system kdf).Reachable cache) : Inv kdf cache := by
  refine System.Reachable.invariant (P := Inv kdf) ?_ ?_ h
  · rintro start ⟨hrange, hentries, hinFlight⟩
    refine ⟨hrange, ?_, ?_⟩
    · intro password entry hentry
      rw [hentries] at hentry
      cases hentry
    · intro password entry hentry
      rw [hinFlight] at hentry
      cases hentry
  · intro state event after hinv hstep
    exact hinv.next hstep

def ciphersOf (keys : List Bytes) : List BlockCipher :=
  keys.map fun key => { key := key }

theorem key_withMode (stateless : Bool) (keys : List Bytes) :
    (withMode stateless (ciphersOf keys)).map BlockCipher.key = keys := by
  cases stateless with
  | true =>
    rw [withMode, if_pos rfl, ciphersOf, List.map_map]
    exact List.map_id keys
  | false =>
    rw [withMode, if_neg Bool.false_ne_true, ciphersOf, List.map_map, List.map_map]
    exact List.map_id keys

theorem load_eq_some {jitter : Fin cacheValidMaxJitterMs}
    (h : cache.load jitter password = some entry) :
    cache.entries password = some entry ∧ cache.now ≤ entry.createTime + cacheValidInterval := by
  obtain ⟨hentry, hvalid⟩ := Option.filter_eq_some_iff.mp h
  refine ⟨hentry, ?_⟩
  simp only [expired, Bool.not_eq_true', decide_eq_false_iff_not] at hvalid
  omega

theorem getBlockCipherList_spec (hkdf : kdf.Lawful) (hinv : Inv kdf cache)
    (hpassword : password ≠ []) (jitter : Fin cacheValidMaxJitterMs) :
    ∃ t, t ≤ cache.now ∧ cache.now ≤ t + cacheValidInterval ∧ InRange t ∧ ∀ stateless,
        (cache.getBlockCipherList kdf jitter password stateless).1 =
          .ok (withMode stateless (ciphersOf (keysAt kdf password t))) := by
  unfold KeyCache.getBlockCipherList
  cases hload : cache.load jitter password with
  | some entry =>
    obtain ⟨hentry, hvalid⟩ := load_eq_some hload
    have hgenuine := hinv.entries password entry hentry
    have hmade := hgenuine.made
    rw [newBlockCipherList_eq_ok hkdf hpassword] at hmade
    refine ⟨entry.createTime, hgenuine.past, hvalid, hgenuine.inRange, ?_⟩
    intro stateless
    rw [ciphersOf, Outcome.ok.inj hmade]
  | none =>
    rw [newBlockCipherList_eq_ok hkdf hpassword]
    refine ⟨cache.now, Int.le_refl _, ?_, hinv.inRange, fun stateless => rfl⟩
    unfold cacheValidInterval
    omega

theorem blockCipherFromPassword_spec (hkdf : kdf.Lawful) (hinv : Inv kdf cache)
    (hpassword : password ≠ []) (jitter : Fin cacheValidMaxJitterMs) (stateless : Bool) :
    ∃ t block, cache.blockCipherFromPassword kdf jitter password stateless = .ok block ∧
      block.key = slotKey kdf password (slot t) ∧
      t ≤ cache.now ∧ cache.now ≤ t + cacheValidInterval ∧ InRange t := by
  obtain ⟨t, hpast, hage, hrange, hlist⟩ :=
    getBlockCipherList_spec hkdf hinv hpassword jitter
  have hmiddle : ((withMode stateless (ciphersOf (keysAt kdf password t))).map
      BlockCipher.key)[1]? = some (slotKey kdf password (slot t)) := by
    rw [key_withMode]
    rfl
  rw [List.getElem?_map] at hmiddle
  obtain ⟨block, hblock, hkey⟩ := Option.map_eq_some_iff.mp hmiddle
  refine ⟨t, block, ?_, hkey, hpast, hage, hrange⟩
  rw [blockCipherFromPassword, hlist, Outcome.ok_bind, hblock]

/--
The middle key of the client is one of the keys the server tries when the
clocks are at most ninety seconds apart, and not one of them from two hundred
and seventy seconds on.
-/
theorem key_agreement (hkdf : kdf.Lawful) {client server : KeyCache}
    (hclient : (system kdf).Reachable client)
    (hserver : (system kdf).Reachable server) {password : Bytes} (hpassword : password ≠ [])
    (clientJitter serverJitter : Fin cacheValidMaxJitterMs)
    (clientStateless serverStateless : Bool) :
    ∃ block blocks, client.blockCipherFromPassword kdf clientJitter password
        clientStateless = .ok block ∧
      (server.getBlockCipherList kdf serverJitter password serverStateless).1 = .ok blocks ∧
      blocks.length = 3 ∧
      ((client.now - server.now).natAbs ≤ 90000000000 → block.key ∈ blocks.map BlockCipher.key) ∧
      (270000000000 ≤ (client.now - server.now).natAbs →
        block.key ∉ blocks.map BlockCipher.key) := by
  obtain ⟨s, block, hblock, hkey, hspast, hsage, hsrange⟩ :=
    blockCipherFromPassword_spec hkdf (inv_of_reachable hclient) hpassword
      clientJitter clientStateless
  obtain ⟨t, htpast, htage, htrange, hlist⟩ :=
    getBlockCipherList_spec hkdf (inv_of_reachable hserver) hpassword serverJitter
  have hkeys := key_withMode serverStateless (keysAt kdf password t)
  have hlength := congrArg List.length hkeys
  rw [List.length_map] at hlength
  unfold cacheValidInterval at hsage htage
  refine ⟨block, _, hblock, hlist serverStateless, hlength, ?_, ?_⟩
  · intro hnear
    rw [hkey, hkeys, slotKey_mem_keysAt hkdf hsrange htrange]
    exact slot_near (by omega)
  · intro hfar
    rw [hkey, hkeys, slotKey_mem_keysAt hkdf hsrange htrange]
    obtain ⟨hbefore, hsame, hafter⟩ := slot_far (s := s) (t := t) (by omega)
    rintro (hslot | hslot | hslot)
    · exact hbefore hslot
    · exact hsame hslot
    · exact hafter hslot

def saltKeys : KeyDerivation where
  sha256 data := (data ++ List.replicate 32 0).take 32
  pbkdf2Key _ salt := (salt ++ List.replicate 32 0).take 32

theorem saltKeys_lawful : saltKeys.Lawful where
  length_sha256 data := by simp [saltKeys]
  length_pbkdf2Key password salt := by simp [saltKeys, defaultKeyLen]
  distinct_salts word other h := by
    have hpad : ∀ word : UInt64, saltKeys.sha256 (putUint64 word) =
        putUint64 word ++ List.replicate 24 0 := fun word => rfl
    rw [hpad, hpad] at h
    exact putUint64_injective (List.append_cancel_right h)
  distinct_keys password salt other hsalt hother h := by
    simp only [saltKeys] at h
    rwa [List.take_left' hsalt, List.take_left' hother] at h

theorem reachable_start {kdf : KeyDerivation} {now : Int} (h : InRange now) :
    (system kdf).Reachable { now := now } :=
  System.Reachable.init ⟨h, fun _ => rfl, rfl⟩

def noJitter : Fin cacheValidMaxJitterMs := ⟨0, by decide⟩

def agedClient : KeyCache :=
  { ({ now := 0 } : KeyCache).getBlockCipherList saltKeys noJitter [1] true |>.2 with
    now := 30000000000 }

theorem agedClient_reachable : (system saltKeys).Reachable agedClient := by
  have hcall : (system saltKeys).step { now := 0 } (.call noJitter [1] true)
      (({ now := 0 } : KeyCache).getBlockCipherList saltKeys noJitter [1] true).2 :=
    rfl
  have hadvance : (system saltKeys).step
      (({ now := 0 } : KeyCache).getBlockCipherList saltKeys noJitter [1] true).2
      (.advance 30000000000) agedClient := rfl
  exact ((reachable_start (by decide)).step hcall).step hadvance

theorem key_agreement_edges : (∃ block blocks,
      agedClient.blockCipherFromPassword saltKeys noJitter [1] false = .ok block ∧
      (({ now := 120000000000 } : KeyCache).getBlockCipherList saltKeys noJitter [1]
        true).1 = .ok blocks ∧
      block.key ∈ blocks.map BlockCipher.key) ∧
    ∃ block blocks, agedClient.blockCipherFromPassword saltKeys noJitter [1] false = .ok block ∧
      (({ now := 300000000000 } : KeyCache).getBlockCipherList saltKeys noJitter [1]
        true).1 = .ok blocks ∧
      block.key ∉ blocks.map BlockCipher.key := by
  constructor
  · have hserver : (system saltKeys).Reachable { now := 120000000000 } :=
      reachable_start (by decide)
    obtain ⟨block, blocks, hblock, hblocks, -, hnear, -⟩ :=
      key_agreement saltKeys_lawful agedClient_reachable hserver
        (List.cons_ne_nil 1 []) noJitter noJitter false true
    exact ⟨block, blocks, hblock, hblocks, hnear (by decide)⟩
  · have hserver : (system saltKeys).Reachable { now := 300000000000 } :=
      reachable_start (by decide)
    obtain ⟨block, blocks, hblock, hblocks, -, -, hfar⟩ :=
      key_agreement saltKeys_lawful agedClient_reachable hserver
        (List.cons_ne_nil 1 []) noJitter noJitter false true
    exact ⟨block, blocks, hblock, hblocks, hfar (by decide)⟩

end KeyCache

end Mieru.Cipher
