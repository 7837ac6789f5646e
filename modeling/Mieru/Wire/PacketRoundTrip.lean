import Mieru.Underlay.PacketWrite
import Mieru.Wire.ParserSafety

/-!
# The packet wire round trip

A datagram written by one packet underlay is read back by another that holds
the key, unless the clock check or the replay cache of the reader rejects it.
-/

namespace Mieru.Protocol

open Mieru.Foundation
open Mieru.Cipher
open ProtocolType

variable {block : BlockCipher}

/-- The received segment has the content of the one sent. -/
structure Segment.SameContent (sent received : Segment) : Prop where
  metadata : sent.metadata.SameContent received.metadata
  payload : received.payload = sent.payload

/-- A segment as the session layer makes it for a transport. -/
structure Segment.Sendable (seg : Segment) (mtu : Nat) (transport : TransportProtocol) : Prop where
  typed : seg.metadata.Typed
  payloadLen : seg.metadata.payloadLen.toNat = seg.payload.length
  length_le : seg.payload.length ≤ maxFragmentSize mtu transport

theorem hintMatches_addUserHint {crypto : Crypto} (hlawful : crypto.Lawful)
    {user : User} (hname : block.ctx.userName = user.name)
    (hnamed : user.name ≠ "") (fresh : Nonce) :
    hintMatches crypto (block.addUserHintToNonce crypto fresh) user = true := by
  have hfresh := fresh.length_bytes
  have hlength : (userHint crypto user.name fresh).length =
      nonceSuffixLenForUserHint := by
    rw [userHint, List.length_take, hlawful.length_sha256]
    rfl
  -- The hint replaces the last four bytes and is computed from the first sixteen.
  have hbytes : (block.addUserHintToNonce crypto fresh).bytes =
      fresh.bytes.take 20 ++ userHint crypto user.name fresh := by
    simp only [BlockCipher.addUserHintToNonce, hname, if_neg hnamed,
      defaultNonceSize, nonceSuffixLenForUserHint] at hfresh hlength ⊢
    rw [hlength, List.drop_of_length_le (by omega), List.append_nil]
  have hfront : (block.addUserHintToNonce crypto fresh).bytes.take noncePrefixLenForUserHint =
        fresh.bytes.take noncePrefixLenForUserHint := by
    rw [hbytes, List.take_append_of_le_length (by
      rw [List.length_take, hfresh]; decide), List.take_take]
    rfl
  have hback : (block.addUserHintToNonce crypto fresh).bytes.drop
      (defaultNonceSize - nonceSuffixLenForUserHint) = userHint crypto user.name fresh := by
    rw [hbytes, List.drop_left' (by rw [List.length_take, hfresh]; rfl)]
  rw [hintMatches, hback, userHint, hfront]
  exact beq_self_eq_true _

namespace PacketUnderlay

/-- The ciphers of a packet underlay keep no state, and its users have names. -/
structure WellFormed (u : PacketUnderlay) : Prop where
  block : ∀ block, u.block = some block → block.isStateless = true
  sessions : ∀ id live block, u.base.sessions.load id = some live →
    live.session.block = some block → block.isStateless = true
  named : ∀ user ∈ u.users, user.name ≠ ""

section

variable (crypto : Crypto) (keyList : Bytes → List Bytes) (u : PacketUnderlay)
  (addr : Addr) (order : List UInt32)

def Tries (key : Bytes) : Prop :=
  (∃ own, u.SessionCipher addr order own ∧ own.key = key) ∨
    ∃ user ∈ u.users, user.HasKey crypto keyList key

def Holds (block : BlockCipher) : Prop :=
  if u.isClient then
    addr = u.serverAddr ∧ ∃ own, u.block = some own ∧ own.key = block.key
  else
    (∃ own, u.SessionCipher addr order own ∧ own.key = block.key) ∨
      ∃ user ∈ u.users, user.HasKey crypto keyList block.key ∧
        (u.userHintIsMandatory = true → block.ctx.userName = user.name)

/-- No other key that a server tries opens what was sealed with `key`. -/
def OpensOnly (key : Bytes) : Prop :=
  ∀ other, u.Tries crypto keyList addr order other → other ≠ key → ∀ nonce plaintext,
      crypto.openWith other nonce (crypto.sealWith key nonce plaintext) = none

end

variable {crypto : Crypto} {keyList : Bytes → List Bytes} {u : PacketUnderlay}
  {addr : Addr} {order : List UInt32} {key : Bytes}

theorem Holds.addr_eq (h : u.Holds crypto keyList addr order block) (hclient : u.isClient = true) :
    addr = u.serverAddr := by
  rw [Holds, if_pos hclient] at h
  exact h.1

/-! ## Decrypting the metadata -/

theorem trySessions_ne_none {data decrypted : Bytes} {own : BlockCipher}
    (hown : u.SessionCipher addr order own) (hopen : (own.decrypt crypto data).1 = .ok decrypted) :
    u.trySessions crypto addr data order ≠ none := by
  obtain ⟨id, hmem, live, hload, hblock, haddr⟩ := hown
  induction order with
  | nil => cases hmem
  | cons first rest ih =>
    rw [trySessions]
    obtain rfl | hmem := List.mem_cons.mp hmem
    · simp [hload, hblock, haddr, hopen]
    · have hrest := ih hmem
      split
      · exact hrest
      · split
        · exact hrest
        · split
          · split
            · simp
            · exact hrest
          · exact hrest

theorem WellFormed.sessionCipher (hu : u.WellFormed) {own : BlockCipher}
    (h : u.SessionCipher addr order own) : own.isStateless = true := by
  obtain ⟨id, -, live, hload, hblock, -⟩ := h
  exact hu.sessions id live own hload hblock

structure PayloadCipher (u : PacketUnderlay) (key : Bytes)
    (blockCipher : Option BlockCipher) (own : BlockCipher) : Prop where
  chosen : ∀ caller, u.payloadBlock caller blockCipher = pure own
  stateless : own.isStateless = true
  key : own.key = key

theorem decryptMetadata_sealed (hlawful : crypto.Lawful) (hu : u.WellFormed)
    (hholds : u.Holds crypto keyList addr order block)
    (honly : u.OpensOnly crypto keyList addr order block.key) (fresh : Nonce) (plaintext : Bytes) :
    let nonce := block.addUserHintToNonce crypto fresh
    ∃ blockCipher own, u.decryptMetadata crypto keyList addr order
          (nonce.bytes ++ crypto.sealWith block.key nonce.bytes plaintext)
          nonce = .ok (blockCipher, plaintext) ∧
        u.PayloadCipher block.key blockCipher own := by
  intro nonce
  have hsealed := fun {own : BlockCipher} (hstateless : own.isStateless = true)
      (hkey : own.key = block.key) =>
    BlockCipher.decrypt_sealed hlawful hstateless hkey nonce plaintext
  unfold decryptMetadata
  cases hclient : u.isClient with
  | true =>
    simp only [Holds, hclient, if_true] at hholds ⊢
    obtain ⟨-, own, hblock, hkey⟩ := hholds
    have hstateless := hu.block own hblock
    refine ⟨none, own, ?_, ⟨fun caller => ?_, hstateless, hkey⟩⟩
    · simp only [hblock]
      rw [hsealed hstateless hkey]
      rfl
    · simp only [payloadBlock, hclient, hblock, if_true]
  | false =>
    simp only [Holds, hclient, Bool.false_eq_true, if_false] at hholds ⊢
    cases htry : u.trySessions crypto addr (nonce.bytes ++
        crypto.sealWith block.key nonce.bytes plaintext) order with
    | some matched =>
      obtain ⟨own, decrypted⟩ := matched
      obtain ⟨hown, hopen⟩ := trySessions_eq_some htry
      have hstateless := hu.sessionCipher hown
      obtain ⟨hkey, rfl⟩ := BlockCipher.eq_of_decrypt_sealed hlawful
        hstateless (honly own.key (.inl ⟨own, hown, rfl⟩)) hopen
      exact ⟨some own, own, rfl, ⟨fun _ => rfl, hstateless, hkey⟩⟩
    | none =>
      -- Without a session the key must belong to a registered user.
      obtain ⟨own, hown, hkey⟩ | ⟨user, huser, hkey, hhint⟩ := hholds
      · exact absurd htry (trySessions_ne_none hown (hsealed (hu.sessionCipher hown) hkey))
      · obtain ⟨⟨own, decrypted⟩, hlookup⟩ := lookupUser_of_hasKey hu.named
          huser hkey (hsealed rfl rfl) fun hmandatory =>
            hintMatches_addUserHint hlawful (hhint hmandatory) (hu.named user huser) fresh
        obtain ⟨found, hfound, ownKey, hownKey, rfl, hopen⟩ :=
          lookupUser_eq_ok hlookup
        have hstateless : BlockCipher.isStateless { key := ownKey } = true :=
          rfl
        obtain ⟨hsame, rfl⟩ := BlockCipher.eq_of_decrypt_sealed hlawful
          hstateless (honly ownKey (.inr ⟨found, hfound, hownKey⟩)) hopen
        refine ⟨some { key := ownKey, ctx := ⟨found.name⟩ }, _, ?_, ⟨fun _ => rfl, rfl, hsame⟩⟩
        rw [hlookup]
        rfl

/-! ## The bytes after the metadata -/

def sealedPayload (crypto : Crypto) (key nonce payload : Bytes) : Bytes :=
  if 0 < payload.length then crypto.sealWith key nonce payload else []

theorem length_sealedPayload_le (hlawful : crypto.Lawful) (key nonce payload : Bytes) :
    (sealedPayload crypto key nonce payload).length ≤ payload.length + defaultOverhead := by
  unfold sealedPayload
  split
  · exact Nat.le_of_eq (hlawful.length_seal _ _ _)
  · exact Nat.zero_le _

variable {blockCipher : Option BlockCipher} {own : BlockCipher}

theorem parsePayload_sealed (hlawful : crypto.Lawful) (hown : u.PayloadCipher key blockCipher own)
    (caller : String) {payloadLen : UInt16} {suffixLen : UInt8} {payload padding2 : Bytes}
    (hpayload : payloadLen.toNat = payload.length) (hsuffix : suffixLen.toNat = padding2.length)
    (hfits : FitsUint16 payloadLen) (nonce : Nonce) :
    (u.parsePayload crypto caller payloadLen suffixLen nonce.bytes
      (sealedPayload crypto key nonce.bytes payload ++ padding2)
      blockCipher).outcome = .ok payload := by
  unfold parsePayload sealedPayload
  by_cases hempty : 0 < payload.length
  · have hpositive : 0 < payloadLen := by
      rw [UInt16.lt_iff_toNat_lt, hpayload]
      exact hempty
    have hlength := hlawful.length_seal key nonce.bytes payload
    have hopen : openPayload crypto own (crypto.sealWith key nonce.bytes payload)
        nonce.bytes = .ok payload := by
      rw [openPayload, BlockCipher.decryptWithNonce_of_isStateless crypto
        hown.stateless, hown.key, hlawful.open_seal]
      rfl
    rw [if_pos hpositive, if_pos hempty, if_neg (by
      rw [List.length_append, hlength]; omega), hown.chosen, Eval.pure_bind,
      Eval.outcome_bind, Eval.outcome_addUint16, Outcome.ok_bind,
      hfits.toNat_add, hpayload, ← hlength,
      Eval.sliceTo_of_le (by rw [List.length_append]; omega), Eval.pure_bind,
      List.take_left, Eval.outcome_bind, Eval.outcome_lift, hopen,
      Outcome.ok_bind, if_neg (by
        rw [List.length_append, hlength, hsuffix]; omega)]
    rfl
  · have hzero : ¬ 0 < payloadLen := by
      rw [UInt16.lt_iff_toNat_lt, hpayload]
      exact hempty
    have hnil : payload = [] := List.eq_nil_of_length_eq_zero (by omega)
    rw [if_neg hzero, if_neg hempty, List.nil_append, if_neg (not_not.mpr hsuffix), hnil]
    rfl

theorem parseSegment_sealed (hlawful : crypto.Lawful) (hown : u.PayloadCipher key blockCipher own)
    {m : Metadata} (htyped : m.Typed) {padding1 payload padding2 : Bytes}
    (hpayload : m.payloadLen.toNat = payload.length) (hfront : m.prefixLen.toNat = padding1.length)
    (hsuffix : m.suffixLen.toNat = padding2.length) (hfits : FitsUint16 m.payloadLen) (unix : Int)
    (nonce : Nonce) : (withinRange (unixMinute unix) m.timestamp 1 = true ∧
        u.parseSegment crypto unix m.encode nonce.bytes (padding1 ++
          sealedPayload crypto key nonce.bytes payload ++ padding2)
          blockCipher = .ok { metadata := m, payload := payload }) ∨
      (withinRange (unixMinute unix) m.timestamp 1 = false ∧
        ∃ err, u.parseSegment crypto unix m.encode nonce.bytes (padding1 ++
          sealedPayload crypto key nonce.bytes payload ++ padding2)
          blockCipher = .error err) := by
  unfold parseSegment
  rcases Metadata.unmarshal_encode htyped unix with
    ⟨hclock, hunmarshal⟩ | ⟨hclock, err, hunmarshal⟩
  · refine .inl ⟨hclock, ?_⟩
    rw [hunmarshal, Outcome.ok_bind, List.append_assoc]
    cases m with
    | session ss =>
      have hnil : padding1 = [] :=
        List.eq_nil_of_length_eq_zero hfront.symm
      have hparse := parsePayload_sealed hlawful hown "readSessionSegment"
        hpayload hsuffix hfits nonce
      simp only [parseSessionSegment, hnil, List.nil_append, Eval.outcome_bind]
      exact congrArg (Outcome.bind · _) hparse
    | dataAck das =>
      have hlength : das.prefixLen.toNat = padding1.length := hfront
      have hparse := parsePayload_sealed hlawful hown "readDataAckSegment"
        hpayload hsuffix hfits nonce
      simp only [parseDataAckSegment]
      rw [dropPadding_of_le (by rw [List.length_append]; omega), hlength,
        List.drop_left, Eval.pure_bind, Eval.outcome_bind]
      exact congrArg (Outcome.bind · _) hparse
  · refine .inr ⟨hclock, err, ?_⟩
    rw [hunmarshal]
    rfl

/-! ## Writing and reading -/

def wireBytes (crypto : Crypto) (key : Bytes) (nonce : Nonce) (m : Metadata)
    (padded : Padded) : Bytes :=
  nonce.bytes ++ crypto.sealWith key nonce.bytes m.encode ++
    (padded.padding1 ++ sealedPayload crypto key nonce.bytes padded.payload ++ padded.padding2)

theorem sealSegment_of_isStateless (hstateless : block.isStateless = true) (choices : WriteChoices)
    (padded : Padded) :
    (sealSegment crypto block choices padded).outcome = .ok (wireBytes crypto block.key
        (block.addUserHintToNonce crypto choices.fresh)
        (padded.metadata.stamp (unixSeconds choices.now)) padded) := by
  have htake : ∀ rest : Bytes, ((block.addUserHintToNonce crypto choices.fresh).bytes ++ rest).take
        defaultNonceSize = (block.addUserHintToNonce crypto choices.fresh).bytes :=
    fun rest => List.take_left' (Nonce.length_bytes _)
  simp only [sealSegment, BlockCipher.encrypt_of_isStateless crypto hstateless]
  rw [htake]
  unfold wireBytes
  split
  · rename_i hpayload
    rw [BlockCipher.encryptWithNonce_of_isStateless crypto hstateless]
    simp only [sealedPayload, hpayload, if_true, List.append_assoc]
    rfl
  · rename_i hpayload
    simp only [sealedPayload, hpayload, if_false, List.append_nil, List.append_assoc]
    rfl

theorem length_header (hlawful : crypto.Lawful) (key : Bytes) (nonce : Nonce) (m : Metadata) :
    (nonce.bytes ++ crypto.sealWith key nonce.bytes m.encode).length = packetNonHeaderPosition := by
  rw [List.length_append, nonce.length_bytes, hlawful.length_seal, Metadata.length_encode]
  rfl

theorem length_wireBytes_le (hlawful : crypto.Lawful) (key : Bytes)
    (nonce : Nonce) (m : Metadata) {padded : Padded} {mtu : Nat} (hmtu : mtu ≤ readBufferSize)
    (hpaddings : padded.padding1.length + padded.padding2.length ≤
      mtu - padded.payload.length - packetOverhead)
    (hpayload : padded.payload.length ≤ maxFragmentSize mtu .packetTransport) :
    (wireBytes crypto key nonce m padded).length ≤ readBufferSize := by
  have hheader := length_header hlawful key nonce m
  have hsealed := length_sealedPayload_le hlawful key nonce.bytes padded.payload
  rw [wireBytes, List.length_append, hheader]
  simp only [List.length_append, maxFragmentSize, packetOverhead,
    packetNonHeaderPosition, readBufferSize, defaultNonceSize, metadataLength,
    defaultOverhead] at *
  omega

theorem readOneSegment_append (cache : ReplayCache) {now : Int} {nonce : Nonce}
    {sealedMeta rest : Bytes} (haddr : u.isClient = true → addr = u.serverAddr)
    (hheader : (nonce.bytes ++ sealedMeta).length = packetNonHeaderPosition)
    (hfits : (nonce.bytes ++ sealedMeta ++ rest).length ≤ readBufferSize) :
    (u.readOneSegment crypto keyList cache order now ⟨addr, nonce.bytes ++ sealedMeta ++ rest⟩).1 =
      u.readChecked crypto keyList addr order now
        (cache.isDuplicate ((nonce.bytes ++ sealedMeta ++ rest).take defaultOverhead) addr now).1
        nonce (nonce.bytes ++ sealedMeta) rest := by
  have hwhole : (nonce.bytes ++ sealedMeta ++ rest).take readBufferSize =
      nonce.bytes ++ sealedMeta ++ rest := List.take_of_length_le hfits
  have htake : (nonce.bytes ++ sealedMeta ++ rest).take packetNonHeaderPosition =
      nonce.bytes ++ sealedMeta := List.take_left' hheader
  have hdrop : (nonce.bytes ++ sealedMeta ++ rest).drop packetNonHeaderPosition =
      rest := List.drop_left' hheader
  have hsignature : (nonce.bytes ++ sealedMeta).take defaultOverhead =
      (nonce.bytes ++ sealedMeta ++ rest).take defaultOverhead :=
    (List.take_append_of_le_length (by rw [hheader]; decide)).symm
  unfold readOneSegment
  dsimp only
  rw [if_neg (by
      cases hclient : u.isClient with
      | true => simp [haddr hclient]
      | false => simp),
    dif_neg (by
      rw [hwhole, List.length_append, hheader]
      omega)]
  simp only [hwhole, htake, hdrop, Nonce.ofFront_append, hsignature]

theorem readChecked_sealed {isNewSessionReplay : Bool} {now : Int}
    {nonce : Nonce} {m : Metadata} {encryptedMeta remaining : Bytes} {parsed : Segment}
    (hmeta : u.decryptMetadata crypto keyList addr order encryptedMeta nonce =
      .ok (blockCipher, m.encode))
    (hparse : (withinRange (unixMinute (unixSeconds now)) m.timestamp 1 = true ∧
        u.parseSegment crypto (unixSeconds now) m.encode nonce.bytes remaining
          blockCipher = .ok parsed) ∨
      (withinRange (unixMinute (unixSeconds now)) m.timestamp 1 = false ∧
        ∃ err, u.parseSegment crypto (unixSeconds now) m.encode nonce.bytes
          remaining blockCipher = .error err)) (received : Segment) :
    u.readChecked crypto keyList addr order now isNewSessionReplay nonce
        encryptedMeta remaining = .ok (some received) ↔
      received = { parsed with block := blockCipher } ∧
        withinRange (unixMinute (unixSeconds now)) m.timestamp 1 = true ∧
        (u.isClient = true ∨ isNewSessionReplay = false) := by
  simp only [readChecked, hmeta, Metadata.length_encode, ne_eq, not_true_eq_false, if_false]
  rcases hparse with ⟨hclock, hparse⟩ | ⟨hclock, err, hparse⟩
  · cases hclient : u.isClient <;> cases isNewSessionReplay <;>
      simp [finishRead, hparse, hclock, eq_comm]
  · cases hclient : u.isClient <;> cases isNewSessionReplay <;>
      simp [finishRead, hparse, hclock, hclient]

end PacketUnderlay

open PacketUnderlay

/--
What the sender writes is read back with its content exactly when the clock
check passes and, on a server, the replay cache does not report the datagram.
-/
theorem packet_roundTrip_iff {crypto : Crypto} (hlawful : crypto.Lawful)
    {keyList : Bytes → List Bytes} {sender receiver : PacketUnderlay} {seg : Segment}
    {block : BlockCipher} {target source : Addr} (choices : WriteChoices) (cache : ReplayCache)
    {order : List UInt32} {now : Int} (hblock : sender.writeBlock seg = .ok block)
    (hstateless : block.isStateless = true)
    (htarget : sender.isClient = true → target = sender.serverAddr)
    (hmtu : sender.base.mtu ≤ readBufferSize) (hseg : seg.Sendable sender.base.mtu .packetTransport)
    (hreceiver : receiver.WellFormed) (hholds : receiver.Holds crypto keyList source order block)
    (honly : receiver.OpensOnly crypto keyList source order block.key)
    (hclock : choices.now - now ≤ 60000000000 ∧ now - choices.now ≤ 60000000000) :
    ∃ bytes, (sender.writeOneSegment crypto target choices seg).outcome = .ok bytes ∧
      ((∃ received, (receiver.readOneSegment crypto keyList cache order now
            ⟨source, bytes⟩).1 = .ok (some received) ∧
          seg.SameContent received) ↔
        ¬ (unixMinute (unixSeconds now) = unixMinute (unixSeconds choices.now) ∧
            WrappingMinute (unixMinute (unixSeconds choices.now))) ∧ (receiver.isClient = true ∨
            (cache.isDuplicate (bytes.take defaultOverhead) source now).1 = false)) := by
  have hdescribes :=
    seg.pad_describes sender.base.mtu .packetTransport choices.paddings
  have hpaddings := seg.length_pad_le sender.base.mtu choices.paddings
  have hwritten : (sender.writeOneSegment crypto target choices seg).outcome =
      (sealSegment crypto block choices
        (seg.pad sender.base.mtu .packetTransport choices.paddings)).outcome := by
    rw [writeOneSegment, if_neg (by
      cases hclient : sender.isClient with
      | true => simp [htarget hclient]
      | false => simp), hblock]
  generalize seg.pad sender.base.mtu .packetTransport choices.paddings = padded
    at hdescribes hpaddings hwritten
  rw [sealSegment_of_isStateless hstateless] at hwritten
  have hpayloadLen : padded.metadata.payloadLen.toNat =
      padded.payload.length := by
    rw [hdescribes.payloadLen, hseg.payloadLen, hdescribes.payload]
  have hlength := hseg.length_le
  rw [hseg.payloadLen, ← hdescribes.payload] at hpaddings
  rw [← hdescribes.payload] at hlength
  have hfits : FitsUint16 padded.metadata.payloadLen := by
    rw [FitsUint16, hpayloadLen]
    simp only [maxFragmentSize, readBufferSize, defaultOverhead] at hlength hmtu ⊢
    omega
  obtain ⟨blockCipher, own, hmeta, hown⟩ := decryptMetadata_sealed hlawful
    hreceiver hholds honly choices.fresh
    (padded.metadata.stamp (unixSeconds choices.now)).encode
  generalize block.addUserHintToNonce crypto choices.fresh = nonce at hwritten hmeta
  refine ⟨_, hwritten, ?_⟩
  have hparse := parseSegment_sealed hlawful hown
    ((hdescribes.typed hseg.typed).stamp (unixSeconds choices.now))
    (by rw [Metadata.payloadLen_stamp, hpayloadLen])
    (by rw [Metadata.prefixLen_stamp, hdescribes.prefixLen])
    (by rw [Metadata.suffixLen_stamp, hdescribes.suffixLen])
    (by rw [Metadata.payloadLen_stamp]; exact hfits)
    (unixSeconds now) nonce
  have hadjacent : AdjacentMinutes (unixMinute (unixSeconds choices.now))
      (unixMinute (unixSeconds now)) := by
    refine adjacentMinutes_of_within ?_
    unfold unixSeconds
    omega
  rw [wireBytes, readOneSegment_append cache hholds.addr_eq
    (length_header hlawful block.key nonce _)
    (length_wireBytes_le hlawful block.key nonce _ hmtu hpaddings hlength)]
  simp only [readChecked_sealed hmeta hparse, Metadata.timestamp_stamp,
    withinRange_one_iff hadjacent]
  constructor
  · rintro ⟨received, ⟨-, hclock, hreplay⟩, -⟩
    exact ⟨hclock, hreplay⟩
  · rintro ⟨hclock, hreplay⟩
    exact ⟨_, ⟨rfl, hclock, hreplay⟩, ⟨hdescribes.sameContent.stamp _, hdescribes.payload⟩⟩

/-! ## A client and a server -/

def aliceCipher : BlockCipher := { key := [1], ctx := ⟨"alice"⟩ }

def aliceClient : PacketUnderlay where
  base := { transport := .packetTransport, isClient := true, mtu := 1400 }
  serverAddr := "server"
  block := some aliceCipher

def aliceServer : PacketUnderlay where
  base := { transport := .packetTransport, isClient := false, mtu := 1400 }
  users := [{ name := "alice", hashedPassword := "01" }]
  userHintIsMandatory := true

def passwordKeys (password : Bytes) : List Bytes := [password]

def shortPaddings : PaddingSource where
  first maxLen := ⟨List.replicate (min maxLen 3) 7, by
    rw [List.length_replicate]
    exact Nat.min_le_left _ _⟩
  second maxLen := ⟨List.replicate (min maxLen 2) 9, by
    rw [List.length_replicate]
    exact Nat.min_le_left _ _⟩

def nonceOf (byte : UInt8) : Nonce := ⟨List.replicate 24 byte, rfl⟩

def choicesAt (now : Int) : WriteChoices where
  fresh := nonceOf 5
  paddings := shortPaddings
  now := now

def greeting : Segment where
  metadata := .dataAck {
    protocol := dataClientToServer
    sessionID := 7
    seq := 1
    windowSize := 16
    payloadLen := 2 }
  payload := [104, 105]

def emptyCache : ReplayCache :=
  { capacity := 16, expireTime := 0, expireInterval := 60000000000 }

theorem greeting_sendable : greeting.Sendable 1400 .packetTransport :=
  ⟨by decide, by decide, by decide⟩

theorem aliceServer_wellFormed : aliceServer.WellFormed where
  block _ h := by cases h
  sessions _ _ _ h := by cases h
  named user h := by
    obtain rfl := List.mem_singleton.mp h
    decide

theorem aliceServer_holds : aliceServer.Holds tagCrypto passwordKeys "client" [] aliceCipher := by
  refine .inr ⟨_, List.mem_singleton.mpr rfl, ⟨[1], by decide, ?_⟩, fun _ => rfl⟩
  exact List.mem_singleton.mpr rfl

theorem aliceServer_opensOnly :
    aliceServer.OpensOnly tagCrypto passwordKeys "client" [] aliceCipher.key := by
  rintro other (⟨own, ⟨id, hid, -⟩, -⟩ | ⟨user, huser, password, hpassword, hkey⟩) hne
  · cases hid
  · obtain rfl := List.mem_singleton.mp huser
    obtain rfl := List.mem_singleton.mp hkey
    cases hpassword
    exact absurd rfl hne

/-- Two minutes after the epoch the greeting arrives. -/
theorem packet_roundTrip_greeting : ∃ bytes received,
      (aliceClient.writeOneSegment tagCrypto "server" (choicesAt 120000000000)
        greeting).outcome = .ok bytes ∧
      (aliceServer.readOneSegment tagCrypto passwordKeys emptyCache []
        121000000000 ⟨"client", bytes⟩).1 = .ok (some received) ∧
      greeting.SameContent received := by
  obtain ⟨bytes, hbytes, hiff⟩ := packet_roundTrip_iff tagCrypto_lawful
    (choicesAt 120000000000) emptyCache
    (show aliceClient.writeBlock greeting = .ok aliceCipher from rfl) rfl
    (fun _ => rfl) (by decide) greeting_sendable aliceServer_wellFormed
    aliceServer_holds aliceServer_opensOnly
    (show _ ∧ (121000000000 : Int) - _ ≤ _ by decide)
  obtain ⟨received, hread, hcontent⟩ := hiff.mpr
    ⟨by decide, .inr (by simp [ReplayCache.isDuplicate, ReplayCache.expire,
      ReplayCache.rotate, emptyCache])⟩
  exact ⟨bytes, received, hbytes, hread, hcontent⟩

def greetingBytes (now : Int) : Bytes :=
  match (aliceClient.writeOneSegment tagCrypto "server" (choicesAt now) greeting).outcome with
  | .ok bytes => bytes
  | _ => []

/--
In the first minute after the epoch the lower bound of the accepted range wraps
around, and a datagram is dropped although both clocks agree.
-/
theorem packet_roundTrip_fails_at_epoch :
    aliceServer.Holds tagCrypto passwordKeys "client" [] aliceCipher ∧
      aliceServer.OpensOnly tagCrypto passwordKeys "client" [] aliceCipher.key ∧
      greeting.Sendable 1400 .packetTransport ∧
      ∃ bytes, (aliceClient.writeOneSegment tagCrypto "server" (choicesAt 0)
          greeting).outcome = .ok bytes ∧
        (aliceServer.readOneSegment tagCrypto passwordKeys emptyCache [] 0
          ⟨"client", bytes⟩).1 = .ok none :=
  ⟨aliceServer_holds, aliceServer_opensOnly, greeting_sendable,
    greetingBytes 0, by decide +kernel, by decide +kernel⟩

end Mieru.Protocol
