import Mieru.Underlay.StreamWrite
import Mieru.Wire.PacketRoundTrip

/-!
# The stream wire round trip

The segments written to one direction of a connection are read back in order.
The two ciphers stay in step: the nonce is sent once, and then both sides
advance it for each metadata and for each payload that is not empty.
-/

namespace Mieru.Protocol

open Mieru.Foundation
open Mieru.Cipher

variable {back key : Bytes} {recv send : BlockCipher} {t : StreamUnderlay} {nonce : Nonce}
  {crypto : Crypto}

/-! ## The readers on what a writer wrote -/

namespace StreamInput

variable {crypto : Crypto} {input : StreamInput}

theorem readConn_append {front : Bytes} (part : String) (h : input.conn.flatten = front ++ back) :
    ∃ conn, input.readConn part front.length =
        pure (front, { input with conn := conn }) ∧ conn.flatten = back := by
  obtain ⟨conn, hread, hconn⟩ := readFull_append h
  refine ⟨conn, ?_, hconn⟩
  rw [readConn, hread]

theorem checkReplay_of_le (input : StreamInput) (now : Int)
    {encrypted : Bytes} (h : defaultOverhead ≤ encrypted.length) :
    let checked := input.cache.isDuplicate (encrypted.take defaultOverhead) emptyTag now
    input.checkReplay now encrypted = pure (checked.1, { input with cache := checked.2 }) := by
  rw [checkReplay, Eval.sliceTo_of_le h, Eval.pure_bind]

theorem readPadding_append {size : UInt8} {padding : Bytes} (hsize : size.toNat = padding.length)
    (h : input.conn.flatten = padding ++ back) :
    ∃ conn, input.readPadding size = pure { input with conn := conn } ∧ conn.flatten = back := by
  unfold readPadding
  by_cases hpositive : 0 < size
  · obtain ⟨conn, hread, hconn⟩ := readConn_append "padding" h
    refine ⟨conn, ?_, hconn⟩
    rw [if_pos hpositive, hsize, hread, Eval.pure_bind]
  · have hnil : padding = [] := by
      refine List.eq_nil_of_length_eq_zero ?_
      rw [← hsize]
      simpa [UInt8.lt_iff_toNat_lt] using hpositive
    rw [hnil, List.nil_append] at h
    exact ⟨input.conn, if_neg hpositive, h⟩

def payloadNonce (nonce : Nonce) (payload : Bytes) : Nonce :=
  if 0 < payload.length then nonce.increase else nonce

def streamPayload (crypto : Crypto) (key : Bytes) (nonce : Nonce) (payload : Bytes) : Bytes :=
  if 0 < payload.length then
    crypto.sealWith key (payloadNonce nonce payload).bytes payload
  else []

theorem decryptNext_of_ok (input : StreamInput) {after : BlockCipher}
    {ciphertext plaintext : Bytes} (hrecv : input.t.recv = some recv)
    (hopen : recv.decrypt crypto ciphertext = (.ok plaintext, after)) :
    input.decryptNext crypto ciphertext = pure (plaintext, input.setRecv after) := by
  simp only [decryptNext, hrecv, hopen]

structure RecvAt (t : StreamUnderlay) (key : Bytes) (nonce : Nonce)
    (recv : BlockCipher) : Prop where
  loaded : t.recv = some recv
  mode : recv.enableImplicitNonce = true
  sameKey : recv.key = key
  sameNonce : recv.implicitNonce = some nonce

theorem RecvAt.decrypt_next (hlawful : crypto.Lawful) (h : RecvAt t key nonce recv)
    (plaintext : Bytes) : recv.decrypt crypto (crypto.sealWith key nonce.increase.bytes plaintext) =
      (.ok plaintext, { recv with implicitNonce := some nonce.increase }) := by
  have hopen := BlockCipher.decrypt_of_implicit crypto h.mode rfl nonce
    (crypto.sealWith key nonce.increase.bytes plaintext)
  have hnext : recv.nextNonce crypto nonce = nonce.increase := by
    simp only [BlockCipher.nextNonce, h.sameNonce]
  have hheader : recv.nonceHeader (recv.nextNonce crypto nonce) = [] := by
    simp [BlockCipher.nonceHeader, h.sameNonce]
  dsimp only at hopen
  rw [hheader, List.nil_append, hnext, h.sameKey, hlawful.open_seal] at hopen
  rw [hopen, h.sameKey]
  rfl

theorem readPayload_sealed (hlawful : crypto.Lawful) (hrecv : RecvAt input.t key nonce recv)
    {payloadLen : UInt16} {payload : Bytes} (hpayload : payloadLen.toNat = payload.length)
    (hfits : FitsUint16 payloadLen)
    (h : input.conn.flatten = streamPayload crypto key nonce payload ++ back) (now : Int) :
    ∃ after recvAfter, (input.readPayload crypto now payloadLen).outcome = .ok (payload, after) ∧
        after.conn.flatten = back ∧ RecvAt after.t key (payloadNonce nonce payload) recvAfter := by
  unfold readPayload
  by_cases hpositive : 0 < payload.length
  · have hlen : 0 < payloadLen := by
      rw [UInt16.lt_iff_toNat_lt, hpayload]
      exact hpositive
    simp only [streamPayload, payloadNonce, hpositive, if_true] at h ⊢
    obtain ⟨conn, hread, hconn⟩ := readConn_append "payload" h
    rw [hlawful.length_seal, ← hpayload] at hread
    have hlong : defaultOverhead ≤ (crypto.sealWith key nonce.increase.bytes payload).length := by
      rw [hlawful.length_seal]
      omega
    have hcheck := checkReplay_of_le { input with conn := conn } now hlong
    have hdecrypt := fun cache => decryptNext_of_ok
      { input with conn := conn, cache := cache } hrecv.loaded
      (hrecv.decrypt_next hlawful payload)
    rw [if_pos hlen]
    simp only [Eval.outcome_bind, Eval.outcome_addUint16, Outcome.ok_bind,
      hfits.toNat_add, hread, Eval.outcome_pure, hcheck, hdecrypt]
    exact ⟨_, _, rfl, hconn, rfl, hrecv.mode, hrecv.sameKey, rfl⟩
  · have hlen : ¬ 0 < payloadLen := by
      rw [UInt16.lt_iff_toNat_lt, hpayload]
      exact hpositive
    have hnil : payload = [] := List.eq_nil_of_length_eq_zero (by omega)
    simp only [streamPayload, payloadNonce, hpositive, if_false, List.nil_append] at h ⊢
    rw [if_neg hlen, hnil]
    exact ⟨input, recv, rfl, h, hrecv⟩

theorem readSegment_sealed (hlawful : crypto.Lawful) (hrecv : RecvAt input.t key nonce recv)
    {m : Metadata} (htyped : m.Typed) {padding1 payload padding2 : Bytes}
    (hpayload : m.payloadLen.toNat = payload.length) (hfront : m.prefixLen.toNat = padding1.length)
    (hsuffix : m.suffixLen.toNat = padding2.length) (hfits : FitsUint16 m.payloadLen)
    (h : input.conn.flatten = padding1 ++
      (streamPayload crypto key nonce payload ++ (padding2 ++ back))) (now : Int) :
    (withinRange (unixMinute (unixSeconds now)) m.timestamp 1 = true ∧ ∃ after recvAfter,
          (input.readSegment crypto now m.encode).outcome =
            .ok ({ metadata := m, payload := payload, block := some recvAfter }, after) ∧
          after.conn.flatten = back ∧
          RecvAt after.t key (payloadNonce nonce payload) recvAfter) ∨
      (withinRange (unixMinute (unixSeconds now)) m.timestamp 1 = false ∧
        ∃ err, (input.readSegment crypto now m.encode).outcome = .error err) := by
  unfold readSegment
  rcases Metadata.unmarshal_encode htyped (unixSeconds now) with
    ⟨hclock, hunmarshal⟩ | ⟨hclock, err, hunmarshal⟩
  · refine .inl ⟨hclock, ?_⟩
    -- Skip the first padding; a session segment has none.
    obtain ⟨conn, hskip, hconn⟩ := readPadding_append hfront h
    obtain ⟨middle, recvAfter, hread, hmiddle, hrecvAfter⟩ := readPayload_sealed
      hlawful (show RecvAt (StreamInput.t { input with conn := conn }) key nonce
        recv from hrecv) hpayload hfits hconn now
    obtain ⟨last, hlast, hback⟩ := readPadding_append hsuffix hmiddle
    refine ⟨{ middle with conn := last }, recvAfter, ?_, hback, hrecvAfter⟩
    rw [hunmarshal]
    cases m with
    | session ss =>
      have hsame : { input with conn := conn } = input :=
        Outcome.ok.inj (congrArg Eval.outcome hskip.symm)
      have hread : (input.readPayload crypto now ss.payloadLen).outcome =
          .ok (payload, middle) := by
        rw [hsame] at hread
        exact hread
      have hlast : middle.readPadding ss.suffixLen = pure { middle with conn := last } := hlast
      simp only [readSessionSegment, Eval.outcome_bind, hread,
        Outcome.ok_bind, hlast, Eval.outcome_pure, hrecvAfter.loaded]
    | dataAck das =>
      have hskip : input.readPadding das.prefixLen = pure { input with conn := conn } := hskip
      have hread : (readPayload crypto { input with conn := conn } now
          das.payloadLen).outcome = .ok (payload, middle) := hread
      have hlast : middle.readPadding das.suffixLen = pure { middle with conn := last } := hlast
      simp only [readDataAckSegment, hskip, Eval.pure_bind,
        Eval.outcome_bind, hread, Outcome.ok_bind, hlast, Eval.outcome_pure,
        hrecvAfter.loaded]
  · refine .inr ⟨hclock, ⟨.protocolError, err⟩, ?_⟩
    rw [hunmarshal]
    rfl

/-! ## The metadata -/

variable {keyList : Bytes → List Bytes}

/-- No other key of a registered user opens what was sealed with `key`. -/
def OpensOnly (crypto : Crypto) (keyList : Bytes → List Bytes)
    (t : StreamUnderlay) (key : Bytes) : Prop :=
  ∀ other, (∃ user ∈ t.users, user.HasKey crypto keyList other) → other ≠ key → ∀ nonce plaintext,
      crypto.openWith other nonce (crypto.sealWith key nonce plaintext) = none

/-- The reader is ready for what the sender's cipher writes next. -/
inductive Synced (crypto : Crypto) (keyList : Bytes → List Bytes)
    (t : StreamUnderlay) (send : BlockCipher) : Prop
  | started {nonce : Nonce} {recv : BlockCipher} :
      RecvAt t send.key nonce recv → send.implicitNonce = some nonce →
      Synced crypto keyList t send
  | client {own : BlockCipher} : t.recv = none → t.isClient = true →
      t.block = some own → own.enableImplicitNonce = true →
      own.key = send.key → own.implicitNonce = none →
      send.implicitNonce = none → Synced crypto keyList t send
  | server {user : User} : t.recv = none → t.isClient = false →
      (∀ user ∈ t.users, user.name ≠ "") → user ∈ t.users →
      user.HasKey crypto keyList send.key →
      (t.userHintIsMandatory = true → send.ctx.userName = user.name) →
      OpensOnly crypto keyList t send.key →
      send.implicitNonce = none → Synced crypto keyList t send

def Refuses (t : StreamUnderlay) (duplicate : Bool) : Prop :=
  t.recv = none ∧ t.isClient = false ∧ duplicate = true

theorem decrypt_synced (hlawful : crypto.Lawful) {own : BlockCipher}
    (hmode : own.enableImplicitNonce = true) (hkey : own.key = send.key)
    (hnonce : own.implicitNonce = send.implicitNonce) (fresh : Nonce) (plaintext : Bytes) :
    let nonce := send.nextNonce crypto fresh
    own.decrypt crypto (send.nonceHeader nonce ++ crypto.sealWith send.key nonce.bytes plaintext) =
      (.ok plaintext, { own with implicitNonce := some nonce }) := by
  intro nonce
  rw [BlockCipher.decrypt_of_implicit crypto hmode hnonce, hkey, hlawful.open_seal]
  rfl

theorem serverInit_synced (hlawful : crypto.Lawful) {user : User}
    (hnamed : ∀ user ∈ t.users, user.name ≠ "") (huser : user ∈ t.users)
    (hkey : user.HasKey crypto keyList send.key)
    (hhint : t.userHintIsMandatory = true → send.ctx.userName = user.name)
    (honly : OpensOnly crypto keyList t send.key) (fresh : Nonce) (plaintext : Bytes) :
    let nonce := send.addUserHintToNonce crypto fresh
    ∃ recv, serverInitRecvBlockCipherAndDecryptMetadata crypto keyList t
        (nonce.bytes ++ crypto.sealWith send.key nonce.bytes plaintext) = .ok (plaintext, recv) ∧
      recv.enableImplicitNonce = true ∧ recv.key = send.key ∧
      recv.implicitNonce = some nonce := by
  intro nonce
  have hlong : ¬ (nonce.bytes ++ crypto.sealWith send.key nonce.bytes plaintext).length <
        defaultNonceSize := by
    rw [List.length_append, nonce.length_bytes]
    omega
  have hmatches : t.userHintIsMandatory = true →
      hintMatches crypto nonce user = true := fun hmandatory =>
    hintMatches_addUserHint hlawful (hhint hmandatory) (hnamed user huser) fresh
  have hopens : (BlockCipher.decrypt crypto { key := send.key } (nonce.bytes ++
      crypto.sealWith send.key nonce.bytes plaintext)).1 = .ok plaintext :=
    BlockCipher.decrypt_sealed hlawful rfl rfl nonce plaintext
  obtain ⟨⟨matched, decrypted⟩, hlookup⟩ :=
    lookupUser_of_hasKey hnamed huser hkey hopens hmatches
  obtain ⟨found, hfound, key, hfoundKey, rfl, hopen⟩ :=
    lookupUser_eq_ok hlookup
  have hstateless : BlockCipher.isStateless { key := key } = true := rfl
  obtain ⟨hsame, -⟩ := BlockCipher.eq_of_decrypt_sealed hlawful hstateless
    (honly key ⟨found, hfound, hfoundKey⟩) hopen
  have hsame : key = send.key := hsame
  have hstateful := BlockCipher.decrypt_first crypto
    (c := { key := key, enableImplicitNonce := true, ctx := ⟨found.name⟩ })
    rfl rfl nonce (crypto.sealWith send.key nonce.bytes plaintext)
  rw [hsame, hlawful.open_seal] at hstateful
  refine ⟨⟨send.key, true, some nonce, ⟨found.name⟩⟩, ?_, rfl, rfl, rfl⟩
  rw [serverInitRecvBlockCipherAndDecryptMetadata, dif_neg hlong]
  simp only [Nonce.ofFront_append, hlookup, Outcome.ok_bind,
    BlockCipher.setImplicitNonceMode, if_true, hsame, hstateful]
  rfl

theorem decryptMetadata_synced (input : StreamInput) (hlawful : crypto.Lawful)
    (hsync : Synced crypto keyList input.t send) (fresh : Nonce)
    (plaintext : Bytes) (duplicate : Bool) :
    let nonce := send.nextNonce crypto fresh
    let encryptedMeta := send.nonceHeader nonce ++ crypto.sealWith send.key nonce.bytes plaintext
    (¬ Refuses input.t duplicate ∧ ∃ recv, input.decryptMetadata crypto keyList
          (input.t.recv.isNone && duplicate) encryptedMeta = pure (plaintext, input.setRecv recv) ∧
        RecvAt (input.setRecv recv).t send.key nonce recv) ∨
      (Refuses input.t duplicate ∧ ∃ err, (input.decryptMetadata crypto keyList
          (input.t.recv.isNone && duplicate) encryptedMeta).outcome = .error err) := by
  intro nonce encryptedMeta
  cases hsync with
  | @started current recv hrecv hsend =>
    have hopen := decrypt_synced hlawful hrecv.mode hrecv.sameKey
      (hrecv.sameNonce.trans hsend.symm) fresh plaintext
    refine .inl ⟨fun hrefuses => ?_, { recv with implicitNonce := some nonce }, ?_,
      ⟨rfl, hrecv.mode, hrecv.sameKey, rfl⟩⟩
    · cases hrecv.loaded.symm.trans hrefuses.1
    · simp only [decryptMetadata, hrecv.loaded]
      exact decryptNext_of_ok input hrecv.loaded hopen
  | @client own hrecv hclient hblock hmode hkey hnone hsend =>
    have hopen := decrypt_synced hlawful hmode hkey (hnone.trans hsend.symm) fresh plaintext
    refine .inl ⟨fun hrefuses => ?_,
      { own with implicitNonce := some nonce }, ?_, ⟨rfl, hmode, hkey, rfl⟩⟩
    · cases hclient.symm.trans hrefuses.2.1
    · simp only [decryptMetadata, hrecv, hclient, hblock]
      exact decryptNext_of_ok (input.setRecv own) rfl hopen
  | @server user hrecv hclient hnamed huser hkey hhint honly hsend =>
    have hnonce : nonce = send.addUserHintToNonce crypto fresh := by
      simp only [nonce, BlockCipher.nextNonce, hsend]
    obtain ⟨recv, hinit, hmode, hrecvKey, hrecvNonce⟩ := serverInit_synced
      hlawful hnamed huser hkey hhint honly fresh plaintext
    have hmeta : encryptedMeta = (send.addUserHintToNonce crypto fresh).bytes ++
        crypto.sealWith send.key (send.addUserHintToNonce crypto fresh).bytes plaintext := by
      simp only [encryptedMeta, BlockCipher.nonceHeader, hsend, hnonce, Option.isNone_none, if_true]
    have hfirst : ∀ replay, input.decryptMetadata crypto keyList replay
        encryptedMeta = if replay then
          .fail ⟨.replayError, "found possible replay attack with payload decrypted"⟩
        else pure (plaintext, input.setRecv recv) := by
      intro replay
      simp only [decryptMetadata, hrecv, hclient, decryptFirst, hmeta, hinit]
    simp only [hfirst, hrecv, Option.isNone_none, Bool.true_and]
    cases duplicate with
    | false =>
      refine .inl ⟨fun hrefuses => ?_, recv, rfl, rfl, hmode, hrecvKey, ?_⟩
      · cases hrefuses.2.2
      · rw [hrecvNonce, hnonce]
    | true => exact .inr ⟨⟨hrecv, hclient, rfl⟩, _, rfl⟩

theorem Synced.isNone_eq (h : Synced crypto keyList t send) :
    t.recv.isNone = send.implicitNonce.isNone := by
  cases h with
  | started hrecv hsend => simp [hrecv.loaded, hsend]
  | client hrecv _ _ _ _ _ hsend => simp [hrecv, hsend]
  | server hrecv _ _ _ _ _ _ hsend => simp [hrecv, hsend]

theorem Synced.length_meta (hlawful : crypto.Lawful) (h : Synced crypto keyList t send)
    (nonce : Nonce) (m : Metadata) :
    (send.nonceHeader nonce ++ crypto.sealWith send.key nonce.bytes m.encode).length =
        metaReadLen t := by
  rw [List.length_append, hlawful.length_seal, Metadata.length_encode,
    metaReadLen, h.isNone_eq, BlockCipher.nonceHeader]
  split
  · rw [nonce.length_bytes]
    omega
  · rw [List.length_nil]
    omega

end StreamInput

open StreamInput

/-! ## One segment -/

theorem StreamUnderlay.sealSegment_of_implicit (hmode : send.enableImplicitNonce = true)
    (choices : StreamChoices) (padded : Padded) :
    let nonce := send.nextNonce crypto choices.fresh
    let m := padded.metadata.stamp (unixSeconds choices.now)
    sealSegment crypto send choices padded =
      ({ send with implicitNonce := some (payloadNonce nonce padded.payload) },
        send.nonceHeader nonce ++ crypto.sealWith send.key nonce.bytes m.encode ++
          (padded.padding1 ++ (streamPayload crypto send.key nonce
            padded.payload ++ padded.padding2))) := by
  intro nonce m
  have hpayload := BlockCipher.encrypt_of_implicit crypto
    (c := { send with implicitNonce := some nonce }) hmode
    choices.freshPayload padded.payload
  simp only [sealSegment, BlockCipher.encrypt_of_implicit crypto hmode]
  split
  · rename_i hpositive
    rw [hpayload]
    simp only [payloadNonce, streamPayload, hpositive, if_true,
      BlockCipher.nextNonce, BlockCipher.nonceHeader, Option.isNone_some,
      Bool.false_eq_true, if_false, List.nil_append, List.append_assoc]
    rfl
  · rename_i hzero
    simp only [payloadNonce, streamPayload, hzero, if_false, List.nil_append, List.append_assoc]
    rfl

def ClockAccepts (written read : Int) : Prop :=
  withinRange (unixMinute (unixSeconds read)) (unixMinute (unixSeconds written)) 1 = true

theorem readOneSegment_sealed {keyList : Bytes → List Bytes}
    (hlawful : crypto.Lawful) {input : StreamInput} (hmode : send.enableImplicitNonce = true)
    (hsync : Synced crypto keyList input.t send) {seg : Segment} {mtu : Nat}
    (hseg : seg.Sendable mtu .streamTransport) (choices : StreamChoices)
    (now : Int) {written : BlockCipher × Bytes}
    (hwritten : StreamUnderlay.sealSegment crypto send choices
      (seg.pad mtu .streamTransport choices.paddings) = written)
    (hconn : input.conn.flatten = written.2 ++ back) :
    let duplicate := (input.cache.isDuplicate
      (input.conn.flatten.take defaultOverhead) emptyTag now).1
    ((ClockAccepts choices.now now ∧ ¬ Refuses input.t duplicate) ∧ ∃ received after,
        (input.readOneSegment crypto keyList now).outcome = .ok (some received, after) ∧
        seg.SameContent received ∧ after.conn.flatten = back ∧
        ∃ nonce recv, RecvAt after.t written.1.key nonce recv ∧
          written.1.implicitNonce = some nonce) ∨
    (¬ (ClockAccepts choices.now now ∧ ¬ Refuses input.t duplicate) ∧
      ∃ err, (input.readOneSegment crypto keyList now).outcome = .error err) := by
  have hdescribes := seg.pad_describes mtu .streamTransport choices.paddings
  generalize seg.pad mtu .streamTransport choices.paddings = padded at hdescribes hwritten
  rw [StreamUnderlay.sealSegment_of_implicit hmode] at hwritten
  subst hwritten
  dsimp only at hconn ⊢
  generalize hnonce : send.nextNonce crypto choices.fresh = nonce at hconn ⊢
  generalize hstamp : padded.metadata.stamp (unixSeconds choices.now) = m at hconn
  simp only [List.append_assoc] at hconn
  rw [← List.append_assoc] at hconn
  have hlength := hsync.length_meta hlawful nonce m
  have hlong : defaultOverhead ≤ (send.nonceHeader nonce ++
      crypto.sealWith send.key nonce.bytes m.encode).length := by
    rw [hlength, metaReadLen]
    omega
  have hne : input.conn.flatten ≠ [] := by
    intro hnil
    rw [hnil] at hconn
    have hzero := congrArg List.length hconn
    rw [List.length_nil, List.length_append] at hzero
    simp only [defaultOverhead] at hlong
    omega
  have htake : input.conn.flatten.take defaultOverhead = (send.nonceHeader nonce ++
        crypto.sealWith send.key nonce.bytes m.encode).take defaultOverhead := by
    rw [hconn, List.take_append_of_le_length hlong]
  obtain ⟨conn, hread, hrest⟩ := readConn_append "metadata" hconn
  rw [hlength] at hread
  have hcheck := checkReplay_of_le { input with conn := conn } now hlong
  dsimp only at hcheck
  rw [htake]
  generalize input.cache.isDuplicate ((send.nonceHeader nonce ++
    crypto.sealWith send.key nonce.bytes m.encode).take defaultOverhead)
    emptyTag now = checked at hcheck ⊢
  have hmeta := decryptMetadata_synced
    { input with conn := conn, cache := checked.2 } hlawful hsync choices.fresh
    m.encode checked.1
  rw [hnonce] at hmeta
  dsimp only at hmeta
  have hclock : withinRange (unixMinute (unixSeconds now)) m.timestamp 1 = true ↔
      ClockAccepts choices.now now := by
    rw [← hstamp, Metadata.timestamp_stamp]
    exact Iff.rfl
  simp only [readOneSegment, hne, if_false, hread, Eval.pure_bind, hcheck]
  rcases hmeta with ⟨haccepts, recv, hmeta, hrecv⟩ | ⟨hrefuses, err, hmeta⟩
  · rw [hmeta, Eval.pure_bind, if_neg (not_not.mpr m.length_encode)]
    have hpayload : padded.metadata.payloadLen.toNat =
        padded.payload.length := by
      rw [hdescribes.payloadLen, hseg.payloadLen, hdescribes.payload]
    have hfits : FitsUint16 padded.metadata.payloadLen := by
      have hle := hseg.length_le
      rw [FitsUint16, hpayload, hdescribes.payload]
      simp only [maxFragmentSize, maxPDU, defaultOverhead] at hle ⊢
      omega
    have hparse := readSegment_sealed hlawful hrecv (hstamp ▸ (hdescribes.typed hseg.typed).stamp _)
      (by rw [← hstamp, Metadata.payloadLen_stamp, hpayload])
      (by rw [← hstamp, Metadata.prefixLen_stamp, hdescribes.prefixLen])
      (by rw [← hstamp, Metadata.suffixLen_stamp, hdescribes.suffixLen])
      (by rw [← hstamp, Metadata.payloadLen_stamp]; exact hfits) hrest now
    rw [Eval.outcome_bind]
    rcases hparse with ⟨hwithin, after, recvAfter, hparse, hback, hat⟩ |
      ⟨hwithin, err, hparse⟩
    · refine .inl ⟨⟨hclock.mp hwithin, haccepts⟩,
        { metadata := m, payload := padded.payload, block := some recvAfter },
        after, ?_, ?_, hback, _, recvAfter, hat, rfl⟩
      · rw [hparse]
        rfl
      · exact ⟨hstamp ▸ hdescribes.sameContent.stamp _, hdescribes.payload⟩
    · refine .inr ⟨fun h => ?_, err, ?_⟩
      · cases hwithin.symm.trans (hclock.mpr h.1)
      · rw [hparse]
        rfl
  · refine .inr ⟨fun h => h.2 hrefuses, err, ?_⟩
    rw [Eval.outcome_bind, hmeta]
    rfl

/-! ## A direction of a connection -/

structure StreamItem where
  seg : Segment
  choices : StreamChoices
  readAt : Int

def StreamUnderlay.sendNonce (t : StreamUnderlay) : Option Nonce :=
  t.send.bind BlockCipher.implicitNonce

def StreamUnderlay.recvNonce (t : StreamUnderlay) : Option Nonce :=
  t.recv.bind BlockCipher.implicitNonce

def StreamUnderlay.writeSegments (crypto : Crypto) : StreamUnderlay → List StreamItem →
      Outcome String (List Bytes × List (Option Nonce))
  | _, [] => .ok ([], [])
  | t, item :: rest =>
    (t.writeOneSegment crypto item.choices item.seg).bind fun (t, writes) =>
      (writeSegments crypto t rest).bind fun (more, nonces) =>
        .ok (writes ++ more, t.sendNonce :: nonces)

/--
Call `readOneSegment` once for each time: the segments, the nonce after each of
them and the input that is left.  Reading ends early when nothing arrives.
-/
def StreamInput.readSegments (crypto : Crypto)
    (keyList : Bytes → List Bytes) : StreamInput → List Int →
      Outcome StreamError (List Segment × List (Option Nonce) × StreamInput)
  | input, [] => .ok ([], [], input)
  | input, now :: rest =>
    (input.readOneSegment crypto keyList now).outcome.bind fun
      | (none, input) => .ok ([], [], input)
      | (some seg, input) =>
        (readSegments crypto keyList input rest).bind fun (segments, nonces, left) =>
            .ok (seg :: segments, input.t.recvNonce :: nonces, left)

/-- The reader got every segment, ended in step and left no byte. -/
def ReadBack (crypto : Crypto) (keyList : Bytes → List Bytes) (input : StreamInput)
    (items : List StreamItem) (nonces : List (Option Nonce)) (back : Bytes) : Prop :=
  ∃ segments left, input.readSegments crypto keyList (items.map StreamItem.readAt) =
      .ok (segments, nonces, left) ∧
    left.conn.flatten = back ∧
    List.Forall₂ (fun item seg => item.seg.SameContent seg) items segments

def FirstAccepted (input : StreamInput) : List StreamItem → Prop
  | [] => True
  | item :: _ => ¬ Refuses input.t (input.cache.isDuplicate
      (input.conn.flatten.take defaultOverhead) emptyTag item.readAt).1

theorem StreamUnderlay.writeOneSegment_of_send (crypto : Crypto) (hsend : t.send = some send)
    (choices : StreamChoices) (seg : Segment) :
    let written := sealSegment crypto send choices (seg.pad t.mtu .streamTransport choices.paddings)
    t.writeOneSegment crypto choices seg = .ok ({ t with send := some written.1 },
        t.writes choices.draws seg.metadata written.2) := by
  simp only [writeOneSegment, maybeInitSendBlockCipher, hsend, Outcome.ok_bind]

theorem StreamInput.RecvAt.recvNonce (h : RecvAt t key nonce recv) : t.recvNonce = some nonce := by
  rw [StreamUnderlay.recvNonce, h.loaded, Option.bind_some, h.sameNonce]

theorem firstAccepted_of_recv {input : StreamInput} (h : input.t.recv = some recv)
    (items : List StreamItem) : FirstAccepted input items := by
  cases items with
  | nil => trivial
  | cons item rest =>
    intro hrefuses
    cases h.symm.trans hrefuses.1

section

variable {crypto : Crypto} {keyList : Bytes → List Bytes}
  {input after : StreamInput} {item : StreamItem} {rest : List StreamItem}
  {nonces : List (Option Nonce)} {back : Bytes}

theorem readBack_cons {received : Segment} {nonce : Option Nonce}
    (hread : (input.readOneSegment crypto keyList item.readAt).outcome = .ok (some received, after))
    (hcontent : item.seg.SameContent received) (hnonce : after.t.recvNonce = nonce) :
    ReadBack crypto keyList input (item :: rest) (nonce :: nonces) back ↔
      ReadBack crypto keyList after rest nonces back := by
  simp only [ReadBack, List.map_cons, readSegments, hread, Outcome.ok_bind]
  constructor
  · rintro ⟨segments, left, hrest, hleft, hsame⟩
    obtain ⟨⟨more, moreNonces, last⟩, hmore, heq⟩ := Outcome.bind_eq_ok.mp hrest
    cases heq
    cases hsame with
    | cons _ hsame => exact ⟨more, last, hmore, hleft, hsame⟩
  · rintro ⟨segments, left, hrest, hleft, hsame⟩
    exact ⟨received :: segments, left, by rw [hrest, ← hnonce]; rfl, hleft,
      List.Forall₂.cons hcontent hsame⟩

theorem not_readBack_cons {err : StreamError}
    (hread : (input.readOneSegment crypto keyList item.readAt).outcome = .error err) :
    ¬ ReadBack crypto keyList input (item :: rest) nonces back := by
  rintro ⟨segments, left, hrest, -⟩
  simp only [List.map_cons, readSegments, hread, Outcome.error_bind] at hrest
  cases hrest

end

theorem readBack_iff (keyList : Bytes → List Bytes) (hlawful : crypto.Lawful)
    (items : List StreamItem) (hsend : t.send = some send) (hmode : send.enableImplicitNonce = true)
    (hsendable : ∀ item ∈ items, item.seg.Sendable t.mtu .streamTransport) :
    ∃ writes nonces, t.writeSegments crypto items = .ok (writes, nonces) ∧
      ∀ (input : StreamInput) (back : Bytes), Synced crypto keyList input.t send →
        input.conn.flatten = writes.flatten ++ back →
        (ReadBack crypto keyList input items nonces back ↔
          (∀ item ∈ items, ClockAccepts item.choices.now item.readAt) ∧
            FirstAccepted input items) := by
  -- Induction on the segments: one read brings the reader in step with the
  -- sender's cipher after the first segment.
  induction items generalizing t send with
  | nil =>
    refine ⟨[], [], rfl, fun input back _ hconn => ?_⟩
    refine ⟨fun _ => ⟨by simp, trivial⟩, fun _ => ?_⟩
    exact ⟨[], input, rfl, hconn, List.Forall₂.nil⟩
  | cons item rest ih =>
    have hwrite := StreamUnderlay.writeOneSegment_of_send crypto hsend item.choices item.seg
    obtain ⟨written, hwritten⟩ : ∃ written, StreamUnderlay.sealSegment crypto send item.choices
          (item.seg.pad t.mtu .streamTransport item.choices.paddings) =
            written := ⟨_, rfl⟩
    have hmodeAfter : written.1.enableImplicitNonce = true := by
      rw [← hwritten, StreamUnderlay.sealSegment_of_implicit hmode]
      exact hmode
    obtain ⟨writes, nonces, hwrites, hrest⟩ := ih
      (t := { t with send := some written.1 }) rfl hmodeAfter
      fun other hother => hsendable other (List.mem_cons_of_mem _ hother)
    rw [hwritten] at hwrite
    refine ⟨t.writes item.choices.draws item.seg.metadata written.2 ++ writes,
      written.1.implicitNonce :: nonces, ?_, fun input back hsync hconn => ?_⟩
    · rw [StreamUnderlay.writeSegments, hwrite, Outcome.ok_bind]
      dsimp only
      rw [hwrites]
      rfl
    · rw [List.flatten_append, StreamUnderlay.flatten_writes, List.append_assoc] at hconn
      rcases readOneSegment_sealed hlawful hmode hsync
          (hsendable item List.mem_cons_self) item.choices item.readAt
          hwritten hconn with
        ⟨⟨hclock, haccepts⟩, received, after, hread, hcontent, hback, nonce,
          recv, hrecv, hnonce⟩ | ⟨hrejects, err, hread⟩
      · rw [readBack_cons hread hcontent (hrecv.recvNonce.trans hnonce.symm),
          hrest after back (.started hrecv hnonce) hback]
        simp only [List.forall_mem_cons, hclock, true_and,
          firstAccepted_of_recv hrecv.loaded, and_true]
        exact ⟨fun hclocks => ⟨hclocks, haccepts⟩, fun hclocks => hclocks.1⟩
      · refine ⟨fun h => absurd h (not_readBack_cons hread), fun h => ?_⟩
        exact absurd ⟨h.1 item List.mem_cons_self, h.2⟩ hrejects

theorem StreamUnderlay.writeSegments_of_init
    (h : t.maybeInitSendBlockCipher = .ok { t with send := some send }) (items : List StreamItem) :
    t.writeSegments crypto items =
      StreamUnderlay.writeSegments crypto { t with send := some send } items := by
  cases items with
  | nil => rfl
  | cons item rest =>
    have hinit : StreamUnderlay.maybeInitSendBlockCipher
        { t with send := some send } = .ok { t with send := some send } := rfl
    simp only [writeSegments, writeOneSegment, h, hinit]

/--
What is written to a connection is read back, in whatever pieces the bytes
arrive, exactly when no clock check fails and the first read is not refused as
a replay.
-/
theorem stream_roundTrip_iff {crypto : Crypto} (keyList : Bytes → List Bytes)
    (hlawful : crypto.Lawful) {sender : StreamUnderlay} {send : BlockCipher}
    (hsender : sender.maybeInitSendBlockCipher = .ok { sender with send := some send })
    (hmode : send.enableImplicitNonce = true) (items : List StreamItem)
    (hsendable : ∀ item ∈ items, item.seg.Sendable sender.mtu .streamTransport)
    (hclock : ∀ item ∈ items, item.choices.now - item.readAt ≤ 60000000000 ∧
      item.readAt - item.choices.now ≤ 60000000000) :
    ∃ writes nonces, sender.writeSegments crypto items = .ok (writes, nonces) ∧
      ∀ input : StreamInput, Synced crypto keyList input.t send →
        input.conn.flatten = writes.flatten →
        (ReadBack crypto keyList input items nonces [] ↔
          (∀ item ∈ items, ¬ (unixMinute (unixSeconds item.readAt) =
                unixMinute (unixSeconds item.choices.now) ∧
              WrappingMinute (unixMinute (unixSeconds item.choices.now)))) ∧
            FirstAccepted input items) := by
  have haccepts : ∀ item ∈ items, (ClockAccepts item.choices.now item.readAt ↔
        ¬ (unixMinute (unixSeconds item.readAt) = unixMinute (unixSeconds item.choices.now) ∧
          WrappingMinute (unixMinute (unixSeconds item.choices.now)))) := by
    intro item hitem
    have hitem := hclock item hitem
    refine withinRange_one_iff (adjacentMinutes_of_within ?_)
    unfold unixSeconds
    omega
  obtain ⟨writes, nonces, hwrites, hiff⟩ := readBack_iff keyList hlawful items
    (t := { sender with send := some send }) rfl hmode hsendable
  rw [← StreamUnderlay.writeSegments_of_init hsender] at hwrites
  refine ⟨writes, nonces, hwrites, fun input hsync hconn => ?_⟩
  rw [hiff input [] hsync (by rw [hconn, List.append_nil]), forall₂_congr haccepts]

/-! ## A client that writes and a server that reads -/

def streamCipher : BlockCipher :=
  aliceCipher.setImplicitNonceMode true

def streamClient : StreamUnderlay where
  isClient := true
  mtu := 1400
  block := some streamCipher
  tcpFragment := true

def streamServer : StreamUnderlay where
  isClient := false
  mtu := 1400
  users := [{ name := "alice", hashedPassword := "01" }]
  userHintIsMandatory := true

def openingRequest : Segment where
  metadata := .session {
    protocol := .openSessionRequest
    sessionID := 7
    payloadLen := 1 }
  payload := [42]

def streamChoicesAt (now : Int) : StreamChoices where
  fresh := nonceOf 5
  freshPayload := nonceOf 6
  paddings := shortPaddings
  draws round := round
  now := now

def greetingItems (now : Int) : List StreamItem :=
  [⟨openingRequest, streamChoicesAt now, now + 1000000000⟩,
    ⟨greeting, streamChoicesAt now, now + 1000000000⟩]

theorem greetingItems_sendable (now : Int) :
    ∀ item ∈ greetingItems now, item.seg.Sendable 1400 .streamTransport := by
  have hopening : openingRequest.Sendable 1400 .streamTransport :=
    ⟨by decide, by decide, by decide⟩
  have hgreeting : greeting.Sendable 1400 .streamTransport :=
    ⟨by decide, by decide, by decide⟩
  intro item hitem
  simp only [greetingItems, List.mem_cons, List.not_mem_nil, or_false] at hitem
  obtain rfl | rfl := hitem
  · exact hopening
  · exact hgreeting

theorem streamServer_synced : Synced tagCrypto passwordKeys streamServer streamCipher := by
  have huser : (⟨"alice", "", "01"⟩ : User) ∈ streamServer.users :=
    List.mem_singleton.mpr rfl
  refine .server rfl rfl (fun user hmem => ?_) huser
    ⟨[1], by decide, List.mem_singleton.mpr rfl⟩ (fun _ => rfl) ?_ rfl
  · obtain rfl := List.mem_singleton.mp hmem
    decide
  · rintro other ⟨user, hmem, password, hpassword, hkey⟩ hne
    obtain rfl := List.mem_singleton.mp hmem
    obtain rfl := List.mem_singleton.mp hkey
    cases hpassword
    exact absurd rfl hne

/-- Two minutes after the epoch both segments arrive. -/
theorem stream_roundTrip_greeting : ∃ writes nonces,
      streamClient.writeSegments tagCrypto (greetingItems 120000000000) = .ok (writes, nonces) ∧
      ReadBack tagCrypto passwordKeys ⟨streamServer, writes, emptyCache⟩
        (greetingItems 120000000000) nonces [] := by
  obtain ⟨writes, nonces, hwrites, hiff⟩ := stream_roundTrip_iff passwordKeys tagCrypto_lawful
    (show streamClient.maybeInitSendBlockCipher =
      .ok { streamClient with send := some streamCipher } from rfl) rfl
    (greetingItems 120000000000) (greetingItems_sendable _) (by decide)
  refine ⟨writes, nonces, hwrites, ?_⟩
  refine (hiff ⟨streamServer, writes, emptyCache⟩ streamServer_synced rfl).mpr
    ⟨by decide, fun hrefuses => ?_⟩
  have hduplicate := hrefuses.2.2
  simp [ReplayCache.isDuplicate, ReplayCache.expire, ReplayCache.rotate, emptyCache] at hduplicate

def epochWrites : List Bytes × List (Option Nonce) :=
  match streamClient.writeSegments tagCrypto (greetingItems 0) with
  | .ok written => written
  | _ => ([], [])

/-- In the first minute after the epoch the first segment is an error. -/
theorem stream_roundTrip_fails_at_epoch : Synced tagCrypto passwordKeys streamServer streamCipher ∧
      streamClient.writeSegments tagCrypto (greetingItems 0) = .ok epochWrites ∧
      ¬ ReadBack tagCrypto passwordKeys ⟨streamServer, epochWrites.1, emptyCache⟩ (greetingItems 0)
        epochWrites.2 [] := by
  have hread : StreamInput.readSegments tagCrypto passwordKeys
      ⟨streamServer, epochWrites.1, emptyCache⟩
      ((greetingItems 0).map StreamItem.readAt) = .error ⟨.protocolError,
          "Unmarshal() to sessionStruct failed: invalid timestamp 0"⟩ := by
    decide +kernel
  refine ⟨streamServer_synced, by decide +kernel, ?_⟩
  rintro ⟨segments, left, hback, -⟩
  rw [hread] at hback
  cases hback

end Mieru.Protocol
