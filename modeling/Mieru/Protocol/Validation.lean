import Mathlib.Tactic.IntervalCases
import Mieru.Protocol.Metadata

/-!
# What the metadata checks accept

The purpose of both `Unmarshal` functions is stated against `Marshal`: a byte
string carries a struct when it agrees with the struct's encoding outside the
reserved bytes, and only a struct with a legal protocol, a fresh minute and,
for a session, a bounded payload is to be accepted.
-/

namespace Mieru.Protocol

open Mieru.Foundation ProtocolType

variable {ss : SessionStruct} {b : Bytes} {das : DataAckStruct}

/-- What the receiver of an `Unmarshal` call holds once it returned. -/
def receiverAfter {ε α : Type} (prior : α) : Outcome ε α → α
  | .ok value => value
  | .error _ => prior
  | .panic _ => prior

/-- The call accepts exactly the acceptable values, stores the one that is
encoded, and leaves a receiver alone that it does not fill. -/
structure ReadsExactly {ε α : Type} (encoded acceptable : α → Prop)
    (prior : α) (result : Outcome ε α) : Prop where
  succeeds : (∃ value, result = .ok value) ↔ ∃ value, encoded value ∧ acceptable value
  stores : ∀ value, result = .ok value → encoded value ∧ receiverAfter prior result = value
  keeps : (¬ ∃ value, result = .ok value) → receiverAfter prior result = prior

/-- A call whose checks are `passes` reads exactly when, on the one value that
is encoded, these checks are the intended ones. -/
theorem readsExactly_iff {ε α : Type} {encoded acceptable passes : α → Prop} {result : Outcome ε α}
    (prior : α) (hok : ∀ value, result = .ok value ↔ encoded value ∧ passes value)
    (hunique : ∀ value other, encoded value → encoded other → other = value) :
    ReadsExactly encoded acceptable prior result ↔
      ∀ value, encoded value → (passes value ↔ acceptable value) := by
  constructor
  · intro h value hencoded
    constructor
    · intro hpasses
      obtain ⟨other, hother, hgood⟩ :=
        h.succeeds.mp ⟨value, (hok value).mpr ⟨hencoded, hpasses⟩⟩
      rwa [hunique value other hencoded hother] at hgood
    · intro hgood
      obtain ⟨other, hother⟩ := h.succeeds.mpr ⟨value, hencoded, hgood⟩
      have hchecks := (hok other).mp hother
      rw [hunique value other hencoded hchecks.1] at hchecks
      exact hchecks.2
  · intro h
    constructor
    · constructor
      · rintro ⟨value, hvalue⟩
        have hchecks := (hok value).mp hvalue
        exact ⟨value, hchecks.1, (h value hchecks.1).mp hchecks.2⟩
      · rintro ⟨value, hencoded, hgood⟩
        have hpasses := (h value hencoded).mpr hgood
        exact ⟨value, (hok value).mpr ⟨hencoded, hpasses⟩⟩
    · intro value hvalue
      exact ⟨((hok value).mp hvalue).1, by rw [hvalue]; rfl⟩
    · intro hfails
      cases hresult : result with
      | ok value => exact absurd ⟨value, hresult⟩ hfails
      | error err => rfl
      | panic message => rfl

/-- `b` has the length of metadata and holds the bytes of `encoded` at every
offset below `used`, except the reserved byte. -/
def AgreesWith (b encoded : Bytes) (used : Nat) : Prop :=
  b.length = metadataLength ∧ ∀ offset < used, offset ≠ 1 → byteAt b offset = byteAt encoded offset

theorem ofByte?_eq_some_iff {byte : UInt8} {protocol : ProtocolType} :
    ofByte? byte = some protocol ↔ protocol.toByte = byte := by
  constructor
  · intro hfound
    have hsame := List.find?_some hfound
    simpa using hsame
  · rintro rfl
    exact ofByte?_toByte protocol

theorem toByte_inj {protocol other : ProtocolType}
    (h : protocol.toByte = other.toByte) : protocol = other := by
  have hsame : ofByte? protocol.toByte = ofByte? other.toByte := by rw [h]
  simpa using hsame

theorem nearMinutes_self (minute : UInt32) : NearMinutes minute minute :=
  ⟨Nat.le_succ _, Nat.le_succ _⟩

namespace AgreesWith

variable {b encoded : Bytes} {used : Nat}

theorem uint16At_eq (h : AgreesWith b encoded used) {offset : Nat}
    (hlow : 2 ≤ offset) (hused : offset + 1 < used) :
    uint16At b offset = uint16At encoded offset := by
  simp only [uint16At]
  rw [h.2 offset (by omega) (by omega), h.2 (offset + 1) hused (by omega)]

theorem uint32At_eq (h : AgreesWith b encoded used) {offset : Nat}
    (hlow : 2 ≤ offset) (hused : offset + 3 < used) :
    uint32At b offset = uint32At encoded offset := by
  simp only [uint32At]
  rw [h.2 offset (by omega) (by omega), h.2 (offset + 1) (by omega) (by omega),
    h.2 (offset + 2) (by omega) (by omega), h.2 (offset + 3) hused (by omega)]

end AgreesWith

/-! ## Session metadata -/

namespace SessionStruct

/-- The struct is the one that the bytes encode; bytes 18 to 31 are unused. -/
def IsEncodedIn (ss : SessionStruct) (b : Bytes) : Prop :=
  AgreesWith b ss.encode 18

def fieldsOf (protocol : ProtocolType) (b : Bytes) : SessionStruct where
  protocol := protocol
  timestamp := uint32At b 2
  sessionID := uint32At b 6
  seq := uint32At b 10
  statusCode := byteAt b 14
  payloadLen := uint16At b 15
  suffixLen := byteAt b 17

theorem encode_fieldsOf (protocol : ProtocolType) (b : Bytes) : (fieldsOf protocol b).encode =
      [protocol.toByte, 0, byteAt b 2, byteAt b 3, byteAt b 4, byteAt b 5,
        byteAt b 6, byteAt b 7, byteAt b 8, byteAt b 9, byteAt b 10,
        byteAt b 11, byteAt b 12, byteAt b 13, byteAt b 14, byteAt b 15,
        byteAt b 16, byteAt b 17] ++ List.replicate 14 0 := by
  simp only [encode, fieldsOf, putUint32_uint32At, putUint16_uint16At]
  rfl

theorem isEncodedIn_iff : ss.IsEncodedIn b ↔ b.length = metadataLength ∧
      ss.protocol.toByte = byteAt b 0 ∧ ss = fieldsOf ss.protocol b := by
  constructor
  · intro h
    have hbyte : ∀ offset < 18, offset ≠ 1 → byteAt b offset = byteAt ss.encode offset := h.2
    refine ⟨h.1, (hbyte 0 (by decide) (by decide)).symm, ?_⟩
    have htimestamp := h.uint32At_eq (by decide : 2 ≤ 2) (by decide)
    have hsession := h.uint32At_eq (by decide : 2 ≤ 6) (by decide)
    have hseq := h.uint32At_eq (by decide : 2 ≤ 10) (by decide)
    have hpayload := h.uint16At_eq (by decide : 2 ≤ 15) (by decide)
    rw [timestamp_encode] at htimestamp
    rw [sessionID_encode] at hsession
    rw [seq_encode] at hseq
    rw [payloadLen_encode] at hpayload
    simp only [fieldsOf, htimestamp, hsession, hseq, hpayload,
      hbyte 14 (by decide) (by decide), hbyte 17 (by decide) (by decide)]
    rfl
  · rintro ⟨hlength, hprotocol, hfields⟩
    refine ⟨hlength, fun offset hused hreserved => ?_⟩
    rw [hfields, encode_fieldsOf, hprotocol]
    interval_cases offset <;> first | rfl | exact absurd rfl hreserved

theorem IsEncodedIn.unique {other : SessionStruct} (h : ss.IsEncodedIn b)
    (hother : other.IsEncodedIn b) : other = ss := by
  rw [isEncodedIn_iff] at h hother
  have hprotocol : other.protocol = ss.protocol :=
    toByte_inj (hother.2.1.trans h.2.1.symm)
  rw [hother.2.2, h.2.2, hprotocol]

theorem unmarshal_eq_ok_iff {prior : SessionStruct} {unix : Int} :
    prior.unmarshal b unix = .ok ss ↔ ss.IsEncodedIn b ∧ isSessionProtocol ss.protocol = true ∧
        withinRange (unixMinute unix) ss.timestamp 1 = true ∧
        prior.payloadLen.toNat ≤ maxSessionOpenPayload := by
  rw [isEncodedIn_iff]
  constructor
  · intro h
    unfold unmarshal at h
    dsimp only at h
    split at h
    · cases h
    rename_i hlength
    split at h
    case h_2 => cases h
    rename_i protocol hbyte
    split at h
    case isFalse => cases h
    rename_i hlegal
    split at h
    case isFalse => cases h
    rename_i hminute
    split at h
    · cases h
    rename_i hpayload
    cases h
    exact ⟨⟨not_not.mp hlength, ofByte?_eq_some_iff.mp hbyte, rfl⟩, hlegal,
      hminute, Nat.not_lt.mp hpayload⟩
  · rintro ⟨⟨hlength, hbyte, hfields⟩, hlegal, hminute, hpayload⟩
    have htimestamp : ss.timestamp = uint32At b 2 := by rw [hfields]; rfl
    rw [htimestamp] at hminute
    unfold unmarshal
    rw [if_neg (not_not.mpr hlength), ofByte?_eq_some_iff.mpr hbyte]
    dsimp only
    rw [if_pos hlegal, if_pos hminute, if_neg (Nat.not_lt.mpr hpayload)]
    exact congrArg Outcome.ok hfields.symm

def Acceptable (unix : Int) (ss : SessionStruct) : Prop :=
  isSessionProtocol ss.protocol = true ∧ NearMinutes ss.timestamp (unixMinute unix) ∧
    ss.payloadLen.toNat ≤ maxSessionOpenPayload

/-- The condition on a legal struct `ss` read over `prior`: at a wrapping
minute the minute itself is refused and every far one let through, and in all
cases it is the old payload length that is compared with the maximum. -/
def ChecksAgree (prior : SessionStruct) (unix : Int) (ss : SessionStruct) : Prop :=
  if WrappingMinute ss.timestamp ∧ unixMinute unix = ss.timestamp then
    maxSessionOpenPayload < ss.payloadLen.toNat
  else if NearMinutes ss.timestamp (unixMinute unix) then
    (prior.payloadLen.toNat ≤ maxSessionOpenPayload ↔ ss.payloadLen.toNat ≤ maxSessionOpenPayload)
  else
    WrappingMinute ss.timestamp → maxSessionOpenPayload < prior.payloadLen.toNat

theorem checksAgree_iff (prior ss : SessionStruct) (unix : Int) : prior.ChecksAgree unix ss ↔
      ((withinRange (unixMinute unix) ss.timestamp 1 = true ∧
          prior.payloadLen.toNat ≤ maxSessionOpenPayload) ↔
        (NearMinutes ss.timestamp (unixMinute unix) ∧
          ss.payloadLen.toNat ≤ maxSessionOpenPayload)) := by
  rw [withinRange_iff]
  unfold ChecksAgree
  by_cases hwrap : WrappingMinute ss.timestamp
  · by_cases hsame : unixMinute unix = ss.timestamp
    · have hnear := nearMinutes_self ss.timestamp
      simp [hwrap, hsame, hnear]
    · by_cases hnear : NearMinutes ss.timestamp (unixMinute unix) <;>
        simp [hwrap, hsame, hnear]
  · by_cases hnear : NearMinutes ss.timestamp (unixMinute unix) <;>
      simp [hwrap, hnear]

theorem readsExactly_unmarshal (prior : SessionStruct) (b : Bytes) (unix : Int) :
    ReadsExactly (IsEncodedIn · b) (Acceptable unix) prior (prior.unmarshal b unix) ↔
      ∀ ss : SessionStruct, ss.IsEncodedIn b →
        isSessionProtocol ss.protocol = true → prior.ChecksAgree unix ss := by
  rw [readsExactly_iff prior (fun ss => unmarshal_eq_ok_iff)
    (fun ss other hss hother => hss.unique hother)]
  apply forall_congr'
  intro ss
  apply imp_congr_right
  intro hencoded
  rw [checksAgree_iff]
  by_cases hlegal : isSessionProtocol ss.protocol = true <;>
    simp [Acceptable, hlegal]

end SessionStruct

/-! ## Data and acknowledgement metadata -/

namespace DataAckStruct

/-- Bytes 25 to 31 are unused. -/
def IsEncodedIn (das : DataAckStruct) (b : Bytes) : Prop :=
  AgreesWith b das.encode 25

def fieldsOf (protocol : ProtocolType) (b : Bytes) : DataAckStruct where
  protocol := protocol
  timestamp := uint32At b 2
  sessionID := uint32At b 6
  seq := uint32At b 10
  unAckSeq := uint32At b 14
  windowSize := uint16At b 18
  fragment := byteAt b 20
  prefixLen := byteAt b 21
  payloadLen := uint16At b 22
  suffixLen := byteAt b 24

theorem encode_fieldsOf (protocol : ProtocolType) (b : Bytes) : (fieldsOf protocol b).encode =
      [protocol.toByte, 0, byteAt b 2, byteAt b 3, byteAt b 4, byteAt b 5,
        byteAt b 6, byteAt b 7, byteAt b 8, byteAt b 9, byteAt b 10,
        byteAt b 11, byteAt b 12, byteAt b 13, byteAt b 14, byteAt b 15,
        byteAt b 16, byteAt b 17, byteAt b 18, byteAt b 19, byteAt b 20,
        byteAt b 21, byteAt b 22, byteAt b 23, byteAt b 24] ++ List.replicate 7 0 := by
  simp only [encode, fieldsOf, putUint32_uint32At, putUint16_uint16At]
  rfl

theorem isEncodedIn_iff : das.IsEncodedIn b ↔ b.length = metadataLength ∧
      das.protocol.toByte = byteAt b 0 ∧ das = fieldsOf das.protocol b := by
  constructor
  · intro h
    have hbyte : ∀ offset < 25, offset ≠ 1 → byteAt b offset = byteAt das.encode offset := h.2
    refine ⟨h.1, (hbyte 0 (by decide) (by decide)).symm, ?_⟩
    have htimestamp := h.uint32At_eq (by decide : 2 ≤ 2) (by decide)
    have hsession := h.uint32At_eq (by decide : 2 ≤ 6) (by decide)
    have hseq := h.uint32At_eq (by decide : 2 ≤ 10) (by decide)
    have hunacked := h.uint32At_eq (by decide : 2 ≤ 14) (by decide)
    have hwindow := h.uint16At_eq (by decide : 2 ≤ 18) (by decide)
    have hpayload := h.uint16At_eq (by decide : 2 ≤ 22) (by decide)
    rw [timestamp_encode] at htimestamp
    rw [sessionID_encode] at hsession
    rw [seq_encode] at hseq
    rw [unAckSeq_encode] at hunacked
    rw [windowSize_encode] at hwindow
    rw [payloadLen_encode] at hpayload
    simp only [fieldsOf, htimestamp, hsession, hseq, hunacked, hwindow,
      hpayload, hbyte 20 (by decide) (by decide),
      hbyte 21 (by decide) (by decide), hbyte 24 (by decide) (by decide)]
    rfl
  · rintro ⟨hlength, hprotocol, hfields⟩
    refine ⟨hlength, fun offset hused hreserved => ?_⟩
    rw [hfields, encode_fieldsOf, hprotocol]
    interval_cases offset <;> first | rfl | exact absurd rfl hreserved

theorem IsEncodedIn.unique {other : DataAckStruct} (h : das.IsEncodedIn b)
    (hother : other.IsEncodedIn b) : other = das := by
  rw [isEncodedIn_iff] at h hother
  have hprotocol : other.protocol = das.protocol :=
    toByte_inj (hother.2.1.trans h.2.1.symm)
  rw [hother.2.2, h.2.2, hprotocol]

theorem unmarshal_eq_ok_iff {unix : Int} :
    unmarshal b unix = .ok das ↔ das.IsEncodedIn b ∧ isDataAckProtocol das.protocol = true ∧
        withinRange (unixMinute unix) das.timestamp 1 = true := by
  rw [isEncodedIn_iff]
  constructor
  · intro h
    unfold unmarshal at h
    dsimp only at h
    split at h
    · cases h
    rename_i hlength
    split at h
    case h_2 => cases h
    rename_i protocol hbyte
    split at h
    case isFalse => cases h
    rename_i hlegal
    split at h
    case isFalse => cases h
    rename_i hminute
    cases h
    exact ⟨⟨not_not.mp hlength, ofByte?_eq_some_iff.mp hbyte, rfl⟩, hlegal, hminute⟩
  · rintro ⟨⟨hlength, hbyte, hfields⟩, hlegal, hminute⟩
    have htimestamp : das.timestamp = uint32At b 2 := by rw [hfields]; rfl
    rw [htimestamp] at hminute
    unfold unmarshal
    rw [if_neg (not_not.mpr hlength), ofByte?_eq_some_iff.mpr hbyte]
    dsimp only
    rw [if_pos hlegal, if_pos hminute]
    exact congrArg Outcome.ok hfields.symm

def Acceptable (unix : Int) (das : DataAckStruct) : Prop :=
  isDataAckProtocol das.protocol = true ∧ NearMinutes das.timestamp (unixMinute unix)

/-- At a wrapping minute only the neighbouring minute is treated as meant. -/
def ChecksAgree (unix : Int) (das : DataAckStruct) : Prop :=
  WrappingMinute das.timestamp → unixMinute unix ≠ das.timestamp ∧
      NearMinutes das.timestamp (unixMinute unix)

theorem checksAgree_iff (das : DataAckStruct) (unix : Int) : das.ChecksAgree unix ↔
      (withinRange (unixMinute unix) das.timestamp 1 = true ↔
        NearMinutes das.timestamp (unixMinute unix)) := by
  rw [withinRange_iff]
  unfold ChecksAgree
  by_cases hwrap : WrappingMinute das.timestamp
  · by_cases hsame : unixMinute unix = das.timestamp
    · have hnear := nearMinutes_self das.timestamp
      simp [hwrap, hsame, hnear]
    · simp [hwrap, hsame]
  · simp [hwrap]

theorem readsExactly_unmarshal (prior : DataAckStruct) (b : Bytes) (unix : Int) :
    ReadsExactly (IsEncodedIn · b) (Acceptable unix) prior (unmarshal b unix) ↔
      ∀ das : DataAckStruct, das.IsEncodedIn b →
        isDataAckProtocol das.protocol = true → das.ChecksAgree unix := by
  rw [readsExactly_iff prior (fun das => unmarshal_eq_ok_iff)
    (fun das other hdas hother => hdas.unique hother)]
  apply forall_congr'
  intro das
  apply imp_congr_right
  intro hencoded
  rw [checksAgree_iff]
  by_cases hlegal : isDataAckProtocol das.protocol = true <;>
    simp [Acceptable, hlegal]

end DataAckStruct

/-! ## Both together -/

/-- The validation of metadata is exact just where the wrapping bounds of the
minute and the length that the receiver held before do not matter. -/
theorem metadata_validation_exact_iff (b : Bytes) (unix : Int)
    (ss : SessionStruct) (das : DataAckStruct) : (ReadsExactly (SessionStruct.IsEncodedIn · b)
          (SessionStruct.Acceptable unix) ss (ss.unmarshal b unix) ↔
        ∀ read : SessionStruct, read.IsEncodedIn b → isSessionProtocol read.protocol = true →
            ss.ChecksAgree unix read) ∧ (ReadsExactly (DataAckStruct.IsEncodedIn · b)
          (DataAckStruct.Acceptable unix) das (DataAckStruct.unmarshal b unix) ↔
        ∀ read : DataAckStruct, read.IsEncodedIn b →
          isDataAckProtocol read.protocol = true → read.ChecksAgree unix) :=
  ⟨ss.readsExactly_unmarshal b unix, das.readsExactly_unmarshal b unix⟩

def oversizedOpenRequest : SessionStruct where
  protocol := openSessionRequest
  timestamp := 5
  sessionID := 7
  payloadLen := 2000

/-- A fresh receiver takes an announced payload of 2000 bytes, the receiver
that took it then refuses a good message, and a zero minute passes as fresh
thousands of minutes later. -/
theorem metadata_validation_not_exact : SessionStruct.unmarshal {} oversizedOpenRequest.encode 300 =
        .ok oversizedOpenRequest ∧ maxSessionOpenPayload < oversizedOpenRequest.payloadLen.toNat ∧
      ¬ oversizedOpenRequest.Acceptable 300 ∧ ¬ (∃ ss, oversizedOpenRequest.unmarshal
          { oversizedOpenRequest with payloadLen := 0 }.encode 300 = .ok ss) ∧
      (∃ das, DataAckStruct.unmarshal
          { protocol := dataClientToServer : DataAckStruct }.encode 600000 =
            .ok das ∧ ¬ das.Acceptable 600000) := by
  refine ⟨by decide +kernel, by decide, ?_, ?_, ?_⟩
  · exact fun h => absurd h.2.2 (by decide)
  · rintro ⟨ss, hss⟩
    exact absurd (SessionStruct.unmarshal_eq_ok_iff.mp hss).2.2.2 (by decide)
  · exact ⟨{ protocol := dataClientToServer }, by decide +kernel,
      fun h => absurd h.2 (by decide +kernel)⟩

end Mieru.Protocol
