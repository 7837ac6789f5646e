import Mieru.Foundation.Bytes
import Mieru.Foundation.Outcome

/-!
# Segment metadata

The two 32-byte metadata layouts of `metadata.go`, with the clock check of
`mathext.WithinRange`.  The clock is an argument: `unix` stands for
`time.Now().Unix()` at the call.
-/

namespace Mieru.Protocol

open Mieru.Foundation

inductive ProtocolType where
  | closeConnRequest
  | closeConnResponse
  | openSessionRequest
  | openSessionResponse
  | closeSessionRequest
  | closeSessionResponse
  | dataClientToServer
  | dataServerToClient
  | ackClientToServer
  | ackServerToClient
  deriving DecidableEq, Repr

namespace ProtocolType

def toByte : ProtocolType → UInt8
  | closeConnRequest => 0
  | closeConnResponse => 1
  | openSessionRequest => 2
  | openSessionResponse => 3
  | closeSessionRequest => 4
  | closeSessionResponse => 5
  | dataClientToServer => 6
  | dataServerToClient => 7
  | ackClientToServer => 8
  | ackServerToClient => 9

def all : List ProtocolType :=
  [closeConnRequest, closeConnResponse, openSessionRequest,
    openSessionResponse, closeSessionRequest, closeSessionResponse,
    dataClientToServer, dataServerToClient, ackClientToServer,
    ackServerToClient]

def ofByte? (byte : UInt8) : Option ProtocolType :=
  all.find? fun protocol => protocol.toByte == byte

@[simp] theorem ofByte?_toByte (protocol : ProtocolType) :
    ofByte? protocol.toByte = some protocol := by
  cases protocol <;> rfl

end ProtocolType

open ProtocolType

def isSessionProtocol (p : ProtocolType) : Bool :=
  p == openSessionRequest || p == openSessionResponse ||
    p == closeSessionRequest || p == closeSessionResponse

def isDataAckProtocol (p : ProtocolType) : Bool :=
  p == dataClientToServer || p == dataServerToClient ||
    p == ackClientToServer || p == ackServerToClient

theorem not_isSession_of_isDataAck {p : ProtocolType}
    (h : isDataAckProtocol p = true) : isSessionProtocol p = false := by
  cases p <;> first | rfl | cases h

/-- `time.Now().Unix()` of a clock in nanoseconds since the epoch. -/
def unixSeconds (now : Int) : Int := now / 1000000000

/-- `uint32(time.Now().Unix() / 60)`. -/
def unixMinute (unix : Int) : UInt32 := UInt32.ofInt (unix.tdiv 60)

/-- `mathext.Mid`: the median, by three compare-and-swap steps. -/
def mid {α : Type} [LT α] [DecidableLT α] (a b c : α) : α :=
  let low := if b < a then b else a
  let high := if b < a then a else b
  let last := if c < low then low else c
  if last < high then last else high

def withinRange {α : Type} [LT α] [DecidableLT α] [DecidableEq α] [Add α]
    [Sub α] (v target margin : α) : Bool :=
  mid v (target - margin) (target + margin) == v

def AdjacentMinutes (sent read : UInt32) : Prop :=
  read = sent ∨ read = sent + 1 ∨ sent = read + 1

/-- The minute at which one of the two bounds of the accepted range wraps. -/
def WrappingMinute (sent : UInt32) : Prop := sent = 0 ∨ sent = 4294967295

instance (sent : UInt32) : Decidable (WrappingMinute sent) :=
  inferInstanceAs (Decidable (_ ∨ _))

def NearMinutes (sent read : UInt32) : Prop :=
  sent.toNat ≤ read.toNat + 1 ∧ read.toNat ≤ sent.toNat + 1

instance (sent read : UInt32) : Decidable (NearMinutes sent read) :=
  inferInstanceAs (Decidable (_ ∧ _))

private theorem mid_eq_self_iff (v low high : UInt32) : mid v low high = v ↔
      min low.toNat high.toNat ≤ v.toNat ∧ v.toNat ≤ max low.toNat high.toNat := by
  have heq : mid v low high = v ↔ (mid v low high).toNat = v.toNat :=
    UInt32.toNat_inj.symm
  rw [heq]
  simp only [mid, UInt32.lt_iff_toNat_lt]
  by_cases hlow : low.toNat < v.toNat <;> simp only [hlow, if_true, if_false]
  · by_cases hhigh : high.toNat < low.toNat <;>
      simp only [hhigh, if_true, if_false] <;> split <;> omega
  · by_cases hhigh : high.toNat < v.toNat <;>
      simp only [hhigh, if_true, if_false] <;> split <;> omega

theorem withinRange_one_iff {sent read : UInt32} (h : AdjacentMinutes sent read) :
    withinRange read sent 1 = true ↔ ¬ (read = sent ∧ WrappingMinute sent) := by
  have hsent := sent.toNat_lt
  have hread := read.toNat_lt
  simp only [withinRange, beq_iff_eq, mid_eq_self_iff, UInt32.toNat_add, UInt32.toNat_sub]
  simp only [WrappingMinute, AdjacentMinutes, ← UInt32.toNat_inj, UInt32.toNat_add] at h ⊢
  simp at h ⊢
  omega

/-- Where a bound wraps, the accepted range is everything but the minute
itself. -/
theorem withinRange_iff (sent read : UInt32) : withinRange read sent 1 = true ↔
      if WrappingMinute sent then read ≠ sent else NearMinutes sent read := by
  have hsent := sent.toNat_lt
  have hread := read.toNat_lt
  simp only [withinRange, beq_iff_eq, mid_eq_self_iff, UInt32.toNat_add, UInt32.toNat_sub]
  simp only [WrappingMinute, NearMinutes, ne_eq, ← UInt32.toNat_inj]
  split <;> simp_all <;> omega

theorem adjacentMinutes_of_within {written read : Int}
    (h : written - read ≤ 60 ∧ read - written ≤ 60) :
    AdjacentMinutes (unixMinute written) (unixMinute read) := by
  have hminutes : read.tdiv 60 = written.tdiv 60 ∨ read.tdiv 60 = written.tdiv 60 + 1 ∨
      written.tdiv 60 = read.tdiv 60 + 1 := by
    have htdiv : ∀ seconds : Int, seconds.tdiv 60 =
        if 0 ≤ seconds then seconds / 60 else -(-seconds / 60) := by
      intro seconds
      split
      · exact Int.tdiv_eq_ediv_of_nonneg ‹_›
      · rw [← Int.tdiv_eq_ediv_of_nonneg (by omega), Int.neg_tdiv, Int.neg_neg]
    rw [htdiv, htdiv]
    split <;> split <;> omega
  simp only [AdjacentMinutes, unixMinute]
  rcases hminutes with hminutes | hminutes | hminutes
  · exact .inl (by rw [hminutes])
  · exact .inr (.inl (by rw [hminutes, UInt32.ofInt_add]; rfl))
  · exact .inr (.inr (by rw [hminutes, UInt32.ofInt_add]; rfl))

def metadataLength : Nat := 32

def maxSessionOpenPayload : Nat := 1024

structure SessionStruct where
  protocol : ProtocolType := closeConnRequest
  timestamp : UInt32 := 0
  sessionID : UInt32 := 0
  seq : UInt32 := 0
  statusCode : UInt8 := 0
  payloadLen : UInt16 := 0
  suffixLen : UInt8 := 0
  deriving DecidableEq, Repr

structure DataAckStruct where
  protocol : ProtocolType := closeConnRequest
  timestamp : UInt32 := 0
  sessionID : UInt32 := 0
  seq : UInt32 := 0
  unAckSeq : UInt32 := 0
  windowSize : UInt16 := 0
  fragment : UInt8 := 0
  prefixLen : UInt8 := 0
  payloadLen : UInt16 := 0
  suffixLen : UInt8 := 0
  deriving DecidableEq, Repr

namespace SessionStruct

/-- The bytes `Marshal` writes; `Marshal` stores the timestamp first. -/
def encode (ss : SessionStruct) : Bytes :=
  [ss.protocol.toByte, 0] ++ (putUint32 ss.timestamp ++
    (putUint32 ss.sessionID ++ (putUint32 ss.seq ++ ([ss.statusCode] ++
      (putUint16 ss.payloadLen ++ ([ss.suffixLen] ++ List.replicate 14 0))))))

def stamp (ss : SessionStruct) (unix : Int) : SessionStruct :=
  { ss with timestamp := unixMinute unix }

def marshal (ss : SessionStruct) (unix : Int) : SessionStruct × Bytes :=
  (ss.stamp unix, (ss.stamp unix).encode)

/-- `ss` is the receiver's content before the call. -/
def unmarshal (ss : SessionStruct) (b : Bytes) (unix : Int) : Outcome String SessionStruct :=
  if b.length ≠ metadataLength then
    .error s!"input bytes: {b.length}, want {metadataLength}"
  else
    match ofByte? (byteAt b 0) with
    | some protocol =>
      if isSessionProtocol protocol then
        let originalTimestamp := uint32At b 2
        if withinRange (unixMinute unix) originalTimestamp 1 then
          if ss.payloadLen.toNat > maxSessionOpenPayload then
            .error s!"payload size {ss.payloadLen} exceed maximum value {maxSessionOpenPayload}"
          else
            .ok {
              protocol := protocol
              timestamp := originalTimestamp
              sessionID := uint32At b 6
              seq := uint32At b 10
              statusCode := byteAt b 14
              payloadLen := uint16At b 15
              suffixLen := byteAt b 17 }
        else .error s!"invalid timestamp {originalTimestamp * 60}"
      else .error s!"invalid protocol {byteAt b 0}"
    | none => .error s!"invalid protocol {byteAt b 0}"

theorem unmarshal_ne_panic (ss : SessionStruct) (b : Bytes) (unix : Int)
    (message : String) : ss.unmarshal b unix ≠ .panic message := by
  unfold unmarshal
  dsimp only
  repeat' split
  all_goals simp

@[simp] theorem length_encode (ss : SessionStruct) : ss.encode.length = metadataLength := rfl

@[simp] theorem byteAt_encode_zero (ss : SessionStruct) :
    byteAt ss.encode 0 = ss.protocol.toByte := rfl

theorem timestamp_encode (ss : SessionStruct) : uint32At ss.encode 2 = ss.timestamp :=
  uint32At_append [ss.protocol.toByte, 0] _ ss.timestamp

theorem sessionID_encode (ss : SessionStruct) : uint32At ss.encode 6 = ss.sessionID :=
  uint32At_append ([ss.protocol.toByte, 0] ++ putUint32 ss.timestamp) _ ss.sessionID

theorem seq_encode (ss : SessionStruct) : uint32At ss.encode 10 = ss.seq :=
  uint32At_append ([ss.protocol.toByte, 0] ++ putUint32 ss.timestamp ++
    putUint32 ss.sessionID) _ ss.seq

theorem payloadLen_encode (ss : SessionStruct) : uint16At ss.encode 15 = ss.payloadLen :=
  uint16At_append ([ss.protocol.toByte, 0] ++ putUint32 ss.timestamp ++
    putUint32 ss.sessionID ++ putUint32 ss.seq ++ [ss.statusCode]) _
    ss.payloadLen

theorem unmarshal_encode {ss prior : SessionStruct}
    (hprotocol : isSessionProtocol ss.protocol = true)
    (hprior : prior.payloadLen.toNat ≤ maxSessionOpenPayload) (unix : Int) :
    prior.unmarshal ss.encode unix = if withinRange (unixMinute unix) ss.timestamp 1 then .ok ss
      else .error s!"invalid timestamp {ss.timestamp * 60}" := by
  unfold unmarshal
  rw [if_neg (not_not.mpr ss.length_encode), byteAt_encode_zero, ofByte?_toByte]
  dsimp only
  rw [if_pos hprotocol, if_neg (Nat.not_lt.mpr hprior), timestamp_encode,
    sessionID_encode, seq_encode, payloadLen_encode]
  rfl

end SessionStruct

namespace DataAckStruct

def encode (das : DataAckStruct) : Bytes :=
  [das.protocol.toByte, 0] ++ (putUint32 das.timestamp ++
    (putUint32 das.sessionID ++ (putUint32 das.seq ++
      (putUint32 das.unAckSeq ++ (putUint16 das.windowSize ++
        ([das.fragment, das.prefixLen] ++ (putUint16 das.payloadLen ++
          ([das.suffixLen] ++ List.replicate 7 0))))))))

def stamp (das : DataAckStruct) (unix : Int) : DataAckStruct :=
  { das with timestamp := unixMinute unix }

def marshal (das : DataAckStruct) (unix : Int) : DataAckStruct × Bytes :=
  (das.stamp unix, (das.stamp unix).encode)

def unmarshal (b : Bytes) (unix : Int) : Outcome String DataAckStruct :=
  if b.length ≠ metadataLength then
    .error s!"input bytes: {b.length}, want {metadataLength}"
  else
    match ofByte? (byteAt b 0) with
    | some protocol =>
      if isDataAckProtocol protocol then
        let originalTimestamp := uint32At b 2
        if withinRange (unixMinute unix) originalTimestamp 1 then
          .ok {
            protocol := protocol
            timestamp := originalTimestamp
            sessionID := uint32At b 6
            seq := uint32At b 10
            unAckSeq := uint32At b 14
            windowSize := uint16At b 18
            fragment := byteAt b 20
            prefixLen := byteAt b 21
            payloadLen := uint16At b 22
            suffixLen := byteAt b 24 }
        else .error s!"invalid timestamp {originalTimestamp * 60}"
      else .error s!"invalid protocol {byteAt b 0}"
    | none => .error s!"invalid protocol {byteAt b 0}"

theorem unmarshal_ne_panic (b : Bytes) (unix : Int) (message : String) :
    unmarshal b unix ≠ .panic message := by
  unfold unmarshal
  dsimp only
  repeat' split
  all_goals simp

@[simp] theorem length_encode (das : DataAckStruct) : das.encode.length = metadataLength := rfl

@[simp] theorem byteAt_encode_zero (das : DataAckStruct) :
    byteAt das.encode 0 = das.protocol.toByte := rfl

theorem timestamp_encode (das : DataAckStruct) : uint32At das.encode 2 = das.timestamp :=
  uint32At_append [das.protocol.toByte, 0] _ das.timestamp

theorem sessionID_encode (das : DataAckStruct) : uint32At das.encode 6 = das.sessionID :=
  uint32At_append ([das.protocol.toByte, 0] ++ putUint32 das.timestamp) _ das.sessionID

theorem seq_encode (das : DataAckStruct) : uint32At das.encode 10 = das.seq :=
  uint32At_append ([das.protocol.toByte, 0] ++ putUint32 das.timestamp ++
    putUint32 das.sessionID) _ das.seq

theorem unAckSeq_encode (das : DataAckStruct) : uint32At das.encode 14 = das.unAckSeq :=
  uint32At_append ([das.protocol.toByte, 0] ++ putUint32 das.timestamp ++
    putUint32 das.sessionID ++ putUint32 das.seq) _ das.unAckSeq

theorem windowSize_encode (das : DataAckStruct) : uint16At das.encode 18 = das.windowSize :=
  uint16At_append ([das.protocol.toByte, 0] ++ putUint32 das.timestamp ++
    putUint32 das.sessionID ++ putUint32 das.seq ++
    putUint32 das.unAckSeq) _ das.windowSize

theorem payloadLen_encode (das : DataAckStruct) : uint16At das.encode 22 = das.payloadLen :=
  uint16At_append ([das.protocol.toByte, 0] ++ putUint32 das.timestamp ++
    putUint32 das.sessionID ++ putUint32 das.seq ++
    putUint32 das.unAckSeq ++ putUint16 das.windowSize ++
    [das.fragment, das.prefixLen]) _ das.payloadLen

theorem unmarshal_encode {das : DataAckStruct}
    (hprotocol : isDataAckProtocol das.protocol = true) (unix : Int) :
    unmarshal das.encode unix = if withinRange (unixMinute unix) das.timestamp 1 then .ok das
      else .error s!"invalid timestamp {das.timestamp * 60}" := by
  unfold unmarshal
  rw [if_neg (not_not.mpr das.length_encode), byteAt_encode_zero, ofByte?_toByte]
  dsimp only
  rw [if_pos hprotocol, timestamp_encode, sessionID_encode, seq_encode,
    unAckSeq_encode, windowSize_encode, payloadLen_encode]
  rfl

end DataAckStruct

inductive Metadata where
  | session (ss : SessionStruct)
  | dataAck (das : DataAckStruct)
  deriving DecidableEq, Repr

namespace Metadata

def protocol : Metadata → ProtocolType
  | .session ss => ss.protocol
  | .dataAck das => das.protocol

def sessionID : Metadata → UInt32
  | .session ss => ss.sessionID
  | .dataAck das => das.sessionID

def seq : Metadata → UInt32
  | .session ss => ss.seq
  | .dataAck das => das.seq

def payloadLen : Metadata → UInt16
  | .session ss => ss.payloadLen
  | .dataAck das => das.payloadLen

def prefixLen : Metadata → UInt8
  | .session _ => 0
  | .dataAck das => das.prefixLen

def suffixLen : Metadata → UInt8
  | .session ss => ss.suffixLen
  | .dataAck das => das.suffixLen

def timestamp : Metadata → UInt32
  | .session ss => ss.timestamp
  | .dataAck das => das.timestamp

def Typed : Metadata → Prop
  | .session ss => isSessionProtocol ss.protocol = true
  | .dataAck das => isDataAckProtocol das.protocol = true

instance (m : Metadata) : Decidable m.Typed :=
  match m with
  | .session ss => inferInstanceAs (Decidable (isSessionProtocol ss.protocol = true))
  | .dataAck das => inferInstanceAs (Decidable (isDataAckProtocol das.protocol = true))

def stamp (unix : Int) : Metadata → Metadata
  | .session ss => .session (ss.stamp unix)
  | .dataAck das => .dataAck (das.stamp unix)

def encode : Metadata → Bytes
  | .session ss => ss.encode
  | .dataAck das => das.encode

def marshal (m : Metadata) (unix : Int) : Metadata × Bytes :=
  (m.stamp unix, (m.stamp unix).encode)

/-- The choice between the two layouts in both `readOneSegment` functions. -/
def unmarshal (b : Bytes) (unix : Int) : Outcome String Metadata :=
  let p := byteAt b 0
  match ofByte? p with
  | none => .error s!"unable to handle protocol {p}"
  | some protocol =>
    if isSessionProtocol protocol then
      match SessionStruct.unmarshal {} b unix with
      | .ok ss => .ok (.session ss)
      | .error err => .error s!"Unmarshal() to sessionStruct failed: {err}"
      | .panic message => .panic message
    else if isDataAckProtocol protocol then
      match DataAckStruct.unmarshal b unix with
      | .ok das => .ok (.dataAck das)
      | .error err => .error s!"Unmarshal() to dataAckStruct failed: {err}"
      | .panic message => .panic message
    else .error s!"unable to handle protocol {p}"

/-- The fields that the receiver acts on are those of the sender. -/
def SameContent : Metadata → Metadata → Prop
  | .session sent, .session received =>
    received.protocol = sent.protocol ∧
      received.sessionID = sent.sessionID ∧ received.seq = sent.seq ∧
      received.statusCode = sent.statusCode
  | .dataAck sent, .dataAck received =>
    received.protocol = sent.protocol ∧
      received.sessionID = sent.sessionID ∧ received.seq = sent.seq ∧
      received.unAckSeq = sent.unAckSeq ∧
      received.windowSize = sent.windowSize ∧
      received.fragment = sent.fragment
  | _, _ => False

theorem SameContent.stamp {sent received : Metadata} (h : sent.SameContent received) (unix : Int) :
    sent.SameContent (received.stamp unix) := by
  cases sent <;> cases received <;> exact h

@[simp] theorem payloadLen_stamp (m : Metadata) (unix : Int) :
    (m.stamp unix).payloadLen = m.payloadLen := by
  cases m <;> rfl

@[simp] theorem prefixLen_stamp (m : Metadata) (unix : Int) :
    (m.stamp unix).prefixLen = m.prefixLen := by
  cases m <;> rfl

@[simp] theorem suffixLen_stamp (m : Metadata) (unix : Int) :
    (m.stamp unix).suffixLen = m.suffixLen := by
  cases m <;> rfl

@[simp] theorem length_encode (m : Metadata) : m.encode.length = metadataLength := by
  cases m <;> rfl

@[simp] theorem timestamp_stamp (m : Metadata) (unix : Int) :
    (m.stamp unix).timestamp = unixMinute unix := by
  cases m <;> rfl

variable {m : Metadata}

theorem Typed.stamp (h : m.Typed) (unix : Int) : (m.stamp unix).Typed := by
  cases m <;> exact h

theorem unmarshal_encode (h : m.Typed) (unix : Int) :
    (withinRange (unixMinute unix) m.timestamp 1 = true ∧ unmarshal m.encode unix = .ok m) ∨
      (withinRange (unixMinute unix) m.timestamp 1 = false ∧
        ∃ err, unmarshal m.encode unix = .error err) := by
  cases m with
  | session ss =>
    have hbyte : ofByte? (byteAt ss.encode 0) = some ss.protocol := by
      rw [SessionStruct.byteAt_encode_zero, ofByte?_toByte]
    have hss : isSessionProtocol ss.protocol = true := h
    simp only [unmarshal, encode, timestamp, hbyte, hss, if_true]
    rw [SessionStruct.unmarshal_encode hss (Nat.zero_le _)]
    cases withinRange (unixMinute unix) ss.timestamp 1 <;> simp
  | dataAck das =>
    have hbyte : ofByte? (byteAt das.encode 0) = some das.protocol := by
      rw [DataAckStruct.byteAt_encode_zero, ofByte?_toByte]
    have hdas : isDataAckProtocol das.protocol = true := h
    simp only [unmarshal, encode, timestamp, hbyte, hdas,
      not_isSession_of_isDataAck hdas, if_true, Bool.false_eq_true, if_false]
    rw [DataAckStruct.unmarshal_encode hdas]
    cases withinRange (unixMinute unix) das.timestamp 1 <;> simp

theorem unmarshal_ne_panic (b : Bytes) (unix : Int) (message : String) :
    unmarshal b unix ≠ .panic message := by
  unfold unmarshal
  dsimp only
  split
  · simp
  split
  · split
    · simp
    · simp
    · rename_i text hpanic
      exact absurd hpanic (SessionStruct.unmarshal_ne_panic {} b unix text)
  split
  · split
    · simp
    · simp
    · rename_i text hpanic
      exact absurd hpanic (DataAckStruct.unmarshal_ne_panic b unix text)
  · simp

theorem typed_of_unmarshal {b : Bytes} {unix : Int} (h : unmarshal b unix = .ok m) : m.Typed := by
  unfold unmarshal at h
  dsimp only at h
  split at h
  · cases h
  rename_i protocol hbyte
  split at h
  · rename_i hprotocol
    split at h
    · rename_i ss hss
      cases h
      have hsame : ss.protocol = protocol := by
        unfold SessionStruct.unmarshal at hss
        rw [hbyte] at hss
        dsimp only at hss
        repeat' split at hss
        all_goals cases hss
        rfl
      simpa only [Typed, hsame] using hprotocol
    · cases h
    · cases h
  · split at h
    · rename_i hprotocol
      split at h
      · rename_i das hdas
        cases h
        have hsame : das.protocol = protocol := by
          unfold DataAckStruct.unmarshal at hdas
          rw [hbyte] at hdas
          dsimp only at hdas
          repeat' split at hdas
          all_goals cases hdas
          rfl
        simpa only [Typed, hsame] using hprotocol
      · cases h
      · cases h
    · cases h

end Metadata

end Mieru.Protocol
