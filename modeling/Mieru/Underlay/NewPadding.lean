import Mieru.Underlay.PacketWrite

/-!
# Drawing a padding

`newPadding` with both strategies, and the branches of the packet underlay's
`writeOneSegment` that call it.  What the random generators and the
floating-point arithmetic answer is a `PaddingDraws`.  Every padding that can
be drawn is one that the writer is modelled with.
-/

namespace Mieru.Protocol

open Mieru.Foundation
open Mieru.Cipher

structure AsciiPaddingOpts where
  /-- This implies the minimum length of the padding. -/
  minConsecutiveASCIILen : Nat := 0
  deriving DecidableEq, Repr

structure EntropyPaddingOpts where
  existingData : Bytes
  /-- In thousandths. -/
  targetProbability : Nat
  deriving DecidableEq, Repr

structure PaddingOpts where
  maxLen : Nat
  ascii : Option AsciiPaddingOpts := none
  entropy : Option EntropyPaddingOpts := none
  deriving DecidableEq, Repr

def recommendedTargetProbability : Nat := 325

def printableCharSub : UInt8 := 0x20
def printableCharSup : UInt8 := 0x7E

/--
The answers to one call of `newPadding`: both generators stay below their
bound, and the results of the floating-point expressions are arbitrary.
-/
structure PaddingDraws where
  intn : Nat → Nat
  intn_lt : ∀ n, 0 < n → intn n < n
  /-- The i-th call of `mrand.Intn`. -/
  mathIntn : Nat → Nat → Nat
  mathIntn_lt : ∀ i n, 0 < n → mathIntn i n < n
  /-- `crand.Read` of so many bytes. -/
  read : Nat → Bytes
  length_read : ∀ n, (read n).length = n
  /-- The character drawn for an index, by its offset in the printable range. -/
  printable : Nat → UInt8
  /-- The bits missing to the target, from the lower count and all bits. -/
  missingBits : Nat → Nat → Int
  /-- The bits of the rarer kind that so many bytes should have. -/
  targetBits : Nat → Int

namespace PaddingDraws

variable {ε : Type} (draws : PaddingDraws)

def mrandIntn (i n : Nat) : Outcome ε Nat :=
  if n = 0 then .panic "invalid argument to Intn" else .ok (draws.mathIntn i n)

def toPrintable (i : Nat) (b : UInt8) : UInt8 :=
  if b < printableCharSub ∨ printableCharSup < b then
    let lowBits := b &&& 0x7F
    if 0 < b &&& 0x80 ∧ printableCharSub ≤ lowBits ∧ lowBits ≤ printableCharSup then lowBits
    else draws.printable i + printableCharSub
  else b

/-- Rewrite `[beginIdx, endIdx)` with printable characters. -/
def toPrintableChar (b : Bytes) (beginIdx endIdx : Nat) : Outcome ε Bytes :=
  if endIdx < beginIdx then .panic "begin index > end index"
  else if b.length < endIdx then .panic "index out of range"
  else
    .ok (b.mapIdx fun i c =>
      if beginIdx ≤ i ∧ i < endIdx then draws.toPrintable i c else c)

def changeBit (toOne : Bool) (b : UInt8) (bitIndex : Nat) : UInt8 :=
  if toOne then b ||| ((1 : UInt8) <<< UInt8.ofNat bitIndex)
  else b &&& ~~~((1 : UInt8) <<< UInt8.ofNat bitIndex)

/-- The loop that flips random bits; `left` rounds are to go. -/
def flipBits (toOne : Bool) : Nat → Nat → Bytes → Outcome ε Bytes
  | 0, _, p => .ok p
  | left + 1, i, p =>
    (draws.mrandIntn i (p.length * 8)).bind fun j =>
      if j / 8 < p.length then
        flipBits toOne left (i + 1) (p.set (j / 8) (changeBit toOne (byteAt p (j / 8)) (j % 8)))
      else .panic "index out of range"

end PaddingDraws

def bitCount (one : Bool) (arr : Bytes) : Nat :=
  (arr.flatMap fun b => (List.range 8).map b.toNat.testBit).countP (· == one)

def PaddingDraws.asciiPadding {ε : Type} (draws : PaddingDraws) (maxLen : Nat)
    (ascii : AsciiPaddingOpts) : Outcome ε Bytes :=
  if maxLen < ascii.minConsecutiveASCIILen then
    .panic (s!"Invalid padding options: maxLen {maxLen} is smaller than " ++
      s!"minConsecutiveASCIILen {ascii.minConsecutiveASCIILen}")
  else
    let length := draws.intn (maxLen - ascii.minConsecutiveASCIILen + 1) +
      ascii.minConsecutiveASCIILen
    let p := draws.read length
    let drawn : Outcome ε Nat :=
      if ascii.minConsecutiveASCIILen < length then
        draws.mrandIntn 0 (length - ascii.minConsecutiveASCIILen)
      else .ok 0
    drawn.bind fun beginIdx =>
      draws.toPrintableChar p beginIdx (beginIdx + ascii.minConsecutiveASCIILen)

def PaddingDraws.entropyPadding {ε : Type} (draws : PaddingDraws)
    (maxLen : Nat) (entropy : EntropyPaddingOpts) : Outcome ε Bytes :=
  if entropy.targetProbability = 0 ∨ 500 < entropy.targetProbability then
    .panic ("Invalid padding options: " ++
      s!"targetProbability {entropy.targetProbability} is out of range")
  else
    -- the rarer bit, zeros if both are equally frequent
    let toOne := decide (bitCount true entropy.existingData < bitCount false entropy.existingData)
    let lowerBitCount := bitCount toOne entropy.existingData
    let minPaddingBits := max (draws.missingBits lowerBitCount (entropy.existingData.length * 8)) 0
    let minPaddingBytes := (minPaddingBits.toNat + 7) / 8
    let length :=
      if maxLen ≤ minPaddingBytes then maxLen
      else draws.intn (maxLen - minPaddingBytes + 1) + minPaddingBytes
    let flip := min (max (draws.targetBits (entropy.existingData.length + length) -
        lowerBitCount) 0).toNat (length * 8)
    draws.flipBits toOne flip 0 (List.replicate length (if toOne then 0x00 else 0xFF))

def newPadding {ε : Type} (opts : PaddingOpts) (draws : PaddingDraws) : Outcome ε Bytes :=
  match opts.ascii, opts.entropy with
  | some ascii, _ => draws.asciiPadding opts.maxLen ascii
  | none, some entropy => draws.entropyPadding opts.maxLen entropy
  | none, none => .panic "Detailed padding options are not provided"

structure PaddingHost where
  recommendedConsecutiveASCIILen : Nat
  /-- `rng.FixedIntV`. -/
  fixedIntV : Nat → String → Nat

def PaddingHost.buildRecommendedPaddingOpts (host : PaddingHost) (draws : PaddingDraws)
    (maxLen randomDataLen : Nat) (strategySource : String) : PaddingOpts :=
  if host.fixedIntV 2 strategySource = 0 then
    { maxLen := maxLen,
      ascii := some ⟨min maxLen host.recommendedConsecutiveASCIILen⟩ }
  else
    { maxLen := maxLen,
      entropy := some ⟨draws.read randomDataLen, recommendedTargetProbability⟩ }

namespace PaddingDraws

variable {ε : Type} (draws : PaddingDraws)

theorem mrandIntn_ok {n : Nat} (h : 0 < n) (i : Nat) :
    (draws.mrandIntn i n : Outcome ε Nat) = .ok (draws.mathIntn i n) := by
  unfold mrandIntn
  rw [if_neg (by omega)]

theorem toPrintableChar_ok {b : Bytes} {beginIdx endIdx : Nat}
    (hbegin : beginIdx ≤ endIdx) (hend : endIdx ≤ b.length) :
    ∃ p, (draws.toPrintableChar b beginIdx endIdx : Outcome ε Bytes) = .ok p ∧
      p.length = b.length := by
  unfold toPrintableChar
  rw [if_neg (by omega), if_neg (by omega)]
  exact ⟨_, rfl, List.length_mapIdx⟩

theorem flipBits_ok (toOne : Bool) (left i : Nat) (p : Bytes) (h : left ≤ p.length * 8) :
    ∃ q, (draws.flipBits toOne left i p : Outcome ε Bytes) = .ok q ∧ q.length = p.length := by
  induction left generalizing i p with
  | zero => exact ⟨p, rfl, rfl⟩
  | succ left ih =>
    have hpos : 0 < p.length * 8 := by omega
    have hlt := draws.mathIntn_lt i (p.length * 8) hpos
    simp only [flipBits, draws.mrandIntn_ok hpos, Outcome.ok_bind]
    rw [if_pos (by omega)]
    obtain ⟨q, hq, hlength⟩ := ih (i + 1) (p.set (draws.mathIntn i (p.length * 8) / 8)
        (changeBit toOne (byteAt p (draws.mathIntn i (p.length * 8) / 8))
          (draws.mathIntn i (p.length * 8) % 8)))
      (by rw [List.length_set]; omega)
    exact ⟨q, hq, by rw [hlength, List.length_set]⟩

theorem asciiPadding_ok {maxLen : Nat} {ascii : AsciiPaddingOpts}
    (h : ascii.minConsecutiveASCIILen ≤ maxLen) :
    ∃ p, (draws.asciiPadding maxLen ascii : Outcome ε Bytes) = .ok p ∧ p.length ≤ maxLen := by
  unfold asciiPadding
  rw [if_neg (by omega)]
  dsimp only
  have hdraw := draws.intn_lt (maxLen - ascii.minConsecutiveASCIILen + 1) (by omega)
  generalize draws.intn (maxLen - ascii.minConsecutiveASCIILen + 1) = extra at hdraw ⊢
  have hread := draws.length_read (extra + ascii.minConsecutiveASCIILen)
  split
  · rename_i hextra
    have hbegin := draws.mathIntn_lt 0
      (extra + ascii.minConsecutiveASCIILen - ascii.minConsecutiveASCIILen)
      (by omega)
    rw [draws.mrandIntn_ok (by omega), Outcome.ok_bind]
    generalize draws.mathIntn 0 _ = beginIdx at hbegin ⊢
    obtain ⟨p, hp, hlength⟩ := draws.toPrintableChar_ok (ε := ε)
      (b := draws.read (extra + ascii.minConsecutiveASCIILen))
      (Nat.le_add_right beginIdx ascii.minConsecutiveASCIILen) (by omega)
    exact ⟨p, hp, by omega⟩
  · obtain ⟨p, hp, hlength⟩ := draws.toPrintableChar_ok (ε := ε)
      (b := draws.read (extra + ascii.minConsecutiveASCIILen))
      (Nat.le_add_right 0 ascii.minConsecutiveASCIILen) (by omega)
    exact ⟨p, hp, by omega⟩

theorem entropyPadding_ok {entropy : EntropyPaddingOpts}
    (h : 0 < entropy.targetProbability ∧ entropy.targetProbability ≤ 500) (maxLen : Nat) :
    ∃ p, (draws.entropyPadding maxLen entropy : Outcome ε Bytes) = .ok p ∧ p.length ≤ maxLen := by
  unfold entropyPadding
  rw [if_neg (by omega)]
  dsimp only
  generalize (max (draws.missingBits _ _) 0).toNat = minPaddingBits
  generalize hbytes : (minPaddingBits + 7) / 8 = minPaddingBytes
  have hlength : (if maxLen ≤ minPaddingBytes then maxLen
      else draws.intn (maxLen - minPaddingBytes + 1) + minPaddingBytes) ≤
        maxLen := by
    split
    · exact Nat.le_refl _
    · have hdraw := draws.intn_lt (maxLen - minPaddingBytes + 1) (by omega)
      omega
  generalize (if maxLen ≤ minPaddingBytes then maxLen
    else draws.intn (maxLen - minPaddingBytes + 1) + minPaddingBytes) = length
    at hlength ⊢
  generalize (max (draws.targetBits _ - _) 0).toNat = wanted
  generalize decide (bitCount true _ < bitCount false _) = toOne
  obtain ⟨p, hp, heq⟩ := draws.flipBits_ok (ε := ε) toOne (min wanted (length * 8)) 0
    (List.replicate length (if toOne then 0x00 else 0xFF))
    (by rw [List.length_replicate]; exact Nat.min_le_right _ _)
  rw [List.length_replicate] at heq
  exact ⟨p, hp, Nat.le_trans (Nat.le_of_eq heq) hlength⟩

end PaddingDraws

/-- The options that do not make `newPadding` panic. -/
def PaddingOpts.Valid (opts : PaddingOpts) : Prop :=
  (∃ ascii, opts.ascii = some ascii ∧ ascii.minConsecutiveASCIILen ≤ opts.maxLen) ∨
  opts.ascii = none ∧ ∃ entropy, opts.entropy = some entropy ∧
    0 < entropy.targetProbability ∧ entropy.targetProbability ≤ 500

theorem newPadding_ok {ε : Type} {opts : PaddingOpts} (h : opts.Valid) (draws : PaddingDraws) :
    ∃ p, (newPadding opts draws : Outcome ε Bytes) = .ok p ∧ p.length ≤ opts.maxLen := by
  rcases h with ⟨ascii, hascii, hmin⟩ | ⟨hascii, entropy, hentropy, htarget⟩
  · simp only [newPadding, hascii]
    exact draws.asciiPadding_ok hmin
  · simp only [newPadding, hascii, hentropy]
    exact draws.entropyPadding_ok htarget opts.maxLen

theorem newPadding_ascii {ε : Type} (maxLen : Nat) (draws : PaddingDraws) :
    ∃ p, (newPadding { maxLen := maxLen, ascii := some {} } draws :
      Outcome ε Bytes) = .ok p ∧ p.length ≤ maxLen :=
  draws.asciiPadding_ok (Nat.zero_le maxLen)

theorem valid_buildRecommendedPaddingOpts (host : PaddingHost) (draws : PaddingDraws)
    (maxLen randomDataLen : Nat) (strategySource : String) :
    (host.buildRecommendedPaddingOpts draws maxLen randomDataLen strategySource).Valid := by
  unfold PaddingHost.buildRecommendedPaddingOpts
  split
  · exact .inl ⟨_, rfl, Nat.min_le_left _ _⟩
  · refine .inr ⟨rfl, _, rfl, ?_⟩
    change 0 < recommendedTargetProbability ∧ recommendedTargetProbability ≤ 500
    decide

theorem maxLen_buildRecommendedPaddingOpts (host : PaddingHost) (draws : PaddingDraws)
    (maxLen randomDataLen : Nat) (strategySource : String) :
    (host.buildRecommendedPaddingOpts draws maxLen randomDataLen
      strategySource).maxLen = maxLen := by
  unfold PaddingHost.buildRecommendedPaddingOpts
  split <;> rfl

/-- The answers to the one or two calls of `newPadding` for a datagram. -/
structure PacketDraws where
  host : PaddingHost
  first : PaddingDraws
  second : PaddingDraws

/-- The two branches of `writeOneSegment` up to `Marshal`. -/
def PacketDraws.padSegment (draws : PacketDraws) (userName : String)
    (mtu : Nat) (seg : Segment) : Outcome PacketWriteError Padded :=
  let maxLen := maxPaddingSize mtu .packetTransport
  match seg.metadata with
  | .session ss =>
    (newPadding (draws.host.buildRecommendedPaddingOpts draws.first
        (maxLen ss.payloadLen.toNat 0)
        (packetOverhead + ss.payloadLen.toNat) userName) draws.first).bind
      fun padding => .ok {
        metadata := .session { ss with suffixLen := UInt8.ofNat padding.length }
        padding1 := []
        payload := seg.payload
        padding2 := padding }
  | .dataAck das =>
    (newPadding { maxLen := maxLen das.payloadLen.toNat 0, ascii := some {} }
        draws.first).bind fun padding1 =>
      (newPadding { maxLen := maxLen das.payloadLen.toNat padding1.length,
                    ascii := some {} } draws.second).bind
        fun padding2 => .ok {
          metadata := .dataAck
            { das with
              prefixLen := UInt8.ofNat padding1.length
              suffixLen := UInt8.ofNat padding2.length }
          padding1 := padding1
          payload := seg.payload
          padding2 := padding2 }

namespace Padding

def ofBytes (bytes : Bytes) (maxLen : Nat) : Padding maxLen :=
  ⟨bytes.take maxLen, List.length_take_le _ _⟩

theorem bytes_ofBytes {bytes : Bytes} {maxLen : Nat}
    (h : bytes.length ≤ maxLen) : (ofBytes bytes maxLen).bytes = bytes :=
  List.take_of_length_le h

end Padding

theorem PacketDraws.padSegment_eq (draws : PacketDraws) (userName : String)
    (mtu : Nat) (seg : Segment) :
    ∃ paddings, draws.padSegment userName mtu seg =
      .ok (seg.pad mtu .packetTransport paddings) := by
  unfold padSegment Segment.pad
  cases seg.metadata with
  | session ss =>
    obtain ⟨padding, hpadding, hlength⟩ := newPadding_ok (ε := PacketWriteError)
      (valid_buildRecommendedPaddingOpts draws.host draws.first
        (maxPaddingSize mtu .packetTransport ss.payloadLen.toNat 0)
        (packetOverhead + ss.payloadLen.toNat) userName) draws.first
    rw [maxLen_buildRecommendedPaddingOpts] at hlength
    refine ⟨⟨Padding.ofBytes padding, Padding.ofBytes padding⟩, ?_⟩
    simp only [hpadding, Outcome.ok_bind, Padding.bytes_ofBytes hlength]
  | dataAck das =>
    obtain ⟨padding1, hpadding1, hlength1⟩ := newPadding_ascii (ε := PacketWriteError)
      (maxPaddingSize mtu .packetTransport das.payloadLen.toNat 0)
      draws.first
    obtain ⟨padding2, hpadding2, hlength2⟩ := newPadding_ascii (ε := PacketWriteError)
      (maxPaddingSize mtu .packetTransport das.payloadLen.toNat padding1.length) draws.second
    refine ⟨⟨Padding.ofBytes padding1, Padding.ofBytes padding2⟩, ?_⟩
    simp only [hpadding1, hpadding2, Outcome.ok_bind]
    rw [Padding.bytes_ofBytes hlength1, Padding.bytes_ofBytes hlength2]

namespace PacketUnderlay

variable (crypto : Crypto)

def writeDrawing (u : PacketUnderlay) (addr : Addr) (choices : WriteChoices)
    (draws : PacketDraws) (seg : Segment) : PacketWritten :=
  if u.isClient && addr != u.serverAddr then
    { outcome := .error (.wrongAddress addr u.serverAddr), calls := [] }
  else
    match u.writeBlock seg with
    | .ok block =>
      match draws.padSegment block.ctx.userName u.base.mtu seg with
      | .ok padded => sealSegment crypto block choices padded
      | .error err => { outcome := .error err, calls := [] }
      | .panic message => { outcome := .panic message, calls := [] }
    | .error err => { outcome := .error err, calls := [] }
    | .panic message => { outcome := .panic message, calls := [] }

theorem writeDrawing_eq (u : PacketUnderlay) (addr : Addr)
    (choices : WriteChoices) (draws : PacketDraws) (seg : Segment) :
    ∃ paddings, u.writeDrawing crypto addr choices draws seg =
      u.writeOneSegment crypto addr { choices with paddings := paddings }
        seg := by
  unfold writeDrawing writeOneSegment
  split
  · exact ⟨choices.paddings, rfl⟩
  · cases u.writeBlock seg with
    | ok block =>
      obtain ⟨paddings, hpad⟩ :=
        draws.padSegment_eq block.ctx.userName u.base.mtu seg
      refine ⟨paddings, ?_⟩
      simp only [hpad]
      rfl
    | error err => exact ⟨choices.paddings, rfl⟩
    | panic message => exact ⟨choices.paddings, rfl⟩

variable {crypto}

theorem length_encrypt_le (hcrypto : crypto.Lawful) (block : BlockCipher)
    (fresh : Nonce) (plaintext : Bytes) : (block.encrypt crypto fresh plaintext).bytes.length ≤
      defaultNonceSize + plaintext.length + defaultOverhead := by
  unfold BlockCipher.encrypt
  split
  · split
    · simp only [List.length_append, hcrypto.length_seal, Nonce.length_bytes]
      omega
    · simp only [hcrypto.length_seal]
      omega
  · simp only [List.length_append, hcrypto.length_seal, Nonce.length_bytes]
    omega

theorem length_encryptWithNonce (hcrypto : crypto.Lawful)
    {block : BlockCipher} {plaintext nonce ciphertext : Bytes}
    {call : SealCall} (h : block.encryptWithNonce crypto plaintext nonce = .ok (ciphertext, call)) :
    ciphertext.length = plaintext.length + defaultOverhead := by
  unfold BlockCipher.encryptWithNonce at h
  split at h
  · cases h
  · split at h
    · cases h
    · cases h
      exact hcrypto.length_seal _ _ _

theorem length_sealSegment_le (hcrypto : crypto.Lawful) {block : BlockCipher}
    {choices : WriteChoices} {padded : Padded} {datagram : Bytes}
    (h : (sealSegment crypto block choices padded).outcome = .ok datagram) :
    datagram.length ≤ packetOverhead + padded.padding1.length +
      padded.payload.length + padded.padding2.length := by
  have hmetadata := length_encrypt_le hcrypto block choices.fresh
    (padded.metadata.marshal (unixSeconds choices.now)).2
  have hlength : (padded.metadata.marshal (unixSeconds choices.now)).2.length =
      metadataLength := Metadata.length_encode _
  rw [hlength] at hmetadata
  unfold sealSegment at h
  dsimp only at h
  split at h
  · split at h
    · rename_i ciphertext call hpayload
      have hciphertext := length_encryptWithNonce hcrypto hpayload
      cases h
      simp only [List.length_append, packetOverhead]
      omega
    · cases h
    · cases h
  · cases h
    simp only [List.length_append, packetOverhead]
    omega

/-- A segment whose metadata tells its payload, and whose payload leaves room
for the overhead, becomes a datagram within the MTU. -/
theorem length_writeOneSegment_le (hcrypto : crypto.Lawful) {u : PacketUnderlay} {addr : Addr}
    {choices : WriteChoices} {seg : Segment} {datagram : Bytes}
    (hpayload : seg.metadata.payloadLen.toNat = seg.payload.length)
    (hroom : seg.payload.length + packetOverhead ≤ u.base.mtu)
    (h : (u.writeOneSegment crypto addr choices seg).outcome = .ok datagram) :
    datagram.length ≤ u.base.mtu := by
  unfold writeOneSegment at h
  split at h
  · cases h
  · split at h
    · rename_i block hblock
      have hlength := length_sealSegment_le hcrypto h
      have hpaddings := seg.length_pad_le u.base.mtu choices.paddings
      have hsame := (seg.pad_describes u.base.mtu .packetTransport choices.paddings).payload
      rw [hsame] at hlength
      omega
    · cases h
    · cases h

end PacketUnderlay

end Mieru.Protocol
