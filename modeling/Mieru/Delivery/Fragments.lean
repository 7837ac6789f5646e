import Mieru.Delivery.WriteCall

/-!
# Chunks and fragments

`Write` cuts its bytes into chunks of `maxPDU` bytes, and `writeChunk` cuts a
chunk into fragments whose fragment field counts down to 0.  `Laid` says for
every state of the writer how far the insertions of its call have got, and the
steps of the writer keep it.
-/

namespace Mieru.Protocol

open Mieru.Foundation
open ProtocolType

variable {job : ChunkJob} {writer : WriterState}

/-! ## What the segments of a call look like -/

def Segment.isFragment (seg : Segment) : Bool :=
  seg.protocol == dataClientToServer || seg.protocol == dataServerToClient

theorem Session.isFragment_dataSegment (s : Session) (env : Env)
    (job : ChunkJob) : (s.dataSegment env job).isFragment = true := by
  simp only [Segment.isFragment, Segment.protocol, dataSegment, Metadata.protocol]
  split <;> rfl

def Segment.fragment (seg : Segment) : Nat :=
  match seg.metadata with
  | .dataAck das => das.fragment.toNat
  | .session _ => 0

namespace Insertion

/-- No field is a truncation of the number that it was converted from. -/
def Exact (i : Insertion) : Prop :=
  match i.seg.metadata with
  | .session ss => ss.payloadLen.toNat = i.seg.payload.length
  | .dataAck das => das.payloadLen.toNat = i.seg.payload.length ∧
      das.fragment.toNat = i.fragment ∧ das.windowSize.toNat = i.windowSize

def Sized (fragmentSize : Nat) (i : Insertion) : Prop :=
  i.seg.isFragment = true → i.seg.payload ≠ [] ∧ i.seg.payload.length ≤ fragmentSize

end Insertion

def carried (inserts : List Insertion) : Bytes :=
  inserts.flatMap (·.seg.payload)

@[simp] theorem carried_append (first second : List Insertion) :
    carried (first ++ second) = carried first ++ carried second := by
  simp [carried]

@[simp] theorem carried_singleton (i : Insertion) : carried [i] = i.seg.payload := by
  simp [carried]

structure IsChunk (chunk : Bytes) (group : List Insertion) : Prop where
  data : ∀ i ∈ group, i.seg.isFragment = true
  payload : carried group = chunk
  fragments : group.map (·.seg.fragment) = (List.range group.length).reverse

/-- The fragments of whole chunks, after which `rest` is left of `b`. -/
inductive Chunks (b : Bytes) : List Insertion → Bytes → Prop
  | start : Chunks b [] b
  | chunk {data group : List Insertion} {rest : Bytes} :
      Chunks b data rest → rest ≠ [] → IsChunk (rest.take maxPDU) group →
      Chunks b (data ++ group) (rest.drop maxPDU)

theorem Chunks.payload {b rest : Bytes} {data : List Insertion}
    (h : Chunks b data rest) : carried data ++ rest = b := by
  induction h with
  | start => rfl
  | chunk _ _ hchunk ih =>
    rw [carried_append, hchunk.payload, List.append_assoc, List.take_append_drop]
    exact ih

def IsOpening (isClient : Bool) (opened : List Insertion) : Prop :=
  opened = [] ∨ isClient = true ∧ ∃ i, opened = [i] ∧ i.seg.protocol = openSessionRequest

/-! ## Where a call stands -/

structure UpTo (isClient : Bool) (b : Bytes) (inserts : List Insertion) (rest : Bytes) : Prop where
  chunks : ∃ opened data, inserts = opened ++ data ∧
    IsOpening isClient opened ∧ carried opened = [] ∧ Chunks b data rest

/-- `writeChunk` is at work on the first chunk of `rest` and has queued the
fragments of `group`. -/
structure InChunk (isClient : Bool) (b : Bytes) (job : ChunkJob)
    (before group : List Insertion) (rest : Bytes) : Prop where
  upTo : UpTo isClient b before rest
  pending : rest ≠ []
  data : ∀ i ∈ group, i.seg.isFragment = true
  payload : carried group ++ job.ptr = rest.take maxPDU
  size : job.size = (rest.take maxPDU).length
  later : job.rest = rest.drop maxPDU
  fragments : group.map (·.seg.fragment) = (List.range' job.fragmentsLeft group.length).reverse

structure Complete (isClient : Bool) (b : Bytes) (inserts : List Insertion) : Prop where
  chunks : ∃ opened data later, inserts = opened ++ data ∧
    IsOpening isClient opened ∧ carried opened ++ later = b ∧
    Chunks later data []

def Laid (isClient : Bool) (b : Bytes) (inserts : List Insertion) : WriterState → Prop
  | .returned _ err => err = none → Complete isClient b inserts
  | .writing rest _ => UpTo isClient b inserts rest
  | .waiting job => ∃ rest, InChunk isClient b job inserts [] rest
  | .queueing job => ∃ before group rest, inserts = before ++ group ∧
      InChunk isClient b job before group rest
  | .settling job => UpTo isClient b inserts job.rest
  | .comparing job => UpTo isClient b inserts job.rest

section Steps

variable {isClient : Bool} {b rest : Bytes} {inserts before group : List Insertion} {job : ChunkJob}

theorem UpTo.complete (h : UpTo isClient b inserts []) : Complete isClient b inserts := by
  obtain ⟨opened, data, heq, hopening, hempty, hchunks⟩ := h.chunks
  exact ⟨opened, data, b, heq, hopening, by rw [hempty]; rfl, hchunks⟩

theorem Complete.payload (h : Complete isClient b inserts) : carried inserts = b := by
  obtain ⟨opened, data, later, rfl, _, hlater, hchunks⟩ := h.chunks
  have hdata := hchunks.payload
  rw [List.append_nil] at hdata
  rw [carried_append, hdata]
  exact hlater

theorem upTo_start (b : Bytes) : UpTo isClient b [] b :=
  ⟨[], [], rfl, .inl rfl, rfl, .start⟩

theorem UpTo.chunk (h : UpTo isClient b before rest) (hrest : rest ≠ [])
    (hgroup : IsChunk (rest.take maxPDU) group) :
    UpTo isClient b (before ++ group) (rest.drop maxPDU) := by
  obtain ⟨opened, data, rfl, hopening, hempty, hchunks⟩ := h.chunks
  exact ⟨opened, data ++ group, List.append_assoc _ _ _, hopening, hempty,
    .chunk hchunks hrest hgroup⟩

theorem UpTo.server (h : UpTo false b inserts rest) : Chunks b inserts rest := by
  obtain ⟨opened, data, rfl, hopening, _, hchunks⟩ := h.chunks
  obtain rfl : opened = [] := hopening.resolve_right (by simp)
  exact hchunks

theorem inChunk_chunkJob {s : Session} (n : Nat)
    (h : UpTo isClient b inserts rest) (hrest : rest ≠ []) :
    InChunk isClient b (s.chunkJob rest n) inserts [] rest := by
  have hmin : min rest.length maxPDU = (rest.take maxPDU).length := by
    rw [List.length_take, Nat.min_comm]
  have htake : rest.take (min rest.length maxPDU) = rest.take maxPDU := by
    rcases Nat.le_total rest.length maxPDU with hle | hle
    · rw [Nat.min_eq_left hle, List.take_length, List.take_of_length_le hle]
    · rw [Nat.min_eq_right hle]
  have hdrop : rest.drop (min rest.length maxPDU) = rest.drop maxPDU := by
    rcases Nat.le_total rest.length maxPDU with hle | hle
    · rw [Nat.min_eq_left hle, List.drop_length, List.drop_of_length_le hle]
    · rw [Nat.min_eq_right hle]
  exact ⟨h, hrest, by simp, htake, hmin, hdrop, rfl⟩

theorem InChunk.length_le (h : InChunk isClient b job before group rest) :
    job.ptr.length ≤ maxPDU := by
  have hlength := congrArg List.length h.payload
  rw [List.length_append, List.length_take] at hlength
  omega

theorem InChunk.group_eq_nil (h : InChunk isClient b job before group rest)
    (hsized : ∀ i ∈ group, i.seg.payload ≠ [])
    (hfree : ¬ job.ptr.length < job.size) : group = [] := by
  have hlength := congrArg List.length h.payload
  rw [List.length_append, ← h.size] at hlength
  have hnone : carried group = [] := List.eq_nil_of_length_eq_zero (by omega)
  cases group with
  | nil => rfl
  | cons i group =>
    simp only [carried, List.flatMap_cons, List.append_eq_nil_iff] at hnone
    exact absurd hnone.1 (hsized i List.mem_cons_self)

theorem InChunk.queue {s : Session} {env : Env} (h : InChunk isClient b job before group rest)
    (hpositive : 1 ≤ job.fragmentsLeft)
    (hfragment : (s.dataSegment env job).fragment = job.fragmentsLeft - 1) :
    InChunk isClient b (s.nextJob env job) before (group ++ [s.fragmentInsert env job]) rest where
  upTo := h.upTo
  pending := h.pending
  data := by
    intro i hi
    rcases List.mem_append.mp hi with hi | hi
    · exact h.data i hi
    · rw [List.mem_singleton.mp hi]
      exact s.isFragment_dataSegment env job
  payload := by
    rw [carried_append, carried_singleton, List.append_assoc]
    exact (congrArg (carried group ++ ·) (s.ptr_nextJob env job)).trans h.payload
  size := h.size
  later := h.later
  fragments := by
    obtain ⟨left, hleft⟩ : ∃ left, job.fragmentsLeft = left + 1 :=
      ⟨job.fragmentsLeft - 1, by omega⟩
    have hnext : (s.nextJob env job).fragmentsLeft = left := by
      simp only [Session.nextJob, hleft, Nat.add_sub_cancel]
    rw [hleft, Nat.add_sub_cancel] at hfragment
    rw [List.map_append, h.fragments, hnext, hleft, List.length_append,
      List.length_singleton, List.range'_succ, List.reverse_cons]
    exact congrArg (_ ++ [·]) hfragment

theorem InChunk.last (h : InChunk isClient b job before group rest)
    (hlast : job.fragmentsLeft = 0) (hptr : job.ptr = []) :
    UpTo isClient b (before ++ group) job.rest := by
  have hpayload := h.payload
  have hfragments := h.fragments
  rw [hptr, List.append_nil] at hpayload
  rw [hlast, ← List.range_eq_range'] at hfragments
  rw [h.later]
  exact h.upTo.chunk h.pending ⟨h.data, hpayload, hfragments⟩

end Steps

namespace Session

variable {s t : Session} {env : Env} {b : Bytes} {inserts : List Insertion} {fragmentSize : Nat}

/-! ## One insertion -/

theorem maxFragmentSize_le {mtu : Nat} (hmtu : IsValidMTU mtu) (transport : TransportProtocol) :
    1192 ≤ maxFragmentSize mtu transport ∧ maxFragmentSize mtu transport ≤ maxPDU := by
  obtain ⟨hlow, hhigh⟩ := hmtu
  cases transport with
  | streamTransport =>
    change 1192 ≤ maxPDU ∧ maxPDU ≤ maxPDU
    decide
  | packetTransport =>
    have hoverhead : packetOverhead = 88 := by decide
    have hpdu : maxPDU = 32768 := by decide
    simp only [maxFragmentSize, hoverhead, hpdu]
    omega

theorem fragmentsLeft_lt (hsize : 1192 ≤ fragmentSize)
    (hsound : job.Sound fragmentSize) (hptr : job.ptr.length ≤ maxPDU) :
    job.fragmentsLeft - 1 < 256 := by
  have hneeds := hsound.needs
  have hmul := Nat.mul_le_mul_left (job.fragmentsLeft - 1) hsize
  have hpdu : maxPDU = 32768 := by decide
  omega

theorem fragment_dataSegment (env : Env) (hlt : job.fragmentsLeft - 1 < 256) :
    (s.dataSegment env job).fragment = job.fragmentsLeft - 1 :=
  Nat.mod_eq_of_lt hlt

theorem exact_fragmentInsert (hmtu : IsValidMTU s.mtu) (hlt : job.fragmentsLeft - 1 < 256)
    (hwindow : env.congestionWindowSize ≤ segmentTreeCapacity) :
    (s.fragmentInsert env job).Exact := by
  have hpdu : maxPDU = 32768 := by decide
  have hcapacity : segmentTreeCapacity = 4096 := by decide
  have hsize := (maxFragmentSize_le hmtu s.transportProtocol).2
  refine ⟨?_, Nat.mod_eq_of_lt hlt, ?_⟩
  · apply Nat.mod_eq_of_lt
    rw [List.length_take]
    omega
  · apply Nat.mod_eq_of_lt
    change env.congestionWindowSize - s.recvBuf.len < 65536
    omega

theorem sized_fragmentInsert (hsize : 0 < maxFragmentSize s.mtu s.transportProtocol)
    (hsound : job.Sound (maxFragmentSize s.mtu s.transportProtocol)) :
    (s.fragmentInsert env job).Sized (maxFragmentSize s.mtu s.transportProtocol) := by
  intro _
  have hneeds := hsound.needs
  change job.ptr.take _ ≠ [] ∧ (job.ptr.take _).length ≤ _
  constructor
  · intro hnil
    have hlength := congrArg List.length hnil
    rw [List.length_take, List.length_nil] at hlength
    omega
  · rw [List.length_take]
    omega

theorem exact_requestInsert (b : Bytes) : (s.requestInsert b).Exact := by
  have hmax : maxSessionOpenPayload = 1024 := by decide
  apply Nat.mod_eq_of_lt
  split
  · omega
  · decide

theorem sized_requestInsert (b : Bytes) : (s.requestInsert b).Sized fragmentSize := by
  intro hfragment
  cases hfragment

structure Inserts (s : Session) (i : Insertion) : Prop where
  ok : i.ok = true
  exact : i.Exact
  sized : i.Sized (maxFragmentSize s.mtu s.transportProtocol)
  seq : i.seg.seq = s.nextSend

theorem inserts_writerInserts (hmtu : IsValidMTU s.mtu)
    (hsound : writer.Sound (maxFragmentSize s.mtu s.transportProtocol))
    (hlaid : Laid s.isClient b inserts writer)
    (hwindow : env.congestionWindowSize ≤ segmentTreeCapacity)
    (hspace : writer.isQueueing = true → s.sendQueue.items.length < s.sendQueue.cap) :
    ∀ i ∈ s.writerInserts env writer, s.Inserts i := by
  intro i hi
  cases writer with
  | queueing job =>
    simp only [writerInserts] at hi
    split at hi
    · rw [List.mem_singleton.mp hi]
      obtain ⟨before, group, rest, _, hchunk⟩ := hlaid
      have hlow := (maxFragmentSize_le hmtu s.transportProtocol).1
      have hlt := fragmentsLeft_lt hlow hsound hchunk.length_le
      exact ⟨congrArg Prod.fst (SegmentTree.insert_of_lt (hspace rfl)),
        exact_fragmentInsert hmtu hlt hwindow,
        sized_fragmentInsert (by omega) hsound, rfl⟩
    · cases hi
  | _ => cases hi

theorem inserts_writeInserts
    (hspace : s.opening = true → s.sendQueue.items.length < s.sendQueue.cap) :
    ∀ i ∈ s.writeInserts b, s.Inserts i := by
  intro i hi
  simp only [writeInserts] at hi
  split at hi
  · rename_i hopening
    simp only [Bool.and_eq_true] at hopening
    rw [List.mem_singleton.mp hi]
    exact ⟨congrArg Prod.fst (SegmentTree.insert_of_lt (hspace hopening.2)),
      exact_requestInsert b, sized_requestInsert b, rfl⟩
  · cases hi

/-! ## One step of the writer -/

theorem nextSend_writerStep {writer' : WriterState}
    (h : s.writerStep env writer = some (t, writer')) :
    t.nextSend = s.nextSend + UInt32.ofNat (s.writerInserts env writer).length := by
  have hzero : s.nextSend = s.nextSend + UInt32.ofNat 0 :=
    (UInt32.add_zero _).symm
  have hqueued : ∀ {job : ChunkJob} {ok : Bool}, writer = .queueing job →
      s.writerExit env.choice = some none →
      s.enqueue (s.dataSegment env job) = (ok, t) →
      t.nextSend = s.nextSend + UInt32.ofNat (s.writerInserts env writer).length := by
    rintro job ok rfl hexit henqueue
    cases henqueue
    simp only [writerInserts, hexit]
    rfl
  cases writerStep_inv h with
  | done =>
    refine Eq.trans ?_ hzero
    unfold addDownloadBytes
    split <;> rfl
  | broken hexit =>
    simp only [writerInserts, hexit]
    exact hzero
  | full hexit henqueue | last hexit henqueue | queued hexit henqueue =>
    exact hqueued rfl hexit henqueue
  | _ => exact hzero

theorem laid_writerStep {writer' : WriterState} (hmtu : IsValidMTU s.mtu)
    (hsound : writer.Sound (maxFragmentSize s.mtu s.transportProtocol))
    (hlaid : Laid s.isClient b inserts writer) (h : s.writerStep env writer = some (t, writer')) :
    Laid s.isClient b (inserts ++ s.writerInserts env writer) writer' := by
  have hone : ∀ {job : ChunkJob}, s.writerExit env.choice = some none →
      s.writerInserts env (.queueing job) = [s.fragmentInsert env job] := by
    intro job hexit
    simp [writerInserts, hexit]
  have hnil : ∀ {next : WriterState}, Laid s.isClient b inserts next →
      Laid s.isClient b (inserts ++ []) next := by
    intro next hnext
    rwa [List.append_nil]
  have hqueued : ∀ {job : ChunkJob}, writer = .queueing job →
      ∃ before group rest, inserts = before ++ group ∧
        InChunk s.isClient b (s.nextJob env job) before
          (group ++ [s.fragmentInsert env job]) rest := by
    rintro job rfl
    obtain ⟨before, group, rest, heq, hchunk⟩ := hlaid
    have hlow := (maxFragmentSize_le hmtu s.transportProtocol).1
    have hlt := fragmentsLeft_lt hlow hsound hchunk.length_le
    exact ⟨before, group, rest, heq, hchunk.queue hsound.positive (s.fragment_dataSegment env hlt)⟩
  cases writerStep_inv h with
  | done => exact hnil fun _ => UpTo.complete hlaid
  | chunk n hrest => exact hnil ⟨_, inChunk_chunkJob n hlaid hrest⟩
  | stopped | broken | full =>
    intro hnone
    cases hnone
  | ready =>
    obtain ⟨rest, hchunk⟩ := hlaid
    exact hnil ⟨inserts, [], rest, (List.append_nil _).symm, hchunk⟩
  | last hexit _ hlast =>
    obtain ⟨before, group, rest, rfl, hchunk⟩ := hqueued rfl
    rw [hone hexit, List.append_assoc]
    exact hchunk.last hlast (ptr_nextJob_last hsound hlast)
  | queued hexit =>
    obtain ⟨before, group, rest, rfl, hchunk⟩ := hqueued rfl
    rw [hone hexit]
    exact ⟨before, _, rest, List.append_assoc _ _ _, hchunk⟩
  | _ => exact hnil hlaid

/-! ## The call of `Write` up to its loop -/

theorem writeInserts_opening (hopen : s.closeRequested = false)
    (hopening : s.opening = true) : s.writeInserts b = [s.requestInsert b] := by
  simp [writeInserts, hopen, hopening]

theorem nextSend_write (hopen : s.closeRequested = false) (h : s.write b = (t, writer)) :
    t.nextSend = s.nextSend + UInt32.ofNat (s.writeInserts b).length := by
  cases writeStart h with
  | refused hnot =>
    have hopening := hnot.resolve_left (by simp [hopen])
    simp [writeInserts, hopening]
  | begun hopening => simp [writeInserts, hopening]
  | full _ hopening henqueue | carried _ hopening henqueue
  | requested _ hopening henqueue =>
    rw [writeInserts_opening hopen hopening]
    have hnext := congrArg (fun result => result.2.nextSend) henqueue
    exact hnext.symm

theorem laid_write (hopen : s.closeRequested = false) (h : s.write b = (t, writer)) :
    Laid s.isClient b (s.writeInserts b) writer := by
  have hrequest : s.opening = true → IsOpening s.isClient [s.requestInsert b] := by
    intro hopening
    simp only [opening, Bool.and_eq_true] at hopening
    exact .inr ⟨hopening.1.1, _, rfl, rfl⟩
  cases writeStart h with
  | refused | full =>
    intro hnone
    cases hnone
  | begun hopening =>
    have hnone : s.writeInserts b = [] := by simp [writeInserts, hopening]
    rw [hnone]
    exact upTo_start b
  | carried _ hopening _ hsome =>
    rw [writeInserts_opening hopen hopening]
    intro _
    refine ⟨[s.requestInsert b], [], [], rfl, hrequest hopening, ?_, .start⟩
    rw [carried_singleton, List.append_nil]
    have hpayload : (s.openRequest b).payload =
        if b.length ≤ maxSessionOpenPayload then b else [] := rfl
    change (s.openRequest b).payload = b
    rw [hpayload] at hsome ⊢
    split at hsome
    · exact if_pos ‹_›
    · exact absurd rfl hsome
  | requested _ hopening _ hnone =>
    rw [writeInserts_opening hopen hopening]
    refine ⟨[s.requestInsert b], [], rfl, hrequest hopening, ?_, .start⟩
    rw [carried_singleton]
    exact hnone

/-! ## The response to an open session request -/

def queuesResponse (s : Session) (env : Env) : InputState → Bool
  | .responding seg =>
    !s.isClient && seg.protocol == openSessionRequest &&
      s.isState .sessionAttached && s.quotaAnswer env == .ok true
  | _ => false

theorem responding_spec {seg : Segment} {state : InputState} {sent : List Packet}
    (h : s.inputStep env (.responding seg) = some (t, state, sent))
    (hopen : t.closeRequested = false) :
    s.queuesResponse env (.responding seg) = true ∧ s.isClient = false ∧
        s.unopened = true ∧ t.unopened = false ∧ t.nextSend = s.nextSend + 1 ∨
      s.queuesResponse env (.responding seg) = false ∧ t.nextSend = s.nextSend := by
  cases inputStep_inv h with
  | overQuota => cases (closeRequested_closeWithError _ _).symm.trans hopen
  | openFailed => cases (closeRequested_failInput _).symm.trans hopen
  | ordinary hnot =>
    refine .inr ⟨?_, rfl⟩
    simp only [queuesResponse]
    rw [hnot, Bool.false_and]
  | quotaPanicked _ hquota => exact .inr ⟨by simp [queuesResponse, hquota], rfl⟩
  | @opened next _ hserver hprotocol hattached hquota henqueue =>
    have hqueues : s.queuesResponse env (.responding seg) = true := by
      simp [queuesResponse, hserver, hprotocol, hattached, hquota]
    obtain rfl : (s.enqueue s.openResponse).2 = next := congrArg Prod.snd henqueue
    refine .inl ⟨hqueues, hserver, by simp [unopened, hserver, hattached], ?_, ?_⟩
    · simp only [isState, beq_iff_eq] at hattached
      simp [unopened, forwardStateTo, enqueue, isState, hattached, SessionState.toNat]
    · unfold forwardStateTo
      split <;> rfl

end Session

end Mieru.Protocol
