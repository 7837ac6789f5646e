import Mieru.Cipher.BlockCipher
import Mieru.Foundation.KeyedTree
import Mieru.Protocol.Metadata

/-!
# Segments and segment trees

A segment is metadata, payload and the sender's transmission bookkeeping.  A
segment tree keeps segments in the order of their sequence numbers; a second
segment with the same number replaces the first.  The two event channels have
one slot each, so each is one bit: whether a token is pending.
-/

namespace Mieru.Protocol

open Mieru.Foundation
open Mieru.Cipher

variable {t t' : SegmentTree} {seg : Segment} {si : Segment → Bool}

inductive TransportProtocol where
  | streamTransport
  | packetTransport
  deriving DecidableEq, Repr

def maxPDU : Nat := 32 * 1024

def txCountLimit : UInt8 := 20

def packetOverhead : Nat :=
  defaultNonceSize + metadataLength + defaultOverhead * 2

def packetNonHeaderPosition : Nat :=
  defaultNonceSize + metadataLength + defaultOverhead

def maxFragmentSize (mtu : Nat) : TransportProtocol → Nat
  | .streamTransport => maxPDU
  | .packetTransport => mtu - packetOverhead

/-- Times are in microseconds; `txTimeout` is a duration in nanoseconds. -/
structure Segment where
  metadata : Metadata
  payload : Bytes := []
  ackCount : UInt8 := 0
  txCount : UInt8 := 0
  txTime : Int := 0
  txTimeout : Int := 0
  block : Option BlockCipher := none
  deriving DecidableEq

namespace Segment

def protocol (seg : Segment) : ProtocolType := seg.metadata.protocol

def sessionID (seg : Segment) : UInt32 := seg.metadata.sessionID

def seq (seg : Segment) : UInt32 := seg.metadata.seq

/-- The order of `segmentLessFunc`. -/
def key (seg : Segment) : Nat := seg.seq.toNat

end Segment

structure SegmentTree where
  items : List Segment
  cap : Nat
  chanEmptyEvent : Bool := false
  chanNotEmptyEvent : Bool := false
  ascending : Ascending Segment.key items

namespace SegmentTree

def new (capacity : Nat) : SegmentTree :=
  { items := [], cap := capacity, ascending := List.Pairwise.nil }

def len (t : SegmentTree) : Nat := t.items.length

def remaining (t : SegmentTree) : Nat := t.cap - t.items.length

def notifyEmpty (t : SegmentTree) : SegmentTree :=
  { t with chanEmptyEvent := true }

def notifyNotEmpty (t : SegmentTree) : SegmentTree :=
  { t with chanNotEmptyEvent := true }

def insert (t : SegmentTree) (seg : Segment) : Bool × SegmentTree :=
  if t.cap ≤ t.items.length then (false, t.notifyNotEmpty)
  else
    let items := replaceOrInsert Segment.key seg t.items
    let inserted :=
      { t with items := items, ascending := t.ascending.replaceOrInsert seg }
    (true, if items.length = t.items.length then inserted
      else inserted.notifyNotEmpty)

def notifyAfterDelete (t : SegmentTree) : SegmentTree :=
  if t.items.isEmpty then t.notifyEmpty else t.notifyNotEmpty

/-- `DeleteMinIf`: the removed segment, if any, and the tree after the call. -/
def deleteMinIf (t : SegmentTree) (si : Segment → Bool) : Option Segment × SegmentTree :=
  match h : t.items with
  | [] => (none, t)
  | seg :: rest =>
    if si seg then
      (some seg, notifyAfterDelete
        { t with items := rest, ascending := (h ▸ t.ascending : _).tail })
    else (none, notifyAfterDelete t)

def deleteMin (t : SegmentTree) : Option Segment × SegmentTree :=
  t.deleteMinIf fun _ => true

def deleteAll (t : SegmentTree) : SegmentTree :=
  { t with items := [], ascending := List.Pairwise.nil }.notifyEmpty

def minSeq (t : SegmentTree) : Option UInt32 := t.items.head?.map Segment.seq

/-- `Ascend` with a callback that updates segments but not their order. -/
def update (t : SegmentTree) (f : Segment → Segment)
    (hkey : ∀ seg, (f seg).key = seg.key) : SegmentTree :=
  { t with items := t.items.map f, ascending := t.ascending.map hkey }

theorem insert_eq_true (h : t.insert seg = (true, t')) :
    t.items.length < t.cap ∧ t'.items = replaceOrInsert Segment.key seg t.items := by
  unfold insert at h
  split at h
  · cases h
  · rename_i hspace
    cases h
    refine ⟨Nat.lt_of_not_le hspace, ?_⟩
    split <;> rfl

theorem insert_eq_false (h : t.insert seg = (false, t')) :
    t.cap ≤ t.items.length ∧ t'.items = t.items := by
  unfold insert at h
  split at h
  · rename_i hfull
    cases h
    exact ⟨hfull, rfl⟩
  · cases h

theorem insert_of_lt (h : t.items.length < t.cap) : t.insert seg = (true, (t.insert seg).2) := by
  unfold insert
  rw [if_neg (Nat.not_le.mpr h)]

theorem cap_insert {ok : Bool} (h : t.insert seg = (ok, t')) : t'.cap = t.cap := by
  unfold insert at h
  split at h
  · cases h
    rfl
  · cases h
    split <;> rfl

theorem items_notifyAfterDelete (t : SegmentTree) : (notifyAfterDelete t).items = t.items := by
  unfold notifyAfterDelete
  split <;> rfl

theorem deleteMinIf_eq_some (h : t.deleteMinIf si = (some seg, t')) :
    t.items = seg :: t'.items ∧ si seg = true := by
  unfold deleteMinIf at h
  split at h
  · cases h
  · rename_i first rest hcons
    split at h
    · rename_i hsi
      cases h
      exact ⟨by rw [items_notifyAfterDelete]; exact hcons, hsi⟩
    · cases h

theorem cap_deleteMinIf {removed : Option Segment} (h : t.deleteMinIf si = (removed, t')) :
    t'.cap = t.cap := by
  have hnotify : ∀ u : SegmentTree, (notifyAfterDelete u).cap = u.cap := by
    intro u
    unfold notifyAfterDelete
    split <;> rfl
  unfold deleteMinIf at h
  split at h
  · cases h
    rfl
  · split at h
    · cases h
      rw [hnotify]
    · cases h
      rw [hnotify]

theorem deleteMinIf_eq_none (h : t.deleteMinIf si = (none, t')) :
    t'.items = t.items ∧ ∀ seg rest, t.items = seg :: rest → si seg = false := by
  unfold deleteMinIf at h
  split at h
  · rename_i hnil
    cases h
    exact ⟨rfl, by simp [hnil]⟩
  · rename_i first rest hcons
    split at h
    · cases h
    · rename_i hsi
      cases h
      refine ⟨items_notifyAfterDelete t, ?_⟩
      intro seg others heq
      rw [hcons] at heq
      cases heq
      simpa using hsi

end SegmentTree

end Mieru.Protocol
