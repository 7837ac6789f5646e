import Mieru.Foundation.TransitionSystem
import Mieru.Protocol.Segment

/-!
# Waking the consumer of a segment tree

Any number of goroutines call `Insert`, `DeleteMin`, `DeleteMinIf` and
`DeleteAll` on one tree.  A call holds the mutex while it changes the tree and
then sends a token to one of the two event channels without blocking.  One
consumer waits for a token of `chanNotEmptyEvent` and then calls `DeleteMin`
until the tree is empty.  Receiving a token needs no mutex, so it can happen
between the parts of a call.
-/

namespace Mieru.Protocol

open Mieru.Foundation

inductive TreeCall where
  | insert (seg : Segment)
  | deleteMin
  | deleteMinIf (si : Segment → Bool)
  | deleteAll

inductive Notice where
  | nothing
  | empty
  | notEmpty
  deriving DecidableEq

def Notice.send (t : SegmentTree) : Notice → SegmentTree
  | .nothing => t
  | .empty => t.notifyEmpty
  | .notEmpty => t.notifyNotEmpty

namespace TreeCall

def noticeAfterDelete (t : SegmentTree) : Notice :=
  if t.items.isEmpty then .empty else .notEmpty

theorem ascending_inserted (t : SegmentTree) (seg : Segment) :
    Ascending Segment.key (replaceOrInsert Segment.key seg t.items) :=
  t.ascending.replaceOrInsert seg

theorem ascending_rest {t : SegmentTree} {seg : Segment} {rest : List Segment}
    (h : t.items = seg :: rest) : Ascending Segment.key rest :=
  (h ▸ t.ascending : Ascending Segment.key (seg :: rest)).tail

theorem ascending_nil : Ascending Segment.key [] := List.Pairwise.nil

def insertChange (t : SegmentTree) (seg : Segment) : Bool × SegmentTree × Notice :=
  if t.cap ≤ t.items.length then (false, t, .notEmpty)
  else
    let items := replaceOrInsert Segment.key seg t.items
    let inserted :=
      { t with items := items, ascending := ascending_inserted t seg }
    (true, inserted, if items.length = t.items.length then .nothing else .notEmpty)

def deleteMinIfChange (t : SegmentTree) (si : Segment → Bool) : Bool × SegmentTree × Notice :=
  match h : t.items with
  | [] => (false, t, .nothing)
  | seg :: rest =>
    if si seg then
      let deleted : SegmentTree :=
        { t with items := rest, ascending := ascending_rest h }
      (true, deleted, noticeAfterDelete deleted)
    else (false, t, noticeAfterDelete t)

/-- A call up to its notification: whether it succeeds, the tree, and what is
still to be sent. -/
def change (t : SegmentTree) : TreeCall → Bool × SegmentTree × Notice
  | .insert seg => insertChange t seg
  | .deleteMin => deleteMinIfChange t fun _ => true
  | .deleteMinIf si => deleteMinIfChange t si
  | .deleteAll =>
    (true, { t with items := [], ascending := ascending_nil }, .empty)

def run (t : SegmentTree) : TreeCall → Bool × SegmentTree
  | .insert seg => t.insert seg
  | .deleteMin => (t.deleteMin.1.isSome, t.deleteMin.2)
  | .deleteMinIf si => ((t.deleteMinIf si).1.isSome, (t.deleteMinIf si).2)
  | .deleteAll => (true, t.deleteAll)

theorem deleteMinIf_eq_change (t : SegmentTree) (si : Segment → Bool) :
    ((t.deleteMinIf si).1.isSome, (t.deleteMinIf si).2) = ((deleteMinIfChange t si).1,
        (deleteMinIfChange t si).2.2.send (deleteMinIfChange t si).2.1) := by
  have hsend : ∀ u : SegmentTree, u.notifyAfterDelete = (noticeAfterDelete u).send u := by
    intro u
    unfold SegmentTree.notifyAfterDelete noticeAfterDelete
    split <;> rfl
  obtain ⟨items, cap, empty, notEmpty, ascending⟩ := t
  cases items with
  | nil => rfl
  | cons seg rest =>
    cases hsi : si seg with
    | true =>
      simp only [SegmentTree.deleteMinIf, deleteMinIfChange, hsi, if_true, hsend]
      rfl
    | false =>
      simp only [SegmentTree.deleteMinIf, deleteMinIfChange, hsi,
        Bool.false_eq_true, if_false, hsend]
      rfl

theorem run_eq_change (t : SegmentTree) (call : TreeCall) : call.run t =
      ((call.change t).1, (call.change t).2.2.send (call.change t).2.1) := by
  cases call with
  | insert seg =>
    change t.insert seg = _
    unfold SegmentTree.insert change insertChange
    split
    · rfl
    · dsimp only
      split <;> rfl
  | deleteMin => exact deleteMinIf_eq_change t fun _ => true
  | deleteMinIf si => exact deleteMinIf_eq_change t si
  | deleteAll => rfl

end TreeCall

inductive Caller (G : Type) where
  | other (goroutine : G)
  | consumer

inductive CallStage where
  | entered (call : TreeCall)
  | notifying (ok : Bool) (notice : Notice)
  | leaving (ok : Bool)

inductive ConsumerState where
  | waiting
  /-- A token was taken, and the tree not yet seen empty. -/
  | draining
  deriving DecidableEq

structure SharedTree (G : Type) where
  tree : SegmentTree
  mutex : Option (Caller G × CallStage) := none
  consumer : ConsumerState := .waiting

inductive TreeEvent (G : Type) where
  | lock (caller : Caller G) (call : TreeCall)
  | change
  | notify
  | unlock
  | takeNotEmpty
  | takeEmpty

namespace SharedTree

variable {G : Type}

def mayCall (state : ConsumerState) : Caller G → TreeCall → Bool
  | .other _, _ => true
  | .consumer, .deleteMin => state = .draining
  | .consumer, _ => false

def lock (s : SharedTree G) (caller : Caller G) (call : TreeCall) : Option (SharedTree G) :=
  match s.mutex with
  | some _ => none
  | none =>
    if mayCall s.consumer caller call then
      some { s with mutex := some (caller, .entered call) }
    else none

/-- The consumer goes back to waiting if `DeleteMin` returned false. -/
def consumerAfter (state : ConsumerState) (ok : Bool) : Caller G → ConsumerState
  | .other _ => state
  | .consumer => if ok then state else .waiting

def next (s : SharedTree G) : TreeEvent G → Option (SharedTree G)
  | .lock caller call => s.lock caller call
  | .change =>
    match s.mutex with
    | some (caller, .entered call) =>
      some { s with
        tree := (call.change s.tree).2.1
        mutex := some (caller, .notifying (call.change s.tree).1 (call.change s.tree).2.2) }
    | _ => none
  | .notify =>
    match s.mutex with
    | some (caller, .notifying ok notice) =>
      some { s with
        tree := notice.send s.tree, mutex := some (caller, .leaving ok) }
    | _ => none
  | .unlock =>
    match s.mutex with
    | some (caller, .leaving ok) =>
      some { s with
        mutex := none, consumer := consumerAfter s.consumer ok caller }
    | _ => none
  | .takeNotEmpty =>
    if s.consumer = .waiting ∧ s.tree.chanNotEmptyEvent = true then
      some { s with
        tree := { s.tree with chanNotEmptyEvent := false }
        consumer := .draining }
    else none
  | .takeEmpty =>
    if s.tree.chanEmptyEvent = true then
      some { s with tree := { s.tree with chanEmptyEvent := false } }
    else none

def system (G : Type) (capacity : Nat) : System (SharedTree G) (TreeEvent G) :=
  .ofNext (fun s => s = { tree := .new capacity }) next

/-- A tree with segments has a token pending or its consumer at work. -/
def Woken (s : SharedTree G) : Prop :=
  s.tree.items ≠ [] → s.tree.chanNotEmptyEvent = true ∨ s.consumer = .draining

/-- The call that holds the mutex is about to send the token. -/
def Announcing (s : SharedTree G) : Prop :=
  ∃ caller ok, s.mutex = some (caller, .notifying ok .notEmpty)

def Draining (t : SegmentTree) : CallStage → Prop
  | .entered call => call = .deleteMin
  | .notifying ok _ => ok = false → t.items = []
  | .leaving ok => ok = false → t.items = []

structure Inv (s : SharedTree G) : Prop where
  woken : s.Woken ∨ s.Announcing
  drains : ∀ stage, s.mutex = some (.consumer, stage) → Draining s.tree stage

end SharedTree

namespace TreeCall

theorem length_pos_replaceOrInsert (seg : Segment) (items : List Segment) :
    0 < (replaceOrInsert Segment.key seg items).length :=
  List.length_pos_of_mem (item_mem_replaceOrInsert seg items)

theorem change_spec (t : SegmentTree) (call : TreeCall) :
    (call.change t).2.1.chanNotEmptyEvent = t.chanNotEmptyEvent ∧ ((call.change t).2.1.items ≠ [] →
        (call.change t).2.2 = .notEmpty ∨ t.items ≠ []) := by
  have hdelete : ∀ si : Segment → Bool,
      (deleteMinIfChange t si).2.1.chanNotEmptyEvent = t.chanNotEmptyEvent ∧
        ((deleteMinIfChange t si).2.1.items ≠ [] →
          (deleteMinIfChange t si).2.2 = .notEmpty ∨ t.items ≠ []) := by
    intro si
    unfold deleteMinIfChange
    split
    · rename_i hnil
      exact ⟨rfl, fun hne => absurd hnil hne⟩
    · rename_i hcons
      have hne : t.items ≠ [] := by
        rw [hcons]
        exact List.cons_ne_nil _ _
      split
      · exact ⟨rfl, fun _ => .inr hne⟩
      · exact ⟨rfl, fun _ => .inr hne⟩
  cases call with
  | insert seg =>
    change (insertChange t seg).2.1.chanNotEmptyEvent = _ ∧ ((insertChange t seg).2.1.items ≠ [] →
        (insertChange t seg).2.2 = .notEmpty ∨ _)
    unfold insertChange
    split
    · exact ⟨rfl, fun _ => .inl rfl⟩
    · refine ⟨rfl, fun _ => ?_⟩
      dsimp only
      split
      · rename_i hlength
        -- the segment replaces one with its number
        refine .inr ?_
        rintro hnil
        have hpos := length_pos_replaceOrInsert seg t.items
        rw [hlength, hnil] at hpos
        cases hpos
      · exact .inl rfl
  | deleteMin => exact hdelete fun _ => true
  | deleteMinIf si => exact hdelete si
  | deleteAll => exact ⟨rfl, fun hne => absurd rfl hne⟩

theorem change_deleteMin {t : SegmentTree} (h : (TreeCall.deleteMin.change t).1 = false) :
    (TreeCall.deleteMin.change t).2.1.items = [] := by
  change (deleteMinIfChange t fun _ => true).1 = false at h
  change (deleteMinIfChange t fun _ => true).2.1.items = []
  unfold deleteMinIfChange at h ⊢
  split at h
  · assumption
  · cases h

end TreeCall

namespace SharedTree

variable {G : Type} {s s' : SharedTree G} {caller : Caller G}

theorem Inv.woken_of {mutex : Option (Caller G × CallStage)} (h : s.Inv) (hmutex : s.mutex = mutex)
    (hquiet : ∀ caller ok, mutex ≠ some (caller, .notifying ok .notEmpty)) : s.Woken := by
  rcases h.woken with hwoken | ⟨caller, ok, hannouncing⟩
  · exact hwoken
  · exact absurd (hmutex.symm.trans hannouncing) (hquiet caller ok)

theorem Inv.lock {call : TreeCall} (h : s.Inv) (hstep : s.lock caller call = some s') : s'.Inv := by
  unfold SharedTree.lock at hstep
  split at hstep
  · cases hstep
  · rename_i hfree
    split at hstep
    · rename_i hmay
      cases hstep
      refine ⟨.inl (h.woken_of hfree (by simp)), ?_⟩
      intro stage hmutex
      cases hmutex
      cases call with
      | deleteMin => rfl
      | _ => cases hmay
    · cases hstep

theorem Inv.change {call : TreeCall} (h : s.Inv) (hmutex : s.mutex = some (caller, .entered call)) :
    Inv { s with
      tree := (call.change s.tree).2.1
      mutex := some (caller, .notifying (call.change s.tree).1 (call.change s.tree).2.2) } := by
  obtain ⟨hevent, hitems⟩ := call.change_spec s.tree
  have hbefore : s.Woken := h.woken_of hmutex (by simp)
  refine ⟨?_, ?_⟩
  · by_cases hnotice : (call.change s.tree).2.2 = .notEmpty
    · exact .inr ⟨caller, (call.change s.tree).1, by rw [hnotice]⟩
    · refine .inl (fun hne => ?_)
      change (call.change s.tree).2.1.chanNotEmptyEvent = true ∨ _
      rw [hevent]
      exact hbefore ((hitems hne).resolve_left hnotice)
  · intro stage hstage
    cases hstage
    have hcall : call = .deleteMin := h.drains _ hmutex
    subst hcall
    exact TreeCall.change_deleteMin

theorem items_send (t : SegmentTree) (notice : Notice) : (notice.send t).items = t.items := by
  cases notice <;> rfl

theorem Inv.notify {ok : Bool} {notice : Notice} (h : s.Inv)
    (hmutex : s.mutex = some (caller, .notifying ok notice)) : Inv { s with
      tree := notice.send s.tree
      mutex := some (caller, .leaving ok) } := by
  refine ⟨.inl ?_, ?_⟩
  · cases notice with
    | notEmpty => exact fun _ => .inl rfl
    | nothing => exact h.woken_of hmutex (by simp)
    | empty => exact h.woken_of hmutex (by simp)
  · intro stage hstage
    cases hstage
    intro hok
    change (notice.send s.tree).items = []
    rw [items_send]
    exact h.drains _ hmutex hok

theorem Inv.unlock {ok : Bool} (h : s.Inv) (hmutex : s.mutex = some (caller, .leaving ok)) :
    Inv ({ s with
      mutex := none
      consumer := consumerAfter s.consumer ok caller } : SharedTree G) := by
  refine ⟨.inl ?_, fun _ hstage => by cases hstage⟩
  have hbefore : s.Woken := h.woken_of hmutex (by simp)
  cases caller with
  | other goroutine => exact hbefore
  | consumer =>
    cases ok with
    | true => exact hbefore
    | false => exact fun hne => absurd (h.drains _ hmutex rfl) hne

theorem Inv.next {event : TreeEvent G} (h : s.Inv) (hstep : s.next event = some s') : s'.Inv := by
  cases event with
  | lock caller call => exact h.lock hstep
  | change =>
    simp only [SharedTree.next] at hstep
    split at hstep
    · rename_i hmutex
      cases hstep
      exact h.change hmutex
    · cases hstep
  | notify =>
    simp only [SharedTree.next] at hstep
    split at hstep
    · rename_i hmutex
      cases hstep
      exact h.notify hmutex
    · cases hstep
  | unlock =>
    simp only [SharedTree.next] at hstep
    split at hstep
    · rename_i hmutex
      cases hstep
      exact h.unlock hmutex
    · cases hstep
  | takeNotEmpty =>
    obtain ⟨-, hstep⟩ := Option.ite_none_right_eq_some.mp hstep
    cases hstep
    refine ⟨.inl fun _ => .inr rfl, ?_⟩
    intro stage hstage
    have hdrains := h.drains stage hstage
    cases stage <;> exact hdrains
  | takeEmpty =>
    obtain ⟨-, hstep⟩ := Option.ite_none_right_eq_some.mp hstep
    cases hstep
    refine ⟨h.woken, ?_⟩
    intro stage hstage
    have hdrains := h.drains stage hstage
    cases stage <;> exact hdrains

/-- No wake-up is lost: whenever no call is under way, a tree with segments has
a token pending or its consumer is draining it; during a call the token may
still be about to be sent. -/
theorem no_lost_wakeup {capacity : Nat} (h : (system G capacity).Reachable s) :
    (s.mutex = none → s.Woken) ∧ (s.Woken ∨ s.Announcing) := by
  have hinv : s.Inv := by
    refine System.Reachable.invariant (P := Inv) ?_ ?_ h
    · rintro state rfl
      exact ⟨.inl fun hne => absurd rfl hne, fun _ hstage => by cases hstage⟩
    · intro state event after hinv hstep
      exact hinv.next hstep
  exact ⟨fun hfree => hinv.woken_of hfree (by simp), hinv.woken⟩

def numbered (seq : UInt32) : Segment where
  metadata := .session {
    protocol := .openSessionRequest, sessionID := 7, seq := seq
    payloadLen := 0 }

def whole {G : Type} (caller : Caller G) (call : TreeCall) : List (TreeEvent G) :=
  [.lock caller call, .change, .notify, .unlock]

def twoInserts : List (TreeEvent Bool) :=
  whole (.other false) (.insert (numbered 1)) ++
    ([.lock (.other true) (.insert (numbered 2)), .change, .takeNotEmpty, .notify, .unlock] ++
    (whole .consumer .deleteMin ++ whole (.other false) (.insert (numbered 2))))

/-- One segment is left, a token is pending and the consumer is draining. -/
theorem no_lost_wakeup_twoInserts : ∃ s : SharedTree Bool, s.mutex.isNone = true ∧
      s.tree.items.map Segment.seq = [2] ∧ s.Woken := by
  obtain ⟨s, hreach, hfree, hitems⟩ : ∃ s, (system Bool 4).Reachable s ∧
      s.mutex.isNone = true ∧ s.tree.items.map Segment.seq = [2] :=
    System.exists_reachable rfl twoInserts (by decide +kernel)
  exact ⟨s, hfree, hitems, (no_lost_wakeup hreach).1 (Option.isNone_iff_eq_none.mp hfree)⟩

end SharedTree

end Mieru.Protocol
