import Mieru.Server.Mux

/-!
# The endpoints of a server

`SetEndpoints` and `Start` on a mux that is not closed, with the accept loops
that are running.  `SetEndpoints` compares a new list with `m.endpoints`, which
is neither the list that was set before nor the list that is listened to.
-/

namespace Mieru.Protocol

open Mieru.Foundation
open Mieru.Cipher

def UnderlayProperties.SameAddr (p q : UnderlayProperties) : Prop :=
  p.transportProtocol = q.transportProtocol ∧ p.localAddr = q.localAddr

instance (p q : UnderlayProperties) : Decidable (p.SameAddr q) :=
  inferInstanceAs (Decidable (_ ∧ _))

structure Listening where
  mux : Mux := {}
  live : List UnderlayProperties := []
  /-- Loops that were started for an address that had a live one. -/
  restarted : List UnderlayProperties := []
  /-- The argument of the call of `SetEndpoints` that has just returned. -/
  lastCall : Option (List UnderlayProperties) := none
  /-- The endpoints of all calls of `SetEndpoints`. -/
  asked : List UnderlayProperties := []

inductive ListeningEvent where
  | setEndpoints (endpoints : List UnderlayProperties) (listens : UnderlayProperties → Bool)
  | setServerUsers (users : List User)
  | start (listens : UnderlayProperties → Bool)
  | loopEnds (p : UnderlayProperties)

namespace Listening

def startLoop (listens : UnderlayProperties → Bool) (s : Listening)
    (p : UnderlayProperties) : Listening :=
  { s with
    restarted :=
      if s.live.any fun q => p.SameAddr q then s.restarted ++ [p]
      else s.restarted
    live :=
      if p.localAddr = "" ∨ listens p = false then s.live else s.live ++ [p] }

def startLoops (s : Listening) (listens : UnderlayProperties → Bool)
    (endpoints : List UnderlayProperties) : Listening :=
  endpoints.foldl (startLoop listens) s

def added (s : Listening) (endpoints : List UnderlayProperties) : List UnderlayProperties :=
  if s.mux.used && !s.mux.done then
    Mux.newEndpoints s.mux.endpoints endpoints
  else []

def setEndpoints (s : Listening) (endpoints : List UnderlayProperties)
    (listens : UnderlayProperties → Bool) : Listening :=
  { s.startLoops listens (s.added endpoints) with
    mux := s.mux.setEndpoints endpoints listens
    lastCall := some endpoints
    asked := s.asked ++ endpoints }

def next (s : Listening) : ListeningEvent → Option Listening
  | .setEndpoints endpoints listens => some (s.setEndpoints endpoints listens)
  | .setServerUsers users =>
    some { s with mux := s.mux.setServerUsers users, lastCall := none }
  | .start listens =>
    match s.mux.start listens with
    | .ok mux =>
      some { s.startLoops listens s.mux.endpoints with
        mux := mux
        lastCall := none }
    | _ => none
  | .loopEnds p =>
    if p ∈ s.live then
      some { s with live := s.live.erase p, lastCall := none }
    else none

def IsInitial (s : Listening) : Prop := s = {}

end Listening

def listeningSystem : System Listening ListeningEvent :=
  System.ofNext Listening.IsInitial Listening.next

namespace Listening

variable {s s' : Listening} {listens : UnderlayProperties → Bool}
  {endpoints : List UnderlayProperties}

def Distinct (endpoints : List UnderlayProperties) : Prop :=
  endpoints.Pairwise fun p q => ¬q.SameAddr p

structure Fresh (s : Listening) (endpoints : List UnderlayProperties) :
    Prop where
  distinct : Distinct endpoints
  notLive : ∀ p ∈ endpoints, ∀ q ∈ s.live, ¬p.SameAddr q

/--
The addresses of a call are different.  Before `Start` a call has the
endpoints of the mux or none of them.  After it an endpoint that the mux does
not have is at an address that no call has named, and the mux can listen there.
`Start` is called once, and no accept loop ends.
-/
def Orderly (s : Listening) : ListeningEvent → Prop
  | .setEndpoints endpoints listens =>
    Distinct endpoints ∧
      if s.mux.used then
        ∀ p ∈ endpoints, p ∉ s.mux.endpoints →
          (∀ q ∈ s.asked, ¬p.SameAddr q) ∧ p.localAddr ≠ "" ∧ listens p = true
      else (∀ p ∈ endpoints, p ∈ s.mux.endpoints) ∨ ∀ p ∈ endpoints, p ∉ s.mux.endpoints
  | .setServerUsers _ => True
  | .start listens => s.mux.used = false ∧ ∀ p ∈ s.mux.endpoints, listens p = true
  | .loopEnds _ => False

theorem restarted_startLoops (h : s.Fresh endpoints) :
    (s.startLoops listens endpoints).restarted = s.restarted := by
  induction endpoints generalizing s with
  | nil => rfl
  | cons p rest ih =>
    obtain ⟨hp, hrest⟩ := List.pairwise_cons.mp h.distinct
    have hnone : (s.live.any fun q => decide (p.SameAddr q)) = false := by
      simpa using h.notLive p (by simp)
    have hfresh : (startLoop listens s p).Fresh rest := by
      refine ⟨hrest, ?_⟩
      intro q hq other hother
      unfold startLoop at hother
      dsimp only at hother
      split at hother
      · exact h.notLive q (by simp [hq]) other hother
      · rcases List.mem_append.mp hother with hother | hother
        · exact h.notLive q (by simp [hq]) other hother
        · rw [List.mem_singleton.mp hother]
          exact hp q hq
    change ((startLoop listens s p).startLoops listens rest).restarted = _
    rw [ih hfresh, startLoop]
    simp [hnone]

theorem live_startLoops (h : ∀ p ∈ endpoints, p.localAddr ≠ "" ∧ listens p = true) :
    (s.startLoops listens endpoints).live = s.live ++ endpoints := by
  induction endpoints generalizing s with
  | nil => simp [startLoops]
  | cons p rest ih =>
    obtain ⟨⟨haddr, hlistens⟩, hrest⟩ := List.forall_mem_cons.mp h
    change ((startLoop listens s p).startLoops listens rest).live = _
    rw [ih hrest]
    simp [startLoop, haddr, hlistens]

theorem asked_startLoops (listens : UnderlayProperties → Bool)
    (endpoints : List UnderlayProperties) (s : Listening) :
    (s.startLoops listens endpoints).asked = s.asked := by
  induction endpoints generalizing s with
  | nil => rfl
  | cons p rest ih => exact ih (startLoop listens s p)

def Complete (s : Listening) : Prop :=
  ∀ endpoints, s.lastCall = some endpoints → ∀ p ∈ endpoints,
    if s.mux.used then p ∈ s.live else p ∈ s.mux.endpoints

/-- What ties `m.endpoints` to the live accept loops and to the calls. -/
structure Tracked (s : Listening) : Prop where
  notDone : s.mux.done = false
  once : s.restarted = []
  distinct : Distinct s.mux.endpoints
  known : s.mux.endpoints ⊆ s.asked
  liveKnown : s.live ⊆ s.asked
  notStarted : s.mux.used = false → s.live = []
  listened : s.mux.used = true → s.mux.endpoints ⊆ s.live
  complete : s.Complete

theorem mem_newEndpoints {old new : List UnderlayProperties} {p : UnderlayProperties} :
    p ∈ Mux.newEndpoints old new ↔ p ∈ new ∧ p ∉ old := by
  simp [Mux.newEndpoints]

theorem mem_added (hdone : s.mux.done = false) {p : UnderlayProperties} :
    p ∈ s.added endpoints ↔ s.mux.used = true ∧ p ∈ endpoints ∧ p ∉ s.mux.endpoints := by
  unfold added
  cases hused : s.mux.used <;> simp [hdone, mem_newEndpoints]

theorem endpoints_setEndpoints {m : Mux} (hdone : m.done = false) :
    (m.setEndpoints endpoints listens).endpoints =
      if Mux.newEndpoints m.endpoints endpoints = [] then m.endpoints
      else if m.used then endpoints
      else Mux.newEndpoints m.endpoints endpoints := by
  unfold Mux.setEndpoints
  simp only [hdone, Bool.false_eq_true, if_false]
  split
  · rfl
  · split <;> rfl

theorem localAddr_of_start {m mux : Mux} (h : m.start listens = .ok mux) :
    ∀ p ∈ m.endpoints, p.localAddr ≠ "" := by
  intro p hp hempty
  have hany : m.endpoints.any (·.localAddr == "") = true :=
    List.any_eq_true.mpr ⟨p, hp, by simp [hempty]⟩
  unfold Mux.start at h
  rw [hany] at h
  split at h
  · cases h
  · split at h <;> cases h

theorem complete_of_none (h : s.lastCall = none) : s.Complete := by
  intro endpoints hasked
  cases h.symm.trans hasked

section

variable (hs : s.Tracked) (h : s.Orderly (.setEndpoints endpoints listens))

include hs h

theorem Tracked.live_setEndpoints :
    (s.setEndpoints endpoints listens).live = s.live ++ s.added endpoints := by
  apply live_startLoops
  intro p hp
  obtain ⟨hused, hcalled, hnew⟩ := (mem_added hs.notDone).mp hp
  simp only [Orderly, hused, if_true] at h
  exact (h.2 p hcalled hnew).2

theorem Tracked.fresh_added : s.Fresh (s.added endpoints) where
  distinct := by
    have hdistinct : Distinct endpoints := h.1
    unfold added
    split
    · exact hdistinct.sublist List.filter_sublist
    · exact List.Pairwise.nil
  notLive p hp q hq := by
    obtain ⟨hused, hcalled, hnew⟩ := (mem_added hs.notDone).mp hp
    simp only [Orderly, hused, if_true] at h
    exact (h.2 p hcalled hnew).1 q (hs.liveKnown hq)

/-- After `Start` the endpoints of the call are kept ones, whose loops are
live, or their loops are started. -/
theorem Tracked.listened_call (hused : s.mux.used = true) :
    endpoints ⊆ (s.setEndpoints endpoints listens).live := by
  intro p hp
  rw [hs.live_setEndpoints h, List.mem_append, mem_added hs.notDone]
  by_cases hold : p ∈ s.mux.endpoints
  · exact .inl (hs.listened hused hold)
  · exact .inr ⟨hused, hp, hold⟩

/-- Before `Start` they are all kept or all new. -/
theorem Tracked.kept_call (hused : s.mux.used = false) :
    endpoints ⊆ (s.mux.setEndpoints endpoints listens).endpoints := by
  simp only [Orderly, hused, Bool.false_eq_true, if_false] at h
  intro p hp
  rw [endpoints_setEndpoints hs.notDone, hused]
  rcases h.2 with hsame | hnew
  · have hnone : Mux.newEndpoints s.mux.endpoints endpoints = [] := by
      rw [List.eq_nil_iff_forall_not_mem]
      intro q hq
      have hq := mem_newEndpoints.mp hq
      exact hq.2 (hsame q hq.1)
    rw [if_pos hnone]
    exact hsame p hp
  · have hmem := mem_newEndpoints.mpr ⟨hp, hnew p hp⟩
    rw [if_neg (List.ne_nil_of_mem hmem)]
    simpa using hmem

theorem Tracked.setEndpoints : (s.setEndpoints endpoints listens).Tracked := by
  obtain ⟨hframeUsed, hframeDone⟩ := s.mux.setEndpoints_frame endpoints listens
  have hendpoints := @endpoints_setEndpoints listens endpoints s.mux hs.notDone
  have hlive := hs.live_setEndpoints h
  have hcalled : s.added endpoints ⊆ endpoints :=
    fun p hp => ((mem_added hs.notDone).mp hp).2.1
  refine ⟨hframeDone.trans hs.notDone, (restarted_startLoops (hs.fresh_added h)).trans hs.once,
    ?_, ?_, ?_, ?_, ?_, ?_⟩
  · change Distinct (s.mux.setEndpoints endpoints listens).endpoints
    rw [hendpoints]
    split_ifs
    · exact hs.distinct
    · exact h.1
    · exact List.Pairwise.sublist List.filter_sublist h.1
  · change (s.mux.setEndpoints endpoints listens).endpoints ⊆ s.asked ++ endpoints
    rw [hendpoints]
    split_ifs
    · exact List.subset_append_of_subset_left _ hs.known
    · exact List.subset_append_right _ _
    · exact List.subset_append_of_subset_right _ fun p hp => (mem_newEndpoints.mp hp).1
  · rw [hlive]
    exact List.append_subset.mpr ⟨List.subset_append_of_subset_left _ hs.liveKnown,
      List.subset_append_of_subset_right _ hcalled⟩
  · intro hunused
    have hunused : s.mux.used = false := hframeUsed.symm.trans hunused
    rw [hlive, hs.notStarted hunused]
    simp [added, hunused]
  · intro hused
    have hused : s.mux.used = true := hframeUsed.symm.trans hused
    change (s.mux.setEndpoints endpoints listens).endpoints ⊆ _
    rw [hendpoints, if_pos hused]
    split
    · rw [hlive]
      exact List.subset_append_of_subset_left _ (hs.listened hused)
    · exact hs.listened_call h hused
  · rintro _ ⟨⟩ p hp
    change if (s.mux.setEndpoints endpoints listens).used then _ else _
    rw [hframeUsed]
    cases hused : s.mux.used with
    | true => exact hs.listened_call h hused hp
    | false => exact hs.kept_call h hused hp

end

theorem Tracked.start {mux : Mux} (hs : s.Tracked) (h : s.Orderly (.start listens))
    (hstart : s.mux.start listens = .ok mux) : Tracked { s.startLoops listens s.mux.endpoints with
      mux := mux
      lastCall := none } := by
  obtain ⟨hunused, hlistens⟩ := h
  have hnone := hs.notStarted hunused
  have hfresh : s.Fresh s.mux.endpoints := ⟨hs.distinct, by simp [hnone]⟩
  have haddr : ∀ p ∈ s.mux.endpoints, p.localAddr ≠ "" ∧ listens p = true :=
    fun p hp => ⟨localAddr_of_start hstart p hp, hlistens p hp⟩
  have hlive := @live_startLoops s listens _ haddr
  rw [hnone, List.nil_append] at hlive
  obtain ⟨_, _, _, rfl⟩ := Mux.start_eq_ok hstart
  refine ⟨hs.notDone, (restarted_startLoops hfresh).trans hs.once, hs.distinct, ?_, ?_,
    fun hused => (nomatch hused), ?_, complete_of_none rfl⟩
  · change s.mux.endpoints ⊆ (s.startLoops listens s.mux.endpoints).asked
    rw [asked_startLoops]
    exact hs.known
  · change (s.startLoops listens s.mux.endpoints).live ⊆
      (s.startLoops listens s.mux.endpoints).asked
    rw [hlive, asked_startLoops]
    exact hs.known
  · intro _
    change s.mux.endpoints ⊆ (s.startLoops listens s.mux.endpoints).live
    rw [hlive]
    exact List.Subset.refl _

theorem Tracked.next (hs : s.Tracked) {event : ListeningEvent}
    (hguard : s.Orderly event) (hnext : s.next event = some s') : s'.Tracked := by
  cases event with
  | setEndpoints endpoints listens =>
    cases hnext
    exact hs.setEndpoints hguard
  | setServerUsers users =>
    cases hnext
    exact { hs with complete := complete_of_none rfl }
  | start listens =>
    simp only [Listening.next] at hnext
    split at hnext
    · cases hnext
      exact hs.start hguard (by assumption)
    · cases hnext
  | loopEnds p => exact hguard.elim

theorem tracked_of_reachable (h : listeningSystem.ReachableBy Orderly s) : s.Tracked := by
  induction h with
  | init hinit =>
    rw [hinit]
    exact ⟨rfl, rfl, List.Pairwise.nil, fun _ h => h, fun _ h => h, fun _ => rfl,
      fun h => (nomatch h), complete_of_none rfl⟩
  | step _ hguard hnext ih => exact ih.next hguard hnext

/--
If every call is orderly, the endpoints of a call are listened to after it, or
are in `m.endpoints` if the mux is not started, and no accept loop is started
for an address that has a live one.
-/
theorem endpoints_complete (h : listeningSystem.ReachableBy Orderly s) :
    (∀ endpoints, s.lastCall = some endpoints → ∀ p ∈ endpoints,
      if s.mux.used then p ∈ s.live else p ∈ s.mux.endpoints) ∧ s.restarted = [] := by
  have htracked := tracked_of_reachable h
  exact ⟨htracked.complete, htracked.once⟩

def tcpEndpoint (mtu : Nat) (localAddr : Addr) : UnderlayProperties :=
  ⟨mtu, .streamTransport, localAddr⟩

instance (endpoints : List UnderlayProperties) : Decidable (Distinct endpoints) :=
  inferInstanceAs (Decidable (endpoints.Pairwise _))

instance (s : Listening) (event : ListeningEvent) : Decidable (s.Orderly event) := by
  cases event <;> unfold Orderly <;> infer_instance

/-- The endpoints are set, the mux is started, and another one is added. -/
theorem endpoints_complete_added : ∃ s, listeningSystem.ReachableBy Orderly s ∧
      s.live = [tcpEndpoint 1400 "a", tcpEndpoint 1400 "b"] ∧
      (∀ endpoints, s.lastCall = some endpoints → ∀ p ∈ endpoints,
        if s.mux.used then p ∈ s.live else p ∈ s.mux.endpoints) ∧ s.restarted = [] := by
  obtain ⟨s, hreachable, hlive⟩ : ∃ s, listeningSystem.ReachableBy Orderly s ∧
      s.live = [tcpEndpoint 1400 "a", tcpEndpoint 1400 "b"] :=
    System.exists_reachableBy (fun _ _ => of_decide_eq_true) rfl
      [.setServerUsers [{ name := "u" }], .setEndpoints [tcpEndpoint 1400 "a"] fun _ => true,
        .start fun _ => true,
        .setEndpoints [tcpEndpoint 1400 "a", tcpEndpoint 1400 "b"] fun _ => true]
      (by decide +kernel)
  exact ⟨s, hreachable, hlive, endpoints_complete hreachable⟩

/--
Before the start a second call that keeps an endpoint loses it.  After the
start an endpoint that was dropped and comes back, or has another MTU, is
listened to again although its loop is still running.
-/
theorem endpoints_lost_and_restarted : (∃ s, listeningSystem.Reachable s ∧
      s.lastCall = some [tcpEndpoint 1400 "a", tcpEndpoint 1400 "b"] ∧
      s.mux.used = false ∧ s.mux.endpoints = [tcpEndpoint 1400 "b"]) ∧
    ∃ s, listeningSystem.Reachable s ∧
      s.restarted = [tcpEndpoint 1400 "b", tcpEndpoint 1500 "a"] := by
  constructor
  · exact System.exists_reachable rfl [.setEndpoints [tcpEndpoint 1400 "a"] fun _ => true,
      .setEndpoints [tcpEndpoint 1400 "a", tcpEndpoint 1400 "b"] fun _ => true] (by decide +kernel)
  · exact System.exists_reachable rfl [.setServerUsers [{ name := "u" }],
      .setEndpoints [tcpEndpoint 1400 "a", tcpEndpoint 1400 "b"] fun _ => true,
      .start fun _ => true,
      .setEndpoints [tcpEndpoint 1400 "a", tcpEndpoint 1400 "c"] fun _ => true,
      .setEndpoints [tcpEndpoint 1400 "a", tcpEndpoint 1400 "b"] fun _ => true,
      .setEndpoints [tcpEndpoint 1500 "a"] fun _ => true] (by decide +kernel)

end Listening

end Mieru.Protocol
