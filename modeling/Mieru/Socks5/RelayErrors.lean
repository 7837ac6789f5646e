import Mathlib.Logic.Function.Basic
import Mieru.Foundation.Outcome
import Mieru.Socks5.UdpAssociate

/-!
# The error that a relay returns

How `RunUDPAssociateLoop` and `RunUDPForwardingLoop` end.  Their goroutines
share `udpErr`, an `atomic.Value`, whose `Store` panics for a value of another
concrete type than the one it holds.  Most goroutines call `Load` before they
store, and others can come between the two calls.
-/

namespace Mieru.Socks5

open Mieru.Foundation

inductive RelayLoop where
  | associate
  | forwarding
  deriving DecidableEq

inductive RelayGoroutine where
  | monitor
  | upload
  | download
  deriving DecidableEq

inductive RelayTask (E : Type) where
  | running
  | storing (err : E)
  | done

/-- `returned` are the errors of the tunnel, the socket and the control
connection, `rejected` those for packets that fail the checks. -/
structure RelayErrors (E : Type) where
  loop : RelayLoop
  task : RelayGoroutine → RelayTask E
  udpErr : Option E := none
  returned : List E := []
  rejected : List E := []
  panicked : Bool := false

/-- Packets and datagrams that are passed on leave `udpErr` alone; the upload
goroutine of `RunUDPAssociateLoop` also checks the packets. -/
inductive RelayErrorEvent (E : Type) where
  | receives (buf : Buffer) (packet : Bytes)
  | fails (g : RelayGoroutine) (err : E)
  | closes
  | stores (g : RelayGoroutine)

namespace RelayErrors

variable {E T : Type} (typeOf : E → T) (stderror : UploadError → E)

/-- `RunUDPAssociateLoop` has no goroutine for the control connection. -/
def start (loop : RelayLoop) : RelayErrors E where
  loop := loop
  task g := if loop = .associate ∧ g = .monitor then .done else .running

def setTask (s : RelayErrors E) (g : RelayGoroutine) (task : RelayTask E) : RelayErrors E :=
  { s with task := Function.update s.task g task }

/-- The upload goroutine of `RunUDPAssociateLoop` does not call `Load`. -/
def loads (s : RelayErrors E) (g : RelayGoroutine) : Bool :=
  s.loop = .forwarding ∨ g = .download

/-- A goroutine with an error, up to its call of `Store`. -/
def fail (s : RelayErrors E) (g : RelayGoroutine) (err : E) : RelayErrors E :=
  if s.loads g ∧ s.udpErr.isSome then s.setTask g .done else s.setTask g (.storing err)

def store [DecidableEq T] (s : RelayErrors E) (g : RelayGoroutine) (err : E) : RelayErrors E :=
  if ∀ old ∈ s.udpErr, typeOf old = typeOf err then
    { s.setTask g .done with udpErr := some err }
  else { s with panicked := true }

def receive (s : RelayErrors E) (buf : Buffer) (packet : Bytes) : RelayErrors E :=
  match (Relay.processPacket { buf := buf } packet).upload with
  | .stopped err => { s with rejected := stderror err :: s.rejected }.fail .upload (stderror err)
  | .panicked => { s with panicked := true }
  | _ => s

/-- A panic ends the process. -/
def next [DecidableEq T] (s : RelayErrors E) (event : RelayErrorEvent E) : Option (RelayErrors E) :=
  if s.panicked then none
  else
    match event with
    | .receives buf packet =>
      match s.loop, s.task .upload with
      | .associate, .running => some (s.receive stderror buf packet)
      | _, _ => none
    | .fails g err =>
      match s.task g with
      | .running => some ({ s with returned := err :: s.returned }.fail g err)
      | _ => none
    | .closes =>
      match s.task .monitor with
      | .running => some (s.setTask .monitor .done)
      | _ => none
    | .stores g =>
      match s.task g with
      | .storing err => some (s.store typeOf g err)
      | _ => none

def system [DecidableEq T] : System (RelayErrors E) (RelayErrorEvent E) :=
  System.ofNext (fun s => ∃ loop, s = start loop) (next typeOf stderror)

def Ended (s : RelayErrors E) : Prop := ∀ g, s.task g = .done

def result (s : RelayErrors E) : Outcome E (Option E) :=
  if s.panicked then .panic "sync/atomic: store of inconsistently typed value into Value"
  else
    match s.loop, s.udpErr with
    | .associate, none => .panic "interface conversion: interface is nil, not error"
    | _, err => .ok err

def Returns (s : RelayErrors E) : Prop :=
  ∃ err, s.result = .ok (some err) ∧ (err ∈ s.returned ∨ err ∈ s.rejected)

/-- All errors have one concrete type, those for packets that fail the checks
included, and the name in a packet that passes them has at most 250 bytes. -/
def OneType (t : T) (_ : RelayErrors E) : RelayErrorEvent E → Prop
  | .receives buf packet =>
    match validateUpload buf packet.length with
    | .error err => typeOf (stderror err) = t
    | .ok () => buf 3 = socks5FQDNAddress → (buf 4).toNat ≤ 250
  | .fails _ err => typeOf err = t
  | _ => True

variable {typeOf stderror} {t : T} {s : RelayErrors E} {g : RelayGoroutine} {err : E}
  {returned rejected : List E}

def Known (typeOf : E → T) (t : T) (s : RelayErrors E) (err : E) : Prop :=
  typeOf err = t ∧ (err ∈ s.returned ∨ err ∈ s.rejected)

structure Uniform (typeOf : E → T) (t : T) (s : RelayErrors E) : Prop where
  calm : s.panicked = false
  stored : ∀ err, s.udpErr = some err → Known typeOf t s err
  storing : ∀ g err, s.task g = .storing err → Known typeOf t s err
  ended : ∀ g, s.task g = .done → g ≠ .monitor → s.udpErr ≠ none

theorem Known.grow (h : Known typeOf t s err) (hreturned : s.returned ⊆ returned)
    (hrejected : s.rejected ⊆ rejected) :
    Known typeOf t { s with returned := returned, rejected := rejected } err :=
  ⟨h.1, h.2.imp (@hreturned err) (@hrejected err)⟩

theorem Uniform.grow (h : Uniform typeOf t s) (hreturned : s.returned ⊆ returned)
    (hrejected : s.rejected ⊆ rejected) :
    Uniform typeOf t { s with returned := returned, rejected := rejected } where
  calm := h.calm
  stored err herr := (h.stored err herr).grow hreturned hrejected
  storing g err herr := (h.storing g err herr).grow hreturned hrejected
  ended := h.ended

@[simp] theorem task_setTask (task : RelayTask E) (other : RelayGoroutine) :
    (s.setTask g task).task other = if other = g then task else s.task other :=
  Function.update_apply s.task g task other

theorem Uniform.setTask (h : Uniform typeOf t s) {task : RelayTask E}
    (hstoring : ∀ err, task = .storing err → Known typeOf t s err)
    (hended : task = .done → g ≠ .monitor → s.udpErr ≠ none) :
    Uniform typeOf t (s.setTask g task) where
  calm := h.calm
  stored := h.stored
  storing other err herr := by
    rw [task_setTask] at herr
    split at herr
    · exact hstoring err herr
    · exact h.storing other err herr
  ended other hdone hmonitor := by
    rw [task_setTask] at hdone
    split at hdone
    · subst other
      exact hended hdone hmonitor
    · exact h.ended other hdone hmonitor

theorem task_fail : (s.fail g err).task g = .done ∨ (s.fail g err).task g = .storing err := by
  unfold fail
  split <;> simp

theorem task_fail_of_ne {other : RelayGoroutine} (h : other ≠ g) :
    (s.fail g err).task other = s.task other := by
  unfold fail
  split <;> simp [h]

theorem Uniform.fail (h : Uniform typeOf t s) (herr : Known typeOf t s err) :
    Uniform typeOf t (s.fail g err) := by
  unfold RelayErrors.fail
  split
  · rename_i hloaded
    apply h.setTask (by simp)
    intro _ _ hnone
    simp [hnone] at hloaded
  · apply h.setTask _ (by simp)
    intro other hother
    cases hother
    exact herr

theorem Uniform.receive (h : Uniform typeOf t s) {buf : Buffer} {packet : Bytes}
    (hguard : OneType typeOf stderror t s (.receives buf packet)) :
    Uniform typeOf t (s.receive stderror buf packet) := by
  unfold RelayErrors.receive
  split
  · rename_i err hstopped
    simp only [OneType, Relay.processPacket_stopped_iff.mp hstopped] at hguard
    refine (h.grow (List.Subset.refl _) (List.subset_cons_self _ _)).fail ⟨hguard, ?_⟩
    simp
  · rename_i hpanicked
    obtain ⟨hvalid, hfqdn, hlong⟩ := Relay.processPacket_panicked_iff.mp hpanicked
    simp only [OneType, hvalid] at hguard
    exact absurd (hguard hfqdn) (Nat.not_le.mpr hlong)
  · exact h

theorem Uniform.start (loop : RelayLoop) : Uniform typeOf t (start loop : RelayErrors E) := by
  refine ⟨rfl, by simp [RelayErrors.start], ?_, ?_⟩
  · intro g err htask
    simp only [RelayErrors.start] at htask
    split at htask <;> cases htask
  · intro g htask hmonitor
    simp [RelayErrors.start, hmonitor] at htask

theorem Uniform.returns (h : Uniform typeOf t s) (hended : s.Ended) : s.Returns := by
  obtain ⟨err, hstored⟩ := Option.ne_none_iff_exists'.mp
    (h.ended .upload (hended .upload) (by simp))
  refine ⟨err, ?_, (h.stored err hstored).2⟩
  simp [result, h.calm, hstored]

section

variable [DecidableEq T]

theorem store_eq (h : Uniform typeOf t s) (herr : Known typeOf t s err) :
    s.store typeOf g err = { s.setTask g .done with udpErr := some err } := by
  refine if_pos ?_
  intro old hold
  rw [(h.stored old hold).1, herr.1]

theorem Uniform.store (h : Uniform typeOf t s) (herr : Known typeOf t s err) :
    Uniform typeOf t (s.store typeOf g err) := by
  have hstored : Uniform typeOf t { s with udpErr := some err } := by
    refine ⟨h.calm, ?_, h.storing, by simp⟩
    intro other hother
    cases hother
    exact herr
  rw [store_eq h herr]
  exact hstored.setTask (by simp) (by simp)

theorem Uniform.next {event : RelayErrorEvent E} {after : RelayErrors E} (h : Uniform typeOf t s)
    (hguard : OneType typeOf stderror t s event)
    (hnext : s.next typeOf stderror event = some after) : Uniform typeOf t after := by
  unfold RelayErrors.next at hnext
  rw [if_neg (by simp [h.calm])] at hnext
  cases event with
  | receives buf packet =>
    dsimp only at hnext
    split at hnext
    · cases hnext
      exact h.receive hguard
    · cases hnext
  | fails g err =>
    dsimp only at hnext
    split at hnext
    · cases hnext
      refine (h.grow (List.subset_cons_self _ _) (List.Subset.refl _)).fail ⟨hguard, ?_⟩
      simp
    · cases hnext
  | closes =>
    dsimp only at hnext
    split at hnext
    · cases hnext
      exact h.setTask (by simp) (by simp)
    · cases hnext
  | stores g =>
    dsimp only at hnext
    split at hnext
    · rename_i err htask
      cases hnext
      exact h.store (h.storing g err htask)
    · cases hnext

theorem uniform_of_reachable
    (h : (system typeOf stderror).ReachableBy (OneType typeOf stderror t) s) :
    Uniform typeOf t s := by
  refine h.invariant ?_ ?_
  · rintro _ ⟨loop, rfl⟩
    exact Uniform.start loop
  · intro state after event hinv hguard hnext
    exact hinv.next hguard hnext

theorem Uniform.ends_storing (stderror : UploadError → E) (h : Uniform typeOf t s)
    (htask : s.task g = .storing err) :
    ∃ after, s.next typeOf stderror (.stores g) = some after ∧ Uniform typeOf t after ∧
      after.task g = .done ∧ ∀ other, s.task other = .done → after.task other = .done := by
  have hknown := h.storing g err htask
  have hafter := @store_eq _ _ typeOf t s g err _ h hknown
  refine ⟨s.store typeOf g err, ?_, h.store hknown, ?_, ?_⟩
  · simp [RelayErrors.next, h.calm, htask]
  · simp [hafter]
  · intro other hother
    simp [hafter, hother]

theorem Uniform.ends (stderror : UploadError → E) (h : Uniform typeOf t s)
    (herr : typeOf err = t) (g : RelayGoroutine) :
    ∃ events after, System.runEvents (RelayErrors.next typeOf stderror) s events = some after ∧
      Uniform typeOf t after ∧ after.task g = .done ∧
      ∀ other, s.task other = .done → after.task other = .done := by
  cases htask : s.task g with
  | done => exact ⟨[], s, rfl, h, htask, fun _ => id⟩
  | storing stored =>
    obtain ⟨after, hnext, hafter⟩ := h.ends_storing stderror htask
    exact ⟨[.stores g], after, by simp [System.runEvents, hnext], hafter⟩
  | running =>
    let failed := { s with returned := err :: s.returned }.fail g err
    have hnext : s.next typeOf stderror (.fails g err) = some failed := by
      simp [RelayErrors.next, h.calm, htask, failed]
    have hguard : OneType typeOf stderror t s (.fails g err) := herr
    have hfailed : Uniform typeOf t failed := h.next hguard hnext
    have hkept : ∀ other, s.task other = .done → failed.task other = .done := by
      intro other hother
      have hne : other ≠ g := by
        rintro rfl
        simp [htask] at hother
      exact (task_fail_of_ne hne).trans hother
    obtain hdone | hstoring : failed.task g = .done ∨ failed.task g = .storing err := task_fail
    · exact ⟨[.fails g err], failed, by simp [System.runEvents, hnext], hfailed, hdone, hkept⟩
    · obtain ⟨after, hstored, hafter, hdone, hothers⟩ := hfailed.ends_storing stderror hstoring
      refine ⟨[.fails g err, .stores g], after, ?_, hafter, hdone, ?_⟩
      · simp [System.runEvents, hnext, hstored]
      · exact fun other hother => hothers other (hkept other hother)

/-- The function does not panic and returns an error its goroutines have got,
and it does return when the sources fail. -/
theorem returns_of_oneType
    (h : (system typeOf stderror).ReachableBy (OneType typeOf stderror t) s) :
    s.panicked = false ∧ (s.Ended → s.Returns) ∧ ∀ err, typeOf err = t → ∃ events after,
        System.runEvents (next typeOf stderror) s events = some after ∧
          after.Ended ∧ after.Returns := by
  have hinv := uniform_of_reachable h
  refine ⟨hinv.calm, hinv.returns, ?_⟩
  intro err herr
  obtain ⟨first, s1, hrun1, hinv1, hdone1, -⟩ := hinv.ends stderror herr .monitor
  obtain ⟨second, s2, hrun2, hinv2, hdone2, hkept2⟩ := hinv1.ends stderror herr .upload
  obtain ⟨third, s3, hrun3, hinv3, hdone3, hkept3⟩ := hinv2.ends stderror herr .download
  have hended : s3.Ended := by
    intro g
    cases g with
    | monitor => exact hkept3 _ (hkept2 _ hdone1)
    | upload => exact hkept3 _ hdone2
    | download => exact hdone3
  refine ⟨first ++ (second ++ third), s3, ?_, hended, hinv3.returns hended⟩
  exact System.runEvents_append hrun1 (System.runEvents_append hrun2 hrun3)

end

def namedPacket : Bytes := [0, 0, 0, 3, 1, 97, 0, 53, 9]

/-- A packet with a name is passed on, the socket fails, a packet of one byte is
rejected, and the error for it is stored first. -/
def failedEvents : List (RelayErrorEvent Bool) :=
  [.receives (byteAt namedPacket) namedPacket, .fails .download true,
    .receives (byteAt [0]) [0], .stores .upload]

theorem returns_of_oneType_failed : ∃ s, System.runEvents (next id fun _ => true)
      (start .associate : RelayErrors Bool) failedEvents = some s ∧
    s.udpErr = some true ∧ s.panicked = false ∧ ∃ events after,
      System.runEvents (next id fun _ => true) s events = some after ∧
        after.Ended ∧ after.Returns := by
  have hinit : (system id fun _ => true).ReachableBy (OneType id (fun _ => true) true)
      (start .associate : RelayErrors Bool) := .init ⟨.associate, rfl⟩
  have hguarded : System.Guarded (OneType id (fun _ => true) true) (next id fun _ => true)
      (start .associate : RelayErrors Bool) failedEvents := by
    apply System.guarded_of_forall
    simp only [failedEvents, List.forall_mem_cons]
    exact ⟨fun _ _ => by decide, fun _ => rfl, fun _ => rfl, fun _ => trivial, by simp⟩
  obtain ⟨s, hrun, hstored⟩ : ∃ s, System.runEvents (next id fun _ => true)
      (start .associate : RelayErrors Bool) failedEvents = some s ∧ s.udpErr = some true :=
    ⟨_, rfl, rfl⟩
  obtain ⟨hcalm, -, hends⟩ := returns_of_oneType (hinit.run hguarded hrun)
  exact ⟨s, hrun, hstored, hcalm, hends true rfl⟩

/-- The two calls of `Store` get errors of different types, after `Load` has
returned nil in both goroutines or without any `Load`. -/
theorem store_panics : (System.runEvents (next id fun _ => true) (start .associate)
      [.fails .download false, .stores .download, .fails .upload true, .stores .upload]).map
        panicked = some true ∧ (System.runEvents (next id fun _ => true) (start .forwarding)
      [.fails .upload false, .fails .download true, .stores .upload, .stores .download]).map
        panicked = some true := by
  decide +kernel

end RelayErrors

end Mieru.Socks5
