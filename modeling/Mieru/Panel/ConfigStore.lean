import Mathlib.Data.List.Nodup
import Mathlib.Logic.Function.Basic
import Mieru.Foundation.TransitionSystem
import Mieru.Panel.Synchronisation

/-!
# The configuration store of the panel

`Store.Update` changes a copy of the configuration and stores the copy once it
is written.  `copyConfig` copies the slice of users but not their devices, so
that the stored configuration, the copy and every snapshot share the backing
arrays of the device lists.
-/

namespace Mieru.Panel

open Mieru.Foundation

structure DeviceFingerprint where
  hash : Bytes
  hwid : Bytes := []
  userAgent : Bytes := []
  ip : Bytes := []
  firstSeen : Int := 0
  lastSeen : Int := 0
  deriving DecidableEq

/-! ## Slices and their backing arrays -/

structure Slice where
  array : Nat
  len : Nat
  cap : Nat
  deriving DecidableEq

/-- The arrays from `fresh` on are not allocated. -/
structure Memory where
  cell : Nat → Nat → DeviceFingerprint
  fresh : Nat

namespace Memory

def read (m : Memory) (s : Slice) : List DeviceFingerprint :=
  (List.range s.len).map (m.cell s.array)

def write (m : Memory) (array index : Nat) (d : DeviceFingerprint) : Memory :=
  { m with cell := Function.update m.cell array (Function.update (m.cell array) index d) }

def allocate (m : Memory) (devices : List DeviceFingerprint) (cap : Nat) : Memory × Slice :=
  (⟨Function.update m.cell m.fresh fun index => devices.getD index ⟨[], [], [], [], 0, 0⟩,
    m.fresh + 1⟩, ⟨m.fresh, devices.length, cap⟩)

/-- `append` of one element; `cap` is the capacity of an array made for it. -/
def append (m : Memory) (s : Slice) (d : DeviceFingerprint) (cap : Nat) : Memory × Slice :=
  if s.len < s.cap then (m.write s.array s.len d, { s with len := s.len + 1 })
  else m.allocate (m.read s ++ [d]) cap

/-- What `append` to `s[:0]` leaves in the array when every kept element has
been appended. -/
def overwrite (m : Memory) (s : Slice) (kept : List DeviceFingerprint) : Memory × Slice :=
  ({ m with cell := Function.update m.cell s.array fun index =>
      kept.getD index (m.cell s.array index) },
    { s with len := kept.length })

end Memory

/-! ## Configurations and their updates -/

structure StoredUser extends PanelUser where
  devices : Slice

/-- The settings besides the users are of type `G`. -/
structure StoredConfig (G : Type) where
  settings : G
  users : List StoredUser

abbrev ConfigContent (G : Type) := G × List (PanelUser × List DeviceFingerprint)

variable {G : Type}

def StoredConfig.content (cfg : StoredConfig G) (m : Memory) : ConfigContent G :=
  (cfg.settings, cfg.users.map fun u => (u.toPanelUser, m.read u.devices))

def StoredConfig.slices (cfg : StoredConfig G) : List Slice := cfg.users.map StoredUser.devices

/-- The update functions of the handlers.  A nil slice is an array of its own
without capacity. -/
inductive PanelUpdate (G : Type) where
  | settings (change : G → G)
  | create (user : PanelUser)
  /-- `deleteUser` requires the user to exist, `bulkDelete` does not. -/
  | delete (names : List Bytes) (required : Bool)
  | edit (name : Bytes) (change : PanelUser → PanelUser)
  | recordDevice (name : Bytes) (device : DeviceFingerprint) (cap : Nat)
  | resetDevices (name fp : Bytes)
  /-- The decoder makes an array of the capacity that `cap` gives for a length. -/
  | restore (incoming : ConfigContent G) (cap : Nat → Nat)

def refresh (seen d : DeviceFingerprint) : DeviceFingerprint :=
  { d with
    lastSeen := seen.lastSeen
    ip := seen.ip
    hwid := if seen.hwid ≠ [] ∧ d.hwid = [] then seen.hwid else d.hwid
    userAgent := if seen.userAgent ≠ [] then seen.userAgent else d.userAgent }

namespace StoredUser

def recordDevice (device : DeviceFingerprint) (cap : Nat) (m : Memory) (u : StoredUser) :
    Memory × StoredUser :=
  match (m.read u.devices).findIdx? fun d => d.hash = device.hash with
  | some j =>
    (m.write u.devices.array j (refresh device (m.cell u.devices.array j)), u)
  | none =>
    if 0 < u.maxDevices ∧ u.maxDevices ≤ u.devices.len then (m, u)
    else ((m.append u.devices device cap).1,
      { u with devices := (m.append u.devices device cap).2 })

def resetDevices (fp : Bytes) (m : Memory) (u : StoredUser) : Memory × StoredUser :=
  let (m, devices) :=
    if fp = [] then m.allocate [] 0
    else m.overwrite u.devices ((m.read u.devices).filter fun d => d.hash ≠ fp)
  (m, { u with devices := devices })

def change (name : Bytes) (edit : Memory → StoredUser → Memory × StoredUser) (m : Memory) :
    List StoredUser → Option (Memory × List StoredUser)
  | [] => none
  | u :: users =>
    if u.name = name then some ((edit m u).1, (edit m u).2 :: users)
    else (change name edit m users).map fun (m, users) => (m, u :: users)

def restore (cap : Nat → Nat) (m : Memory) :
    List (PanelUser × List DeviceFingerprint) → Memory × List StoredUser
  | [] => (m, [])
  | (user, devices) :: rest =>
    let (m, slice) := m.allocate devices (cap devices.length)
    let (m, users) := restore cap m rest
    (m, { user with devices := slice } :: users)

end StoredUser

def PanelUpdate.apply (m : Memory) (cfg : StoredConfig G) :
    PanelUpdate G → Option (Memory × StoredConfig G)
  | .settings change => some (m, { cfg with settings := change cfg.settings })
  | .create user =>
    if cfg.users.any fun u => u.name = user.name then none
    else
      let (m, slice) := m.allocate [] 0
      some (m, { cfg with users := cfg.users ++ [{ user with devices := slice }] })
  | .delete names required =>
    if required ∧ ¬cfg.users.any fun u => u.name ∈ names then none
    else some (m, { cfg with users := cfg.users.filter fun u => u.name ∉ names })
  | .edit name change =>
    (StoredUser.change name (fun m u => (m, { u with toPanelUser := change u.toPanelUser })) m
      cfg.users).map fun (m, users) => (m, { cfg with users := users })
  | .recordDevice name device cap =>
    match StoredUser.change name (StoredUser.recordDevice device cap) m cfg.users with
    | some (m, users) => some (m, { cfg with users := users })
    | none => some (m, cfg)
  | .resetDevices name fp =>
    (StoredUser.change name (StoredUser.resetDevices fp) m cfg.users).map
      fun (m, users) => (m, { cfg with users := users })
  | .restore incoming cap =>
    let (m, users) := StoredUser.restore cap m incoming.2
    some (m, ⟨incoming.1, users⟩)

structure Store (G : Type) where
  memory : Memory
  cfg : StoredConfig G
  /-- What the configuration held after the last update that succeeded. -/
  saved : ConfigContent G
  /-- What `Snapshot` has returned, and what it held then. -/
  snapshots : List (StoredConfig G × ConfigContent G) := []

inductive StoreEvent (G : Type) where
  | snapshot
  | update (update : PanelUpdate G) (written : Bool)

namespace Store

def content (s : Store G) : ConfigContent G := s.cfg.content s.memory

def next (s : Store G) : StoreEvent G → Store G
  | .snapshot => { s with snapshots := (s.cfg, s.content) :: s.snapshots }
  | .update update written =>
    match update.apply s.memory s.cfg with
    | none => s
    | some (m, cfg) =>
      if written then { s with memory := m, cfg := cfg, saved := cfg.content m }
      else { s with memory := m }

/-- A configuration that was loaded: each list of devices has its own array. -/
def IsInitial (s : Store G) : Prop :=
  s.snapshots = [] ∧ s.saved = s.content ∧
    (s.cfg.slices.map Slice.array).Nodup ∧ ∀ t ∈ s.cfg.slices, t.array < s.memory.fresh

def system (G : Type) : System (Store G) (StoreEvent G) :=
  System.ofNext IsInitial fun s event => some (s.next event)

def fails (s : Store G) (update : PanelUpdate G) (written : Bool) : Bool :=
  (update.apply s.memory s.cfg).isNone || !written

def Unrecorded (s : Store G) (name fp : Bytes) : Prop :=
  ∀ u ∈ s.cfg.users, u.name = name → ∀ d ∈ s.memory.read u.devices, d.hash ≠ fp

/-- The event edits no recorded device in place. -/
def EditsNoDevice (s : Store G) : StoreEvent G → Prop
  | .update (.recordDevice name device _) _ => s.Unrecorded name device.hash
  | .update (.resetDevices name fp) _ => fp = [] ∨ s.Unrecorded name fp
  | _ => True

end Store

/-! ## What an update does to the arrays -/

theorem Memory.read_congr {m m' : Memory} {s : Slice}
    (h : ∀ index < s.len, m'.cell s.array index = m.cell s.array index) : m'.read s = m.read s := by
  simp only [Memory.read, List.map_inj_left, List.mem_range]
  exact h

/-- Cells that a slice shows are kept, and a slice of the result continues one
of the slices or has a new array. -/
structure Extends (m : Memory) (slices : List Slice) (m' : Memory) (slices' : List Slice) :
    Prop where
  fresh : m.fresh ≤ m'.fresh
  cells : ∀ array index, array < m.fresh → (∀ s ∈ slices, s.array = array → index < s.len) →
    m'.cell array index = m.cell array index
  continues : ∀ s' ∈ slices', m.fresh ≤ s'.array ∧ s'.array < m'.fresh ∨
    ∃ s ∈ slices, s'.array = s.array ∧ s.len ≤ s'.len
  nodup : (∀ s ∈ slices, s.array < m.fresh) → (slices.map Slice.array).Nodup →
    (slices'.map Slice.array).Nodup

namespace Extends

variable {m m' : Memory} {slices slices' : List Slice}

theorem of_sublist (m : Memory) (h : slices'.Sublist slices) : Extends m slices m slices' where
  fresh := le_refl _
  cells _ _ _ _ := rfl
  continues s hs := .inr ⟨s, h.subset hs, rfl, le_refl _⟩
  nodup _ hnodup := hnodup.sublist (h.map _)

theorem refl (m : Memory) (slices : List Slice) : Extends m slices m slices :=
  of_sublist m (List.Sublist.refl slices)

theorem allocate (m : Memory) (slices : List Slice) (devices : List DeviceFingerprint) (cap : Nat) :
    Extends m slices (m.allocate devices cap).1 (slices ++ [(m.allocate devices cap).2]) where
  fresh := Nat.le_succ _
  cells array index halloc _ := by
    simp only [Memory.allocate, Function.update_of_ne (Nat.ne_of_lt halloc)]
  continues s hs := by
    rcases List.mem_append.mp hs with hs | hs
    · exact .inr ⟨s, hs, rfl, le_refl _⟩
    · obtain rfl := List.mem_singleton.mp hs
      exact .inl ⟨le_refl _, Nat.lt_succ_self _⟩
  nodup halloc hnodup := by
    rw [List.map_append, List.nodup_append]
    refine ⟨hnodup, List.nodup_singleton _, fun array harray other hother => ?_⟩
    obtain ⟨s, hs, rfl⟩ := List.mem_map.mp harray
    obtain rfl := List.mem_singleton.mp hother
    exact Nat.ne_of_lt (halloc s hs)

theorem fresh_of_nil (h : Extends m [] m' slices') {s : Slice} (hs : s ∈ slices') :
    m.fresh ≤ s.array ∧ s.array < m'.fresh :=
  (h.continues s hs).resolve_right fun ⟨_, hnil, _⟩ => absurd hnil List.not_mem_nil

theorem weaken (h : Extends m [] m' slices') (slices : List Slice) :
    Extends m slices m' slices' where
  fresh := h.fresh
  cells array index halloc _ := h.cells array index halloc (by simp)
  continues s hs := .inl (h.fresh_of_nil hs)
  nodup _ _ := h.nodup (by simp) List.nodup_nil

theorem restore (cap : Nat → Nat) (m : Memory)
    (incoming : List (PanelUser × List DeviceFingerprint)) :
    Extends m [] (StoredUser.restore cap m incoming).1
      ((StoredUser.restore cap m incoming).2.map StoredUser.devices) := by
  induction incoming generalizing m with
  | nil => exact refl m []
  | cons user rest ih =>
    obtain ⟨user, devices⟩ := user
    have hnew := allocate m [] devices (cap devices.length)
    have hrest := ih (m.allocate devices (cap devices.length)).1
    simp only [StoredUser.restore, List.map_cons]
    refine ⟨hnew.fresh.trans hrest.fresh, fun array index halloc _ => ?_, fun s hs => .inl ?_,
      fun _ _ => ?_⟩
    · rw [hrest.cells array index (halloc.trans_le hnew.fresh) (by simp),
        hnew.cells array index halloc (by simp)]
    · rcases List.mem_cons.mp hs with rfl | hs
      · exact ⟨le_refl _, hrest.fresh⟩
      · obtain ⟨hle, hlt⟩ := hrest.fresh_of_nil hs
        exact ⟨hnew.fresh.trans hle, hlt⟩
    · refine List.nodup_cons.mpr ⟨fun hmem => ?_, hrest.nodup (by simp) List.nodup_nil⟩
      obtain ⟨s, hs, harray⟩ := List.mem_map.mp hmem
      have hle := (hrest.fresh_of_nil hs).1
      simp only [Memory.allocate] at harray hle
      omega

variable {s s' : Slice}

theorem among (h : Extends m [s] m' [s']) (front rest : List Slice) :
    Extends m (front ++ s :: rest) m' (front ++ s' :: rest) where
  fresh := h.fresh
  cells array index halloc hshown :=
    h.cells array index halloc fun t ht => hshown t (by simp [List.mem_singleton.mp ht])
  continues t ht := by
    have hcases : t = s' ∨ t ∈ front ++ s :: rest := by
      simp only [List.mem_append, List.mem_cons] at ht ⊢
      tauto
    rcases hcases with rfl | hold
    · rcases h.continues t (by simp) with hnew | ⟨u, hu, hle⟩
      · exact .inl hnew
      · exact .inr ⟨u, by simp [List.mem_singleton.mp hu], hle⟩
    · exact .inr ⟨t, hold, rfl, le_refl _⟩
  nodup halloc hnodup := by
    simp only [List.map_append, List.map_cons, List.nodup_middle, List.nodup_cons] at hnodup ⊢
    refine ⟨fun hmem => ?_, hnodup.2⟩
    rcases h.continues s' (by simp) with ⟨hnew, _⟩ | ⟨u, hu, harray, _⟩
    · rw [← List.map_append] at hmem
      obtain ⟨t, ht, harray⟩ := List.mem_map.mp hmem
      have hlt := halloc t (by
        simp only [List.mem_append, List.mem_cons] at ht ⊢
        tauto)
      omega
    · rw [List.mem_singleton.mp hu] at harray
      exact hnodup.1 (harray ▸ hmem)

theorem replace (m : Memory) (s : Slice) (devices : List DeviceFingerprint) (cap : Nat) :
    Extends m [s] (m.allocate devices cap).1 [(m.allocate devices cap).2] :=
  (allocate m [] devices cap).weaken [s]

theorem append (m : Memory) (s : Slice) (d : DeviceFingerprint) (cap : Nat) :
    Extends m [s] (m.append s d cap).1 [(m.append s d cap).2] := by
  unfold Memory.append
  split
  · refine ⟨le_refl _, fun array index _ hshown => ?_,
      by simp, by simp⟩
    have hshown := hshown s (by simp)
    simp only [Memory.write]
    by_cases harray : s.array = array
    · subst harray
      rw [Function.update_self, Function.update_of_ne (Nat.ne_of_lt (hshown rfl))]
    · rw [Function.update_of_ne (Ne.symm harray)]
  · exact replace m s _ cap

theorem overwrite (m : Memory) (s : Slice) :
    Extends m [s] (m.overwrite s (m.read s)).1 [(m.overwrite s (m.read s)).2] := by
  refine ⟨le_refl _, fun array index _ _ => ?_, by simp [Memory.overwrite, Memory.read], by simp⟩
  simp only [Memory.overwrite]
  by_cases harray : array = s.array
  · subst harray
    rw [Function.update_self]
    by_cases hindex : index < s.len
    · simp [Memory.read, List.getD, hindex]
    · simp [Memory.read, List.getD, hindex]
  · rw [Function.update_of_ne harray]

theorem recordDevice {u : StoredUser} {device : DeviceFingerprint}
    (h : ∀ d ∈ m.read u.devices, d.hash ≠ device.hash) (cap : Nat) :
    Extends m [u.devices] (u.recordDevice device cap m).1
      [(u.recordDevice device cap m).2.devices] := by
  have hnone : (m.read u.devices).findIdx? (fun d => d.hash = device.hash) = none := by
    simpa [List.findIdx?_eq_none_iff] using h
  simp only [StoredUser.recordDevice, hnone]
  split
  · exact refl m _
  · exact append m u.devices device cap

theorem resetDevices {u : StoredUser} {fp : Bytes}
    (h : fp = [] ∨ ∀ d ∈ m.read u.devices, d.hash ≠ fp) :
    Extends m [u.devices] (u.resetDevices fp m).1 [(u.resetDevices fp m).2.devices] := by
  unfold StoredUser.resetDevices
  by_cases hall : fp = []
  · simp only [hall, if_true]
    exact replace m u.devices [] 0
  · have hkept : (m.read u.devices).filter (fun d => d.hash ≠ fp) = m.read u.devices := by
      simpa [List.filter_eq_self] using h.resolve_left hall
    simp only [hall, if_false, hkept]
    exact overwrite m u.devices

theorem change {name : Bytes} {edit : Memory → StoredUser → Memory × StoredUser}
    {users users' : List StoredUser}
    (hedit : ∀ u ∈ users, u.name = name → Extends m [u.devices] (edit m u).1 [(edit m u).2.devices])
    (h : StoredUser.change name edit m users = some (m', users')) :
    Extends m (users.map StoredUser.devices) m' (users'.map StoredUser.devices) := by
  have hsplit : ∃ front u rest, users = front ++ u :: rest ∧ u.name = name ∧
      m' = (edit m u).1 ∧ users' = front ++ (edit m u).2 :: rest := by
    clear hedit
    induction users generalizing users' with
    | nil => cases h
    | cons u users ih =>
      simp only [StoredUser.change] at h
      split at h
      · rename_i hname
        cases h
        exact ⟨[], u, users, rfl, hname, rfl, rfl⟩
      · obtain ⟨⟨_, rest⟩, hrest, heq⟩ := Option.map_eq_some_iff.mp h
        cases heq
        obtain ⟨front, v, later, rfl, hname, rfl, rfl⟩ := ih hrest
        exact ⟨u :: front, v, later, rfl, hname, rfl, rfl⟩
  obtain ⟨front, u, rest, rfl, hname, rfl, rfl⟩ := hsplit
  simpa using (hedit u (by simp) hname).among (front.map StoredUser.devices)
    (rest.map StoredUser.devices)

end Extends

theorem Store.extends_apply {s : Store G} {update : PanelUpdate G} {written : Bool} {m : Memory}
    {cfg : StoredConfig G} (hguard : s.EditsNoDevice (.update update written))
    (h : update.apply s.memory s.cfg = some (m, cfg)) :
    Extends s.memory s.cfg.slices m cfg.slices := by
  cases update with
  | settings change =>
    cases h
    exact Extends.refl _ _
  | create user =>
    simp only [PanelUpdate.apply] at h
    split at h
    · cases h
    · cases h
      simpa [StoredConfig.slices] using Extends.allocate s.memory s.cfg.slices [] 0
  | delete names required =>
    obtain ⟨-, h⟩ := Option.ite_none_left_eq_some.mp h
    cases h
    exact Extends.of_sublist _ (List.filter_sublist.map _)
  | edit name change =>
    obtain ⟨⟨_, users⟩, hchange, heq⟩ := Option.map_eq_some_iff.mp h
    cases heq
    exact Extends.change (fun u _ _ => Extends.refl _ _) hchange
  | recordDevice name device cap =>
    simp only [PanelUpdate.apply] at h
    split at h
    · rename_i hchange
      cases h
      exact Extends.change (fun u hu hname => Extends.recordDevice (hguard u hu hname) cap) hchange
    · cases h
      exact Extends.refl _ _
  | resetDevices name fp =>
    obtain ⟨⟨_, users⟩, hchange, heq⟩ := Option.map_eq_some_iff.mp h
    cases heq
    exact Extends.change
      (fun u hu hname => Extends.resetDevices (hguard.imp_right fun h => h u hu hname)) hchange
  | restore incoming cap =>
    cases h
    exact (Extends.restore cap s.memory incoming.2).weaken _

namespace Store

def live (s : Store G) : List Slice := s.cfg.slices ++ s.snapshots.flatMap fun p => p.1.slices

structure Inv (s : Store G) : Prop where
  nodup : (s.cfg.slices.map Slice.array).Nodup
  allocated : ∀ t ∈ s.live, t.array < s.memory.fresh
  /-- No slice shows cells past the end of a stored one. -/
  longest : ∀ t ∈ s.live, ∀ u ∈ s.cfg.slices, u.array = t.array → t.len ≤ u.len
  saved : s.content = s.saved
  snapshots : ∀ p ∈ s.snapshots, p.1.content s.memory = p.2

variable {s : Store G} {m : Memory} {cfg : StoredConfig G}

theorem content_eq (hread : ∀ t ∈ cfg.slices, m.read t = s.memory.read t) :
    cfg.content m = cfg.content s.memory := by
  simp only [StoredConfig.content, Prod.mk.injEq, List.map_inj_left, true_and]
  exact fun u hu => hread _ (List.mem_map_of_mem hu)

theorem mem_live_of_cfg {t : Slice} (h : t ∈ s.cfg.slices) : t ∈ s.live :=
  List.mem_append_left _ h

theorem mem_live_of_snapshot {p : StoredConfig G × ConfigContent G} {t : Slice}
    (hp : p ∈ s.snapshots) (h : t ∈ p.1.slices) : t ∈ s.live :=
  List.mem_append_right _ (List.mem_flatMap.mpr ⟨p, hp, h⟩)

theorem Inv.read_live (hinv : s.Inv) (h : Extends s.memory s.cfg.slices m cfg.slices)
    {t : Slice} (ht : t ∈ s.live) : m.read t = s.memory.read t := by
  refine Memory.read_congr fun index hindex => ?_
  refine h.cells t.array index (hinv.allocated t ht) fun u hu harray => ?_
  exact hindex.trans_le (hinv.longest t ht u hu harray)

theorem Inv.snapshots_content (hinv : s.Inv) (h : Extends s.memory s.cfg.slices m cfg.slices) :
    ∀ p ∈ s.snapshots, p.1.content m = p.2 := by
  intro p hp
  rw [content_eq (s := s) fun t ht => hinv.read_live h (mem_live_of_snapshot hp ht)]
  exact hinv.snapshots p hp

theorem Inv.discard (hinv : s.Inv) (h : Extends s.memory s.cfg.slices m cfg.slices) :
    Inv { s with memory := m } where
  nodup := hinv.nodup
  allocated t ht := (hinv.allocated t ht).trans_le h.fresh
  longest := hinv.longest
  saved := (content_eq fun _ ht => hinv.read_live h (mem_live_of_cfg ht)).trans hinv.saved
  snapshots := hinv.snapshots_content h

theorem Inv.commit (hinv : s.Inv) (h : Extends s.memory s.cfg.slices m cfg.slices) :
    Inv { s with memory := m, cfg := cfg, saved := cfg.content m } where
  nodup := h.nodup (fun t ht => hinv.allocated t (mem_live_of_cfg ht)) hinv.nodup
  allocated t ht := by
    rcases List.mem_append.mp ht with ht | ht
    · rcases h.continues t ht with hnew | ⟨u, hu, harray, _⟩
      · exact hnew.2
      · rw [harray]
        exact (hinv.allocated u (mem_live_of_cfg hu)).trans_le h.fresh
    · exact (hinv.allocated t (List.mem_append_right _ ht)).trans_le h.fresh
  longest t ht u hu harray := by
    rcases List.mem_append.mp ht with ht | ht
    · -- Two slices of the new configuration have different arrays.
      have hnodup := h.nodup (fun t ht => hinv.allocated t (mem_live_of_cfg ht)) hinv.nodup
      rw [List.inj_on_of_nodup_map hnodup hu ht harray]
    · have hold : t ∈ s.live := List.mem_append_right _ ht
      have halloc := hinv.allocated t hold
      rcases h.continues u hu with hnew | ⟨v, hv, hsame, hle⟩
      · omega
      · exact (hinv.longest t hold v hv (hsame.symm.trans harray)).trans hle
  saved := rfl
  snapshots := hinv.snapshots_content h

theorem Inv.step (hinv : s.Inv) {event : StoreEvent G} (hguard : s.EditsNoDevice event) :
    (s.next event).Inv := by
  cases event with
  | snapshot =>
    have hlive : ∀ t ∈ (s.next .snapshot).live, t ∈ s.live := by
      intro t ht
      simp only [live, next, List.flatMap_cons, List.mem_append] at ht ⊢
      tauto
    exact ⟨hinv.nodup, fun t ht => hinv.allocated t (hlive t ht),
      fun t ht => hinv.longest t (hlive t ht), hinv.saved,
      List.forall_mem_cons.mpr ⟨rfl, hinv.snapshots⟩⟩
  | update update written =>
    cases happly : update.apply s.memory s.cfg with
    | none => simpa only [next, happly] using hinv
    | some result =>
      have h := extends_apply hguard happly
      cases written with
      | false => simpa [next, happly] using hinv.discard h
      | true => simpa [next, happly] using hinv.commit h

theorem Inv.of_reachable (h : (system G).ReachableBy EditsNoDevice s) : s.Inv := by
  refine h.invariant ?_ fun s event after hinv hguard hstep => ?_
  · rintro s ⟨hsnapshots, hsaved, hnodup, halloc⟩
    have hlive : s.live = s.cfg.slices := by simp [live, hsnapshots]
    refine ⟨hnodup, hlive ▸ halloc, fun t ht u hu harray => ?_, hsaved.symm, by simp [hsnapshots]⟩
    rw [List.inj_on_of_nodup_map hnodup hu (hlive ▸ ht) harray]
  · cases hstep
    exact hinv.step hguard

/-- As long as no recorded device is edited in place, an update that fails
changes no content, and neither does any update that of a snapshot. -/
theorem failed_update_unchanged (h : (system G).ReachableBy EditsNoDevice s) :
    (∀ update written, s.EditsNoDevice (.update update written) → s.fails update written = true →
      (s.next (.update update written)).content = s.content) ∧
    s.content = s.saved ∧ ∀ p ∈ s.snapshots, p.1.content s.memory = p.2 := by
  have hinv := Inv.of_reachable h
  refine ⟨fun update written hguard hfails => ?_, hinv.saved, hinv.snapshots⟩
  have hafter := (hinv.step hguard).saved
  rw [hafter, hinv.saved]
  simp only [fails, Bool.or_eq_true, Option.isNone_iff_eq_none, Bool.not_eq_true'] at hfails
  cases happly : update.apply s.memory s.cfg with
  | none => simp [next, happly]
  | some result => simp [next, happly, hfails.resolve_left (by simp [happly])]

/-! ## Devices that are edited in place -/

def phone : DeviceFingerprint where
  hash := [1]
  ip := [10]

def phoneStore : Store Unit where
  memory := ⟨fun _ _ => phone, 1⟩
  cfg := ⟨(), [{ name := [65], password := [1], devices := ⟨0, 1, 1⟩ }]⟩
  saved := ((), [({ name := [65], password := [1] }, [phone])])

theorem phoneStore_isInitial : phoneStore.IsInitial := by
  refine ⟨rfl, rfl, by decide, by decide⟩

/-- A new device is recorded and the file cannot be written. -/
theorem failed_update_unchanged_phone : ((phoneStore.next .snapshot).next
      (.update (.recordDevice [65] { hash := [2] } 4) false)).content = phoneStore.content := by
  have hstep : (system Unit).step phoneStore .snapshot (phoneStore.next .snapshot) := rfl
  have hguard : phoneStore.EditsNoDevice .snapshot := trivial
  have hreach := (System.ReachableBy.init phoneStore_isInitial).step hguard hstep
  refine (failed_update_unchanged hreach).1 (.recordDevice [65] { hash := [2] } 4) false ?_ rfl
  intro u hu _ d hd
  obtain rfl := List.mem_singleton.mp hu
  obtain rfl := List.mem_singleton.mp hd
  decide

/-- The device is seen from another address and the file cannot be written: the
stored configuration and the snapshot both have the new address. -/
theorem failed_refresh_changes :
    ∃ s, s = (phoneStore.next .snapshot).next
        (.update (.recordDevice [65] { hash := [1], ip := [99] } 4) false) ∧
      s.content ≠ phoneStore.content ∧ ∃ p ∈ s.snapshots, p.1.content s.memory ≠ p.2 :=
  ⟨_, rfl, by decide, _, List.mem_singleton.mpr rfl, by decide⟩

end Store

end Mieru.Panel
