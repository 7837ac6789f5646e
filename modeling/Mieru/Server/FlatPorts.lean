import Mathlib.Data.List.Dedup
import Mieru.Server.ApplyConfig

/-!
# Port bindings

What `FlatPortBindings` accepts and what it makes of the bindings.
-/

namespace Mieru.Appctlpb

open Mieru.Foundation

variable {binding : PortBinding} {protocol : TransportProtocol} {port : Int}
  {bindings flat : List PortBinding} {text : Bytes} {ports : List Int}

def portsBetween (first last : Int) : List Int :=
  (List.range (last - first + 1).toNat).map fun i => first + i

def isPort (port : Int) : Bool := 1 ≤ port && port ≤ 65535

def IsRange (text : Bytes) (first last : Nat) : Prop :=
  ∃ small big, text = small ++ 45 :: big ∧ parseNat small = some first ∧ parseNat big = some last

theorem isPort_iff : isPort port = true ↔ 1 ≤ port ∧ port ≤ 65535 := by
  simp [isPort]

theorem mem_portsBetween {first last : Int} (h : first ≤ last) :
    port ∈ portsBetween first last ↔ first ≤ port ∧ port ≤ last := by
  simp only [portsBetween, List.mem_map, List.bind_eq_flatMap, List.mem_flatMap, List.pure_def,
    List.mem_singleton, List.mem_range]
  constructor
  · rintro ⟨_, ⟨i, hi, rfl⟩, rfl⟩
    omega
  · rintro ⟨hlow, hhigh⟩
    exact ⟨_, ⟨(port - first).toNat, by omega, rfl⟩, by omega⟩

theorem check_port {err : ConfigError} :
    check (port < 1 || port > 65535) err = .ok () ↔ isPort port = true := by
  rw [check_eq_ok, isPort_iff]
  simp

theorem parseNat_eq_some {n : Nat} (h : parseNat text = some n) :
    text ≠ [] ∧ text.all isDigitByte = true := by
  unfold parseNat at h
  split at h
  · assumption
  · cases h

theorem hyphen_not_digit (h : text.all isDigitByte = true) : (45 : UInt8) ∉ text :=
  fun hmem => nomatch List.all_eq_true.mp h 45 hmem

theorem splitOn_range {small big : Bytes} (hsmall : small.all isDigitByte = true)
    (hbig : big.all isDigitByte = true) : (small ++ 45 :: big).splitOn 45 = [small, big] := by
  have hjoin : small ++ 45 :: big = [45].intercalate [small, big] := by
    simp [List.intercalate]
  rw [hjoin]
  refine List.splitOn_intercalate 45 ?_ (by simp)
  simpa using ⟨hyphen_not_digit hsmall, hyphen_not_digit hbig⟩

theorem splitPortRange_eq_some {small big : Bytes} : splitPortRange text = some (small, big) ↔
    text = small ++ 45 :: big ∧ small ≠ [] ∧ big ≠ [] ∧ small.all isDigitByte = true ∧
      big.all isDigitByte = true := by
  constructor
  · intro h
    unfold splitPortRange at h
    split at h
    · rename_i first last hsplit
      split at h
      · rename_i hgood
        cases h
        have hjoin : [45].intercalate (text.splitOn 45) = text := List.intercalate_splitOn 45
        refine ⟨?_, hgood⟩
        rw [← hjoin, hsplit]
        simp [List.intercalate]
      · cases h
    · cases h
  · rintro ⟨rfl, hgood⟩
    rw [splitPortRange, splitOn_range hgood.2.2.1 hgood.2.2.2]
    exact if_pos hgood

theorem atoi_eq_ok (hdigits : text.all isDigitByte = true) {n : Int} :
    atoi text = .ok n ↔ ∃ m : Nat, parseNat text = some m ∧ m < 2 ^ 63 ∧ n = m := by
  unfold atoi
  rw [parseInt_of_digits hdigits]
  cases parseNat text with
  | none => simp
  | some m =>
    simp only [Option.bind_some, Option.some_inj, exists_eq_left']
    by_cases hm : m < 2 ^ 63
    · rw [if_pos hm]
      simp only [Except.ok.injEq, hm, true_and, eq_comm]
    · rw [if_neg hm]
      simp only [reduceCtorEq, hm, false_and]

theorem bindingPorts_eq_ok : bindingPorts binding = .ok ports ↔
    binding.port.getD 0 ≠ 0 ∧ isPort (binding.port.getD 0) = true ∧ ports = [binding.port.getD 0] ∨
      binding.port.getD 0 = 0 ∧ ∃ first last : Nat,
        IsRange (binding.portRange.getD []) first last ∧ isPort first = true ∧
          isPort last = true ∧ first ≤ last ∧ ports = portsBetween first last := by
  unfold bindingPorts
  dsimp only
  by_cases hzero : binding.port.getD 0 = 0
  · rw [if_neg (not_not.mpr hzero)]
    simp only [hzero, ne_eq, not_true_eq_false, false_and, true_and, false_or]
    constructor
    · intro h
      split at h
      · cases h
      rename_i small big hsplit
      obtain ⟨htext, -, -, hsmall, hbig⟩ := splitPortRange_eq_some.mp hsplit
      obtain ⟨first, hfirst, h⟩ := except_ok_bind.mp h
      obtain ⟨last, hlast, h⟩ := except_ok_bind.mp h
      obtain ⟨⟨⟩, hgood, h⟩ := except_ok_bind.mp h
      obtain ⟨⟨⟩, hgoodLast, h⟩ := except_ok_bind.mp h
      obtain ⟨⟨⟩, horder, h⟩ := except_ok_bind.mp h
      cases h
      obtain ⟨n, hn, -, rfl⟩ := (atoi_eq_ok hsmall).mp hfirst
      obtain ⟨m, hm, -, rfl⟩ := (atoi_eq_ok hbig).mp hlast
      have hle := of_decide_eq_false (check_eq_ok.mp horder)
      exact ⟨n, m, ⟨small, big, htext, hn, hm⟩, check_port.mp hgood, check_port.mp hgoodLast,
        by omega, rfl⟩
    · rintro ⟨first, last, ⟨small, big, htext, hfirst, hlast⟩, hgood, hgoodLast, horder, rfl⟩
      obtain ⟨hsmallNe, hsmall⟩ := parseNat_eq_some hfirst
      obtain ⟨hbigNe, hbig⟩ := parseNat_eq_some hlast
      have hsplit := splitPortRange_eq_some.mpr ⟨htext, hsmallNe, hbigNe, hsmall, hbig⟩
      have hbound := (isPort_iff.mp hgood).2
      have hboundLast := (isPort_iff.mp hgoodLast).2
      simp only [hsplit, except_ok_bind]
      exact ⟨first, (atoi_eq_ok hsmall).mpr ⟨first, hfirst, by omega, rfl⟩,
        last, (atoi_eq_ok hbig).mpr ⟨last, hlast, by omega, rfl⟩, (), check_port.mpr hgood,
        (), check_port.mpr hgoodLast, (), check_eq_ok.mpr (decide_eq_false (by omega)), rfl⟩
  · rw [if_pos hzero, except_ok_bind]
    simp only [hzero, ne_eq, not_false_eq_true, true_and, false_and, or_false]
    constructor
    · rintro ⟨⟨⟩, hgood, h⟩
      cases h
      exact ⟨check_port.mp hgood, rfl⟩
    · rintro ⟨hgood, rfl⟩
      exact ⟨(), check_port.mpr hgood, rfl⟩

def Binds (bindings : List PortBinding) (protocol : TransportProtocol) (port : Int) : Prop :=
  ∃ binding ∈ bindings, binding.protocol.getD .unknown = protocol ∧
    ∃ ports, bindingPorts binding = .ok ports ∧ port ∈ ports

theorem binds_cons {rest : List PortBinding} :
    Binds (binding :: rest) protocol port ↔ (binding.protocol.getD .unknown = protocol ∧
        ∃ ports, bindingPorts binding = .ok ports ∧ port ∈ ports) ∨ Binds rest protocol port := by
  unfold Binds
  simp only [List.mem_cons, or_and_right, exists_or, exists_eq_left]

theorem binds_append {front back : List PortBinding} : Binds (front ++ back) protocol port ↔
    Binds front protocol port ∨ Binds back protocol port := by
  simp only [Binds, List.mem_append, or_and_right, exists_or]

def portBinding (protocol : TransportProtocol) (port : Int) : PortBinding :=
  { port := some port, protocol := some protocol }

def flatten (parts : List (List Int × List Int)) : List PortBinding :=
  (sortedPorts (parts.flatMap Prod.fst)).map (portBinding .tcp) ++
    (sortedPorts (parts.flatMap Prod.snd)).map (portBinding .udp)

theorem flatPortBindings_eq_ok :
    flatPortBindings bindings = .ok flat ↔ ∃ parts, List.Forall₂ (fun binding part =>
        flatPortBinding binding = .ok part) bindings parts ∧ flat = flatten parts := by
  have hunfold : flatPortBindings bindings =
      bindings.mapM flatPortBinding >>= fun parts => .ok (flatten parts) := rfl
  rw [hunfold, except_ok_bind]
  constructor
  · rintro ⟨parts, hparts, hflat⟩
    cases hflat
    exact ⟨parts, mapM_eq_ok.mp hparts, rfl⟩
  · rintro ⟨parts, hparts, rfl⟩
    exact ⟨parts, mapM_eq_ok.mpr hparts, rfl⟩

theorem flatPortBinding_eq_ok {part : List Int × List Int} :
    flatPortBinding binding = .ok part ↔ ∃ ports, bindingPorts binding = .ok ports ∧
        (binding.protocol = some .tcp ∧ part = (ports, []) ∨
          binding.protocol = some .udp ∧ part = ([], ports)) := by
  obtain ⟨port, protocol, portRange⟩ := binding
  unfold flatPortBinding
  rw [except_ok_bind]
  constructor
  · rintro ⟨⟨⟩, hknown, h⟩
    obtain ⟨ports, hports, h⟩ := except_ok_bind.mp h
    refine ⟨ports, hports, ?_⟩
    cases protocol with
    | none => cases hknown
    | some protocol =>
      cases protocol with
      | unknown => cases hknown
      | tcp =>
        cases h
        exact .inl ⟨rfl, rfl⟩
      | udp =>
        cases h
        exact .inr ⟨rfl, rfl⟩
      | other number => cases h
  · rintro ⟨ports, hports, ⟨hprotocol, rfl⟩ | ⟨hprotocol, rfl⟩⟩
    · cases hprotocol
      exact ⟨(), rfl, except_ok_bind.mpr ⟨ports, hports, rfl⟩⟩
    · cases hprotocol
      exact ⟨(), rfl, except_ok_bind.mpr ⟨ports, hports, rfl⟩⟩

section

variable {bindings : List PortBinding} {parts : List (List Int × List Int)}

theorem mem_parts_iff (h : List.Forall₂ (fun binding part =>
      flatPortBinding binding = .ok part) bindings parts) (port : Int) :
    (port ∈ parts.flatMap Prod.fst ↔ Binds bindings .tcp port) ∧
      (port ∈ parts.flatMap Prod.snd ↔ Binds bindings .udp port) := by
  induction h with
  | nil => simp [Binds]
  | cons hpart hrest ih =>
    obtain ⟨ports, hports, hcase⟩ := flatPortBinding_eq_ok.mp hpart
    simp only [List.flatMap_cons, List.mem_append, ih.1, ih.2, binds_cons]
    rcases hcase with ⟨hprotocol, rfl⟩ | ⟨hprotocol, rfl⟩
    · simp [hprotocol, hports]
    · simp [hprotocol, hports]

end

theorem mem_sortedPorts {ports : List Int} : port ∈ sortedPorts ports ↔ port ∈ ports := by
  rw [sortedPorts, List.mem_insertionSort, List.mem_dedup]

theorem pairwise_sortedPorts (ports : List Int) : (sortedPorts ports).Pairwise (· < ·) := by
  have hsorted := List.pairwise_insertionSort (· ≤ ·) ports.dedup
  have hnodup : (sortedPorts ports).Nodup :=
    (List.perm_insertionSort (· ≤ ·) ports.dedup).nodup_iff.mpr ports.nodup_dedup
  exact (hsorted.and hnodup).imp fun ⟨hle, hne⟩ => lt_of_le_of_ne hle hne

theorem sortedPorts_eq_iff {left right : List Int} : sortedPorts left = sortedPorts right ↔
      ∀ port, port ∈ left ↔ port ∈ right := by
  constructor
  · intro h port
    rw [← mem_sortedPorts, h, mem_sortedPorts]
  · intro h
    have hperm : left.dedup.Perm right.dedup := by
      rw [List.perm_ext_iff_of_nodup left.nodup_dedup right.nodup_dedup]
      intro port
      rw [List.mem_dedup, List.mem_dedup, h]
    have hsorted := (List.perm_insertionSort (· ≤ ·) left.dedup).trans
      (hperm.trans (List.perm_insertionSort (· ≤ ·) right.dedup).symm)
    refine hsorted.eq_of_pairwise ?_ (List.pairwise_insertionSort _ _)
      (List.pairwise_insertionSort _ _)
    intro a b _ _ hab hba
    exact le_antisymm hab hba

def portsOf (protocol : TransportProtocol) (flat : List PortBinding) : List Int :=
  flat.filterMap fun binding =>
    if binding.protocol = some protocol then binding.port else none

theorem portsOf_tcp_flatten (parts : List (List Int × List Int)) :
    portsOf .tcp (flatten parts) = sortedPorts (parts.flatMap Prod.fst) := by
  simp [portsOf, flatten, portBinding, List.filterMap_append, List.filterMap_map, Function.comp_def]

theorem portsOf_udp_flatten (parts : List (List Int × List Int)) :
    portsOf .udp (flatten parts) = sortedPorts (parts.flatMap Prod.snd) := by
  simp [portsOf, flatten, portBinding, List.filterMap_append, List.filterMap_map, Function.comp_def]

theorem flat_eq_iff {others flatOthers : List PortBinding}
    (h : flatPortBindings bindings = .ok flat)
    (hothers : flatPortBindings others = .ok flatOthers) :
    flat = flatOthers ↔ (∀ port, Binds bindings .tcp port ↔ Binds others .tcp port) ∧
        ∀ port, Binds bindings .udp port ↔ Binds others .udp port := by
  obtain ⟨parts, hparts, rfl⟩ := flatPortBindings_eq_ok.mp h
  obtain ⟨partsOthers, hpartsOthers, rfl⟩ := flatPortBindings_eq_ok.mp hothers
  simp only [← (mem_parts_iff hparts _).1, ← (mem_parts_iff hpartsOthers _).1,
    ← (mem_parts_iff hparts _).2, ← (mem_parts_iff hpartsOthers _).2]
  rw [← sortedPorts_eq_iff, ← sortedPorts_eq_iff]
  constructor
  · intro heq
    rw [← portsOf_tcp_flatten, ← portsOf_udp_flatten, heq, portsOf_tcp_flatten, portsOf_udp_flatten]
    exact ⟨rfl, rfl⟩
  · rintro ⟨htcp, hudp⟩
    rw [flatten, flatten, htcp, hudp]

def Bindable (binding : PortBinding) : Prop :=
  binding.protocol = some .tcp ∨ binding.protocol = some .udp

theorem flat_valid (h : flatPortBindings bindings = .ok flat) :
    ∀ binding ∈ bindings, Bindable binding ∧ ∃ ports, bindingPorts binding = .ok ports := by
  obtain ⟨parts, hparts, -⟩ := flatPortBindings_eq_ok.mp h
  clear h
  induction hparts with
  | nil =>
    intro binding hbinding
    cases hbinding
  | cons hpart hrest ih =>
    rw [List.forall_mem_cons]
    refine ⟨?_, ih⟩
    obtain ⟨ports, hports, hcase⟩ := flatPortBinding_eq_ok.mp hpart
    exact ⟨hcase.imp And.left And.left, ports, hports⟩

theorem flat_of_valid
    (h : ∀ binding ∈ bindings, Bindable binding ∧ ∃ ports, bindingPorts binding = .ok ports) :
    ∃ flat, flatPortBindings bindings = .ok flat := by
  have hparts : ∃ parts, List.Forall₂ (fun binding part =>
      flatPortBinding binding = .ok part) bindings parts := by
    induction bindings with
    | nil => exact ⟨[], .nil⟩
    | cons binding rest ih =>
      rw [List.forall_mem_cons] at h
      obtain ⟨⟨hprotocol, ports, hports⟩, hrest⟩ := h
      obtain ⟨parts, hparts⟩ := ih hrest
      rcases hprotocol with htcp | hudp
      · exact ⟨(ports, []) :: parts, .cons
          (flatPortBinding_eq_ok.mpr ⟨ports, hports, .inl ⟨htcp, rfl⟩⟩)
          hparts⟩
      · exact ⟨([], ports) :: parts, .cons
          (flatPortBinding_eq_ok.mpr ⟨ports, hports, .inr ⟨hudp, rfl⟩⟩)
          hparts⟩
  obtain ⟨parts, hparts⟩ := hparts
  exact ⟨flatten parts, flatPortBindings_eq_ok.mpr ⟨parts, hparts, rfl⟩⟩

def PortBinding.WellFormed (binding : PortBinding) : Prop :=
  Bindable binding ∧ (binding.port.getD 0 ≠ 0 ∧ isPort (binding.port.getD 0) = true ∨
    binding.port.getD 0 = 0 ∧ ∃ first last : Nat,
      IsRange (binding.portRange.getD []) first last ∧ isPort first = true ∧
        isPort last = true ∧ first ≤ last)

def PortBinding.Denotes (binding : PortBinding) (port : Int) : Prop :=
  binding.port.getD 0 ≠ 0 ∧ port = binding.port.getD 0 ∨
    binding.port.getD 0 = 0 ∧ ∃ first last : Nat,
      IsRange (binding.portRange.getD []) first last ∧ first ≤ port ∧ port ≤ last

/-- The ports of a protocol that the bindings denote, each once and in order. -/
def ListsPorts (bindings : List PortBinding) (protocol : TransportProtocol) (ports : List Int) :
    Prop :=
  ports.Pairwise (· < ·) ∧
    ∀ port, port ∈ ports ↔ ∃ binding ∈ bindings, binding.protocol = some protocol ∧
      binding.Denotes port

theorem IsRange.unique {first last first' last' : Nat} (h : IsRange text first last)
    (h' : IsRange text first' last') : first = first' ∧ last = last' := by
  obtain ⟨small, big, htext, hfirst, hlast⟩ := h
  obtain ⟨small', big', htext', hfirst', hlast'⟩ := h'
  have hsplit := splitPortRange_eq_some.mpr ⟨htext, (parseNat_eq_some hfirst).1,
    (parseNat_eq_some hlast).1, (parseNat_eq_some hfirst).2, (parseNat_eq_some hlast).2⟩
  rw [splitPortRange_eq_some.mpr ⟨htext', (parseNat_eq_some hfirst').1,
    (parseNat_eq_some hlast').1, (parseNat_eq_some hfirst').2,
    (parseNat_eq_some hlast').2⟩] at hsplit
  cases hsplit
  exact ⟨Option.some.inj (hfirst.symm.trans hfirst'), Option.some.inj (hlast.symm.trans hlast')⟩

theorem wellFormed_iff : binding.WellFormed ↔
    Bindable binding ∧ ∃ ports, bindingPorts binding = .ok ports := by
  simp only [PortBinding.WellFormed, bindingPorts_eq_ok]
  refine and_congr_right fun _ => ?_
  constructor
  · rintro (⟨hne, hport⟩ | ⟨hzero, first, last, hrange, hfirst, hlast, hle⟩)
    · exact ⟨_, .inl ⟨hne, hport, rfl⟩⟩
    · exact ⟨_, .inr ⟨hzero, first, last, hrange, hfirst, hlast, hle, rfl⟩⟩
  · rintro ⟨ports, ⟨hne, hport, -⟩ | ⟨hzero, first, last, hrange, hfirst, hlast, hle, -⟩⟩
    · exact .inl ⟨hne, hport⟩
    · exact .inr ⟨hzero, first, last, hrange, hfirst, hlast, hle⟩

theorem mem_bindingPorts (h : bindingPorts binding = .ok ports) :
    port ∈ ports ↔ binding.Denotes port := by
  unfold PortBinding.Denotes
  rcases bindingPorts_eq_ok.mp h with
    ⟨hne, -, rfl⟩ | ⟨hzero, first, last, hrange, -, -, hle, rfl⟩
  · simp [hne]
  · rw [mem_portsBetween (by omega)]
    simp only [hzero, ne_eq, not_true_eq_false, false_and, true_and, false_or]
    constructor
    · rintro ⟨hlow, hhigh⟩
      exact ⟨first, last, hrange, hlow, hhigh⟩
    · rintro ⟨first', last', hrange', hlow, hhigh⟩
      obtain ⟨rfl, rfl⟩ := hrange.unique hrange'
      exact ⟨hlow, hhigh⟩

theorem binds_iff (hvalid : ∀ binding ∈ bindings, binding.WellFormed) (hne : protocol ≠ .unknown) :
    Binds bindings protocol port ↔ ∃ binding ∈ bindings, binding.protocol = some protocol ∧
      binding.Denotes port := by
  unfold Binds
  refine exists_congr fun binding => and_congr_right fun hmem => ?_
  obtain ⟨-, ports, hports⟩ := wellFormed_iff.mp (hvalid binding hmem)
  have hprotocol : binding.protocol.getD .unknown = protocol ↔
      binding.protocol = some protocol := by
    cases binding.protocol with
    | none => simp [hne.symm]
    | some other => simp
  rw [hprotocol, ← mem_bindingPorts hports, hports]
  simp

theorem isPort_of_mem (h : bindingPorts binding = .ok ports) (hmem : port ∈ ports) :
    isPort port = true := by
  rcases bindingPorts_eq_ok.mp h with
    ⟨-, hport, rfl⟩ | ⟨-, first, last, -, hfirst, hlast, hle, rfl⟩
  · rwa [List.mem_singleton.mp hmem]
  · rw [mem_portsBetween (by omega)] at hmem
    rw [isPort_iff] at hfirst hlast ⊢
    omega

theorem bindingPorts_port (h : isPort port = true) (protocol : TransportProtocol) :
    bindingPorts (portBinding protocol port) = .ok [port] := by
  have hpos := (isPort_iff.mp h).1
  refine bindingPorts_eq_ok.mpr (.inl ⟨?_, h, rfl⟩)
  change port ≠ 0
  omega

theorem binds_map {named : TransportProtocol} (h : ∀ port ∈ ports, isPort port = true) :
    Binds (ports.map (portBinding named)) protocol port ↔ named = protocol ∧ port ∈ ports := by
  constructor
  · rintro ⟨binding, hbinding, hprotocol, others, hothers, hport⟩
    obtain ⟨only, honly, rfl⟩ := List.mem_map.mp hbinding
    rw [bindingPorts_port (h only honly)] at hothers
    cases hothers
    rw [List.mem_singleton.mp hport]
    exact ⟨hprotocol, honly⟩
  · rintro ⟨rfl, hport⟩
    exact ⟨_, List.mem_map_of_mem hport, rfl, _, bindingPorts_port (h port hport) _, by simp⟩

theorem flat_flat (h : flatPortBindings bindings = .ok flat) :
    flatPortBindings flat = .ok flat := by
  obtain ⟨parts, hparts, rfl⟩ := flatPortBindings_eq_ok.mp h
  have hports : (∀ port ∈ sortedPorts (parts.flatMap Prod.fst), isPort port = true) ∧
      ∀ port ∈ sortedPorts (parts.flatMap Prod.snd), isPort port = true := by
    constructor
    · intro port hport
      rw [mem_sortedPorts, (mem_parts_iff hparts port).1] at hport
      obtain ⟨binding, -, -, ports, hbound, hmem⟩ := hport
      exact isPort_of_mem hbound hmem
    · intro port hport
      rw [mem_sortedPorts, (mem_parts_iff hparts port).2] at hport
      obtain ⟨binding, -, -, ports, hbound, hmem⟩ := hport
      exact isPort_of_mem hbound hmem
  obtain ⟨again, hagain⟩ : ∃ again, flatPortBindings (flatten parts) = .ok again := by
    refine flat_of_valid fun binding hbinding => ?_
    rcases List.mem_append.mp hbinding with hmem | hmem
    · obtain ⟨port, hport, rfl⟩ := List.mem_map.mp hmem
      exact ⟨.inl rfl, _, bindingPorts_port (hports.1 port hport) _⟩
    · obtain ⟨port, hport, rfl⟩ := List.mem_map.mp hmem
      exact ⟨.inr rfl, _, bindingPorts_port (hports.2 port hport) _⟩
  rw [hagain, (flat_eq_iff hagain h).mpr]
  simp [flatten, binds_append, binds_map hports.1, binds_map hports.2, mem_sortedPorts,
    mem_parts_iff hparts]

/-- `FlatPortBindings` fails exactly if a binding is not well formed.  What it
returns lists the ports of the bindings, depends only on which bindings there
are, and is not changed by flattening it again. -/
theorem flat_port_bindings (bindings : List PortBinding) :
    ((∃ err, flatPortBindings bindings = .error err) ↔
      ∃ binding ∈ bindings, ¬ binding.WellFormed) ∧ ∀ flat, flatPortBindings bindings = .ok flat →
      (∃ tcp udp, flat = tcp.map (portBinding .tcp) ++ udp.map (portBinding .udp) ∧
        ListsPorts bindings .tcp tcp ∧ ListsPorts bindings .udp udp) ∧
      (∀ others, (∀ binding, binding ∈ others ↔ binding ∈ bindings) →
        flatPortBindings others = .ok flat) ∧ flatPortBindings flat = .ok flat := by
  have hok : (∃ flat, flatPortBindings bindings = .ok flat) ↔
      ∀ binding ∈ bindings, binding.WellFormed := by
    simp only [wellFormed_iff]
    exact ⟨fun ⟨_, h⟩ => flat_valid h, flat_of_valid⟩
  constructor
  · cases hflat : flatPortBindings bindings with
    | error err =>
      have hnot : ¬ ∀ binding ∈ bindings, binding.WellFormed := by
        rw [← hok, hflat]
        simp
      simpa using hnot
    | ok flat =>
      have hall := hok.mp ⟨flat, hflat⟩
      simpa using hall
  · intro flat h
    have hvalid := hok.mp ⟨flat, h⟩
    refine ⟨?_, ?_, flat_flat h⟩
    · obtain ⟨parts, hparts, rfl⟩ := flatPortBindings_eq_ok.mp h
      refine ⟨_, _, rfl, ⟨pairwise_sortedPorts _, fun port => ?_⟩,
        pairwise_sortedPorts _, fun port => ?_⟩
      · rw [mem_sortedPorts, (mem_parts_iff hparts port).1, binds_iff hvalid (by decide)]
      · rw [mem_sortedPorts, (mem_parts_iff hparts port).2, binds_iff hvalid (by decide)]
    · intro others hsame
      obtain ⟨again, hagain⟩ := flat_of_valid fun binding hmem =>
        flat_valid h binding ((hsame binding).mp hmem)
      rw [hagain, (flat_eq_iff hagain h).mpr]
      simp only [Binds, hsame, implies_true, and_self]

end Mieru.Appctlpb
