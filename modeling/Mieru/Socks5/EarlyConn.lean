import Mathlib.Logic.Function.Basic
import Mieru.Foundation.TransitionSystem
import Mieru.Socks5.Codec

/-!
# The handshake of an early connection

`EarlyConn` sends the request together with the payload of the first `Write`,
inside a `sync.Once`.  `Close` uses the same `sync.Once`, so a `Close` that
comes first lets later writes through although no request was sent.
-/

namespace Mieru.Socks5

open Mieru.Foundation

inductive EarlyCall where
  | write (payload : Bytes)
  | read
  | close
  deriving DecidableEq

inductive EarlyStage where
  | called
  | handshaking
  | answering
  | past
  | returned (ok : Bool)
  deriving DecidableEq

inductive Once where
  | ready
  | running (call : Nat)
  | done
  deriving DecidableEq

structure EarlyConn where
  calls : Nat → Option (EarlyCall × EarlyStage) := fun _ => none
  handshakeOnce : Once := .ready
  handshakeErr : Bool := false
  written : Bytes := []

/-- `writes` is the return of the `Write` of the underlying connection, after
`n` bytes; `answers` that of `ReadFromSocks5`. -/
inductive EarlyEvent where
  | calls (i : Nat) (call : EarlyCall)
  | enters (i : Nat)
  | writes (i n : Nat) (ok : Bool)
  | answers (i : Nat) (resp : Option Response)
  | returns (i : Nat)

namespace EarlyConn

def setCall (c : EarlyConn) (i : Nat) (call : EarlyCall) (stage : EarlyStage) : EarlyConn :=
  { c with calls := Function.update c.calls i (some (call, stage)) }

/-- `handshakeOnce.Do`, and for `Read` the wait for its end. -/
def enter (c : EarlyConn) (i : Nat) (call : EarlyCall) : Option EarlyConn :=
  match call, c.handshakeOnce with
  | .write _, .ready => some ({ c with handshakeOnce := .running i }.setCall i call .handshaking)
  | .close, .ready => some ({ c with handshakeOnce := .done }.setCall i call .past)
  | .close, .done => some (c.setCall i call .past)
  | _, .done => some (c.setCall i call (if c.handshakeErr then .returned false else .past))
  | _, _ => none

/-- A `Write` of the underlying connection that does not fail is complete. -/
def connWrite (c : EarlyConn) (data : Bytes) (n : Nat) (ok : Bool) : Option EarlyConn :=
  if n ≤ data.length ∧ (ok → n = data.length) then
    some { c with written := c.written ++ data.take n }
  else none

def endHandshake (c : EarlyConn) (i : Nat) (call : EarlyCall) (ok : Bool) : EarlyConn :=
  { c with handshakeOnce := .done, handshakeErr := !ok }.setCall i call (.returned ok)

def next (request : Request) (c : EarlyConn) : EarlyEvent → Option EarlyConn
  | .calls i call => if c.calls i = none then some (c.setCall i call .called) else none
  | .enters i =>
    match c.calls i with
    | some (call, .called) => c.enter i call
    | _ => none
  | .writes i n ok =>
    match c.calls i with
    | some (.write b, .handshaking) =>
      match request.writeToSocks5 with
      | none => some (c.endHandshake i (.write b) false)
      | some (_, buf) => (c.connWrite (buf ++ b) n ok).map fun c =>
          if ok then c.setCall i (.write b) .answering else c.endHandshake i (.write b) false
    | some (.write b, .past) => (c.connWrite b n ok).map (setCall · i (.write b) (.returned ok))
    | _ => none
  | .answers i resp =>
    match c.calls i with
    | some (call, .answering) => some (c.endHandshake i call (resp.any fun resp => resp.reply = 0))
    | _ => none
  | .returns i =>
    match c.calls i with
    | some (.read, .past) => some (c.setCall i .read (.returned true))
    | some (.close, .past) => some (c.setCall i .close (.returned true))
    | _ => none

def system (request : Request) : System EarlyConn EarlyEvent :=
  System.ofNext (fun c => c = {}) (next request)

def payloadOf (c : EarlyConn) (i : Nat) : Bytes :=
  match c.calls i with
  | some (.write b, _) => b
  | _ => []

def Live (c : EarlyConn) (i : Nat) : Prop :=
  ∃ b stage, c.calls i = some (.write b, stage) ∧ stage ≠ .returned false

/-- The request and then whole payloads of different calls. -/
def RequestFirst (request : Request) (c : EarlyConn) (P : Nat → Prop) : Prop :=
  ∃ (sent : Request) (encoded : Bytes) (ids : List Nat),
    request.writeToSocks5 = some (sent, encoded) ∧
      c.written = encoded ++ ids.flatMap c.payloadOf ∧ ids.Nodup ∧ ∀ i ∈ ids, P i

/-- No `Close` comes before the first `Write`, the underlying connection
writes everything or nothing, and the server accepts a request that was sent
with a payload. -/
def Orderly (c : EarlyConn) : EarlyEvent → Prop
  | .enters i => c.handshakeOnce = .ready → c.calls i ≠ some (.close, .called)
  | .writes _ n ok => ok = false → n = 0
  | .answers i resp =>
    (resp.any fun resp => resp.reply = 0) = true ∨ c.calls i = some (.write [], .answering)
  | _ => True

variable {request : Request} {c base after : EarlyConn} {i : Nat} {b : Bytes} {call : EarlyCall}
  {stage : EarlyStage}

def Delivered (c : EarlyConn) (i : Nat) : Prop :=
  ∃ b stage, c.calls i = some (.write b, stage) ∧ b ≠ [] ∧
    (stage = .answering ∨ stage = .returned true)

theorem Delivered.live (h : c.Delivered i) : c.Live i := by
  obtain ⟨b, stage, hcall, -, hstage⟩ := h
  refine ⟨b, stage, hcall, ?_⟩
  obtain rfl | rfl := hstage <;> simp

@[simp] theorem calls_setCall (j : Nat) :
    (c.setCall i call stage).calls j = if j = i then some (call, stage) else c.calls j :=
  Function.update_apply c.calls i _ j

theorem payloadOf_eq (h : c.calls i = some (.write b, stage)) : c.payloadOf i = b := by
  rw [payloadOf, h]

theorem RequestFirst.mono (h : RequestFirst request c c.Delivered)
    (hwritten : after.written = c.written)
    (hcalls : ∀ j, c.Delivered j → after.Delivered j ∧ after.payloadOf j = c.payloadOf j) :
    RequestFirst request after after.Delivered := by
  obtain ⟨sent, encoded, ids, hencoded, hids, hnodup, hall⟩ := h
  have hpayload : ids.flatMap after.payloadOf = ids.flatMap c.payloadOf :=
    List.flatMap_congr fun j hj => (hcalls j (hall j hj)).2
  refine ⟨sent, encoded, ids, hencoded, by rw [hwritten, hids, hpayload], hnodup, ?_⟩
  exact fun j hj => (hcalls j (hall j hj)).1

theorem delivered_setCall (hi : ¬ c.Delivered i) (hbase : base.calls = c.calls) (j : Nat)
    (hj : c.Delivered j) : (base.setCall i call stage).Delivered j ∧
      (base.setCall i call stage).payloadOf j = c.payloadOf j := by
  have hne : j ≠ i := by
    rintro rfl
    exact hi hj
  have hsame : (base.setCall i call stage).calls j = c.calls j := by
    simp [hne, hbase]
  obtain ⟨b, other, hcall, hrest⟩ := hj
  refine ⟨⟨b, other, hsame.trans hcall, hrest⟩, ?_⟩
  rw [payloadOf, hsame, payloadOf]

theorem RequestFirst.setCall (h : RequestFirst request c c.Delivered) (hi : ¬ c.Delivered i)
    (hbase : base.calls = c.calls) (hwritten : base.written = c.written) :
    RequestFirst request (base.setCall i call stage) (base.setCall i call stage).Delivered :=
  h.mono hwritten (delivered_setCall hi hbase)

theorem RequestFirst.deliver (base : EarlyConn) (h : RequestFirst request c c.Delivered)
    (hi : ¬ c.Delivered i) (hbase : base.calls = c.calls)
    (hwritten : base.written = c.written ++ b)
    (hstage : stage = .answering ∨ stage = .returned true) :
    RequestFirst request (base.setCall i (.write b) stage)
      (base.setCall i (.write b) stage).Delivered := by
  by_cases hb : b = []
  · exact h.setCall hi hbase (by simp [hwritten, hb])
  obtain ⟨sent, encoded, ids, hencoded, hids, hnodup, hall⟩ := h
  have hkept : ∀ j, c.Delivered j → (base.setCall i (.write b) stage).Delivered j ∧
      (base.setCall i (.write b) stage).payloadOf j = c.payloadOf j := delivered_setCall hi hbase
  have hcall : (base.setCall i (.write b) stage).calls i = some (.write b, stage) := by simp
  have hpayload : ids.flatMap (base.setCall i (.write b) stage).payloadOf =
      ids.flatMap c.payloadOf :=
    List.flatMap_congr fun j hj => (hkept j (hall j hj)).2
  refine ⟨sent, encoded, ids ++ [i], hencoded, ?_, ?_, ?_⟩
  · have hafter : (base.setCall i (.write b) stage).written = c.written ++ b := hwritten
    simp [hafter, hids, hpayload, payloadOf_eq hcall]
  · refine List.nodup_append.mpr ⟨hnodup, by simp, ?_⟩
    rintro j hj _ hlast rfl
    rw [List.mem_singleton.mp hlast] at hj
    exact hi (hall i hj)
  · intro j hj
    obtain hj | hj := List.mem_append.mp hj
    · exact (hkept j (hall j hj)).1
    · rw [List.mem_singleton.mp hj]
      exact ⟨b, stage, hcall, hb, hstage⟩

def AtStage (request : Request) (c : EarlyConn) (i : Nat) (call : EarlyCall) : EarlyStage → Prop
  | .handshaking => c.handshakeOnce = .running i ∧ c.written = []
  | .answering => c.handshakeOnce = .running i ∧ RequestFirst request c c.Delivered
  | .past => ∀ b, call = .write b → c.handshakeOnce = .done ∧ c.handshakeErr = false
  | _ => True

structure Inv (request : Request) (c : EarlyConn) : Prop where
  ready : c.handshakeOnce = .ready → c.written = []
  stages : ∀ i call stage, c.calls i = some (call, stage) → AtStage request c i call stage
  done : c.handshakeOnce = .done → c.handshakeErr = false → RequestFirst request c c.Delivered
  written : c.written = [] ∨ RequestFirst request c c.Delivered

theorem not_delivered (hcall : c.calls i = some (call, stage))
    (hstage : stage ≠ .answering ∧ stage ≠ .returned true) : ¬ c.Delivered i := by
  rintro ⟨b, other, hother, -, hdelivered⟩
  cases hcall.symm.trans hother
  obtain h | h := hdelivered
  · exact hstage.1 h
  · exact hstage.2 h

theorem Inv.stages_setCall (h : Inv request c) (hbase : base.calls = c.calls)
    (hself : AtStage request (base.setCall i call stage) i call stage)
    (hothers : ∀ j other at_, j ≠ i → AtStage request c j other at_ →
      AtStage request (base.setCall i call stage) j other at_)
    (j : Nat) (other : EarlyCall) (at_ : EarlyStage)
    (hcall : (base.setCall i call stage).calls j = some (other, at_)) :
    AtStage request (base.setCall i call stage) j other at_ := by
  rw [calls_setCall, hbase] at hcall
  split at hcall
  · subst j
    cases hcall
    exact hself
  · exact hothers j other at_ ‹_› (h.stages j other at_ hcall)

theorem AtStage.waiting {other : EarlyCall} {j : Nat} (h : AtStage request c j other stage)
    (hrun : c.handshakeOnce = .ready ∨ c.handshakeOnce = .running i) (hj : j ≠ i) :
    AtStage request after j other stage := by
  cases stage with
  | handshaking => simp_all [AtStage]
  | answering => simp_all [AtStage]
  | past =>
    intro b hb
    have hdone := (h b hb).1
    simp_all
  | _ => trivial

theorem Inv.setCall (h : Inv request c) (hi : ¬ c.Delivered i)
    (hself : AtStage request (c.setCall i call stage) i call stage) :
    Inv request (c.setCall i call stage) := by
  have hfirst : RequestFirst request c c.Delivered →
      RequestFirst request (c.setCall i call stage) (c.setCall i call stage).Delivered :=
    fun hfirst => hfirst.setCall hi rfl rfl
  refine ⟨h.ready, h.stages_setCall rfl hself ?_, fun hdone herr => hfirst (h.done hdone herr),
    h.written.imp_right hfirst⟩
  intro j other at_ _ hat
  cases at_ with
  | answering => exact hat.imp_right hfirst
  | _ => exact hat

theorem Inv.handshake (h : Inv request c)
    (hrun : c.handshakeOnce = .ready ∨ c.handshakeOnce = .running i)
    (hbase : base.calls = c.calls) (hready : base.handshakeOnce ≠ .ready)
    (hself : AtStage request (base.setCall i call stage) i call stage)
    (hdone : base.handshakeOnce = .done → base.handshakeErr = false →
      RequestFirst request (base.setCall i call stage) (base.setCall i call stage).Delivered)
    (hwritten : base.written = [] ∨
      RequestFirst request (base.setCall i call stage) (base.setCall i call stage).Delivered) :
    Inv request (base.setCall i call stage) :=
  ⟨fun h => absurd h hready, h.stages_setCall hbase hself fun _ _ _ hj hat => hat.waiting hrun hj,
    hdone, hwritten⟩

theorem Inv.enter (h : Inv request c) (hcall : c.calls i = some (call, .called))
    (hguard : c.Orderly (.enters i)) (hnext : c.enter i call = some after) : Inv request after := by
  have hi : ¬ c.Delivered i := not_delivered hcall (by simp)
  unfold EarlyConn.enter at hnext
  split at hnext
  · rename_i hready
    cases hnext
    have hempty := h.ready hready
    exact h.handshake (.inl hready) rfl (by simp) ⟨rfl, hempty⟩ (by simp) (.inl hempty)
  · rename_i hready
    exact absurd hcall (hguard hready)
  · cases hnext
    exact h.setCall hi (by simp [AtStage])
  · rename_i hdone
    cases hnext
    refine h.setCall hi ?_
    split
    · trivial
    · rename_i herr
      intro b _
      exact ⟨hdone, Bool.eq_false_iff.mpr herr⟩
  · cases hnext

theorem connWrite_eq_some {data : Bytes} {n : Nat} {ok : Bool}
    (h : c.connWrite data n ok = some after) (hguard : ok = false → n = 0) :
    (ok = true ∧ after = { c with written := c.written ++ data }) ∨ (ok = false ∧ after = c) := by
  obtain ⟨hn, h⟩ := Option.ite_none_right_eq_some.mp h
  cases h
  cases ok with
  | true => simp [hn.2 rfl]
  | false => simp [hguard rfl]

theorem Inv.sends (h : Inv request c) (hcall : c.calls i = some (.write b, .handshaking))
    {sent : Request} {buf : Bytes} (hencoded : request.writeToSocks5 = some (sent, buf)) :
    Inv request
      ({ c with written := c.written ++ (buf ++ b) }.setCall i (.write b) .answering) := by
  obtain ⟨hrun, hempty⟩ := h.stages i _ _ hcall
  have hi : ¬ c.Delivered i := not_delivered hcall (by simp)
  have hsent : RequestFirst request { c with written := buf } c.Delivered :=
    ⟨sent, buf, [], hencoded, by simp, .nil, by simp⟩
  have hwritten : c.written ++ (buf ++ b) = buf ++ b := by simp [hempty]
  have hfirst :=
    hsent.deliver { c with written := c.written ++ (buf ++ b) } hi rfl hwritten (.inl rfl)
  exact h.handshake (.inr hrun) rfl (by simp [hrun]) ⟨hrun, hfirst⟩ (fun _ _ => hfirst)
    (.inr hfirst)

theorem Inv.writesPast (h : Inv request c) (hcall : c.calls i = some (.write b, .past)) :
    Inv request ({ c with written := c.written ++ b }.setCall i (.write b) (.returned true)) := by
  obtain ⟨hdone, herr⟩ := h.stages i _ _ hcall b rfl
  have hi : ¬ c.Delivered i := not_delivered hcall (by simp)
  have hfirst := (h.done hdone herr).deliver { c with written := c.written ++ b } hi rfl rfl
    (.inr rfl)
  refine ⟨by simp [EarlyConn.setCall, hdone], h.stages_setCall rfl trivial ?_,
    fun _ _ => hfirst, .inr hfirst⟩
  intro j other at_ _ hat
  cases at_ with
  | handshaking => simp [AtStage, hdone] at hat
  | answering => simp [AtStage, hdone] at hat
  | _ => exact hat

theorem Inv.writes (h : Inv request c) {n : Nat} {ok : Bool}
    (hguard : c.Orderly (.writes i n ok)) (hnext : c.next request (.writes i n ok) = some after) :
    Inv request after := by
  simp only [EarlyConn.next] at hnext
  split at hnext
  · rename_i b hcall
    obtain ⟨hrun, hempty⟩ := h.stages i _ _ hcall
    split at hnext
    · cases hnext
      exact h.handshake (.inr hrun) rfl (by simp) trivial (by simp) (.inl hempty)
    · rename_i sent buf hencoded
      obtain ⟨middle, hwrite, rfl⟩ := Option.map_eq_some_iff.mp hnext
      obtain ⟨rfl, rfl⟩ | ⟨rfl, rfl⟩ := connWrite_eq_some hwrite hguard
      · exact h.sends hcall hencoded
      · exact h.handshake (.inr hrun) rfl (by simp) trivial (by simp) (.inl hempty)
  · rename_i b hcall
    obtain ⟨middle, hwrite, rfl⟩ := Option.map_eq_some_iff.mp hnext
    obtain ⟨rfl, rfl⟩ | ⟨rfl, rfl⟩ := connWrite_eq_some hwrite hguard
    · exact h.writesPast hcall
    · exact h.setCall (not_delivered hcall (by simp)) trivial
  · cases hnext

theorem delivered_answered (hcall : c.calls i = some (call, stage)) (hbase : base.calls = c.calls)
    (j : Nat) (hj : c.Delivered j) : (base.setCall i call (.returned true)).Delivered j ∧
      (base.setCall i call (.returned true)).payloadOf j = c.payloadOf j := by
  obtain ⟨b, other, hother, hb, hstage⟩ := hj
  by_cases hi : j = i
  · subst hi
    cases hcall.symm.trans hother
    have hafter : (base.setCall j (.write b) (.returned true)).calls j =
        some (.write b, .returned true) := by simp
    exact ⟨⟨b, _, hafter, hb, .inr rfl⟩, by rw [payloadOf_eq hafter, payloadOf_eq hcall]⟩
  · have hafter : (base.setCall i call (.returned true)).calls j = some (.write b, other) := by
      simp [hi, hbase, hother]
    exact ⟨⟨b, other, hafter, hb, hstage⟩, by rw [payloadOf_eq hafter, payloadOf_eq hother]⟩

theorem Inv.answers (h : Inv request c) {resp : Option Response}
    (hguard : c.Orderly (.answers i resp)) (hnext : c.next request (.answers i resp) = some after) :
    Inv request after := by
  simp only [EarlyConn.next] at hnext
  split at hnext
  · rename_i call hcall
    obtain ⟨hrun, hfirst⟩ := h.stages i _ _ hcall
    cases hnext
    have hafter : RequestFirst request
        (c.endHandshake i call (resp.any fun resp => resp.reply = 0))
        (c.endHandshake i call (resp.any fun resp => resp.reply = 0)).Delivered := by
      obtain hok | hempty := hguard
      · rw [hok]
        exact hfirst.mono rfl (delivered_answered hcall rfl)
      · refine hfirst.setCall ?_ rfl rfl
        rintro ⟨b, stage, hother, hb, -⟩
        cases hempty.symm.trans hother
        exact hb rfl
    exact h.handshake (.inr hrun) rfl (by simp) trivial (fun _ _ => hafter) (.inr hafter)
  · cases hnext

theorem Inv.next {event : EarlyEvent} (h : Inv request c) (hguard : c.Orderly event)
    (hnext : c.next request event = some after) : Inv request after := by
  cases event with
  | calls i call =>
    obtain ⟨hfree, hnext⟩ := Option.ite_none_right_eq_some.mp hnext
    cases hnext
    refine h.setCall ?_ trivial
    rintro ⟨b, stage, hcall, -⟩
    simp [hfree] at hcall
  | enters i =>
    simp only [EarlyConn.next] at hnext
    split at hnext
    · exact h.enter ‹_› hguard hnext
    · cases hnext
  | writes i n ok => exact h.writes hguard hnext
  | answers i resp => exact h.answers hguard hnext
  | returns i =>
    simp only [EarlyConn.next] at hnext
    split at hnext
    · cases hnext
      exact h.setCall (not_delivered ‹_› (by simp)) trivial
    · cases hnext
      exact h.setCall (not_delivered ‹_› (by simp)) trivial
    · cases hnext

theorem request_first (h : (system request).ReachableBy Orderly c) :
    c.written = [] ∨ RequestFirst request c c.Live := by
  have hinv : Inv request c := by
    refine h.invariant ?_ ?_
    · rintro _ rfl
      exact ⟨fun _ => rfl, by simp, by simp, .inl rfl⟩
    · intro state event after hinv hguard hnext
      exact hinv.next hguard hnext
  refine hinv.written.imp_right ?_
  rintro ⟨sent, encoded, ids, hencoded, hwritten, hnodup, hall⟩
  exact ⟨sent, encoded, ids, hencoded, hwritten, hnodup, fun i hi => (hall i hi).live⟩

instance (event : EarlyEvent) : Decidable (c.Orderly event) :=
  match event with
  | .enters i =>
    inferInstanceAs (Decidable (c.handshakeOnce = .ready → c.calls i ≠ some (.close, .called)))
  | .writes _ n ok => inferInstanceAs (Decidable (ok = false → n = 0))
  | .answers i resp => inferInstanceAs (Decidable
      ((resp.any fun resp => resp.reply = 0) = true ∨ c.calls i = some (.write [], .answering)))
  | .calls _ _ => isTrue trivial
  | .returns _ => isTrue trivial

def webRequest : Request := ⟨1, { ip := [1, 2, 3, 4], port := 80 }, []⟩

theorem request_first_web : ∃ c, c.written = [5, 1, 0, 1, 1, 2, 3, 4, 0, 80, 7, 8] ∧
    RequestFirst webRequest c c.Live := by
  obtain ⟨c, hreach, hwritten⟩ : ∃ c, (system webRequest).ReachableBy Orderly c ∧
      c.written = [5, 1, 0, 1, 1, 2, 3, 4, 0, 80, 7, 8] :=
    System.exists_reachableBy (fun _ _ => of_decide_eq_true) rfl
      [.calls 0 (.write [7]), .calls 1 (.write [8]), .enters 0, .writes 0 11 true,
        .answers 0 (some ⟨0, {}, []⟩), .enters 1, .writes 1 1 true] (by decide +kernel)
  refine ⟨c, hwritten, (request_first hreach).resolve_left ?_⟩
  simp [hwritten]

/-- A `Write` between the two steps of the first `Close`. -/
theorem write_after_close : ∃ c, (system webRequest).Reachable c ∧ c.written = [7] ∧
    ¬ RequestFirst webRequest c c.Live := by
  obtain ⟨c, hreach, hwritten⟩ : ∃ c, (system webRequest).Reachable c ∧ c.written = [7] :=
    System.exists_reachable rfl [.calls 0 .close, .enters 0, .calls 1 (.write [7]), .enters 1,
      .writes 1 1 true] (by decide +kernel)
  refine ⟨c, hreach, hwritten, ?_⟩
  rintro ⟨sent, encoded, ids, hencoded, hfirst, -⟩
  have hlength : webRequest.writeToSocks5.map (fun result => result.2.length) = some 10 := by
    decide +kernel
  simp only [hencoded, Option.map_some, Option.some.injEq] at hlength
  have hshort := congrArg List.length (hwritten.symm.trans hfirst)
  simp at hshort
  omega

end EarlyConn

end Mieru.Socks5
