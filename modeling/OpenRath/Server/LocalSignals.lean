import OpenRath.Library.Linearization
import OpenRath.Server.Signals

/-!
# Signals inside a process

The bus of a single process is a queue (`InMemorySignalBus` of `src/rath/runtime/signals.py`). The
bus on a list of Redis is to behave as this one does, although whoever publishes issues two
commands, between which others come. It does as long as the connection holds and the list is never
longer than what it is cut down to: the calls are linearizable.

## Main definitions

* `InMemorySignalBus`, `InMemorySignalBus.apply`: the queue.
* `BusCall.Room`: the list is not longer than what it is cut down to.
* `BusCall.queue`: the list as a queue.

## Main results

* `BusCall.implements_run`: each call on the list implements the one on the queue.
* `BusCall.linearizable`.
-/

namespace OpenRath

/-! ### The queue -/

/-- The queue of signals, the oldest first. -/
structure InMemorySignalBus where
  signals : List RunSignal

namespace InMemorySignalBus

/-- `publish`. -/
def publish (bus : InMemorySignalBus) (s : RunSignal) : InMemorySignalBus := ⟨bus.signals ++ [s]⟩

/-- `receive`, when there is a signal, or when the time is over. -/
def receive (bus : InMemorySignalBus) (timeoutSeconds : ℚ) :
    Except Exn (Option RunSignal) × InMemorySignalBus :=
  if timeoutSeconds < 0 then
    (.error (.store (.valueError "'timeout' must be a non-negative number")), bus)
  else (.ok bus.signals.head?, ⟨bus.signals.tail⟩)

/-- A call. -/
def apply : BusCall → InMemorySignalBus → Except Exn (Option RunSignal) × InMemorySignalBus
  | .publish s, bus => (.ok none, bus.publish s)
  | .receive timeoutSeconds, bus => bus.receive timeoutSeconds

end InMemorySignalBus

namespace BusCall

/-! ### The list as a queue -/

section Queue

variable (fl : FloatText) (readings : Readings)

/-- The signals whose texts are in the list. -/
def queue (q : BoundedQueue String) : InMemorySignalBus :=
  ⟨q.items.reverse.filterMap fun text => (RunSignal.ofPayload fl readings text).toOption⟩

/-- The list has the texts of signals. -/
def Holds (q : BoundedQueue String) (signals : List RunSignal) : Prop :=
  q.items.reverse = signals.map fun s => s.payload fl

/-- What the others may do to the list. -/
def Others (q q' : BoundedQueue String) : Prop :=
  (∃ signals, Holds fl q signals) → ∃ signals, Holds fl q' signals

/-- The list is not longer than what it is cut down to. -/
def Room : SignalCmd → BoundedQueue String → Prop
  | .ltrim stop, q => q.items.length ≤ stop + 1
  | _, _ => True

instance : (c : SignalCmd) → (q : BoundedQueue String) → Decidable (Room c q)
  | .ltrim stop, q => inferInstanceAs (Decidable (q.items.length ≤ stop + 1))
  | .lpush _, _ | .rpop, _ | .brpop _, _ => isTrue trivial

variable {fl readings} {decimals : Decimals} {q : BoundedQueue String} {signals : List RunSignal}

theorem queue_eq (hdoc : readings.Documented decimals) (h : Holds fl q signals) :
    queue fl readings q = ⟨signals⟩ := by
  have hread : (fun text => (RunSignal.ofPayload fl readings text).toOption) ∘
      (fun s : RunSignal => s.payload fl) = some := by
    funext s
    rw [Function.comp_apply, RunSignal.ofPayload_payload hdoc]
    rfl
  rw [queue, h, List.filterMap_map, hread, List.filterMap_some]

theorem Holds.push (h : Holds fl q signals) (s : RunSignal) :
    Holds fl (q.push (s.payload fl)) (signals ++ [s]) := by
  rw [Holds, BoundedQueue.push, List.reverse_cons, h, List.map_append, List.map_singleton]

theorem Holds.trim (h : Holds fl q signals) {n : ℕ} (hroom : q.items.length ≤ n) :
    Holds fl (q.trim n) signals := by
  rw [Holds, BoundedQueue.trim, List.take_of_length_le hroom]
  exact h

/-- The text that is taken out is that of the oldest signal. -/
theorem Holds.pop (h : Holds fl q signals) :
    q.pop.1 = signals.head?.map (fun s => s.payload fl) ∧ Holds fl q.pop.2 signals.tail := by
  constructor
  · rw [BoundedQueue.pop, ← List.head?_reverse, h, List.head?_map]
  · rw [Holds, BoundedQueue.pop, ← List.tail_reverse, h, List.map_tail]

end Queue

/-! ### The calls implement those of the queue -/

section Implements

variable {fl : FloatText} {readings : Readings} {decimals : Decimals}
  (hdoc : readings.Documented decimals) {q : BoundedQueue String}

include hdoc in
/-- What follows the command of `receive`. -/
theorem settled_returned (signals : List RunSignal) :
    (returned fl readings (signals.head?.map fun s => s.payload fl)).Settled
      (fun c (_ : Unit) q => c.exec .up q) (Others fl) Room (queue fl readings) Eq
      (.ok signals.head? : Except Exn (Option RunSignal)) q := by
  cases signals with
  | nil => rfl
  | cons s signals =>
    rw [List.head?_cons, Option.map_some, returned, RunSignal.ofPayload_payload hdoc]
    rfl

variable (hq : ∃ signals, Holds fl q signals)

include hdoc hq

theorem implements_publish (s : RunSignal) :
    (run fl readings (.publish s)).Implements (fun c (_ : Unit) q => c.exec .up q) (Others fl) Room
      (queue fl readings) InMemorySignalBus.apply Eq (.publish s) q := by
  refine Proc.implements_call_effect fun q₁ hq₁ _ _ => ?_
  obtain ⟨signals, h₁⟩ := hq₁ hq
  have hpush := h₁.push s
  refine ⟨fun _ => ⟨_, hpush⟩, ?_, ?_⟩
  · rw [queue_eq hdoc h₁]
    exact queue_eq hdoc hpush
  · refine Proc.settled_call fun q₂ hq₂ hroom _ => ?_
    obtain ⟨signals₂, h₂⟩ := hq₂ ⟨_, hpush⟩
    have htrim := h₂.trim hroom
    refine ⟨fun _ => ⟨_, htrim⟩, ?_, rfl⟩
    rw [queue_eq hdoc h₂]
    exact queue_eq hdoc htrim

theorem implements_receive {timeoutSeconds : ℚ} (htimeout : 0 ≤ timeoutSeconds) :
    (run fl readings (.receive timeoutSeconds)).Implements (fun c (_ : Unit) q => c.exec .up q)
      (Others fl) Room (queue fl readings) InMemorySignalBus.apply Eq (.receive timeoutSeconds)
      q := by
  have hreceive (signals : List RunSignal) :
      InMemorySignalBus.apply (.receive timeoutSeconds) ⟨signals⟩ =
        (.ok signals.head?, ⟨signals.tail⟩) := by
    rw [InMemorySignalBus.apply, InMemorySignalBus.receive, if_neg (not_lt.mpr htimeout)]
  have heffect (q₁ : BoundedQueue String) (hq₁ : Others fl q q₁) :
      Others fl q₁ q₁.pop.2 ∧
        queue fl readings q₁.pop.2 =
          (InMemorySignalBus.apply (.receive timeoutSeconds) (queue fl readings q₁)).2 ∧
        (returned fl readings q₁.pop.1).Settled (fun c (_ : Unit) q => c.exec .up q) (Others fl)
          Room (queue fl readings) Eq
          (InMemorySignalBus.apply (.receive timeoutSeconds) (queue fl readings q₁)).1
          q₁.pop.2 := by
    obtain ⟨signals, h₁⟩ := hq₁ hq
    obtain ⟨hfirst, hpop⟩ := h₁.pop
    rw [queue_eq hdoc h₁, hreceive, hfirst, queue_eq hdoc hpop]
    exact ⟨fun _ => ⟨_, hpop⟩, rfl, settled_returned hdoc signals⟩
  rw [run, receiving]
  split_ifs
  · exact Proc.implements_call_effect fun q₁ hq₁ _ _ => heffect q₁ hq₁
  · exact Proc.implements_call_effect fun q₁ hq₁ _ _ => heffect q₁ hq₁

/-- **The buses are alike.** Whatever the others do, a call on the list implements the one on the
queue. -/
theorem implements_run {call : BusCall} (hcall : ∀ t, call = .receive t → 0 ≤ t) :
    (run fl readings call).Implements (fun c (_ : Unit) q => c.exec .up q) (Others fl) Room
      (queue fl readings) InMemorySignalBus.apply Eq call q := by
  cases call with
  | publish s => exact implements_publish hdoc hq s
  | receive timeoutSeconds => exact implements_receive hdoc hq (hcall timeoutSeconds rfl)

end Implements

/-! ### Runs -/

/-- The calls on an empty list, their commands in the order of a schedule. -/
def onList (fl : FloatText) (readings : Readings) (calls : List BusCall)
    (schedule : List (ℕ × Unit)) : Calls :=
  Pool.run (fun c (_ : Unit) q => c.exec .up q) ⟨.empty, calls.map (run fl readings)⟩ schedule

/-- Along a schedule, the list is never cut. -/
def RoomAlong (fl : FloatText) (readings : Readings) (calls : List BusCall)
    (schedule : List (ℕ × Unit)) : Prop :=
  Pool.Along (fun c (_ : Unit) q => c.exec .up q) (Pool.Expected Room)
    ⟨.empty, calls.map (run fl readings)⟩ schedule

/-- **Linearizability.** However the commands of the calls follow one another while the connection
holds and the list is not cut, there is an order of the calls in which the queue gives the same
answers and comes to have the same signals. A call that has been answered in a first part of the run
precedes those that have not begun. -/
theorem linearizable {fl : FloatText} {readings : Readings} {decimals : Decimals}
    (hdoc : readings.Documented decimals) (calls : List BusCall)
    (hcalls : ∀ t, .receive t ∈ calls → 0 ≤ t) (past future : List (ℕ × Unit))
    (hroom : RoomAlong fl readings calls (past ++ future)) :
    ∃ order more,
      Pool.Linearization (queue fl readings) InMemorySignalBus.apply Eq calls ⟨[]⟩ order
        (onList fl readings calls past) ∧
      Pool.Linearization (queue fl readings) InMemorySignalBus.apply Eq calls ⟨[]⟩ (order ++ more)
        (onList fl readings calls (past ++ future)) ∧
      ∀ e ∈ order, e.1 ∈ past.map Prod.fst := by
  have hempty : ∃ signals, Holds fl .empty signals := ⟨[], rfl⟩
  have himplements : ∀ (j : ℕ) call p, calls[j]? = some call →
      (calls.map (run fl readings))[j]? = some p →
      p.Implements (fun c (_ : Unit) q => c.exec .up q) (Others fl) Room (queue fl readings)
        InMemorySignalBus.apply Eq call .empty := by
    intro j call p hcall hp
    rw [List.getElem?_map, hcall] at hp
    cases hp
    exact implements_run hdoc hempty fun t ht => hcalls t (ht ▸ List.mem_of_getElem? hcall)
  have hrefl : ∀ q, Others fl q q := fun _ h => h
  have htrans : ∀ a b c, Others fl a b → Others fl b c → Others fl a c :=
    fun _ _ _ h h' hq => h' (h hq)
  exact Pool.exists_linearization hrefl htrans (List.length_map _) himplements hroom

end BusCall

/-! ### A sample -/

namespace Sample

/-- Two signals are published, and both are to be received. -/
def busCalls : List BusCall := [.publish waking, .publish cancelling, .receive 0, .receive 1]

/-- Both publishers push before one of them cuts the list. -/
def busSchedule : List (ℕ × Unit) := [0, 1, 2, 1, 0, 3].map fun j => (j, ())

theorem signals_linearizable : ∃ order more,
    Pool.Linearization (BusCall.queue bits documented) InMemorySignalBus.apply Eq busCalls ⟨[]⟩
      order (BusCall.onList bits documented busCalls (busSchedule.take 3)) ∧
    Pool.Linearization (BusCall.queue bits documented) InMemorySignalBus.apply Eq busCalls ⟨[]⟩
      (order ++ more) (BusCall.onList bits documented busCalls
        (busSchedule.take 3 ++ busSchedule.drop 3)) ∧
    ∀ e ∈ order, e.1 ∈ (busSchedule.take 3).map Prod.fst := by
  have hcalls : ∀ t, .receive t ∈ busCalls → 0 ≤ t := by
    intro t ht
    simp only [busCalls, List.mem_cons, BusCall.receive.injEq, List.not_mem_nil, reduceCtorEq,
      false_or, or_false] at ht
    rcases ht with rfl | rfl
    · exact le_rfl
    · exact zero_le_one
  have hroom : BusCall.RoomAlong bits documented busCalls
      (busSchedule.take 3 ++ busSchedule.drop 3) := by
    unfold BusCall.RoomAlong
    decide +kernel
  exact BusCall.linearizable documented_documented busCalls hcalls (busSchedule.take 3)
    (busSchedule.drop 3) hroom

end Sample

end OpenRath
