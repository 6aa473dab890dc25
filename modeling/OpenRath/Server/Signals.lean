import OpenRath.Library.BoundedQueue
import OpenRath.Library.JsonAscii
import OpenRath.Library.Protocol
import OpenRath.Runtime.ContextColumn
import OpenRath.Server.Operators

/-!
# Signals

Signals travel in a list of Redis (`RedisSignalBus` of `src/rath/runtime/signals.py`), which any
number of processes use at the same time. Whoever publishes issues two commands, between which
others come, and the connection may fail at each command: before it is carried out, or before the
answer arrives.

## Main definitions

* `RunSignal.payload`, `RunSignal.ofPayload`: the texts in the list.
* `SignalCmd`, `BusCall`: commands and calls.
* `BusCall.Delivery`: what holds of the calls at any time.

## Main results

* `RunSignal.ofPayload_payload`.
* `BusCall.delivered`: signals are received in the order in which they were published, none twice
  and none that was not published; only what is older than the last 10000 is lost.
-/

namespace OpenRath

/-! ### Texts of signals -/

/-- The value of a kind. -/
def SignalKind.value : SignalKind → String
  | wake => "wake"
  | cancel => "cancel"

/-- `SignalKind(value)`. -/
def SignalKind.ofValue (value : String) : Except Exn SignalKind :=
  if value = "wake" then .ok wake
  else if value = "cancel" then .ok cancel
  else .error (.store (.valueError s!"'{value}' is not a valid SignalKind"))

@[simp] theorem SignalKind.ofValue_value (kind : SignalKind) : ofValue kind.value = .ok kind := by
  cases kind <;> rfl

/-- The text of a key in what was read. -/
def textAt (data : Json) (key : String) : Except Exn String :=
  match data with
  | .obj fields =>
    match JsonObject.get? fields key with
    | some (.str text) => .ok text
    | some v => .error (.other "TypeError" s!"expected a text, not '{v.typeName}'")
    | none => .error (.store (.keyError key))
  | v => .error (.other "TypeError" s!"'{v.typeName}' object is not subscriptable")

namespace RunSignal

variable (fl : FloatText) (readings : Readings)

/-- The constructor of `RunSignal`. -/
def make (kind : SignalKind) (runId : UUID) (tenantId : String) (createdAt : Datetime) :
    Except Exn RunSignal :=
  if htenant : tenantId ≠ "" then
    if haware : createdAt.Aware then .ok ⟨kind, runId, tenantId, createdAt, htenant, haware⟩
    else .error (.store (.valueError "created_at must be timezone-aware"))
  else .error (.store (.valueError "tenant_id must not be empty"))

/-- The fields of a signal. -/
def fields (s : RunSignal) : JsonObject :=
  [("kind", .str s.kind.value), ("run_id", .str s.runId.str), ("tenant_id", .str s.tenantId),
    ("created_at", .str (String.ofList s.createdAt.isoformat))]

/-- What `publish` puts into the list. -/
def payload (s : RunSignal) : String := String.ofList (dumpsAscii fl [] (.obj s.fields))

/-- What `receive` makes of a text. -/
def ofPayload (text : String) : Except Exn RunSignal :=
  match loads fl text.toList with
  | .error _ => .error (.other "JSONDecodeError" "")
  | .ok data => do
    let kind ← SignalKind.ofValue (← textAt data "kind")
    let runId ← readings.uuid (← textAt data "run_id")
    let tenantId ← textAt data "tenant_id"
    let createdAt ← readings.datetime (← textAt data "created_at")
    make kind runId tenantId createdAt

variable {fl} {readings} in
/-- A signal is received as it was published. -/
theorem ofPayload_payload {decimals : Decimals} (hdoc : readings.Documented decimals)
    (s : RunSignal) : ofPayload fl readings (s.payload fl) = .ok s := by
  have hloadable : (Json.obj s.fields).Loadable fl := by
    simp [fields, Json.Loadable, LoadableFields]
  have hload : loads fl (s.payload fl).toList = .ok (.obj s.fields) := by
    rw [payload, String.toList_ofList]
    exact loads_dumpsAscii fl (by simp) hloadable
  have hkind : textAt (.obj s.fields) "kind" = .ok s.kind.value := rfl
  have hrun : textAt (.obj s.fields) "run_id" = .ok s.runId.str := rfl
  have htenant : textAt (.obj s.fields) "tenant_id" = .ok s.tenantId := rfl
  have hcreated : textAt (.obj s.fields) "created_at" =
      .ok (String.ofList s.createdAt.isoformat) := rfl
  have huuid : readings.uuid s.runId.str = .ok s.runId := hdoc.uuid _ _ (by simp)
  have hdatetime : readings.datetime (String.ofList s.createdAt.isoformat) = .ok s.createdAt := by
    refine hdoc.datetime _ _ ?_
    rw [String.toList_ofList, Datetime.ofIsoformat_isoformat]
  rw [ofPayload, hload]
  simp only [hkind, hrun, htenant, hcreated, huuid, hdatetime, SignalKind.ofValue_value, Bind.bind,
    Except.bind]
  rw [make, dif_pos s.tenantId_ne_empty, dif_pos s.createdAt_aware]

end RunSignal

/-! ### Commands -/

/-- The commands of a bus on its list. -/
inductive SignalCmd
  | lpush (payload : String)
  /-- `ltrim(key, 0, stop)`. -/
  | ltrim (stop : ℕ)
  | rpop
  /-- With the number of seconds after which it comes back with nothing. -/
  | brpop (timeout : ℤ)

/-- What a command answers. -/
def SignalCmd.Answer : SignalCmd → Type
  | lpush _ | ltrim _ => Except Exn Unit
  | rpop | brpop _ => Except Exn (Option String)

/-- What becomes of a command on its way. -/
inductive RedisLink
  | up
  /-- The command is not carried out. -/
  | refused (message : String)
  /-- The command is carried out, and its answer is lost. -/
  | lost (message : String)

/-- The exception of the client library. -/
def connectionError (message : String) : Exn := .other "ConnectionError" message

/-- What arrives of an answer. -/
def RedisLink.answer {α : Type} : RedisLink → α → Except Exn α
  | up, a => .ok a
  | refused message, _ | lost message, _ => .error (connectionError message)

/-- What is left of an effect. -/
def RedisLink.effect {σ : Type} : RedisLink → σ → σ → σ
  | refused _, s, _ => s
  | up, _, s' | lost _, _, s' => s'

theorem RedisLink.map_effect {α β : Type} (i : RedisLink) (f : α → β) (q q' : BoundedQueue α) :
    (i.effect q q').map f = i.effect (q.map f) (q'.map f) := by
  cases i <;> rfl

/-- A command on the list. A blocking one is carried out when there is an item, or when its time is
over. -/
def SignalCmd.exec (c : SignalCmd) (i : RedisLink) (s : BoundedQueue String) :
    c.Answer × BoundedQueue String :=
  match c with
  | lpush payload => (i.answer (), i.effect s (s.push payload))
  | ltrim stop => (i.answer (), i.effect s (s.trim (stop + 1)))
  | rpop | brpop _ => (i.answer s.pop.1, i.effect s s.pop.2)

/-! ### Calls -/

/-- A program that uses the bus. -/
abbrev Signalling : Type → Type := Proc SignalCmd SignalCmd.Answer Exn

/-- A call of a bus. -/
inductive BusCall
  | publish (s : RunSignal)
  | receive (timeoutSeconds : ℚ)

namespace BusCall

section Programs

variable (fl : FloatText) (readings : Readings)

/-- The second command of `publish`. -/
def trim : Signalling Unit := .call (.ltrim 9999) fun r => .ofExcept r

/-- `RedisSignalBus.publish`. -/
def publishing (s : RunSignal) : Signalling Unit :=
  .call (.lpush (s.payload fl)) fun r => Proc.ofExcept r >>= fun _ => trim

/-- What `receive` returns. -/
def returned : Option String → Signalling (Option RunSignal)
  | none => .ret none
  | some text => .ofExcept ((RunSignal.ofPayload fl readings text).map some)

/-- `RedisSignalBus.receive`. -/
def receiving (timeoutSeconds : ℚ) : Signalling (Option RunSignal) :=
  if timeoutSeconds ≤ 0 then .call .rpop fun r => Proc.ofExcept r >>= returned fl readings
  else .call (.brpop (max 1 ⌈timeoutSeconds⌉)) fun r => Proc.ofExcept r >>= returned fl readings

/-- `publish` without its last command. -/
def trimming : Signalling (Option RunSignal) := trim >>= fun _ => .ret none

/-- The program of a call. -/
def run : BusCall → Signalling (Option RunSignal)
  | publish s => publishing fl s >>= fun _ => .ret none
  | receive timeoutSeconds => receiving fl readings timeoutSeconds

end Programs

/-! ### Commands of calls -/

/-- What follows the answer to a command. -/
def resume (i : RedisLink) (p : Signalling (Option RunSignal)) : Signalling (Option RunSignal) :=
  match i with
  | .up => p
  | .refused message | .lost message => .throw (connectionError message)

section Next

variable {fl : FloatText} {readings : Readings} (i : RedisLink) (t : BoundedQueue String)

theorem next_publish (s : RunSignal) : (run fl readings (.publish s)).next SignalCmd.exec i t =
    (resume i trimming, i.effect t (t.push (s.payload fl))) := by
  cases i <;> rfl

theorem next_trimming : trimming.next SignalCmd.exec i t =
    (resume i (.ret none), i.effect t (t.trim 10000)) := by
  cases i <;> rfl

theorem next_receive (timeoutSeconds : ℚ) :
    (run fl readings (.receive timeoutSeconds)).next SignalCmd.exec i t =
      (resume i (returned fl readings t.pop.1), i.effect t t.pop.2) := by
  rw [run, receiving]
  split_ifs <;> cases i <;> rfl

end Next

/-! ### Any number of calls -/

/-- A program of a call between two commands, or behind the last one. -/
inductive Stage (fl : FloatText) (readings : Readings) (calls : List BusCall) :
    Signalling (Option RunSignal) → Prop
  | started {c : BusCall} (hc : c ∈ calls) : Stage fl readings calls (run fl readings c)
  | trimming : Stage fl readings calls trimming
  | ended (a : Option RunSignal) : Stage fl readings calls (.ret a)
  | failed (message : String) : Stage fl readings calls (.throw (connectionError message))

/-- The signal that a program has returned. -/
def signal? (p : Signalling (Option RunSignal)) : Option RunSignal := p.result?.join

/-- Whether a program is still to cut the list down, or has raised an exception. -/
def untrimmed : Signalling (Option RunSignal) → Bool
  | .call (.ltrim _) _ | .throw _ => true
  | _ => false

/-- Calls side by side. -/
abbrev Calls : Type := Pool SignalCmd SignalCmd.Answer Exn (Option RunSignal) (BoundedQueue String)

/-- The list is one of signals, the signals that were received are some of those that were taken
out, and the list is longer than the bound by no more than there are calls which are to cut it
down. -/
structure Delivery (fl : FloatText) (readings : Readings) (calls : List BusCall)
    (q : BoundedQueue RunSignal) (x : Calls) : Prop where
  stage : ∀ p ∈ x.procs, Stage fl readings calls p
  state : x.state = q.map fun s => s.payload fl
  kept : q.Kept 10000
  published : ∀ s ∈ q.pushed, .publish s ∈ calls
  received : (x.procs.filterMap signal?).Subperm q.popped
  length_le : q.items.length ≤ 10000 + x.procs.countP untrimmed

section Step

variable {fl : FloatText} {readings : Readings} {calls : List BusCall}
  {q q' : BoundedQueue RunSignal} {x : Calls}

/-- A program goes on. -/
theorem Delivery.set (h : Delivery fl readings calls q x) {j : ℕ}
    {p p' : Signalling (Option RunSignal)} (hj : x.procs[j]? = some p) (hp : signal? p = none)
    (hstage : Stage fl readings calls p') (hkept : q'.Kept 10000)
    (hpublished : ∀ s ∈ q'.pushed, .publish s ∈ calls)
    (hreceived : ((signal? p').toList ++ x.procs.filterMap signal?).Subperm q'.popped)
    (hlength : q'.items.length + (if untrimmed p then 1 else 0) ≤
      q.items.length + (if untrimmed p' then 1 else 0) ∨ q'.items.length ≤ 10000) :
    Delivery fl readings calls q' ⟨q'.map fun s => s.payload fl, x.procs.set j p'⟩ where
  stage r hr := by
    rcases List.mem_or_eq_of_mem_set hr with hr | rfl
    · exact h.stage r hr
    · exact hstage
  state := rfl
  kept := hkept
  published := hpublished
  received := (perm_filterMap_set hj hp p').subperm.trans hreceived
  length_le := by
    have hcount := Pool.countP_set_add hj p' untrimmed
    have hbound := h.length_le
    dsimp only
    omega

/-- A call that goes no further with the queue as it was or as it should be. -/
theorem Delivery.fail (h : Delivery fl readings calls q x) {j : ℕ}
    {p : Signalling (Option RunSignal)} (hj : x.procs[j]? = some p) (hp : signal? p = none)
    (message : String) (hkept : q'.Kept 10000) (hpublished : ∀ s ∈ q'.pushed, .publish s ∈ calls)
    (hpopped : q.popped <+: q'.popped)
    (hlength : q'.items.length + (if untrimmed p then 1 else 0) ≤ q.items.length + 1) :
    Delivery fl readings calls q' ⟨q'.map fun s => s.payload fl,
      x.procs.set j (.throw (connectionError message))⟩ :=
  h.set hj hp (.failed message) hkept hpublished (h.received.trans hpopped.sublist.subperm)
    (Or.inl hlength)

/-- The first command of `publish`. -/
theorem Delivery.publish (h : Delivery fl readings calls q x) {j : ℕ} {s : RunSignal}
    (hj : x.procs[j]? = some (run fl readings (.publish s))) (hc : .publish s ∈ calls)
    (i : RedisLink) : Delivery fl readings calls (i.effect q (q.push s))
      ⟨(i.effect q (q.push s)).map fun s => s.payload fl, x.procs.set j (resume i trimming)⟩ := by
  have hpublished : ∀ s' ∈ (q.push s).pushed, .publish s' ∈ calls := by
    intro s' hs'
    rcases List.mem_append.mp hs' with hs' | hs'
    · exact h.published s' hs'
    · exact List.mem_singleton.mp hs' ▸ hc
  cases i with
  | up => exact h.set hj rfl .trimming (h.kept.push s) hpublished h.received (Or.inl le_rfl)
  | refused message =>
    exact h.fail hj rfl message h.kept h.published List.prefix_rfl (Nat.le_succ _)
  | lost message =>
    exact h.fail hj rfl message (h.kept.push s) hpublished List.prefix_rfl le_rfl

/-- The second command of `publish`. -/
theorem Delivery.trim (h : Delivery fl readings calls q x) {j : ℕ}
    (hj : x.procs[j]? = some trimming) (i : RedisLink) :
    Delivery fl readings calls (i.effect q (q.trim 10000))
      ⟨(i.effect q (q.trim 10000)).map fun s => s.payload fl,
        x.procs.set j (resume i (.ret none))⟩ := by
  have hshort : (q.trim 10000).items.length ≤ 10000 := List.length_take_le ..
  have hless : (q.trim 10000).items.length ≤ q.items.length := List.length_take_le' ..
  cases i with
  | up => exact h.set hj rfl (.ended none) h.kept.trim h.published h.received (Or.inr hshort)
  | refused message =>
    exact h.fail hj rfl message h.kept h.published List.prefix_rfl le_rfl
  | lost message =>
    exact h.fail hj rfl message h.kept.trim h.published List.prefix_rfl (Nat.succ_le_succ hless)

/-- The command of `receive`. -/
theorem Delivery.receive {decimals : Decimals} (hdoc : readings.Documented decimals)
    (h : Delivery fl readings calls q x) {j : ℕ} {timeoutSeconds : ℚ}
    (hj : x.procs[j]? = some (run fl readings (.receive timeoutSeconds))) (i : RedisLink) :
    Delivery fl readings calls (i.effect q q.pop.2)
      ⟨(i.effect q q.pop.2).map fun s => s.payload fl, x.procs.set j
        (resume i (returned fl readings (q.map fun s => s.payload fl).pop.1))⟩ := by
  have hrun : signal? (run fl readings (.receive timeoutSeconds)) = none ∧
      untrimmed (run fl readings (.receive timeoutSeconds)) = false := by
    rw [run, receiving]
    split_ifs <;> exact ⟨rfl, rfl⟩
  have hless : q.pop.2.items.length ≤ q.items.length := by
    simp [BoundedQueue.pop]
  have hpopped : q.popped <+: q.pop.2.popped := List.prefix_append _ _
  have hlength : q.pop.2.items.length + 0 ≤ q.items.length + 1 := by omega
  rw [BoundedQueue.pop_map]
  cases i with
  | up =>
    cases hfirst : q.pop.1 with
    | none =>
      refine h.set hj hrun.1 (.ended none) h.kept.pop h.published ?_ (Or.inl ?_)
      · exact h.received.trans hpopped.sublist.subperm
      · rw [hrun.2]
        exact hless
    | some s =>
      have hreturned :
          resume .up (returned fl readings (Option.map (fun s => s.payload fl) (some s))) =
          .ret (some s) := by
        rw [Option.map_some, resume, returned, RunSignal.ofPayload_payload hdoc]
        rfl
      rw [hreturned]
      refine h.set hj hrun.1 (.ended (some s)) h.kept.pop h.published ?_ (Or.inl ?_)
      · have hmore : q.pop.2.popped = q.popped ++ [s] :=
          congrArg (fun first : Option RunSignal => q.popped ++ first.toList) hfirst
        show ([s] ++ x.procs.filterMap signal?).Subperm q.pop.2.popped
        rw [hmore]
        exact ((List.subperm_append_left [s]).mpr h.received).trans List.perm_append_comm.subperm
      · rw [hrun.2]
        exact hless
  | refused message =>
    refine h.fail hj hrun.1 message h.kept h.published List.prefix_rfl ?_
    rw [hrun.2]
    exact Nat.le_succ _
  | lost message =>
    refine h.fail hj hrun.1 message h.kept.pop h.published hpopped ?_
    rw [hrun.2]
    exact hlength

/-- A program that has come to its end stays there. -/
theorem step_of_ended {p : Signalling (Option RunSignal)} {l : ℕ × RedisLink}
    (hp : x.procs[l.1]? = some p) (hended : ∀ i t, p.next SignalCmd.exec i t = (p, t)) :
    x.step SignalCmd.exec l = x := by
  obtain ⟨hlt, hget⟩ := List.getElem?_eq_some_iff.mp hp
  rw [Pool.step_of_getElem? hp, hended, ← hget, List.set_getElem_self]

/-- A step of the calls. -/
theorem Delivery.step {decimals : Decimals} (hdoc : readings.Documented decimals)
    (h : Delivery fl readings calls q x) (l : ℕ × RedisLink) :
    ∃ q', Delivery fl readings calls q' (x.step SignalCmd.exec l) := by
  rcases hp : x.procs[l.1]? with _ | p
  · rw [Pool.step_of_none hp]
    exact ⟨q, h⟩
  cases h.stage p (List.mem_of_getElem? hp) with
  | @started c hc =>
    rw [Pool.step_of_getElem? hp, h.state]
    cases c with
    | publish s =>
      rw [next_publish, ← BoundedQueue.map_push, ← RedisLink.map_effect]
      exact ⟨_, h.publish hp hc l.2⟩
    | receive timeoutSeconds =>
      rw [next_receive, BoundedQueue.pop_map, ← RedisLink.map_effect, ← BoundedQueue.pop_map]
      exact ⟨_, h.receive hdoc hp l.2⟩
  | trimming =>
    rw [Pool.step_of_getElem? hp, h.state, next_trimming, ← BoundedQueue.map_trim,
      ← RedisLink.map_effect]
    exact ⟨_, h.trim hp l.2⟩
  | ended a =>
    rw [step_of_ended hp fun _ _ => rfl]
    exact ⟨q, h⟩
  | failed message =>
    rw [step_of_ended hp fun _ _ => rfl]
    exact ⟨q, h⟩

/-- Before the first command. -/
theorem delivery_start (calls : List BusCall) : Delivery fl readings calls .empty
    ⟨.empty, calls.map (run fl readings)⟩ where
  stage p hp := by
    obtain ⟨c, hc, rfl⟩ := List.mem_map.mp hp
    exact .started hc
  state := rfl
  kept := BoundedQueue.kept_empty
  published s hs := by cases hs
  received := by
    have hnone : (calls.map (run fl readings)).filterMap signal? = [] := by
      refine List.filterMap_eq_nil_iff.mpr fun p hp => ?_
      obtain ⟨c, -, rfl⟩ := List.mem_map.mp hp
      cases c with
      | publish s => rfl
      | receive timeoutSeconds =>
        rw [run, receiving]
        split_ifs <;> rfl
    rw [hnone]
    exact List.nil_subperm
  length_le := Nat.zero_le _

end Step

/-- **Signals.** Whichever calls share a bus, however their commands come between one another and
wherever the connection fails: signals are received in the order in which they were published, none
twice and none that was not published, and only what is older than the last 10000 is lost. The list
is longer than that by no more than the calls that have not cut it down, and a call fails for the
connection only. -/
theorem delivered {fl : FloatText} {readings : Readings} {decimals : Decimals}
    (hdoc : readings.Documented decimals) (calls : List BusCall) (schedule : List (ℕ × RedisLink)) :
    ∃ q : BoundedQueue RunSignal, ∃ x : Calls,
      x = Pool.run SignalCmd.exec ⟨.empty, calls.map (run fl readings)⟩ schedule ∧
      (x.state = q.map fun s => s.payload fl) ∧ q.Kept 10000 ∧
      (q.popped ++ q.items.reverse).Sublist q.pushed ∧ (∀ s ∈ q.pushed, .publish s ∈ calls) ∧
      (x.procs.filterMap signal?).Subperm q.popped ∧
      q.items.length ≤ 10000 + x.procs.countP untrimmed ∧
      ∀ p ∈ x.procs, ∀ e, p = .throw e → ∃ message, e = connectionError message := by
  suffices H : ∀ (x : Calls) q, Delivery fl readings calls q x →
      ∃ q, Delivery fl readings calls q (x.run SignalCmd.exec schedule) by
    obtain ⟨q, h⟩ := H _ _ (delivery_start calls)
    refine ⟨q, _, rfl, h.state, h.kept, h.kept.sublist, h.published, h.received, h.length_le, ?_⟩
    rintro p hp e rfl
    generalize hthrow : (Proc.throw e : Signalling (Option RunSignal)) = p at hp
    cases h.stage p hp with
    | @started c =>
      cases c with
      | publish s => cases hthrow
      | receive timeoutSeconds =>
        rw [run, receiving] at hthrow
        split_ifs at hthrow
    | trimming | ended => cases hthrow
    | failed message =>
      cases hthrow
      exact ⟨message, rfl⟩
  induction schedule with
  | nil => exact fun x q h => ⟨q, h⟩
  | cons l ls ih =>
    intro x q h
    obtain ⟨q', h'⟩ := h.step hdoc l
    exact ih _ _ h'

end BusCall

/-! ### Two publishers and a receiver -/

namespace Sample

open BusCall

/-- A signal that a run waits. -/
def waking : RunSignal := .ofWaiting run

/-- A signal that it was cancelled. -/
def cancelling : RunSignal := .ofCancelled run run

/-- Both publishers push first; the answer to one that receives is lost. -/
def signalSchedule : List (ℕ × RedisLink) :=
  [(0, .up), (1, .up), (1, .up), (2, .lost "reset"), (0, .refused "down"), (3, .up)]

theorem signals_delivered : ∃ q : BoundedQueue RunSignal,
    q.pushed.length = 2 ∧ q.popped.length = 2 ∧ (q.popped ++ q.items.reverse).Sublist q.pushed := by
  obtain ⟨q, x, hx, hstate, -, hsub, -⟩ := @delivered bits _ _ documented_documented
    [.publish waking, .publish cancelling, .receive 0, .receive 1] signalSchedule
  have hpushed : x.state.pushed.length = 2 := by
    rw [hx]
    rfl
  have hpopped : x.state.popped.length = 2 := by
    rw [hx]
    rfl
  rw [hstate] at hpushed hpopped
  refine ⟨q, ?_, ?_, hsub⟩
  · simpa [BoundedQueue.map] using hpushed
  · simpa [BoundedQueue.map] using hpopped

end Sample

end OpenRath
