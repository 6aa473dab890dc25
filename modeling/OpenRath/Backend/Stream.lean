import OpenRath.Library.Events
import OpenRath.Library.Tickets
import OpenRath.Runtime.World

/-!
# Streams

A `Stream` (`src/rath/backend/stream.py`) has a queue of operations for one sandbox and a thread
that works them off. The public methods check under a lock that the stream is not closed and put
their operation into the queue, which may be bounded; the last operation is the signal to stop. A
dispatch that raises no mere `Exception` ends the worker, which first empties the queue.

A public method is one step, taken when there is room in the queue. The futures are those of the
calls, in the order in which they have been submitted, and those of the waits; a caller of
`synchronize` waits for an event of its own. Events of other streams are signaled from outside.

## Main definitions

* `StreamOp`, `Worker`, `Stream`.
* `Stream.put`, `handle`, `failRemaining`, `step`.
* `Stream.Settled`: what is promised.
* `Stream.Attended`: nothing is put once the worker has ended, and no wait raises.

## Main results

* `Stream.settled_of_attended`.
-/

namespace OpenRath

/-- What becomes of a dispatch. -/
inductive Dispatched (Result : Type)
  | returned (result : Result)
  | raised (e : Exn)
  /-- An exception that is no `Exception`. -/
  | fatal (e : Exn)

/-- What a future has: a result, or an exception that is raised. -/
abbrev Settlement (Result : Type) : Type := Except Exn Result

/-- The future of a call after its dispatch. -/
def Dispatched.outcome {Result : Type} : Dispatched Result → Settlement Result
  | returned result => .ok result
  | raised e | fatal e => .error e

/-- `_Op`, with the places of futures and events. -/
inductive StreamOp (Call Timeout : Type)
  | call (call : Call) (future : ℕ)
  | recordEvent (event : ℕ)
  | waitEvent (event : ℕ) (timeout : Option Timeout) (future : ℕ)
  | sync (evt : ℕ)

/-- What the worker is at. -/
inductive Worker (Call Timeout : Type)
  /-- It waits for the next operation. -/
  | idle
  | handling (op : StreamOp Call Timeout)
  /-- It empties the queue after an exception. -/
  | failing (e : Exn)
  /-- It has ended, perhaps by an exception. -/
  | ended (e : Option Exn)

namespace Worker

variable {Call Timeout : Type}

def isEnded : Worker Call Timeout → Bool
  | ended _ => true
  | _ => false

/-- The exception by which the worker has been ended, or is about to be. -/
def fault? : Worker Call Timeout → Option Exn
  | failing e => some e
  | ended e => e
  | _ => none

/-- The operation that is handled. -/
def current : Worker Call Timeout → List (StreamOp Call Timeout)
  | handling op => [op]
  | _ => []

end Worker

/-- `Stream`, with the events, the futures, and what has been dispatched. -/
structure Stream (Call Result Timeout : Type) where
  queue : List (Option (StreamOp Call Timeout))
  closed : Bool
  worker : Worker Call Timeout
  events : List Bool
  submitted : List Call
  results : List (Option (Settlement Result))
  waits : List (Option (Settlement Unit))
  syncs : List (Option Unit)
  dispatched : List (Call × Settlement Result)

/-- Which timeouts cannot be waited for, and the texts of timeouts. -/
structure TimeoutClock (Timeout : Type) where
  refused : Timeout → Option Exn
  text : Timeout → String

/-- What the callers, the worker and other streams do. -/
inductive WorkerEvent (Call Result Timeout : Type)
  | submit (call : Call)
  | waitEvent (event : ℕ) (timeout : Option Timeout)
  | recordEvent
  | synchronize
  | exit
  /-- The worker takes an operation from the queue. -/
  | get
  /-- The worker handles its operation, where a call is dispatched and a wait may time out. -/
  | handle (dispatched : Dispatched Result) (elapsed : Bool)
  /-- The worker takes an operation from the queue after an exception. -/
  | fail
  /-- An event of another stream is created. -/
  | foreign
  /-- An event is signaled by another stream. -/
  | signal (event : ℕ)

namespace Stream

variable {Call Result Timeout : Type}

/-- A stream that has been entered. -/
def start : Stream Call Result Timeout := ⟨[], false, .idle, [], [], [], [], [], []⟩

section Operations

variable (clock : TimeoutClock Timeout) (buffer : ℤ) (s : Stream Call Result Timeout)

/-- The queue has room. A queue of no positive size is unbounded. -/
def hasRoom : Bool := buffer ≤ 0 ∨ s.queue.length < buffer

/-- An operation is put into the queue. -/
def put (op : Option (StreamOp Call Timeout)) : Stream Call Result Timeout :=
  { s with queue := s.queue ++ [op] }

/-- A public method, which raises if the stream is closed. -/
def whenOpen (s' : Stream Call Result Timeout) : Option (Stream Call Result Timeout) :=
  if s.closed then some s
  else if s.hasRoom buffer then some s' else none

/-- `submit`. -/
def submit (call : Call) : Option (Stream Call Result Timeout) :=
  s.whenOpen buffer <| put { s with
    submitted := s.submitted ++ [call]
    results := s.results ++ [none] } (some (.call call s.results.length))

/-- `wait_event`. -/
def waitEvent (event : ℕ) (timeout : Option Timeout) : Option (Stream Call Result Timeout) :=
  s.whenOpen buffer <| put { s with waits := s.waits ++ [none] }
    (some (.waitEvent event timeout s.waits.length))

/-- `record_event`. -/
def recordEvent : Option (Stream Call Result Timeout) :=
  s.whenOpen buffer <| put { s with events := s.events ++ [false] }
    (some (.recordEvent s.events.length))

/-- `synchronize`, up to waiting. -/
def synchronize : Option (Stream Call Result Timeout) :=
  s.whenOpen buffer <| put { s with syncs := s.syncs ++ [none] } (some (.sync s.syncs.length))

/-- `__exit__`, up to joining. -/
def exit : Option (Stream Call Result Timeout) :=
  s.whenOpen buffer <| put { s with closed := true } none

/-- The worker takes the next operation, or stops. -/
def get : Option (Stream Call Result Timeout) :=
  match s.worker, s.queue with
  | .idle, some op :: queue => some { s with queue, worker := .handling op }
  | .idle, none :: queue => some { s with queue, worker := .ended none }
  | _, _ => none

/-- `_handle`, and what the worker does after it. -/
def handleOp (op : StreamOp Call Timeout) (dispatched : Dispatched Result) (elapsed : Bool) :
    Option (Stream Call Result Timeout) :=
  match op with
  | .call call future =>
    some { s with
      results := s.results.set future (some dispatched.outcome)
      dispatched := s.dispatched ++ [(call, dispatched.outcome)]
      worker :=
        match dispatched with
        | .fatal e => .failing e
        | .returned _ | .raised _ => .idle }
  | .recordEvent event => some { s with events := s.events.set event true, worker := .idle }
  | .waitEvent event timeout future =>
    if s.events[event]? = some true then
      some { s with waits := s.waits.set future (some (.ok ())), worker := .idle }
    else
      match timeout with
      | none => none
      | some timeout =>
        match clock.refused timeout with
        | some e => some { s with worker := .failing e }
        | none =>
          if elapsed then
            some { s with
              waits := s.waits.set future
                (some (.error (.timeout s!"wait_event timed out after {clock.text timeout}s")))
              worker := .idle }
          else none
  | .sync evt => some { s with syncs := s.syncs.set evt (some ()), worker := .idle }

/-- The worker handles its operation. -/
def handle (dispatched : Dispatched Result) (elapsed : Bool) :
    Option (Stream Call Result Timeout) :=
  match s.worker with
  | .handling op => s.handleOp clock op dispatched elapsed
  | _ => none

/-- What `_fail_remaining` does with an operation. -/
def failOp (op : StreamOp Call Timeout) (e : Exn) : Stream Call Result Timeout :=
  match op with
  | .call _ future => { s with results := s.results.set future (some (.error e)) }
  | .waitEvent _ _ future => { s with waits := s.waits.set future (some (.error e)) }
  | .recordEvent _ => s
  | .sync evt => { s with syncs := s.syncs.set evt (some ()) }

/-- `_fail_remaining`, one operation after the other. -/
def failRemaining : Option (Stream Call Result Timeout) :=
  match s.worker, s.queue with
  | .failing e, some op :: queue => some (failOp { s with queue } op e)
  | .failing e, none :: queue => some { s with queue, worker := .ended (some e) }
  | .failing e, [] => some { s with worker := .ended (some e) }
  | _, _ => none

/-- A step of a caller, of the worker, or of another stream. -/
def step : WorkerEvent Call Result Timeout → Option (Stream Call Result Timeout)
  | .submit call => s.submit buffer call
  | .waitEvent event timeout => s.waitEvent buffer event timeout
  | .recordEvent => s.recordEvent buffer
  | .synchronize => s.synchronize buffer
  | .exit => s.exit buffer
  | .get => s.get
  | .handle dispatched elapsed => s.handle clock dispatched elapsed
  | .fail => s.failRemaining
  | .foreign => some { s with events := s.events ++ [false] }
  | .signal event => some { s with events := s.events.set event true }

end Operations

/-! ### What is promised -/

/-- The calls are dispatched in the order in which they have been submitted, and their futures have
what has become of them; a call that has not been dispatched has at most the exception that has
ended the worker; and once the stream is closed and the worker has ended, no one waits. -/
structure Settled (_ : Stream Call Result Timeout) (_ : WorkerEvent Call Result Timeout)
    (s' : Stream Call Result Timeout) : Prop where
  dispatched : ∀ (i : ℕ) (d : Call × Settlement Result), s'.dispatched[i]? = some d →
    s'.submitted[i]? = some d.1 ∧ s'.results[i]? = some (some d.2)
  failed : ∀ i o, s'.dispatched.length ≤ i → s'.results[i]? = some (some o) →
    ∃ e, s'.worker.fault? = some e ∧ o = .error e
  released : s'.closed = true → s'.worker.isEnded = true →
    (∀ o ∈ s'.results, o ≠ none) ∧ (∀ o ∈ s'.waits, o ≠ none) ∧ ∀ o ∈ s'.syncs, o ≠ none

/-- No call, wait or synchronization is put into the queue of a worker that has ended, and no wait
raises. -/
def Attended (clock : TimeoutClock Timeout) (s : Stream Call Result Timeout) :
    WorkerEvent Call Result Timeout → Stream Call Result Timeout → Prop
  | .submit _, _ | .waitEvent _ _, _ | .synchronize, _ =>
      s.closed = false → s.worker.isEnded = false
  | .handle _ _, _ => ∀ event timeout future,
      s.worker = .handling (.waitEvent event (some timeout) future) →
      s.events[event]? ≠ some true → clock.refused timeout = none
  | _, _ => True

/-! ### The operations that wait -/

/-- The operations that have not been handled, in their order. -/
def ops (s : Stream Call Result Timeout) : List (StreamOp Call Timeout) :=
  s.worker.current ++ s.queue.filterMap id

def callFuture : StreamOp Call Timeout → Option ℕ
  | .call _ future => some future
  | _ => none

def waitFuture : StreamOp Call Timeout → Option ℕ
  | .waitEvent _ _ future => some future
  | _ => none

def syncEvt : StreamOp Call Timeout → Option ℕ
  | .sync evt => some evt
  | _ => none

/-- Of the calls, the first `k` have an outcome: those that have been dispatched their own, and the
other ones the exception that ends the worker. -/
structure Answered (s : Stream Call Result Timeout) (k : ℕ) : Prop where
  served : Tickets.Served s.results (s.ops.filterMap callFuture) k
  le : s.dispatched.length ≤ k
  eq : s.worker.fault? = none → k = s.dispatched.length
  own : ∀ (i : ℕ) (d : Call × Settlement Result), s.dispatched[i]? = some d →
    s.submitted[i]? = some d.1 ∧ s.results[i]? = some (some d.2)
  failed : ∀ i, s.dispatched.length ≤ i → i < k →
    ∃ e, s.worker.fault? = some e ∧ s.results[i]? = some (some (.error e))

/-- The futures and those who synchronize are served in order, and the signal to stop is the last
operation of a closed stream. -/
structure Inv (s : Stream Call Result Timeout) : Prop where
  calls : ∃ k, Answered s k
  waits : ∃ k, Tickets.Served s.waits (s.ops.filterMap waitFuture) k
  syncs : ∃ k, Tickets.Served s.syncs (s.ops.filterMap syncEvt) k
  payload : ∀ call future, .call call future ∈ s.ops → s.submitted[future]? = some call
  length : s.submitted.length = s.results.length
  last : none ∉ s.queue.dropLast
  stop : s.closed = false → none ∉ s.queue
  ended : s.worker.isEnded = true → ∀ op ∈ s.ops, ∃ event, op = .recordEvent event

variable {clock : TimeoutClock Timeout} {buffer : ℤ} {s s' : Stream Call Result Timeout}

theorem inv_start : Inv (start : Stream Call Result Timeout) where
  calls := ⟨0, Tickets.Served.nil, Nat.le_refl 0, fun _ => rfl,
    fun _ _ h => absurd (List.mem_of_getElem? h) List.not_mem_nil,
    fun _ _ h => absurd h (Nat.not_lt_zero _)⟩
  waits := ⟨0, Tickets.Served.nil⟩
  syncs := ⟨0, Tickets.Served.nil⟩
  payload _ _ h := absurd h List.not_mem_nil
  length := rfl
  last := List.not_mem_nil
  stop _ := List.not_mem_nil
  ended h := Bool.noConfusion h

theorem ops_put (op : StreamOp Call Timeout) : (s.put (some op)).ops = s.ops ++ [op] := by
  simp [ops, put]

theorem Inv.settled (h : Inv s') (e : WorkerEvent Call Result Timeout) : Settled s e s' := by
  obtain ⟨k, hk⟩ := h.calls
  refine ⟨hk.own, fun i o hi ho => ?_, fun _ hended => ?_⟩
  · obtain ⟨e, hfault, he⟩ := hk.failed i hi (hk.served.unserved i o ho)
    rw [he] at ho
    exact ⟨e, hfault, (Option.some.inj (Option.some.inj ho)).symm⟩
  · have hnone : ∀ f : StreamOp Call Timeout → Option ℕ, (∀ event, f (.recordEvent event) = none) →
        s'.ops.filterMap f = [] := by
      intro f hf
      refine List.filterMap_eq_nil_iff.mpr fun op hop => ?_
      obtain ⟨event, rfl⟩ := h.ended hended op hop
      exact hf event
    obtain ⟨m, hm⟩ := h.waits
    obtain ⟨n, hn⟩ := h.syncs
    have hcalls := hk.served
    rw [hnone callFuture fun _ => rfl] at hcalls
    rw [hnone waitFuture fun _ => rfl] at hm
    rw [hnone syncEvt fun _ => rfl] at hn
    exact ⟨hcalls.all, hm.all, hn.all⟩

/-- The outcomes of the calls, in a step that is not about them. -/
theorem Answered.congr {k : ℕ} (h : Answered s k)
    (hops : s'.ops.filterMap callFuture = s.ops.filterMap callFuture)
    (hresults : s'.results = s.results) (hsubmitted : s'.submitted = s.submitted)
    (hdispatched : s'.dispatched = s.dispatched)
    (hfault : s'.worker.fault? = s.worker.fault? ∨
      s.worker.fault? = none ∧ k = s.dispatched.length) : Answered s' k := by
  refine ⟨?_, ?_, fun hnone => ?_, ?_, fun i hi hik => ?_⟩
  · rw [hops, hresults]
    exact h.served
  · rw [hdispatched]
    exact h.le
  · rw [hdispatched]
    rcases hfault with hsame | ⟨-, heq⟩
    · exact h.eq (hsame.symm.trans hnone)
    · exact heq
  · rw [hdispatched, hsubmitted, hresults]
    exact h.own
  · rw [hdispatched] at hi
    rcases hfault with hsame | ⟨-, heq⟩
    · rw [hsame, hresults]
      exact h.failed i hi hik
    · omega

/-- The worker has no exception: all outcomes are those of calls that have been dispatched. -/
theorem Answered.congr_of_none {k : ℕ} (h : Answered s k) (hnone : s.worker.fault? = none)
    (hops : s'.ops.filterMap callFuture = s.ops.filterMap callFuture)
    (hresults : s'.results = s.results) (hsubmitted : s'.submitted = s.submitted)
    (hdispatched : s'.dispatched = s.dispatched) : Answered s' k :=
  h.congr hops hresults hsubmitted hdispatched (Or.inr ⟨hnone, h.eq hnone⟩)

/-! ### Public methods -/

/-- The signal to stop is not in the queue of an open stream, nor in what becomes of it. -/
theorem Inv.last_put (h : Inv s) (hopen : s.closed = false)
    (op : Option (StreamOp Call Timeout)) : none ∉ (s.queue ++ [op]).dropLast := by
  rw [List.dropLast_concat]
  exact h.stop hopen

theorem Inv.stop_put (h : Inv s) (hopen : s.closed = false) (op : StreamOp Call Timeout) :
    none ∉ s.queue ++ [some op] := by
  intro hmem
  rcases List.mem_append.mp hmem with hmem | hmem
  · exact h.stop hopen hmem
  · cases List.mem_singleton.mp hmem

theorem filterMap_ops_put (f : StreamOp Call Timeout → Option ℕ) (op : StreamOp Call Timeout) :
    (s.put (some op)).ops.filterMap f = s.ops.filterMap f ++ (f op).toList := by
  rw [ops_put, List.filterMap_append]
  cases hop : f op <;> simp [hop]

theorem inv_submit (h : Inv s) (hopen : s.closed = false) (hended : s.worker.isEnded = false)
    (call : Call) : Inv (put { s with
      submitted := s.submitted ++ [call]
      results := s.results ++ [none] } (some (.call call s.results.length))) := by
  obtain ⟨k, hk⟩ := h.calls
  obtain ⟨m, hm⟩ := h.waits
  obtain ⟨n, hn⟩ := h.syncs
  refine ⟨⟨k, ?_, hk.le, hk.eq, fun i d hi => ?_, fun i hi hik => ?_⟩, ⟨m, ?_⟩, ⟨n, ?_⟩, ?_, ?_,
    h.last_put hopen _, fun _ => h.stop_put hopen _,
    fun hended' => Bool.noConfusion (hended'.symm.trans hended)⟩
  · rw [filterMap_ops_put]
    exact hk.served.give
  · obtain ⟨hsubmitted, hresult⟩ := hk.own i d hi
    exact ⟨Tickets.getElem?_append_of_eq_some hsubmitted _,
      Tickets.getElem?_append_of_eq_some hresult _⟩
  · obtain ⟨e, hfault, hresult⟩ := hk.failed i hi hik
    exact ⟨e, hfault, Tickets.getElem?_append_of_eq_some hresult _⟩
  · rw [filterMap_ops_put]
    exact (List.append_nil _).symm ▸ hm
  · rw [filterMap_ops_put]
    exact (List.append_nil _).symm ▸ hn
  · intro call' future hmem
    rw [ops_put] at hmem
    rcases List.mem_append.mp hmem with hmem | hmem
    · exact Tickets.getElem?_append_of_eq_some (h.payload call' future hmem) _
    · cases List.mem_singleton.mp hmem
      show (s.submitted ++ [call])[s.results.length]? = some call
      rw [← h.length, List.getElem?_concat_length]
  · show (s.submitted ++ [call]).length = (s.results ++ [none]).length
    rw [List.length_append, List.length_append, h.length]
    rfl

/-- A call that has been submitted before is so when another operation is put into the queue. -/
theorem Inv.payload_put (h : Inv s) {op : StreamOp Call Timeout} (hop : callFuture op = none)
    {call : Call} {future : ℕ} (hmem : .call call future ∈ s.ops ++ [op]) :
    s.submitted[future]? = some call := by
  rcases List.mem_append.mp hmem with hmem | hmem
  · exact h.payload call future hmem
  · rw [← List.mem_singleton.mp hmem] at hop
    cases hop

theorem inv_waitEvent (h : Inv s) (hopen : s.closed = false) (hended : s.worker.isEnded = false)
    (event : ℕ) (timeout : Option Timeout) : Inv (put { s with waits := s.waits ++ [none] }
      (some (.waitEvent event timeout s.waits.length))) := by
  obtain ⟨k, hk⟩ := h.calls
  obtain ⟨m, hm⟩ := h.waits
  obtain ⟨n, hn⟩ := h.syncs
  refine ⟨⟨k, hk.congr ?_ rfl rfl rfl (Or.inl rfl)⟩, ⟨m, ?_⟩, ⟨n, ?_⟩, fun call future hmem => ?_,
    h.length, h.last_put hopen _, fun _ => h.stop_put hopen _,
    fun hended' => Bool.noConfusion (hended'.symm.trans hended)⟩
  · rw [filterMap_ops_put]
    exact List.append_nil _
  · rw [filterMap_ops_put]
    exact hm.give
  · rw [filterMap_ops_put]
    exact (List.append_nil _).symm ▸ hn
  · rw [ops_put] at hmem
    exact h.payload_put rfl hmem

theorem inv_synchronize (h : Inv s) (hopen : s.closed = false) (hended : s.worker.isEnded = false) :
    Inv (put { s with syncs := s.syncs ++ [none] } (some (.sync s.syncs.length))) := by
  obtain ⟨k, hk⟩ := h.calls
  obtain ⟨m, hm⟩ := h.waits
  obtain ⟨n, hn⟩ := h.syncs
  refine ⟨⟨k, hk.congr ?_ rfl rfl rfl (Or.inl rfl)⟩, ⟨m, ?_⟩, ⟨n, ?_⟩, fun call future hmem => ?_,
    h.length, h.last_put hopen _, fun _ => h.stop_put hopen _,
    fun hended' => Bool.noConfusion (hended'.symm.trans hended)⟩
  · rw [filterMap_ops_put]
    exact List.append_nil _
  · rw [filterMap_ops_put]
    exact (List.append_nil _).symm ▸ hm
  · rw [filterMap_ops_put]
    exact hn.give
  · rw [ops_put] at hmem
    exact h.payload_put rfl hmem

theorem inv_recordEvent (h : Inv s) (hopen : s.closed = false) :
    Inv (put { s with events := s.events ++ [false] } (some (.recordEvent s.events.length))) := by
  obtain ⟨k, hk⟩ := h.calls
  obtain ⟨m, hm⟩ := h.waits
  obtain ⟨n, hn⟩ := h.syncs
  refine ⟨⟨k, hk.congr ?_ rfl rfl rfl (Or.inl rfl)⟩, ⟨m, ?_⟩, ⟨n, ?_⟩, fun call future hmem => ?_,
    h.length, h.last_put hopen _, fun _ => h.stop_put hopen _, fun hended op hop => ?_⟩
  · rw [filterMap_ops_put]
    exact List.append_nil _
  · rw [filterMap_ops_put]
    exact (List.append_nil _).symm ▸ hm
  · rw [filterMap_ops_put]
    exact (List.append_nil _).symm ▸ hn
  · rw [ops_put] at hmem
    exact h.payload_put rfl hmem
  · rw [ops_put] at hop
    rcases List.mem_append.mp hop with hop | hop
    · exact h.ended hended op hop
    · exact ⟨_, List.mem_singleton.mp hop⟩

theorem ops_put_none : (put { s with closed := true } none).ops = s.ops := by
  simp [ops, put]

theorem inv_exit (h : Inv s) (hopen : s.closed = false) :
    Inv (put { s with closed := true } none) := by
  obtain ⟨k, hk⟩ := h.calls
  obtain ⟨m, hm⟩ := h.waits
  obtain ⟨n, hn⟩ := h.syncs
  have hops := ops_put_none (s := s)
  refine ⟨⟨k, hk.congr (by rw [hops]) rfl rfl rfl (Or.inl rfl)⟩, ⟨m, hops ▸ hm⟩, ⟨n, hops ▸ hn⟩,
    hops ▸ h.payload, h.length, h.last_put hopen _, fun hfalse => Bool.noConfusion hfalse,
    hops ▸ h.ended⟩

/-! ### The worker -/

/-- A step that leaves queue, worker and futures alone. -/
theorem inv_events (h : Inv s) (events : List Bool) : Inv { s with events } := by
  obtain ⟨k, hk⟩ := h.calls
  exact ⟨⟨k, hk.congr rfl rfl rfl rfl (Or.inl rfl)⟩, h.waits, h.syncs, h.payload, h.length, h.last,
    h.stop, h.ended⟩

theorem not_mem_dropLast_of_cons {α : Type} {a b : α} {l : List α} (h : a ∉ (b :: l).dropLast) :
    a ∉ l.dropLast := by
  cases l with
  | nil => exact List.not_mem_nil
  | cons c l => exact fun hmem => h (List.mem_cons_of_mem _ hmem)

/-- The signal to stop is the last operation. -/
theorem Inv.eq_nil (h : Inv s) {queue : List (Option (StreamOp Call Timeout))}
    (hqueue : s.queue = none :: queue) : queue = [] := by
  have hlast := h.last
  rw [hqueue] at hlast
  cases queue with
  | nil => rfl
  | cons op queue => exact absurd List.mem_cons_self hlast

theorem get_cases (h : s.get = some s') : s.worker = .idle ∧
    ((∃ op queue, s.queue = some op :: queue ∧ s' = { s with queue, worker := .handling op }) ∨
      ∃ queue, s.queue = none :: queue ∧ s' = { s with queue, worker := .ended none }) := by
  rw [get] at h
  split at h
  · next op queue hworker hqueue =>
    exact ⟨hworker, Or.inl ⟨op, queue, hqueue, (Option.some.inj h).symm⟩⟩
  · next queue hworker hqueue =>
    exact ⟨hworker, Or.inr ⟨queue, hqueue, (Option.some.inj h).symm⟩⟩
  · cases h

theorem inv_get (h : Inv s) (hget : s.get = some s') : Inv s' := by
  obtain ⟨hworker, hcases⟩ := get_cases hget
  obtain ⟨k, hk⟩ := h.calls
  have hfault : s.worker.fault? = none := by
    rw [hworker]
    rfl
  rcases hcases with ⟨op, queue, hqueue, rfl⟩ | ⟨queue, hqueue, rfl⟩
  · have hops : ops { s with queue, worker := .handling op } = s.ops := by
      rw [ops, ops, hworker, hqueue]
      rfl
    refine ⟨⟨k, hk.congr_of_none hfault (by rw [hops]) rfl rfl rfl⟩, hops.symm ▸ h.waits,
      hops.symm ▸ h.syncs, hops.symm ▸ h.payload, h.length, ?_, fun hopen hmem => ?_,
      fun hended => Bool.noConfusion hended⟩
    · have hlast := h.last
      rw [hqueue] at hlast
      exact not_mem_dropLast_of_cons hlast
    · refine h.stop hopen ?_
      rw [hqueue]
      exact List.mem_cons_of_mem _ hmem
  · obtain rfl := h.eq_nil hqueue
    have hops : s.ops = [] := by
      rw [ops, hworker, hqueue]
      rfl
    have hops' : ops { s with queue := [], worker := .ended none } = s.ops := hops.symm
    refine ⟨⟨k, hk.congr_of_none hfault (by rw [hops']) rfl rfl rfl⟩, hops'.symm ▸ h.waits,
      hops'.symm ▸ h.syncs, hops'.symm ▸ h.payload, h.length, List.not_mem_nil,
      fun _ => List.not_mem_nil, fun _ op hop => ?_⟩
    rw [hops', hops] at hop
    cases hop

/-- The first operation is done with, and the queue stays as it is. -/
structure Handled (s s' : Stream Call Result Timeout) (op : StreamOp Call Timeout) : Prop where
  ops : s.ops = op :: s'.ops
  submitted : s'.submitted = s.submitted
  closed : s'.closed = s.closed
  dropLast : none ∉ s'.queue.dropLast
  stop : s'.closed = false → none ∉ s'.queue
  ended : s'.worker.isEnded = false

/-- The rest of the invariant, when the first operation is done with. -/
theorem inv_handled (h : Inv s) {op : StreamOp Call Timeout} (hhandled : Handled s s' op)
    (hcalls : ∃ k, Answered s' k)
    (hwaits : ∃ k, Tickets.Served s'.waits (s'.ops.filterMap waitFuture) k)
    (hsyncs : ∃ k, Tickets.Served s'.syncs (s'.ops.filterMap syncEvt) k)
    (hlength : s'.results.length = s.results.length) : Inv s' := by
  refine ⟨hcalls, hwaits, hsyncs, fun call future hmem => ?_, ?_, hhandled.dropLast, hhandled.stop,
    fun hended => Bool.noConfusion (hended.symm.trans hhandled.ended)⟩
  · rw [hhandled.submitted]
    refine h.payload call future ?_
    rw [hhandled.ops]
    exact List.mem_cons_of_mem _ hmem
  · rw [hhandled.submitted, hlength]
    exact h.length

/-- The calls, when an operation that is no call is done with. -/
theorem Answered.handled {k : ℕ} (h : Answered s k) {op : StreamOp Call Timeout}
    (hhandled : Handled s s' op) (hop : callFuture op = none) (hresults : s'.results = s.results)
    (hdispatched : s'.dispatched = s.dispatched)
    (hfault : s'.worker.fault? = s.worker.fault? ∨ s.worker.fault? = none) : Answered s' k := by
  have hops : s'.ops.filterMap callFuture = s.ops.filterMap callFuture := by
    rw [hhandled.ops, List.filterMap_cons_none hop]
  rcases hfault with hsame | hnone
  · exact h.congr hops hresults hhandled.submitted hdispatched (Or.inl hsame)
  · exact h.congr_of_none hnone hops hresults hhandled.submitted hdispatched

/-- A call is done with, which has an outcome of its own or an exception. -/
theorem Answered.serve {k : ℕ} (h : Answered s k) {call : Call} {future : ℕ}
    (hhandled : Handled s s' (.call call future)) {outcome : Settlement Result}
    (hresults : s'.results = s.results.set future (some outcome)) :
    future = k ∧ k < s.results.length ∧
      Tickets.Served s'.results (s'.ops.filterMap callFuture) (k + 1) := by
  have hserved := h.served
  rw [hhandled.ops] at hserved
  change Tickets.Served s.results (future :: s'.ops.filterMap callFuture) k at hserved
  refine ⟨hserved.eq_of_cons.1, hserved.eq_of_cons.2, ?_⟩
  rw [hresults]
  exact hserved.serve outcome

/-- A call is dispatched. -/
theorem Answered.dispatch {k : ℕ} (h : Answered s k) (hs : Inv s) {call : Call} {future : ℕ}
    (hhandled : Handled s s' (.call call future)) (hfault : s.worker.fault? = none)
    {outcome : Settlement Result} (hresults : s'.results = s.results.set future (some outcome))
    (hdispatched : s'.dispatched = s.dispatched ++ [(call, outcome)]) : Answered s' (k + 1) := by
  obtain ⟨rfl, hlt, hserved⟩ := h.serve hhandled hresults
  have hk := h.eq hfault
  have hlength : s'.dispatched.length = future + 1 := by
    rw [hdispatched, List.length_append, hk]
    rfl
  refine ⟨hserved, hlength.le, fun _ => hlength.symm, fun i d hi => ?_, fun i hi hik => ?_⟩
  · rw [hdispatched] at hi
    rw [hhandled.submitted, hresults]
    by_cases hlast : i = future
    · subst hlast
      rw [hk, List.getElem?_concat_length] at hi
      cases hi
      refine ⟨hs.payload call i ?_, List.getElem?_set_self hlt⟩
      rw [hhandled.ops]
      exact List.mem_cons_self
    · have hi' := (List.getElem?_eq_some_iff.mp hi).1
      rw [List.length_append, List.length_singleton] at hi'
      rw [List.getElem?_append_left (by omega)] at hi
      rw [List.getElem?_set_ne (Ne.symm hlast)]
      exact h.own i d hi
  · omega

/-- A call is given up for an exception. -/
theorem Answered.fail {k : ℕ} (h : Answered s k) {call : Call} {future : ℕ}
    (hhandled : Handled s s' (.call call future)) {e : Exn} (hfault : s.worker.fault? = some e)
    (hworker : s'.worker = s.worker)
    (hresults : s'.results = s.results.set future (some (.error e)))
    (hdispatched : s'.dispatched = s.dispatched) : Answered s' (k + 1) := by
  obtain ⟨rfl, hlt, hserved⟩ := h.serve hhandled hresults
  have hle := h.le
  refine ⟨hserved, ?_, fun hnone => ?_, fun i d hi => ?_, fun i hi hik => ?_⟩
  · rw [hdispatched]
    omega
  · rw [hworker, hfault] at hnone
    cases hnone
  · rw [hdispatched] at hi
    obtain ⟨hsubmitted, hresult⟩ := h.own i d hi
    have hi' := (List.getElem?_eq_some_iff.mp hi).1
    rw [hhandled.submitted, hresults, List.getElem?_set_ne (by omega)]
    exact ⟨hsubmitted, hresult⟩
  · rw [hdispatched] at hi
    rw [hworker, hresults]
    by_cases hlast : i = future
    · subst hlast
      exact ⟨e, hfault, List.getElem?_set_self hlt⟩
    · rw [List.getElem?_set_ne (Ne.symm hlast)]
      exact h.failed i hi (by omega)

theorem Handled.filterMap {op : StreamOp Call Timeout} (h : Handled s s' op)
    {f : StreamOp Call Timeout → Option ℕ} (hop : f op = none) :
    s.ops.filterMap f = s'.ops.filterMap f := by
  rw [h.ops, List.filterMap_cons_none hop]

/-- The operation of the worker is handled, and the worker goes on or fails. -/
theorem handled_of_handling (h : Inv s) {op : StreamOp Call Timeout}
    (hworker : s.worker = .handling op) (hqueue : s'.queue = s.queue)
    (hsubmitted : s'.submitted = s.submitted) (hclosed : s'.closed = s.closed)
    (hcurrent : s'.worker.current = []) (hended : s'.worker.isEnded = false) :
    Handled s s' op where
  ops := by
    rw [ops, ops, hworker, hqueue, hcurrent]
    rfl
  submitted := hsubmitted
  closed := hclosed
  dropLast := hqueue ▸ h.last
  stop hopen := hqueue ▸ h.stop (hclosed ▸ hopen)
  ended := hended

section Done

variable (h : Inv s)
include h

/-- The first operation, a call, is done with. -/
theorem inv_call {call : Call} {future : ℕ} (hhandled : Handled s s' (.call call future))
    (hcalls : ∃ k, Answered s' k) (hlength : s'.results.length = s.results.length)
    (hwaits : s'.waits = s.waits) (hsyncs : s'.syncs = s.syncs) : Inv s' := by
  refine inv_handled h hhandled hcalls ?_ ?_ hlength
  · rw [hwaits, ← hhandled.filterMap rfl]
    exact h.waits
  · rw [hsyncs, ← hhandled.filterMap rfl]
    exact h.syncs

variable (hdispatched : s'.dispatched = s.dispatched)
  (hfault : s'.worker.fault? = s.worker.fault? ∨ s.worker.fault? = none)
  (hresults : s'.results = s.results)
include hdispatched hfault hresults

/-- The first operation, which records an event, is done with. -/
theorem inv_record {event : ℕ} (hhandled : Handled s s' (.recordEvent event))
    (hwaits : s'.waits = s.waits) (hsyncs : s'.syncs = s.syncs) : Inv s' := by
  obtain ⟨k, hk⟩ := h.calls
  refine inv_handled h hhandled ⟨k, hk.handled hhandled rfl hresults hdispatched hfault⟩ ?_ ?_
    (congrArg List.length hresults)
  · rw [hwaits, ← hhandled.filterMap rfl]
    exact h.waits
  · rw [hsyncs, ← hhandled.filterMap rfl]
    exact h.syncs

/-- The first operation, which waits for an event, is done with, and its future is settled. -/
theorem inv_wait {event : ℕ} {timeout : Option Timeout} {future : ℕ}
    (hhandled : Handled s s' (.waitEvent event timeout future)) {outcome : Settlement Unit}
    (hwaits : s'.waits = s.waits.set future (some outcome)) (hsyncs : s'.syncs = s.syncs) :
    Inv s' := by
  obtain ⟨k, hk⟩ := h.calls
  obtain ⟨m, hm⟩ := h.waits
  refine inv_handled h hhandled ⟨k, hk.handled hhandled rfl hresults hdispatched hfault⟩
    ⟨m + 1, ?_⟩ ?_ (congrArg List.length hresults)
  · rw [hhandled.ops] at hm
    change Tickets.Served s.waits (future :: _) m at hm
    rw [hwaits]
    exact hm.serve outcome
  · rw [hsyncs, ← hhandled.filterMap rfl]
    exact h.syncs

/-- The first operation, at which a caller waits, is done with, and the caller goes on. -/
theorem inv_sync {evt : ℕ} (hhandled : Handled s s' (.sync evt)) (hwaits : s'.waits = s.waits)
    (hsyncs : s'.syncs = s.syncs.set evt (some ())) : Inv s' := by
  obtain ⟨k, hk⟩ := h.calls
  obtain ⟨n, hn⟩ := h.syncs
  refine inv_handled h hhandled ⟨k, hk.handled hhandled rfl hresults hdispatched hfault⟩ ?_
    ⟨n + 1, ?_⟩ (congrArg List.length hresults)
  · rw [hwaits, ← hhandled.filterMap rfl]
    exact h.waits
  · rw [hhandled.ops] at hn
    change Tickets.Served s.syncs (evt :: _) n at hn
    rw [hsyncs]
    exact hn.serve ()

end Done

theorem inv_handleOp (h : Inv s) {op : StreamOp Call Timeout} (hworker : s.worker = .handling op)
    {dispatched : Dispatched Result} {elapsed : Bool}
    (hattended : ∀ event timeout future, op = .waitEvent event (some timeout) future →
      s.events[event]? ≠ some true → clock.refused timeout = none)
    (hhandle : s.handleOp clock op dispatched elapsed = some s') : Inv s' := by
  have hfault : s.worker.fault? = none := by
    rw [hworker]
    rfl
  cases op with
  | call call future =>
    cases hhandle
    obtain ⟨k, hk⟩ := h.calls
    have hhandled : Handled s { s with
        results := s.results.set future (some dispatched.outcome)
        dispatched := s.dispatched ++ [(call, dispatched.outcome)]
        worker :=
          match dispatched with
          | .fatal e => .failing e
          | .returned _ | .raised _ => .idle } (.call call future) := by
      cases dispatched <;> exact handled_of_handling h hworker rfl rfl rfl rfl rfl
    exact inv_call h hhandled ⟨k + 1, hk.dispatch h hhandled hfault rfl rfl⟩ List.length_set rfl rfl
  | recordEvent event =>
    cases hhandle
    have hhandled : Handled s { s with events := s.events.set event true, worker := .idle }
        (.recordEvent event) := handled_of_handling h hworker rfl rfl rfl rfl rfl
    exact inv_record h rfl (Or.inr hfault) rfl hhandled rfl rfl
  | waitEvent event timeout future =>
    have hserve : ∀ outcome : Settlement Unit, s' = { s with
        waits := s.waits.set future (some outcome), worker := .idle } → Inv s' := by
      rintro outcome rfl
      have hhandled : Handled s { s with
          waits := s.waits.set future (some outcome), worker := .idle }
          (.waitEvent event timeout future) := handled_of_handling h hworker rfl rfl rfl rfl rfl
      exact inv_wait h rfl (Or.inr hfault) rfl hhandled rfl rfl
    by_cases hsignaled : s.events[event]? = some true
    · simp only [handleOp, if_pos hsignaled] at hhandle
      exact hserve _ (Option.some.inj hhandle).symm
    · simp only [handleOp, if_neg hsignaled] at hhandle
      rcases timeout with _ | timeout
      · cases hhandle
      · simp only [hattended event timeout future rfl hsignaled] at hhandle
        split_ifs at hhandle
        exact hserve _ (Option.some.inj hhandle).symm
  | sync evt =>
    cases hhandle
    have hhandled : Handled s { s with syncs := s.syncs.set evt (some ()), worker := .idle }
        (.sync evt) := handled_of_handling h hworker rfl rfl rfl rfl rfl
    exact inv_sync h rfl (Or.inr hfault) rfl hhandled rfl rfl

/-- An operation that is taken from the queue after an exception is done with. -/
theorem handled_of_failing (h : Inv s) {e : Exn} (hworker : s.worker = .failing e)
    {op : StreamOp Call Timeout} {queue : List (Option (StreamOp Call Timeout))}
    (hqueue : s.queue = some op :: queue) (hqueue' : s'.queue = queue)
    (hworker' : s'.worker = s.worker) (hsubmitted : s'.submitted = s.submitted)
    (hclosed : s'.closed = s.closed) : Handled s s' op := by
  refine ⟨?_, hsubmitted, hclosed, ?_, fun hopen hmem => ?_, ?_⟩
  · rw [ops, ops, hworker', hworker, hqueue', hqueue]
    rfl
  · have hlast := h.last
    rw [hqueue] at hlast
    rw [hqueue']
    exact not_mem_dropLast_of_cons hlast
  · rw [hqueue'] at hmem
    refine h.stop (hclosed ▸ hopen) ?_
    rw [hqueue]
    exact List.mem_cons_of_mem _ hmem
  · rw [hworker', hworker]
    rfl

/-- An operation is taken from the queue after an exception. -/
theorem inv_failOp (h : Inv s) {e : Exn} (hworker : s.worker = .failing e)
    {op : StreamOp Call Timeout} {queue : List (Option (StreamOp Call Timeout))}
    (hqueue : s.queue = some op :: queue) : Inv (failOp { s with queue } op e) := by
  have hfault : s.worker.fault? = some e := by
    rw [hworker]
    rfl
  cases op with
  | call call future =>
    obtain ⟨k, hk⟩ := h.calls
    have hcall : Handled s (failOp { s with queue } (.call call future) e) (.call call future) :=
      handled_of_failing h hworker hqueue rfl rfl rfl rfl
    exact inv_call h hcall ⟨k + 1, hk.fail hcall hfault rfl rfl rfl⟩ List.length_set rfl rfl
  | recordEvent event =>
    show Inv { s with queue }
    have hrecord : Handled s { s with queue } (.recordEvent event) :=
      handled_of_failing h hworker hqueue rfl rfl rfl rfl
    exact inv_record h rfl (Or.inl rfl) rfl hrecord rfl rfl
  | waitEvent event timeout future =>
    have hwait : Handled s (failOp { s with queue } (.waitEvent event timeout future) e)
        (.waitEvent event timeout future) := handled_of_failing h hworker hqueue rfl rfl rfl rfl
    exact inv_wait h rfl (Or.inl rfl) rfl hwait rfl rfl
  | sync evt =>
    have hsync : Handled s (failOp { s with queue } (.sync evt) e) (.sync evt) :=
      handled_of_failing h hworker hqueue rfl rfl rfl rfl
    exact inv_sync h rfl (Or.inl rfl) rfl hsync rfl rfl

/-- The worker ends, with no operation left. -/
theorem inv_ended (h : Inv s) {e : Exn} (hworker : s.worker = .failing e)
    (hqueue : s.queue = [] ∨ ∃ queue, s.queue = none :: queue) :
    Inv ({ s with queue := [], worker := .ended (some e) } : Stream Call Result Timeout) := by
  obtain ⟨k, hk⟩ := h.calls
  have hops : s.ops = [] := by
    rw [ops, hworker]
    rcases hqueue with hqueue | ⟨queue, hqueue⟩
    · rw [hqueue]
      rfl
    · rw [hqueue, h.eq_nil hqueue]
      rfl
  have hops' : ops ({ s with queue := [], worker := .ended (some e) } :
      Stream Call Result Timeout) = s.ops := hops.symm
  have hfault : s.worker.fault? = some e := by
    rw [hworker]
    rfl
  refine ⟨⟨k, hk.congr (by rw [hops']) rfl rfl rfl (Or.inl hfault.symm)⟩, hops'.symm ▸ h.waits,
    hops'.symm ▸ h.syncs, hops'.symm ▸ h.payload, h.length, List.not_mem_nil,
    fun _ => List.not_mem_nil, fun _ op hop => ?_⟩
  rw [hops', hops] at hop
  cases hop

theorem inv_failRemaining (h : Inv s) (hfail : s.failRemaining = some s') : Inv s' := by
  rw [failRemaining] at hfail
  split at hfail
  · next e op queue hworker hqueue =>
    cases hfail
    exact inv_failOp h hworker hqueue
  · next e queue hworker hqueue =>
    cases hfail
    obtain rfl := h.eq_nil hqueue
    exact inv_ended h hworker (Or.inr ⟨[], hqueue⟩)
  · next e hworker hqueue =>
    cases hfail
    have hend := inv_ended h hworker (Or.inl hqueue)
    rw [← hqueue] at hend
    exact hend
  · cases hfail

/-! ### Runs -/

theorem whenOpen_cases {t : Stream Call Result Timeout} (h : s.whenOpen buffer t = some s') :
    s' = s ∨ s.closed = false ∧ s' = t := by
  rw [whenOpen] at h
  split_ifs at h with hclosed hroom
  · exact Or.inl (Option.some.inj h).symm
  · exact Or.inr ⟨eq_false_of_ne_true hclosed, (Option.some.inj h).symm⟩

theorem inv_step (h : Inv s) {e : WorkerEvent Call Result Timeout}
    (hstep : s.step clock buffer e = some s') (hattended : Attended clock s e s') : Inv s' := by
  cases e with
  | submit call =>
    rcases whenOpen_cases hstep with rfl | ⟨hopen, rfl⟩
    · exact h
    · exact inv_submit h hopen (hattended hopen) call
  | waitEvent event timeout =>
    rcases whenOpen_cases hstep with rfl | ⟨hopen, rfl⟩
    · exact h
    · exact inv_waitEvent h hopen (hattended hopen) event timeout
  | recordEvent =>
    rcases whenOpen_cases hstep with rfl | ⟨hopen, rfl⟩
    · exact h
    · exact inv_recordEvent h hopen
  | synchronize =>
    rcases whenOpen_cases hstep with rfl | ⟨hopen, rfl⟩
    · exact h
    · exact inv_synchronize h hopen (hattended hopen)
  | exit =>
    rcases whenOpen_cases hstep with rfl | ⟨hopen, rfl⟩
    · exact h
    · exact inv_exit h hopen
  | get => exact inv_get h hstep
  | handle dispatched elapsed =>
    rw [step, handle] at hstep
    split at hstep
    · next op hworker =>
      refine inv_handleOp h hworker (fun event timeout future hop => ?_) hstep
      exact hattended event timeout future (hop ▸ hworker)
    · cases hstep
  | fail => exact inv_failRemaining h hstep
  | foreign | signal =>
    cases hstep
    exact inv_events h _

/-- **Streams leave no one waiting.** In a run in which no operation is put into the queue of a
worker that has ended and no wait raises, the calls are dispatched in their order, each future has
what has become of its call, and no one waits once the stream is closed and the worker has ended. -/
theorem settled_of_attended (clock : TimeoutClock Timeout) (buffer : ℤ)
    (events : List (WorkerEvent Call Result Timeout))
    (h : Events.Along (step clock buffer) (Attended clock) start events) :
    Events.Along (step clock buffer) Settled start events := by
  have hinv : ∀ (s : Stream Call Result Timeout) e s', Inv s → step clock buffer s e = some s' →
      Attended clock s e s' → Inv s' ∧ Settled s e s' := by
    intro s e s' hs hstep hattended
    have hs' := inv_step hs hstep hattended
    exact ⟨hs', hs'.settled e⟩
  exact Events.along_of_invariant hinv inv_start h

/-! ### A call after the worker has ended -/

/-- Timeouts in seconds, which can all be waited for. -/
def sampleClock : TimeoutClock ℕ := ⟨fun _ => none, toString⟩

/-- A dispatch is interrupted, another call is submitted when the worker has ended, and the stream
is closed. -/
def submittedLate : List (WorkerEvent String String ℕ) :=
  [.submit "run", .get, .handle (.fatal (.other "KeyboardInterrupt" "")) false, .fail,
    .submit "list", .exit]

/-- The future of the second call is never done. -/
theorem not_settled : ¬ Events.Along (step sampleClock 0) Settled start submittedLate := by
  intro h
  have hlast := ((((((h _ rfl).2 _ rfl).2 _ rfl).2 _ rfl).2 _ rfl).2 _ rfl).1
  have hreleased := (hlast.released rfl rfl).1
  exact hreleased none (List.mem_cons_of_mem _ List.mem_cons_self) rfl

/-- A call that waits while a dispatch is interrupted. -/
theorem settled_interrupted : Events.Along (step sampleClock 0) Settled
    (start : Stream String String ℕ) [.submit "run", .submit "list", .get,
      .handle (.fatal (.other "KeyboardInterrupt" "")) false, .fail, .fail, .exit] := by
  refine settled_of_attended sampleClock 0 _ fun s₁ h₁ => ⟨fun _ => ?_, ?_⟩
  · rfl
  cases h₁
  refine fun s₂ h₂ => ⟨fun _ => rfl, ?_⟩
  cases h₂
  refine fun s₃ h₃ => ⟨trivial, ?_⟩
  cases h₃
  refine fun s₄ h₄ => ⟨fun _ _ _ h => (by cases h), ?_⟩
  cases h₄
  exact fun s₅ h₅ => ⟨trivial, fun s₆ h₆ => ⟨trivial, fun s₇ h₇ => ⟨trivial, trivial⟩⟩⟩

end Stream

end OpenRath
