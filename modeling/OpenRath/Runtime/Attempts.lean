import OpenRath.Library.Notes
import OpenRath.Runtime.Local

/-!
# The state that an attempt starts from

All attempts of a step are handed one dictionary, so an attempt starts from the state as the failed
ones have left it. A run that another worker claims after a crash starts the step from the state of
the checkpoint. The attempts here are written a second time, with a note of the state that each is
called with, and a third time as they are meant: every attempt is called with the state at the entry
of the step.

## Main definitions

* `StepExecutor.executeNoted`: the attempts, with the states they are called with.
* `StepExecutor.executeAfresh`: the attempts that start from the state at the entry.
* `StepExecutor.Restores`: a failed attempt has left the state as it was.

## Main results

* `StepExecutor.forget_executeNoted`: the attempts without the notes.
* `StepExecutor.attempts_alike_iff`: the attempts start from the state at the entry exactly if a
  failed one leaves it as it was.
-/

namespace OpenRath

open Process

/-- The attempts of a step, with notes of states. -/
abbrev NotedProcess (α : Type) : Type := Proc.Noted Cmd Cmd.Answer JsonObject Exn α

namespace StepExecutor

variable (x : StepExecutor) (run : Run) (node : NodeSpec) (sequence : ℕ)
  (handler : JsonObject → Script)

/-- `StepExecutor.execute`, with a note of every state that the handler is called with. -/
def executeNoted : (left number : ℕ) → JsonObject → NotedProcess (Except Exn Json × JsonObject)
  | 0, number, state => do
    Proc.note state
    match ← (x.attempt run node sequence (handler state)).unnoted with
    | .ok result => pure result
    | .error (e, _) =>
      (recordAttempt run node number e).unnoted
      .throw e
  | left + 1, number, state => do
    Proc.note state
    match ← (x.attempt run node sequence (handler state)).unnoted with
    | .ok result => pure result
    | .error (e, state') =>
      (recordAttempt run node number e).unnoted
      executeNoted left (number + 1) state'

/-- The attempts, each of which is called with the state at the entry. -/
def executeAfresh (state : JsonObject) :
    (left number : ℕ) → Process (Except Exn Json × JsonObject)
  | 0, number => do
    match ← x.attempt run node sequence (handler state) with
    | .ok result => pure result
    | .error (e, _) =>
      recordAttempt run node number e
      .throw e
  | left + 1, number => do
    match ← x.attempt run node sequence (handler state) with
    | .ok result => pure result
    | .error (e, _) =>
      recordAttempt run node number e
      executeAfresh state left (number + 1)

/-- If an attempt has failed and may be followed by another one, it has left the state as it
was. -/
def Restores (state : JsonObject) :
    Except (Exn × JsonObject) (Except Exn Json × JsonObject) → Prop
  | .error (.suspended _, _) => True
  | .error (_, state') => state' = state
  | .ok _ => True

/-- The notes do not change what the attempts do. -/
theorem forget_executeNoted (left number : ℕ) (state : JsonObject) :
    (x.executeNoted run node sequence handler left number state).forget =
      x.execute run node sequence handler left number state := by
  induction left generalizing number state with
  | zero =>
    rw [executeNoted, execute]
    simp only [Proc.bind_eq, Proc.forget_bind, Proc.forget_note, Proc.ret_bind,
      Proc.forget_unnoted]
    refine congrArg (Proc.bind _) (funext fun r => ?_)
    rcases r with ⟨e, state'⟩ | result
    · rw [Proc.forget_bind, Proc.forget_unnoted]
      rfl
    · rfl
  | succ left ih =>
    rw [executeNoted, execute]
    simp only [Proc.bind_eq, Proc.forget_bind, Proc.forget_note, Proc.ret_bind,
      Proc.forget_unnoted]
    refine congrArg (Proc.bind _) (funext fun r => ?_)
    rcases r with ⟨e, state'⟩ | result
    · rw [Proc.forget_bind, Proc.forget_unnoted]
      exact congrArg (Proc.bind _) (funext fun _ => ih (number + 1) state')
    · rfl

/-- After the record of an attempt, the executor goes on unless the attempt was suspended. -/
theorem returns_recordAttempt {number : ℕ} {e : Exn} {P : Unit → Prop} :
    (recordAttempt run node number e).Returns P ↔ (∀ message, e ≠ .suspended message) → P () := by
  cases e with
  | suspended message => exact iff_of_true trivial fun h => absurd rfl (h message)
  | store | ledger | schema | deadlineExceeded | timeout | other =>
    rw [imp_iff_right fun _ h => by cases h]
    constructor
    · intro h
      exact h (.ok ⟨run.id, 0, "", [], run.createdAt⟩)
    · rintro h (_ | _)
      · trivial
      · exact h

/-- What may follow an attempt: the next one, if it failed and was not suspended. -/
theorem restores_iff {state : JsonObject}
    {r : Except (Exn × JsonObject) (Except Exn Json × JsonObject)} :
    Restores state r ↔ ∀ e state', r = .error (e, state') →
      (∀ message, e ≠ .suspended message) → state' = state := by
  rcases r with ⟨e, state'⟩ | result
  · cases e with
    | suspended message =>
      refine iff_of_true trivial ?_
      rintro _ _ ⟨⟩ h
      exact absurd rfl (h message)
    | store | ledger | schema | deadlineExceeded | timeout | other =>
      constructor
      · rintro h _ _ ⟨⟩ -
        exact h
      · intro h
        exact h _ _ rfl fun _ h' => by cases h'
  · exact iff_of_true trivial fun _ _ h => by cases h

/-! ### The states that the attempts are called with -/

section Attempts

variable {x run node sequence handler} {state : JsonObject}

/-- The only attempt of a step. -/
theorem notes_executeNoted_zero (number : ℕ) :
    (x.executeNoted run node sequence handler 0 number state).Notes (· = state) := by
  rw [executeNoted]
  refine Proc.notes_note_bind.mpr ⟨rfl, Proc.notes_unnoted_bind.mpr ?_⟩
  refine Proc.returns_of_forall (fun r => ?_) _
  rcases r with ⟨e, state'⟩ | result
  · exact Proc.notes_unnoted_bind.mpr ((returns_recordAttempt ..).mpr fun _ => trivial)
  · trivial

/-- The notes of the attempts, when a failed attempt leaves the state as it was. -/
theorem notes_executeNoted
    (h : (x.attempt run node sequence (handler state)).Returns (Restores state))
    (left number : ℕ) :
    (x.executeNoted run node sequence handler left number state).Notes (· = state) := by
  induction left generalizing number with
  | zero => exact notes_executeNoted_zero number
  | succ left ih =>
    rw [executeNoted]
    refine Proc.notes_note_bind.mpr ⟨rfl, Proc.notes_unnoted_bind.mpr (h.imp fun r hr => ?_)⟩
    rcases r with ⟨e, state'⟩ | result
    · refine Proc.notes_unnoted_bind.mpr ((returns_recordAttempt ..).mpr fun he => ?_)
      rw [restores_iff.mp hr e state' rfl he]
      exact ih (number + 1)
    · trivial

/-- The first attempt is called with the state it is given. -/
theorem eq_of_notes {left number : ℕ} {state' : JsonObject}
    (h : (x.executeNoted run node sequence handler left number state').Notes (· = state)) :
    state' = state := by
  cases left with
  | zero =>
    rw [executeNoted] at h
    exact (Proc.notes_note_bind.mp h).1
  | succ left =>
    rw [executeNoted] at h
    exact (Proc.notes_note_bind.mp h).1

/-- A failed attempt that another one may follow leaves the state as the next one is called with
it. -/
theorem restores_of_notes {left number : ℕ}
    (h : (x.executeNoted run node sequence handler (left + 1) number state).Notes (· = state)) :
    (x.attempt run node sequence (handler state)).Returns (Restores state) := by
  rw [executeNoted] at h
  refine (Proc.notes_unnoted_bind.mp (Proc.notes_note_bind.mp h).2).imp fun r hr => ?_
  refine restores_iff.mpr ?_
  rintro e state' rfl he
  exact eq_of_notes ((returns_recordAttempt ..).mp (Proc.notes_unnoted_bind.mp hr) he)

theorem execute_zero_eq_executeAfresh (number : ℕ) :
    x.execute run node sequence handler 0 number state =
      x.executeAfresh run node sequence handler state 0 number := by
  rewrite [execute, executeAfresh]
  refine Proc.Returns.bind_congr (Proc.returns_of_forall (fun r => ?_) _)
  rcases r with ⟨e, state'⟩ | result
  · rfl
  · rfl

/-- The attempts do what they are meant to do, when a failed one leaves the state as it was. -/
theorem execute_eq_executeAfresh
    (h : (x.attempt run node sequence (handler state)).Returns (Restores state))
    (left number : ℕ) :
    x.execute run node sequence handler left number state =
      x.executeAfresh run node sequence handler state left number := by
  induction left generalizing number with
  | zero => exact execute_zero_eq_executeAfresh number
  | succ left ih =>
    rw [execute, executeAfresh]
    refine Proc.Returns.bind_congr (h.imp fun r hr => ?_)
    rcases r with ⟨e, state'⟩ | result
    · refine Proc.Returns.bind_congr ((returns_recordAttempt ..).mpr fun he => ?_)
      rw [restores_iff.mp hr e state' rfl he]
      exact ih (number + 1)
    · rfl

end Attempts

/-- **Retries from the state at the entry.** The notes are of the states that `execute` calls the
handler with. All of them are the state at the entry, and the attempts are those that start from it
afresh, if and only if the step has one attempt or every attempt on that state that fails, and is
not suspended, leaves the state as it was. -/
theorem attempts_alike_iff (left number : ℕ) (state : JsonObject) :
    (x.executeNoted run node sequence handler left number state).forget =
      x.execute run node sequence handler left number state ∧
    ((x.executeNoted run node sequence handler left number state).Notes (· = state) ∧
        x.execute run node sequence handler left number state =
          x.executeAfresh run node sequence handler state left number ↔
      left = 0 ∨ (x.attempt run node sequence (handler state)).Returns (Restores state)) := by
  refine ⟨x.forget_executeNoted run node sequence handler left number state, ?_, ?_⟩
  · rintro ⟨hnotes, -⟩
    cases left with
    | zero => exact Or.inl rfl
    | succ left => exact Or.inr (restores_of_notes hnotes)
  · rintro (rfl | h)
    · exact ⟨notes_executeNoted_zero number, execute_zero_eq_executeAfresh number⟩
    · exact ⟨notes_executeNoted h left number, execute_eq_executeAfresh h left number⟩

end StepExecutor

/-! ### A sample -/

namespace Sample

theorem two_pos : 1 ≤ 2 := by decide

/-- A node whose step may be attempted twice. -/
def retriedNode : NodeSpec :=
  ⟨"first", .step, false, 2, none, true, [], first_not_blank, two_pos⟩

/-- A count of `n`. -/
def counted (n : ℤ) : JsonObject := [("n", .int n)]

/-- A handler that counts from zero to one and then raises, and is content with any other count. -/
def counting (state : JsonObject) : Script :=
  if state = counted 0 then .ret (.raises (.other "RuntimeError" "") (counted 1))
  else .ret (.returns (.ok .null) state)

/-- The execution of a step of the sample workflow. -/
def executor : StepExecutor := (runtime none).steps

end Sample

namespace StepExecutor

/-- The second attempt is called with the count of the first one, and that count is checkpointed;
attempts that start afresh never return. -/
theorem second_attempt_counted :
    ¬ (Sample.executor.executeNoted Sample.run Sample.retriedNode 1 Sample.counting 1 1
        (Sample.counted 0)).Notes (· = Sample.counted 0) ∧
    ¬ (Sample.executor.execute Sample.run Sample.retriedNode 1 Sample.counting 1 1
        (Sample.counted 0)).Returns (fun r => r ≠ (.ok .null, Sample.counted 1)) ∧
    (Sample.executor.executeAfresh Sample.run Sample.retriedNode 1 Sample.counting
        (Sample.counted 0) 1 1).Returns fun _ => False := by
  refine ⟨fun h => ?_, fun h => ?_, fun r => ?_⟩
  · have hone : Sample.counted 1 = Sample.counted 0 := restores_of_notes h
    exact absurd hone (by decide)
  · exact h (.ok ⟨Sample.run.id, 0, "", [], Sample.run.createdAt⟩) rfl
  · rcases r with e | event
    · trivial
    · rintro (e | event)
      · trivial
      · trivial

end StepExecutor

end OpenRath
