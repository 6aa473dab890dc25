import OpenRath.Runtime.Local
import OpenRath.Runtime.Sqlite.Interrupts

/-!
# Questions and decisions

A handler that calls `StepContext.interrupt` suspends its run. When the run is resumed, the step is
executed again from its start, and the call has to find the interrupt it created before. It looks
for one of the run that was created by the same node before the same checkpoint, and takes the
first; what was asked is not compared. A second question of a step, or one that is asked when a node
without checkpoint is visited again, is therefore answered by the decision on the first.

If all interrupts created at a position ask one question, the decision that a call returns was made
on that question.

## Main definitions

* `Question`: a call of `StepContext.interrupt` at its position.
* `World.AsksOther`: an interrupt has come up at the position of a question that asks another.

## Main results

* `decision_answers`: along every run without such interrupts, a decision answers the question.
* `question_mistaken`: a run in which the second question of a step is answered by the decision on
  the first.
-/

namespace OpenRath

open Process

/-- A question that a handler asks, at its position in a run. -/
structure Question where
  run : Run
  node : NodeSpec
  sequence : ℕ
  kind : InterruptKind
  request : JsonObject

namespace Question

variable (q : Question)

/-- The request as it is recorded, with the position. -/
def recorded : JsonObject :=
  (q.request.set "_openrath_node_id" (.str q.node.id)).set "_openrath_checkpoint_sequence"
    (.int q.sequence)

/-- An interrupt that asks the question. -/
def AskedBy (k : Interrupt) : Prop := k.kind = q.kind ∧ k.request = q.recorded

instance : DecidablePred q.AskedBy := fun _ => inferInstanceAs (Decidable (_ ∧ _))

/-- The call of `StepContext.interrupt`. -/
def ask (timeoutSeconds : Option Seconds) : Process ApprovalDecision :=
  requestInterrupt q.run q.node q.sequence q.kind q.request timeoutSeconds

end Question

/-- An interrupt has come up at the position of a question, which asks another one. -/
def World.AsksOther (q : Question) (w w' : World) : Prop :=
  ∃ k ∈ w'.db.interrupts.rows, w.db.interrupts.find? k.id = none ∧
    Interrupt.Belongs q.run q.node q.sequence k ∧ ¬ q.AskedBy k

instance (q : Question) (w w' : World) : Decidable (w.AsksOther q w') :=
  inferInstanceAs (Decidable (∃ _ ∈ _, _))

/-! ### The interrupts at a position -/

/-- The interrupts at the position of a question ask it. -/
def World.AsksOnly (q : Question) (w : World) : Prop :=
  ∀ k ∈ w.db.interrupts.rows, Interrupt.Belongs q.run q.node q.sequence k → q.AskedBy k

/-- A command leaves what an interrupt asks as it is. -/
theorem World.AsksOnly.exec {sha : Sha256} {q : Question} {w : World} {c : Cmd} {i : Input}
    (h : w.AsksOnly q) (hother : ¬ w.AsksOther q (World.exec sha c i w).2) :
    (World.exec sha c i w).2.AsksOnly q := by
  cases c with
  | store op =>
    intro k' hk' hbelongs
    have hfind' := Table.find?_of_mem hk'
    rcases hfind : w.db.interrupts.find? k'.id with _ | k
    · by_contra hasked
      exact hother ⟨k', hk', hfind, hbelongs, hasked⟩
    · obtain ⟨k₁, hk₁, hsettles⟩ := SQLite.settles_perform sha ⟨op, i.clock⟩ hfind
      cases hfind'.symm.trans hk₁
      obtain ⟨-, hrun, hkind, hrequest⟩ := hsettles.kept
      obtain ⟨hrun', hnode, hsequence⟩ := hbelongs
      have hasked := h k (Table.mem_of_find? hfind)
        ⟨hrun ▸ hrun', hrequest ▸ hnode, hrequest ▸ hsequence⟩
      exact ⟨hkind.trans hasked.1, hrequest.trans hasked.2⟩
  | ledger | now | uuid4 | elapsed | startTool | observe | context => exact h

/-! ### Answers -/

/-- A process that begins with an operation of the store goes on with its answer. -/
theorem Process.next_store_bind {sha : Sha256} (op : Op) {α : Type} {f : op.Result → Process α}
    {i : Input} {w : World} {a : op.Result} (h : (World.exec sha (.store op) i w).1 = .ok a) :
    ((Process.store op >>= f).next (World.exec sha) i w).1 = f a := by
  show Proc.bind (.ofExcept (Except.mapError Exn.store _)) f = f a
  rw [h]
  rfl

/-- A call that returns a decision has found it on an interrupt at its position. -/
theorem Question.exists_of_ask {sha : Sha256} {q : Question} {timeoutSeconds : Option Seconds}
    {i : Input} {w : World} {d : ApprovalDecision}
    (h : ((q.ask timeoutSeconds).next (World.exec sha) i w).1 = .ret d) :
    ∃ k ∈ w.db.interrupts.rows, Interrupt.Belongs q.run q.node q.sequence k ∧
      ∃ decidedAt, k.decision = some (d, decidedAt) := by
  have h := (Process.next_store_bind (.listInterrupts q.run.tenantId false) rfl).symm.trans h
  split at h
  · rename_i k hfound
    have hk := List.mem_of_find?_eq_some hfound
    rw [List.mem_insertionSort] at hk
    refine ⟨k, (List.mem_filter.mp hk).1, by simpa using List.find?_some hfound, ?_⟩
    split at h
    · cases h
    · rename_i decision decidedAt hdecision
      cases h
      exact ⟨decidedAt, hdecision⟩
  · -- Without an interrupt the call raises, or goes on with further commands.
    unfold Proc.throwUnless at h
    split_ifs at h
    · cases h
    · cases h

/-- **Decisions answer questions.** Along every run of a system of processes from a store without
interrupts, in which no interrupt comes up at the position of a question that asks another one, a
call that returns a decision has found it on an interrupt of the same run and node that asks the
same question. -/
theorem decision_answers (sha : Sha256) {α : Type} {x : Pool Cmd Cmd.Answer Exn α World}
    (hx : x.state.db.interrupts = .empty) (schedule : List (ℕ × Input)) (q : Question)
    (hasked : x.Along (World.exec sha)
      (fun y l => ¬ y.state.AsksOther q (y.step (World.exec sha) l).state) schedule)
    (timeoutSeconds : Option Seconds) (i : Input) (d : ApprovalDecision)
    (hanswer : ((q.ask timeoutSeconds).next (World.exec sha) i
      (x.run (World.exec sha) schedule).state).1 = .ret d) :
    ∃ k ∈ (x.run (World.exec sha) schedule).state.db.interrupts.rows,
      Interrupt.Belongs q.run q.node q.sequence k ∧ q.AskedBy k ∧
      ∃ decidedAt, k.decision = some (d, decidedAt) := by
  have hstart : x.state.AsksOnly q := by
    intro k hk
    rw [hx] at hk
    cases hk
  have honly : (x.run (World.exec sha) schedule).state.AsksOnly q := by
    refine hasked.invariant (fun y l hy hother => ?_) hstart
    rcases y.step_state_cases (World.exec sha) l with hsame | ⟨c, k, -, hexec⟩
    · rwa [hsame]
    · rw [hexec] at hother ⊢
      exact hy.exec hother
  obtain ⟨k, hk, hbelongs, hdecision⟩ := Question.exists_of_ask hanswer
  exact ⟨k, hk, hbelongs, honly k hk hbelongs, hdecision⟩

namespace Sample

/-- The questions of the sample workflow. -/
def questionOf (prompt : String) : Question where
  run := run
  node := ⟨"first", .step, false, 1, none, true, [], first_not_blank, first_pos⟩
  sequence := 1
  kind := .approval
  request := [("prompt", .str prompt)]

/-- A handler that asks for a list of decisions. -/
def asks (state : JsonObject) : List String → Script
  | [] => .ret (.returns (.ok .null) state)
  | prompt :: prompts => .call (.interrupt .approval (questionOf prompt).request none) fun r =>
    match (r : Except Exn ApprovalDecision) with
    | .ok _ => asks state prompts
    | .error e => .ret (.raises e state)

/-- A worker whose workflow asks for a list of decisions in its step. -/
def asker (prompts : List String) : LocalRuntime :=
  { runtime none with
    registrations := fun id => if id = run.planId then
      some { registration none with handler := fun _ _ state => asks state prompts } else none }

/-- An approval. -/
def approval : ApprovalDecision :=
  ⟨.approve, "operator", "looks fine", [], by decide, by decide⟩

/-- Two workers that ask for decisions, and an operator who approves what the first has asked; the
run is created. -/
def interview (prompts : List String) : Pool Cmd Cmd.Answer Exn (Option Run) World where
  state := ⟨SQLite.after sha [⟨.createRun run, clock 0⟩], .empty, [], .empty⟩
  procs := [
    (asker prompts).workOnce 2 "first" (.finite 30) none none,
    do let _ ← store (.decideInterrupt (input 2).uuid approval 2); pure none,
    (asker prompts).workOnce 2 "second" (.finite 30) none none]

/-- The first worker suspends the run, and the second resumes it after the approval. -/
def resumed : List (ℕ × Input) :=
  List.replicate 14 (0, input 2) ++ [(1, input 3)] ++ List.replicate 10 (2, input 4)

end Sample

/-- The approval that a resumed step finds was made on its question. -/
theorem decision_answers_sample : ∃ k ∈ ((Sample.interview ["charge the card?"]).run
      (World.exec Sample.sha) Sample.resumed).state.db.interrupts.rows,
    Interrupt.Belongs Sample.run (Sample.questionOf "charge the card?").node 1 k ∧
      (Sample.questionOf "charge the card?").AskedBy k ∧
      ∃ decidedAt, k.decision = some (Sample.approval, decidedAt) :=
  decision_answers Sample.sha (x := Sample.interview ["charge the card?"]) (by decide +kernel)
    Sample.resumed (Sample.questionOf "charge the card?") (by decide +kernel) none
    (Sample.input 4) Sample.approval (Proc.eq_ret_of_result? (by decide +kernel))

/-- **A mistaken question.** The second question of the step is answered by the approval of the
first, though no interrupt asks it, and the run goes on to its end. -/
theorem question_mistaken :
    let y := (Sample.interview ["charge the card?", "delete the account?"]).run
      (World.exec Sample.sha) Sample.resumed
    (((Sample.questionOf "delete the account?").ask none).next (World.exec Sample.sha)
      (Sample.input 4) y.state).1.result? = some Sample.approval ∧
    (∀ k ∈ y.state.db.interrupts.rows,
      ¬ (Sample.questionOf "delete the account?").AskedBy k) ∧
    ∃ row ∈ (y.run (World.exec Sample.sha)
      (List.replicate 6 (2, Sample.input 4))).state.db.runs.find? Sample.run.id,
      row.status = .succeeded := by
  decide +kernel

end OpenRath
