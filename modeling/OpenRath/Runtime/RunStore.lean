import OpenRath.Runtime.RunMachine

/-!
# The interface of a run store

The operations of the protocol `RunStore` (`src/rath/runtime/store.py`) as data, with the type of
the result of each, and what each of them may do to a run when it returns. Both stores are
interpretations of this interface.

## Main definitions

* `Op`, `Op.Result`: the operations and their results.
* `Op.Does`: the actions of a run that an operation with a given result may stand for;
  `Op.Causes`: the same without the result and the run.
* `Call`: an operation together with the readings of the clock it makes.
* `ActsOn`, `Takes`: a write of one run that leaves the others alone.
-/

namespace OpenRath

/-- The operations of a run store. -/
inductive Op
  | createRun (run : Run)
  | getRun (runId : UUID)
  | listRuns (tenantId : String) (after : Option UUID) (limit : Option ℤ)
      (sessionId : Option UUID) (statuses : List RunStatus)
  | countRuns (status : RunStatus) (tenantId : Option String)
  | transitionRun (runId : UUID) (expectedVersion : ℤ) (target : RunStatus)
      (state : Option JsonObject) (nextNodes : Option (List String))
  | listRunEvents (runId : UUID) (afterSequence : ℤ) (limit : Option ℤ)
  | appendRunEvent (runId : UUID) (type : String) (data : JsonObject)
  | appendCheckpoint (checkpoint : Checkpoint)
  | latestCheckpoint (runId : UUID)
  | listCheckpoints (runId : UUID)
  | commitCheckpoint (checkpoint : Checkpoint) (workerId : String) (fencingToken : ℤ)
      (expectedRunVersion : ℤ)
  | finishClaim (runId : UUID) (workerId : String) (fencingToken : ℤ)
      (expectedRunVersion : ℤ) (target : RunStatus) (eventType : String)
      (eventData : Option JsonObject)
  | createInterrupt (interrupt : Interrupt) (expectedRunVersion : ℤ)
  | getInterrupt (interruptId : UUID)
  | listInterrupts (tenantId : String) (pendingOnly : Bool)
  | expireInterrupts (now : Option Datetime)
  | decideInterrupt (interruptId : UUID) (decision : ApprovalDecision)
      (expectedRunVersion : ℤ)
  | claimNext (workerId : String) (leaseSeconds : Seconds) (now : Option Datetime)
  | renewLease (runId : UUID) (workerId : String) (fencingToken : ℤ) (leaseSeconds : Seconds)
      (now : Option Datetime)
  | assertFencingToken (runId : UUID) (workerId : String) (fencingToken : ℤ)
  | requeueExpiredLeases (now : Option Datetime)

namespace Op

/-- The type of what an operation returns. -/
def Result : Op → Type
  | createRun _ | getRun _ | transitionRun _ _ _ _ _ | commitCheckpoint _ _ _ _
  | finishClaim _ _ _ _ _ _ _ | createInterrupt _ _ | decideInterrupt _ _ _ => Run
  | listRuns _ _ _ _ _ => List Run
  | countRuns _ _ => ℕ
  | listRunEvents _ _ _ => List RunEvent
  | appendRunEvent _ _ _ => RunEvent
  | appendCheckpoint _ | assertFencingToken _ _ _ => Unit
  | latestCheckpoint _ => Option Checkpoint
  | listCheckpoints _ => List Checkpoint
  | getInterrupt _ => Interrupt
  | listInterrupts _ _ => List Interrupt
  | expireInterrupts _ | requeueExpiredLeases _ => List UUID
  | claimNext _ _ _ => Option ClaimedRun
  | renewLease _ _ _ _ _ => ResourceLease

instance : (op : Op) → DecidableEq op.Result
  | createRun _ | getRun _ | transitionRun _ _ _ _ _ | commitCheckpoint _ _ _ _
  | finishClaim _ _ _ _ _ _ _ | createInterrupt _ _ | decideInterrupt _ _ _ =>
    inferInstanceAs (DecidableEq Run)
  | listRuns _ _ _ _ _ => inferInstanceAs (DecidableEq (List Run))
  | countRuns _ _ => inferInstanceAs (DecidableEq ℕ)
  | listRunEvents _ _ _ => inferInstanceAs (DecidableEq (List RunEvent))
  | appendRunEvent _ _ _ => inferInstanceAs (DecidableEq RunEvent)
  | appendCheckpoint _ | assertFencingToken _ _ _ => inferInstanceAs (DecidableEq Unit)
  | latestCheckpoint _ => inferInstanceAs (DecidableEq (Option Checkpoint))
  | listCheckpoints _ => inferInstanceAs (DecidableEq (List Checkpoint))
  | getInterrupt _ => inferInstanceAs (DecidableEq Interrupt)
  | listInterrupts _ _ => inferInstanceAs (DecidableEq (List Interrupt))
  | expireInterrupts _ | requeueExpiredLeases _ => inferInstanceAs (DecidableEq (List UUID))
  | claimNext _ _ _ => inferInstanceAs (DecidableEq (Option ClaimedRun))
  | renewLease _ _ _ _ _ => inferInstanceAs (DecidableEq ResourceLease)

/-- An action on the run `k`, seen from the run `i`: other runs stay as they are. -/
def only (k : UUID) (a : RunAction) (i : UUID) : RunAction := if i = k then a else .stay

theorem eq_of_only_ne_stay {k i : UUID} {a b : RunAction} (h : b = only k a i)
    (hb : b ≠ .stay) : i = k ∧ b = a := by
  rw [only] at h
  split_ifs at h with hi
  · exact ⟨hi, h⟩
  · exact absurd h hb

/-- The actions on the run `i` that an operation may stand for when it returns a result. -/
def Does : (op : Op) → op.Result → UUID → RunAction → Prop
  | createRun run, r, i, a => a = .stay ∨ r = run ∧ a = only run.id (.create run) i
  | transitionRun k _ target state nextNodes, _, i, a =>
    a = only k (.transition target state nextNodes) i
  | appendRunEvent k _ _, _, i, a => a = only k .logEvent i
  | appendCheckpoint k, _, i, a => a = only k.runId .appendCheckpoint i
  | commitCheckpoint k _ _ _, _, i, a => a = only k.runId (.commit k) i
  | finishClaim k _ _ _ target _ _, _, i, a => a = only k (.finish target) i
  | createInterrupt k _, _, i, a => a = only k.runId .interrupt i
  | decideInterrupt _ _ _, run, i, a => a = only (Run.id run) .decide i
  | expireInterrupts _, _, _, a => a = .stay ∨ a = .expire
  | claimNext _ _ _, none, _, a => a = .stay
  | claimNext _ _ _, some claimed, i, a =>
    a = only claimed.run.id (.claim claimed.lease.fencingToken) i
  | renewLease k _ _ _ _, _, i, a => a = only k .renew i
  | requeueExpiredLeases _, ids, i, a =>
    a = .requeue ∧ List.Mem i ids ∨ (a = .stay ∨ a = .release) ∧ ¬ List.Mem i ids
  | getRun _, _, _, a | listRuns _ _ _ _ _, _, _, a | countRuns _ _, _, _, a
  | listRunEvents _ _ _, _, _, a | latestCheckpoint _, _, _, a | listCheckpoints _, _, _, a
  | getInterrupt _, _, _, a | listInterrupts _ _, _, _, a | assertFencingToken _ _ _, _, _, a =>
    a = .stay

/-- The action an operation has on the runs it concerns. -/
inductive Causes : Op → RunAction → Prop
  | stay (op : Op) : Causes op .stay
  | createRun (run : Run) : Causes (createRun run) (.create run)
  | transitionRun (k : UUID) (v : ℤ) (target : RunStatus) (state : Option JsonObject)
      (nextNodes : Option (List String)) : Causes (transitionRun k v target state nextNodes)
        (.transition target state nextNodes)
  | appendRunEvent (k : UUID) (type : String) (data : JsonObject) :
      Causes (appendRunEvent k type data) .logEvent
  | appendCheckpoint (k : Checkpoint) : Causes (appendCheckpoint k) .appendCheckpoint
  | commitCheckpoint (k : Checkpoint) (workerId : String) (token v : ℤ) :
      Causes (commitCheckpoint k workerId token v) (.commit k)
  | finishClaim (k : UUID) (workerId : String) (token v : ℤ) (target : RunStatus)
      (type : String) (data : Option JsonObject) :
      Causes (finishClaim k workerId token v target type data) (.finish target)
  | createInterrupt (k : Interrupt) (v : ℤ) : Causes (createInterrupt k v) .interrupt
  | decideInterrupt (i : UUID) (d : ApprovalDecision) (v : ℤ) :
      Causes (decideInterrupt i d v) .decide
  | expireInterrupts (now : Option Datetime) : Causes (expireInterrupts now) .expire
  | claimNext (workerId : String) (seconds : Seconds) (now : Option Datetime) (token : ℕ) :
      Causes (claimNext workerId seconds now) (.claim token)
  | renewLease (k : UUID) (workerId : String) (token : ℤ) (seconds : Seconds)
      (now : Option Datetime) : Causes (renewLease k workerId token seconds now) .renew
  | requeue (now : Option Datetime) : Causes (requeueExpiredLeases now) .requeue
  | release (now : Option Datetime) : Causes (requeueExpiredLeases now) .release

theorem causes_only {op : Op} {k i : UUID} {a b : RunAction} (hb : op.Causes b)
    (ha : a = only k b i) : op.Causes a := by
  rw [ha, only]
  split_ifs
  · exact hb
  · exact .stay op

theorem Does.causes {op : Op} {r : op.Result} {i : UUID} {a : RunAction} (h : op.Does r i a) :
    op.Causes a := by
  cases op with
  | createRun run =>
    rcases h with rfl | ⟨-, h⟩
    · exact .stay _
    · exact causes_only (.createRun run) h
  | transitionRun => exact causes_only (.transitionRun _ _ _ _ _) h
  | appendRunEvent => exact causes_only (.appendRunEvent _ _ _) h
  | appendCheckpoint => exact causes_only (.appendCheckpoint _) h
  | commitCheckpoint => exact causes_only (.commitCheckpoint _ _ _ _) h
  | finishClaim => exact causes_only (.finishClaim _ _ _ _ _ _ _) h
  | createInterrupt => exact causes_only (.createInterrupt _ _) h
  | decideInterrupt => exact causes_only (.decideInterrupt _ _ _) h
  | expireInterrupts =>
    rcases h with rfl | rfl
    · exact .stay _
    · exact .expireInterrupts _
  | claimNext =>
    rcases r with _ | claimed
    · obtain rfl := h
      exact .stay _
    · exact causes_only (.claimNext _ _ _ _) h
  | renewLease => exact causes_only (.renewLease _ _ _ _ _) h
  | requeueExpiredLeases =>
    rcases h with ⟨rfl, -⟩ | ⟨rfl | rfl, -⟩
    · exact .requeue _
    · exact .stay _
    · exact .release _
  | getRun | listRuns | countRuns | listRunEvents | latestCheckpoint | listCheckpoints
  | getInterrupt | listInterrupts | assertFencingToken =>
    obtain rfl := h
    exact .stay _

end Op

/-- An operation and the readings of the clock it makes. -/
structure Call where
  op : Op
  clock : ℕ → ClockReading

/-! ### Writing one run -/

/-- The tables after a write of the run `k`: its view is `v`, and the view of every other run is
what it was. -/
structure ActsOn (k : UUID) (v : RunView) (db db' : Database) : Prop where
  view_eq : db'.view k = v
  view_of_ne : ∀ i, i ≠ k → db'.view i = db.view i

/-- The tables after the run `k` has taken the step `a` of the machine. -/
structure Takes (k : UUID) (a : RunAction) (db db' : Database) : Prop where
  step : (db.view k).Step a (db'.view k)
  view_of_ne : ∀ i, i ≠ k → db'.view i = db.view i

theorem ActsOn.takes {k : UUID} {v : RunView} {a : RunAction} {db db' : Database}
    (h : ActsOn k v db db') (hstep : (db.view k).Step a v) : Takes k a db db' :=
  ⟨h.view_eq ▸ hstep, h.view_of_ne⟩

theorem ActsOn.trans {k : UUID} {v v' : RunView} {db db' db'' : Database}
    (h : ActsOn k v db db') (h' : ActsOn k v' db' db'') : ActsOn k v' db db'' :=
  ⟨h'.view_eq, fun i hi => (h'.view_of_ne i hi).trans (h.view_of_ne i hi)⟩

/-- A step of one run is a step of every run. -/
theorem Takes.only {k : UUID} {a : RunAction} {db db' : Database} (h : Takes k a db db')
    (i : UUID) : (db.view i).Step (Op.only k a i) (db'.view i) := by
  rw [Op.only]
  split_ifs with hi
  · subst hi
    exact h.step
  · rw [h.view_of_ne i hi]
    exact .stay _

end OpenRath
