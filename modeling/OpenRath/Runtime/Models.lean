import OpenRath.Library.Datetime
import OpenRath.Library.Values

/-!
# Runs, checkpoints, interrupts and events

The records of durable execution (`src/rath/runtime/models.py`) and the table of status
transitions. The checks that the source makes when it builds a record are fields of the
structures here, so a `Run`, `Checkpoint`, `Interrupt` or `ResourceLease` is always one that
passed them. The check that a plan hash is hexadecimal is left out, as nothing reads the hash
but to compare it.

## Main definitions

* `RunStatus`, `RunStatus.transitions`, `RunStatus.Terminal`, `assertTransition`.
* `Run`, `RunEvent`, `Checkpoint`, `ApprovalDecision`, `Interrupt`, `ResourceLease`,
  `ClaimedRun`.
* `StoreError`: what an operation of a run store raises.

## Main results

* `RunStatus.transitions_eq_nil_iff`: the statuses without transition are the terminal ones.
* `RunStatus.not_mem_transitions_self`: no status has a transition to itself.
-/

namespace OpenRath

/-! ### Status -/

/-- The status of a run. -/
inductive RunStatus
  | queued
  | running
  | waiting
  | succeeded
  | failed
  | cancelled
  | timedOut
  | needsReview
deriving DecidableEq

namespace RunStatus

/-- The text a status is stored as. -/
def value : RunStatus → String
  | queued => "queued"
  | running => "running"
  | waiting => "waiting"
  | succeeded => "succeeded"
  | failed => "failed"
  | cancelled => "cancelled"
  | timedOut => "timed_out"
  | needsReview => "needs_review"

/-- The statuses from which a run does not go on (`TERMINAL_RUN_STATUSES`). -/
def Terminal (s : RunStatus) : Prop := s ∈ [succeeded, failed, cancelled, timedOut]

instance (s : RunStatus) : Decidable s.Terminal := inferInstanceAs (Decidable (_ ∈ _))

/-- The statuses counted by the index of active runs of a session
(`runs_one_active_per_session_idx`). -/
def Active (s : RunStatus) : Prop := s ∈ [queued, running, waiting, needsReview]

instance (s : RunStatus) : Decidable s.Active := inferInstanceAs (Decidable (_ ∈ _))

/-- The allowed targets of every status (`_TRANSITIONS`). -/
def transitions : RunStatus → List RunStatus
  | queued => [running, cancelled, timedOut]
  | running => [queued, waiting, succeeded, failed, cancelled, timedOut, needsReview]
  | waiting => [queued, cancelled, timedOut, failed]
  | needsReview => [queued, failed, cancelled]
  | succeeded => []
  | failed => []
  | cancelled => []
  | timedOut => []

/-- The terminal statuses are those without transitions. -/
theorem transitions_eq_nil_iff {s : RunStatus} : s.transitions = [] ↔ s.Terminal := by
  cases s <;> decide

/-- Only active statuses have transitions. -/
theorem active_of_mem_transitions {s t : RunStatus} (h : t ∈ s.transitions) : s.Active := by
  cases s <;> first | decide | exact absurd h List.not_mem_nil

theorem not_terminal_of_mem_transitions {s t : RunStatus} (h : t ∈ s.transitions) :
    ¬ s.Terminal := by
  rw [← transitions_eq_nil_iff]
  exact List.ne_nil_of_mem h

end RunStatus

/-! ### Errors -/

/-- What an operation of a run store raises, by the class of the exception. -/
inductive StoreError
  /-- `ConflictError`, with its message and its details. -/
  | conflict (message : String) (details : JsonObject)
  /-- `InvalidRunTransition`, a `ConflictError`. -/
  | invalidTransition (source target : RunStatus)
  /-- `KeyError`, with the key that was not found. -/
  | keyError (key : String)
  /-- `ValueError`, with its message. -/
  | valueError (message : String)
  /-- `OverflowError`, of an unrepresentable duration or datetime. -/
  | overflowError
  /-- The error of the database driver for a violated constraint. -/
  | integrityError
deriving DecidableEq

/-- The instances of `ConflictError`. -/
def StoreError.isConflict : StoreError → Bool
  | .conflict _ _ => true
  | .invalidTransition _ _ => true
  | _ => false

/-- `assert_transition`. -/
def assertTransition (source target : RunStatus) : Except StoreError Unit :=
  if target ∈ source.transitions then .ok () else .error (.invalidTransition source target)

@[simp] theorem assertTransition_eq_ok {s t : RunStatus} {u : Unit} :
    assertTransition s t = .ok u ↔ t ∈ s.transitions := by
  simp [assertTransition]

/-! ### Records -/

/-- A run. -/
structure Run where
  id : UUID
  planId : UUID
  revisionId : UUID
  sessionId : UUID
  tenantId : String
  status : RunStatus
  state : JsonObject
  nextNodes : List String
  createdAt : Datetime
  updatedAt : Datetime
  version : ℕ
  idempotencyKey : Option String
  context : JsonObject
  priority : ℤ
  tenantId_not_blank : isBlank tenantId = false
  priority_mem : -100 ≤ priority ∧ priority ≤ 100
  createdAt_aware : createdAt.Aware
  updatedAt_aware : updatedAt.Aware
deriving DecidableEq

/-- An event of a run. -/
structure RunEvent where
  runId : UUID
  sequence : ℕ
  type : String
  data : JsonObject
  createdAt : Datetime
deriving DecidableEq

/-- A committed position of a run in its plan. The check that the hash of the plan is hexadecimal is
left out: nothing reads the hash but as a text, so there are only more checkpoints here. -/
structure Checkpoint where
  id : UUID
  runId : UUID
  sequence : ℕ
  planHash : String
  state : JsonObject
  nextNodes : List String
  pendingInterrupts : List UUID
  effectWatermark : ℕ
  createdAt : Datetime
  sequence_pos : 1 ≤ sequence
  planHash_length : planHash.length = 64
  createdAt_aware : createdAt.Aware
deriving DecidableEq

/-- What an interrupt asks for. -/
inductive InterruptKind
  | approval
  | input
  | review
deriving DecidableEq

/-- The text an interrupt kind is stored as. -/
def InterruptKind.value : InterruptKind → String
  | approval => "approval"
  | input => "input"
  | review => "review"

/-- How an interrupt was answered. -/
inductive ApprovalDecisionKind
  | approve
  | edit
  | reject
  | respond
deriving DecidableEq

/-- The text a decision kind is stored as. -/
def ApprovalDecisionKind.value : ApprovalDecisionKind → String
  | approve => "approve"
  | edit => "edit"
  | reject => "reject"
  | respond => "respond"

/-- The answer to an interrupt. -/
structure ApprovalDecision where
  kind : ApprovalDecisionKind
  actorId : String
  reason : String
  payload : JsonObject
  actorId_not_blank : isBlank actorId = false
  reason_not_blank : isBlank reason = false
deriving DecidableEq

/-- A request for a decision on which a run waits. A decision and the time of the decision are
set together. -/
structure Interrupt where
  id : UUID
  runId : UUID
  kind : InterruptKind
  request : JsonObject
  createdAt : Datetime
  expiresAt : Option Datetime
  decision : Option (ApprovalDecision × Datetime)
  createdAt_aware : createdAt.Aware
  expiresAt_aware : ∀ e ∈ expiresAt, e.Aware ∧ createdAt.instant < e.instant
  decidedAt_aware : ∀ d ∈ decision, d.2.Aware
deriving DecidableEq

/-- No decision, no time of it. -/
theorem Interrupt.undecided_aware :
    ∀ d ∈ (none : Option (ApprovalDecision × Datetime)), d.2.Aware := by
  simp

/-- The right of a worker to execute a run for a time. -/
structure ResourceLease where
  id : UUID
  resourceType : String
  resourceId : String
  ownerRunId : UUID
  holderWorkerId : String
  expiresAt : Datetime
  fencingToken : ℕ
  createdAt : Datetime
  updatedAt : Datetime
  holderWorkerId_not_blank : isBlank holderWorkerId = false
  fencingToken_pos : 1 ≤ fencingToken
  expiresAt_aware : expiresAt.Aware
  createdAt_aware : createdAt.Aware
  updatedAt_aware : updatedAt.Aware
deriving DecidableEq

/-- The lease on a run, with the checks made when it is built, in their order. -/
def ResourceLease.ofRun (id runId : UUID) (holderWorkerId : String) (expiresAt : Datetime)
    (fencingToken : ℕ) (createdAt updatedAt : Datetime) : Except StoreError ResourceLease :=
  if holder : isBlank holderWorkerId = false then
    if token : 1 ≤ fencingToken then
      if expires : expiresAt.Aware then
        if created : createdAt.Aware then
          if updated : updatedAt.Aware then
            .ok ⟨id, "run", runId.str, runId, holderWorkerId, expiresAt, fencingToken, createdAt,
              updatedAt, holder, token, expires, created, updated⟩
          else .error (.valueError "lease.updated_at must be timezone-aware")
        else .error (.valueError "lease.created_at must be timezone-aware")
      else .error (.valueError "lease.expires_at must be timezone-aware")
    else .error (.valueError "lease fencing_token must be positive")
  else .error (.valueError "lease holder_worker_id must not be empty")

/-- A run together with the lease its claim granted. -/
structure ClaimedRun where
  run : Run
  lease : ResourceLease
deriving DecidableEq

end OpenRath
