import OpenRath.Runtime.ContextColumn
import OpenRath.Runtime.Sqlite.Keys
import OpenRath.Runtime.Submission
import OpenRath.Server.Operators
import OpenRath.Server.Resources

/-!
# Creating runs over HTTP

The handler `create_run` (`src/rath/server/app.py`) resolves the assistant and the session of a
request, counts the queued runs of the tenant and submits the run. A request with an idempotency key
that is sent again gets as far as the store, which knows the key, only if all that comes before it
succeeds again.

## Main definitions

* `Assistant`, `CreationRequest`, `CreationServer`.
* `CreationCmd.exec`: the commands of the handler.
* `CreationServer.tryCreate`, `CreationServer.createRun`: the handler.

## Main results

* `CreationServer.repeated`: what is answered to a request that is sent again.
-/

namespace OpenRath

open SQLite

/-! ### Commands -/

/-- The tables and the memory of the server. -/
structure ServerState where
  world : World
  resources : ResourceTables

/-- The commands of the handler. -/
inductive CreationCmd
  | system (c : Cmd)
  | resource (c : ResourceCmd)
  /-- `secrets.token_hex`. -/
  | tokenHex (nbytes : ℕ)

/-- What a command answers. -/
def CreationCmd.Answer : CreationCmd → Type
  | system c => c.Answer
  | resource c => c.Answer
  | tokenHex _ => String

/-- What a command finds outside. -/
structure CreationInput where
  system : Input
  token : String

/-- The execution of a command. -/
def CreationCmd.exec (sha : Sha256) :
    (c : CreationCmd) → CreationInput → ServerState → c.Answer × ServerState
  | .system c, i, s =>
    let out := World.exec sha c i.system s.world
    (out.1, { s with world := out.2 })
  | .resource c, _, s =>
    let out := c.exec s.resources
    (out.1, { s with resources := out.2 })
  | .tokenHex _, i, s => (i.token, s)

/-- A program of these commands. -/
abbrev Creating (α : Type) : Type := Proc CreationCmd CreationCmd.Answer Exn α

namespace Creating

/-- A program of the runtime. -/
def system {α : Type} (p : Process α) : Creating α :=
  p.interpret (fun c => .call (.system c) .ret) id

/-- `get_assistant`. -/
def getAssistant (tenantId id : String) : Creating AssistantRecord :=
  .call (.resource (.getAssistant tenantId id)) fun found => .ofExcept (found.mapError .store)

/-- `get_session`. -/
def getSession (id : UUID) : Creating SessionRecord :=
  .call (.resource (.getSession id)) fun found => .ofExcept (found.mapError .store)

/-- `TraceContext.new`. -/
def newTrace : Creating TraceContext :=
  .call (.tokenHex 16) fun traceId => .call (.tokenHex 8) fun spanId =>
    pure ⟨traceId, spanId, true⟩

end Creating

/-! ### The handler -/

/-- `_Assistant`: a deployed workflow, with the plan that it is compiled to. -/
structure Assistant where
  plan : ExecutionPlan
  inputSchema : JsonObject
  revisionId : UUID

/-- A request: the caller as the provider has authenticated it, the body as `json_body` reads it,
and the header `Idempotency-Key`. -/
structure CreationRequest where
  context : Option SecurityContext
  body : Except Exn JsonObject
  idempotencyKey : Option String

/-- The parts of the server that take part in the creation of a run. -/
structure CreationServer where
  assistants : String → Option Assistant
  runtime : LocalRuntime
  decimals : Decimals
  maxQueuedRunsPerTenant : ℕ
  maxQueuedRunsPerTenant_pos : 1 ≤ maxQueuedRunsPerTenant

namespace CreationServer

variable (server : CreationServer)

/-- The error about an alias whose template is not deployed. -/
def unavailable : Exn :=
  .store (.valueError "assistant deployment revision is unavailable")

/-- The assistant of a request, or the one that it is an alias of. -/
def assistant (context : SecurityContext) (assistantId : String) : Creating Assistant :=
  match server.assistants assistantId with
  | some assistant => pure assistant
  | none => do
    let record ← Creating.getAssistant context.tenantId.val assistantId
    match server.assistants record.templateId with
    | some assistant =>
      if assistant.revisionId = record.revisionId then pure assistant else .throw unavailable
    | none => .throw unavailable

/-- The check of the session of a request. -/
def checkSession (context : SecurityContext) (sessionId : UUID) : Creating Unit := do
  match ← (Creating.getSession sessionId).attempt with
  | .ok known =>
    .throwUnless (known.tenantId = context.tenantId.val) (.store (.keyError "session_id"))
  | .error (.store (.keyError _)) => .throw (.store (.keyError "session_id"))
  | .error e => .throw e

/-- A context without a deadline. -/
theorem aware_of_mem_none : ∀ d ∈ (none : Option Datetime), d.Aware :=
  fun d h => absurd h (Option.not_mem_none d)

/-- `RunContext`, with the defaults that are drawn. -/
def newContext (context : SecurityContext) (revisionId : UUID) : Creating RunContext := do
  let requestId ← Creating.system Process.uuid4
  let traceContext ← Creating.newTrace
  pure ⟨context, revisionId, requestId, traceContext, none, aware_of_mem_none⟩

/-- `int(str(body.get("priority", 0)))`. -/
def priority (body : JsonObject) : Except Exn ℤ :=
  let text := server.runtime.steps.texts.text ((body.get? "priority").getD (.int 0))
  match server.decimals.int text with
  | some n => .ok n
  | none => .error (.store (.valueError
      s!"invalid literal for int() with base 10: {server.runtime.steps.texts.repr (.str text)}"))

/-- The answer at the limit of the queue. -/
def exhausted : RunAnswer :=
  .refused ⟨"resource.exhausted", "tenant run queue is at capacity", 429⟩

/-- The `try` block of `create_run`, where `publish` is what the bus makes of the signal; without a
bus it does nothing. -/
def tryCreate (publish : RunSignal → Except Exn Unit) (context : SecurityContext)
    (r : CreationRequest) : Creating RunAnswer := do
  let body ← Proc.ofExcept r.body
  let assistantId ← Proc.ofExcept (body.require "assistant_id")
  let assistant ← server.assistant context (server.runtime.steps.texts.text assistantId)
  let sessionId ← Proc.ofExcept (body.require "session_id")
  let sessionId ← Proc.ofExcept
    (server.runtime.readings.uuid (server.runtime.steps.texts.text sessionId))
  checkSession context sessionId
  let runContext ← newContext context assistant.revisionId
  let state ← Proc.ofExcept (mappingOrEmpty "state must be a JSON object" (body.get? "state"))
  let queued : List Run ← Creating.system (Process.store
    (.listRuns context.tenantId.val none (some server.maxQueuedRunsPerTenant) none [.queued]))
  if server.maxQueuedRunsPerTenant ≤ queued.length then pure exhausted
  else do
    let priority ← Proc.ofExcept (server.priority body)
    let run ← Creating.system (server.runtime.submit
      ⟨assistant.plan, assistant.inputSchema, sessionId, runContext, state, r.idempotencyKey,
        priority⟩)
    let _ ← Proc.ofExcept (publish (.ofWaiting run))
    Proc.ofExcept (RunAnswer.ofRun run)

/-- The clauses of `create_run`. -/
def clauses : Except Exn RunAnswer → Except Exn RunAnswer :=
  answering server.runtime.steps.texts server.runtime.text
    (fun e => e.isKeyError || e.isValueError || e.typeName = "TypeError") fun message =>
      ⟨"request.invalid_argument", message, 400⟩

/-- `create_run`. -/
def createRun (publish : RunSignal → Except Exn Unit) (r : CreationRequest) : Creating RunAnswer :=
  match authenticate r.context "run.create" with
  | .error (.response refusal) => pure (.refused refusal)
  | .error (.raised e) => .throw (.store e)
  | .ok context => do
    let x ← (server.tryCreate publish context r).attempt
    .ofExcept (server.clauses x)

end CreationServer

/-! ### Submissions -/

/-- The check of the state of a submission. -/
def Submission.validated (texts : Texts) (s : Submission) : Except Exn Unit :=
  if s.inputSchema = [] then .ok ()
  else (validateJson texts true (.obj s.state) s.inputSchema "$").mapError .schema

/-- The commands of a submission without a deadline. -/
theorem system_submit (rt : LocalRuntime) {s : Submission} (hdeadline : s.context.deadline = none) :
    Creating.system (rt.submit s) = (do
      let _ ← Proc.ofExcept (s.validated rt.steps.texts)
      .call (.system .now) fun createdAt => .call (.system .uuid4) fun id => do
        let run ← Proc.ofExcept ((Run.create s id createdAt).mapError .store)
        .call (.system (.store (.createRun run))) fun created => do
          let created : Run ← Proc.ofExcept (created.mapError .store)
          .call (.system (.context (.set rt.number created.id s.context))) fun _ =>
            pure created) := by
  have hactive : s.context.ensureActive = pure () := by
    rw [RunContext.ensureActive, hdeadline]
  rw [LocalRuntime.submit, hactive, ← Submission.validated]
  rcases s.validated rt.steps.texts with e | u
  · rfl
  refine congrArg (Proc.call _) (funext fun createdAt =>
    congrArg (Proc.call _) (funext fun id => ?_))
  rcases hrun : Run.create s id createdAt with e | run
  · show Creating.system (Process.check (Run.create s id createdAt) >>= _) = _
    rw [hrun]
    rfl
  · show Creating.system (Process.check (Run.create s id createdAt) >>= _) = _
    rw [hrun]
    refine congrArg (Proc.call _) (funext fun created => ?_)
    cases created <;> rfl

/-- What is asked for by a request. -/
structure Draft where
  assistant : Assistant
  sessionId : UUID
  state : JsonObject
  priority : ℤ

/-- The submission of a draft. -/
def Draft.submission (d : Draft) (context : RunContext) (idempotencyKey : Option String) :
    Submission :=
  ⟨d.assistant.plan, d.assistant.inputSchema, d.sessionId, context, d.state, idempotencyKey,
    d.priority⟩

/-- The check of the state of a draft. -/
def Draft.validated (texts : Texts) (d : Draft) : Except Exn Unit :=
  if d.assistant.inputSchema = [] then .ok ()
  else (validateJson texts true (.obj d.state) d.assistant.inputSchema "$").mapError .schema

theorem Draft.validated_submission (texts : Texts) (d : Draft) (context : RunContext)
    (key : Option String) : (d.submission context key).validated texts = d.validated texts := rfl

/-- A context for the submission of a draft. -/
structure Draft.ContextOf (d : Draft) (context : SecurityContext) (runContext : RunContext) :
    Prop where
  security_eq : runContext.security = context
  revisionId_eq : runContext.revisionId = d.assistant.revisionId
  deadline_eq : runContext.deadline = none

/-- The runs that are made of a draft are the same for the store, and for the callers of the same
tenant. -/
theorem Draft.fingerprint_eq {d : Draft} {context : SecurityContext} {c c' : RunContext}
    {key : Option String} {id id' : UUID} {createdAt createdAt' : Datetime} {run run' : Run}
    (hc : d.ContextOf context c) (hc' : d.ContextOf context c')
    (h : Run.create (d.submission c key) id createdAt = .ok run)
    (h' : Run.create (d.submission c' key) id' createdAt' = .ok run') (sha : Sha256) :
    fingerprint sha run' = fingerprint sha run ∧ run'.tenantId = run.tenantId ∧
      run'.idempotencyKey = run.idempotencyKey := by
  rw [Run.create] at h h'
  split_ifs at h h'
  cases h
  cases h'
  simp only [fingerprint, Draft.submission, hc.security_eq, hc'.security_eq, hc.revisionId_eq,
    hc'.revisionId_eq, and_self]

/-- A draft of which a run was made can be made a run again. -/
theorem Draft.exists_create {d : Draft} {c : RunContext} {key : Option String} {id : UUID}
    {createdAt : Datetime} {made : Run}
    (h : Run.create (d.submission c key) id createdAt = .ok made) (c' : RunContext) (id' : UUID)
    {createdAt' : Datetime} (haware : createdAt'.Aware) :
    ∃ run, Run.create (d.submission c' key) id' createdAt' = .ok run := by
  rw [Run.create] at h
  split_ifs at h with hpriority
  have hpriority' : -100 ≤ (d.submission c' key).priority ∧ (d.submission c' key).priority ≤ 100 :=
    hpriority
  rw [Run.create, dif_pos hpriority', dif_pos haware]
  exact ⟨_, rfl⟩

namespace CreationServer

variable (server : CreationServer)

/-- The assistant that an id stands for. -/
def Resolves (x : ResourceTables) (context : SecurityContext) (assistantId : String)
    (assistant : Assistant) : Prop :=
  server.assistants assistantId = some assistant ∨ server.assistants assistantId = none ∧
    ∃ record, x.assistants.find? (context.tenantId.val, assistantId) = some record ∧
      server.assistants record.templateId = some assistant ∧
      assistant.revisionId = record.revisionId

/-- The draft that a request comes to. -/
structure Drafts (x : ResourceTables) (context : SecurityContext) (r : CreationRequest)
    (d : Draft) : Prop where
  exists_body : ∃ body assistantId sessionId, r.body = .ok body ∧
    body.require "assistant_id" = .ok assistantId ∧
    server.Resolves x context (server.runtime.steps.texts.text assistantId) d.assistant ∧
    body.require "session_id" = .ok sessionId ∧
    server.runtime.readings.uuid (server.runtime.steps.texts.text sessionId) = .ok d.sessionId ∧
    (∃ known, x.sessions.find? d.sessionId = some known ∧
      known.tenantId = context.tenantId.val) ∧
    mappingOrEmpty "state must be a JSON object" (body.get? "state") = .ok d.state ∧
    server.priority body = .ok d.priority

variable {server}

theorem Resolves.mono {x y : ResourceTables} {context : SecurityContext} {assistantId : String}
    {assistant : Assistant} (h : server.Resolves x context assistantId assistant)
    (hxy : x.Extends y) : server.Resolves y context assistantId assistant := by
  rcases h with hsome | ⟨hnone, record, hrecord, htemplate⟩
  · exact Or.inl hsome
  · exact Or.inr ⟨hnone, record, hxy.assistant _ _ hrecord, htemplate⟩

/-- A request comes to the same draft later. -/
theorem Drafts.mono {x y : ResourceTables} {context : SecurityContext} {r : CreationRequest}
    {d : Draft} (h : server.Drafts x context r d) (hxy : x.Extends y) :
    server.Drafts y context r d := by
  obtain ⟨body, assistantId, sessionId, hbody, hassistant, hresolves, hsession, huuid,
    ⟨known, hknown, htenant⟩, hrest⟩ := h.exists_body
  exact ⟨body, assistantId, sessionId, hbody, hassistant, hresolves.mono hxy, hsession, huuid,
    ⟨known, hxy.session _ _ hknown, htenant⟩, hrest⟩

end CreationServer

/-! ### The first request -/

/-- Others call the stores. -/
structure ServerInterference (sha : Sha256) (R : ServerState → ServerState → Prop) : Prop where
  refl : ∀ s, R s s
  trans : ∀ a b c, R a b → R b c → R a c
  exists_calls : ∀ a b, R a b → ∃ calls, b.world.db = later sha calls a.world.db
  extends_resources : ∀ a b, R a b → a.resources.Extends b.resources

/-- The tables after further calls, and after further ones. -/
theorem exists_calls_trans {sha : Sha256} {a b c : Database} (h : ∃ calls, b = later sha calls a)
    (h' : ∃ calls, c = later sha calls b) : ∃ calls, c = later sha calls a := by
  obtain ⟨calls, rfl⟩ := h
  obtain ⟨more, rfl⟩ := h'
  exact ⟨calls ++ more, (List.foldl_append ..).symm⟩

/-- A command of the handler is a call of the store at most. -/
theorem exists_calls_exec (sha : Sha256) (c : CreationCmd) (i : CreationInput) (s : ServerState) :
    ∃ calls, (CreationCmd.exec sha c i s).2.world.db = later sha calls s.world.db := by
  cases c with
  | system c =>
    cases c with
    | store op => exact ⟨[⟨op, i.system.clock⟩], rfl⟩
    | ledger | now | uuid4 | elapsed | startTool | observe | context => exact ⟨[], rfl⟩
  | resource | tokenHex => exact ⟨[], rfl⟩

/-- Whatever a handler does among others, the store was called. -/
theorem exists_calls_of_completes {sha : Sha256} {R : ServerState → ServerState → Prop}
    (hR : ServerInterference sha R) {α : Type} {p : Creating α} {s s' : ServerState}
    {trace : List ((c : CreationCmd) × c.Answer)} {x : Except Exn α}
    (h : p.Completes (CreationCmd.exec sha) R s trace x s') :
    ∃ calls, s'.world.db = later sha calls s.world.db := by
  induction h with
  | ret h | throw h => exact hR.exists_calls _ _ h
  | call i h _ ih =>
    exact exists_calls_trans (exists_calls_trans (hR.exists_calls _ _ h)
      (exists_calls_exec sha _ i _)) ih

section FirstRequest

variable {sha : Sha256} {R : ServerState → ServerState → Prop} {s s' : ServerState}
  {trace : List ((c : CreationCmd) × c.Answer)} {server : CreationServer}
  {context : SecurityContext}

/-- A row that was read is there at the end. -/
theorem exists_record_of_getAssistant (hR : ServerInterference sha R) {tenantId id : String}
    {record : AssistantRecord} (h : (Creating.getAssistant tenantId id).Completes
      (CreationCmd.exec sha) R s trace (.ok record) s') :
    R s s' ∧ s'.resources.assistants.find? (tenantId, id) = some record := by
  cases h with
  | call i hR₁ h =>
    obtain ⟨-, hfound, hR₂⟩ := h.of_ofExcept
    have hrow := foundOr_eq_ok_iff.mp (mapError_eq_ok_iff.mp hfound.symm)
    exact ⟨hR.trans _ _ _ hR₁ hR₂, (hR.extends_resources _ _ hR₂).assistant _ _ hrow⟩

theorem resolves_of_assistant (hR : ServerInterference sha R) {assistantId : String}
    {assistant : Assistant} (h : (server.assistant context assistantId).Completes
      (CreationCmd.exec sha) R s trace (.ok assistant) s') :
    R s s' ∧ server.Resolves s'.resources context assistantId assistant := by
  rw [CreationServer.assistant] at h
  rcases hassistant : server.assistants assistantId with _ | found
  · rw [hassistant] at h
    obtain ⟨record, s₁, _, _, hrecord, h⟩ := h.exists_of_bind hR.refl
    obtain ⟨hR₁, hrow⟩ := exists_record_of_getAssistant hR hrecord
    rcases htemplate : server.assistants record.templateId with _ | template
    · rw [htemplate] at h
      cases h
    · rw [htemplate] at h
      dsimp only at h
      split_ifs at h with hrevision
      · cases h with
        | ret hR₂ =>
          exact ⟨hR.trans _ _ _ hR₁ hR₂, Or.inr ⟨hassistant, record,
            (hR.extends_resources _ _ hR₂).assistant _ _ hrow, htemplate, hrevision⟩⟩
      · cases h
  · rw [hassistant] at h
    cases h with
    | ret hR₁ => exact ⟨hR₁, Or.inl hassistant⟩

theorem exists_session_of_checkSession (hR : ServerInterference sha R) {sessionId : UUID}
    {u : Unit} (h : (CreationServer.checkSession context sessionId).Completes
      (CreationCmd.exec sha) R s trace (.ok u) s') :
    R s s' ∧ ∃ known, s'.resources.sessions.find? sessionId = some known ∧
      known.tenantId = context.tenantId.val := by
  obtain ⟨x, s₁, _, _, hget, h, -⟩ := Proc.Completes.of_attempt_bind hR.refl h
  cases hget with
  | @call _ _ _ s₀ _ _ _ i hR₁ hget =>
    obtain ⟨-, rfl, hR₂⟩ := hget.of_ofExcept
    have hread : (CreationCmd.exec sha (.resource (.getSession sessionId)) i s₀).1 =
        foundOr sessionId.str (s₀.resources.sessions.find? sessionId) := rfl
    rw [hread] at h
    rcases hfind : s₀.resources.sessions.find? sessionId with _ | known
    · rw [hfind] at h
      cases h
    · rw [hfind] at h
      obtain ⟨-, htenant, hR₃⟩ := h.of_throwUnless
      have hR₄ : R s₀ s' := hR.trans _ _ _ hR₂ hR₃
      refine ⟨hR.trans _ _ _ hR₁ hR₄, known, (hR.extends_resources _ _ hR₄).session _ _ hfind, ?_⟩
      obtain ⟨htenant, -⟩ | ⟨-, herror⟩ := htenant
      · exact htenant
      · cases herror

theorem contextOf_newContext (hR : ServerInterference sha R) {revisionId : UUID}
    {runContext : RunContext} (h : (CreationServer.newContext context revisionId).Completes
      (CreationCmd.exec sha) R s trace (.ok runContext) s') :
    R s s' ∧ runContext.security = context ∧ runContext.revisionId = revisionId ∧
      runContext.deadline = none := by
  cases h with
  | call i hR₁ h =>
    cases h with
    | call j hR₂ h =>
      cases h with
      | call k hR₃ h =>
        cases h with
        | ret hR₄ =>
          exact ⟨hR.trans _ _ _ hR₁ (hR.trans _ _ _ hR₂ (hR.trans _ _ _ hR₃ hR₄)), rfl, rfl, rfl⟩

/-- The run was made by the store for a draft, some time ago. -/
def Made (sha : Sha256) (context : SecurityContext) (key : Option String) (d : Draft) (run : Run)
    (db : Database) : Prop :=
  ∃ runContext id createdAt made db₀ clock calls, d.ContextOf context runContext ∧
    Run.create (d.submission runContext key) id createdAt = .ok made ∧
    (perform sha ⟨.createRun made, clock⟩ db₀).1 = .ok run ∧
    db = later sha calls (perform sha ⟨.createRun made, clock⟩ db₀).2

theorem Made.later {key : Option String} {d : Draft} {run : Run} {db db' : Database}
    (h : Made sha context key d run db) (hlater : ∃ calls, db' = later sha calls db) :
    Made sha context key d run db' := by
  obtain ⟨runContext, id, createdAt, made, db₀, clock, calls, hc, hmade, hrun, hdb⟩ := h
  obtain ⟨more, hmore⟩ := exists_calls_trans ⟨calls, hdb⟩ hlater
  exact ⟨runContext, id, createdAt, made, db₀, clock, more, hc, hmade, hrun, hmore⟩

theorem made_of_submit (hR : ServerInterference sha R) {key : Option String} {d : Draft}
    {runContext : RunContext} {run : Run} (hc : d.ContextOf context runContext)
    (h : (Creating.system (server.runtime.submit (d.submission runContext key))).Completes
      (CreationCmd.exec sha) R s trace (.ok run) s') :
    d.validated server.runtime.steps.texts = .ok () ∧ Made sha context key d run s'.world.db ∧
      s.resources.Extends s'.resources := by
  rw [system_submit server.runtime hc.deadline_eq, Draft.validated_submission] at h
  obtain ⟨⟨⟩, hvalid, h⟩ := h.exists_of_ofExcept_bind
  refine ⟨hvalid, ?_⟩
  cases h with
  | call i₁ hR₁ h =>
    cases h with
    | call i₂ hR₂ h =>
      obtain ⟨made, hmade, h⟩ := h.exists_of_ofExcept_bind
      cases h with
      | call i₃ hR₃ h =>
        obtain ⟨created, hcreated, h⟩ := h.exists_of_ofExcept_bind
        cases h with
        | call i₄ hR₄ h =>
          cases h with
          | ret hR₅ =>
            obtain ⟨calls, hcalls⟩ := hR.exists_calls _ _ hR₄
            refine ⟨Made.later ?_ (hR.exists_calls _ _ hR₅), ?_⟩
            · exact ⟨runContext, _, _, made, _, i₃.system.clock, calls, hc,
                mapError_eq_ok_iff.mp hmade, mapError_eq_ok_iff.mp hcreated, hcalls⟩
            · have h₁ := hR.extends_resources _ _ hR₁
              have h₂ := hR.extends_resources _ _ hR₂
              have h₃ := hR.extends_resources _ _ hR₃
              have h₄ := hR.extends_resources _ _ hR₄
              have h₅ := hR.extends_resources _ _ hR₅
              exact h₁.trans _ _ _ (h₂.trans _ _ _ (h₃.trans _ _ _ (h₄.trans _ _ _ h₅)))

theorem system_store (op : Op) : Creating.system (Process.store op) =
    .call (.system (.store op)) fun r => .ofExcept (Except.mapError .store r) := by
  refine congrArg (Proc.call _) (funext fun r => ?_)
  cases r <;> rfl

/-- The execution of an operation of the run store. -/
theorem exists_perform_of_system {op : Op} {x : Except Exn op.Result}
    (h : (Creating.system (Process.store op)).Completes (CreationCmd.exec sha) R s trace x s') :
    ∃ (s₀ : ServerState) (clock : ℕ → ClockReading), R s s₀ ∧
      x = (perform sha ⟨op, clock⟩ s₀.world.db).1.mapError .store ∧
      R { s₀ with
        world := { s₀.world with db := (perform sha ⟨op, clock⟩ s₀.world.db).2 } } s' := by
  rw [system_store] at h
  cases h with
  | call i hR₁ h =>
    obtain ⟨-, rfl, hR₂⟩ := h.of_ofExcept
    exact ⟨_, i.system.clock, hR₁, rfl, hR₂⟩

theorem perform_listRuns_snd (sha : Sha256) (tenantId : String) (cursor : Option UUID)
    (limit : Option ℤ) (sessionId : Option UUID) (statuses : List RunStatus)
    (clock : ℕ → ClockReading) (db : Database) :
    (perform sha ⟨.listRuns tenantId cursor limit sessionId statuses, clock⟩ db).2 = db := by
  rcases perform_cases sha ⟨.listRuns tenantId cursor limit sessionId statuses, clock⟩ db with
    ⟨e, -, hsame⟩ | ⟨r, c', -, hdb, hy⟩
  · exact hsame
  · rw [hdb]
    exact keeps_listRuns _ _ _ _ _ hy

/-- What the `try` block has done when it answers with a run. -/
theorem exists_draft_of_tryCreate (hR : ServerInterference sha R)
    {publish : RunSignal → Except Exn Unit} {r : CreationRequest} {run : Run}
    (h : (server.tryCreate publish context r).Completes (CreationCmd.exec sha) R s trace
      (.ok (.run run)) s') :
    ∃ d, server.Drafts s'.resources context r d ∧
      d.validated server.runtime.steps.texts = .ok () ∧
      Made sha context r.idempotencyKey d run s'.world.db := by
  obtain ⟨body, hbody, h⟩ := h.exists_of_ofExcept_bind
  obtain ⟨assistantId, hassistantId, h⟩ := h.exists_of_ofExcept_bind
  obtain ⟨assistant, s₁, _, _, hassistant, h⟩ := h.exists_of_bind hR.refl
  obtain ⟨-, hresolves⟩ := resolves_of_assistant hR hassistant
  obtain ⟨sessionText, hsessionText, h⟩ := h.exists_of_ofExcept_bind
  obtain ⟨sessionId, hsessionId, h⟩ := h.exists_of_ofExcept_bind
  obtain ⟨⟨⟩, s₂, _, _, hsession, h⟩ := h.exists_of_bind hR.refl
  obtain ⟨hR₂, known, hknown, htenant⟩ := exists_session_of_checkSession hR hsession
  obtain ⟨runContext, s₃, _, _, hcontext, h⟩ := h.exists_of_bind hR.refl
  obtain ⟨hR₃, hcontext⟩ := contextOf_newContext hR hcontext
  obtain ⟨state, hstate, h⟩ := h.exists_of_ofExcept_bind
  obtain ⟨queued, s₄, _, _, hqueued, h⟩ := h.exists_of_bind hR.refl
  have hR₄ : s₃.resources.Extends s₄.resources := by
    obtain ⟨s₀, clock, hbefore, -, hafter⟩ := exists_perform_of_system hqueued
    have hbefore := hR.extends_resources _ _ hbefore
    have hafter := hR.extends_resources _ _ hafter
    exact hbefore.trans _ _ _ hafter
  split_ifs at h with hfull
  · cases h
  obtain ⟨priority, hpriority, h⟩ := h.exists_of_ofExcept_bind
  obtain ⟨created, s₅, _, _, hsubmit, h⟩ := h.exists_of_bind hR.refl
  have hc : (Draft.mk assistant sessionId state priority).ContextOf context runContext :=
    ⟨hcontext.1, hcontext.2.1, hcontext.2.2⟩
  obtain ⟨hvalid, hmade, hR₅⟩ := made_of_submit (d := ⟨assistant, sessionId, state, priority⟩) hR hc
    hsubmit
  obtain ⟨⟨⟩, -, h⟩ := h.exists_of_ofExcept_bind
  obtain ⟨-, hanswer, hR₆⟩ := h.of_ofExcept
  obtain ⟨-, hrun⟩ := RunAnswer.ofRun_eq_ok_iff.mp hanswer.symm
  cases hrun
  have hdraft : server.Drafts s₂.resources context r ⟨assistant, sessionId, state, priority⟩ := by
    refine ⟨body, assistantId, sessionText, hbody, hassistantId, ?_, hsessionText, hsessionId,
      ⟨known, hknown, htenant⟩, hstate, hpriority⟩
    exact hresolves.mono (hR.extends_resources _ _ hR₂)
  refine ⟨⟨assistant, sessionId, state, priority⟩, hdraft.mono ?_, hvalid,
    hmade.later (hR.exists_calls _ _ hR₆)⟩
  exact (hR.extends_resources _ _ hR₃).trans _ _ _ (hR₄.trans _ _ _ (hR₅.trans _ _ _
    (hR.extends_resources _ _ hR₆)))

/-- A request that was answered with a run came to a draft, and the run was made for it. -/
theorem exists_draft_of_createRun (hR : ServerInterference sha R)
    {publish : RunSignal → Except Exn Unit} {r : CreationRequest} {run : Run}
    (h : (server.createRun publish r).Completes (CreationCmd.exec sha) R s trace (.ok (.run run))
      s') :
    ∃ context d, authenticate r.context "run.create" = .ok context ∧
      server.Drafts s'.resources context r d ∧ d.validated server.runtime.steps.texts = .ok () ∧
      Made sha context r.idempotencyKey d run s'.world.db := by
  rw [CreationServer.createRun] at h
  rcases hauth : authenticate r.context "run.create" with (refusal | e) | context
  · rw [hauth] at h
    cases h
  · rw [hauth] at h
    cases h
  · rw [hauth] at h
    obtain ⟨x, s₁, _, _, htry, h, -⟩ := Proc.Completes.of_attempt_bind hR.refl h
    obtain ⟨-, hx, hR₁⟩ := h.of_ofExcept
    have hanswer : x = .ok (.run run) := by
      rcases answering_cases x with hsame | ⟨-, hnone⟩
      · exact hsame.symm.trans hx.symm
      · exact absurd hx.symm (hnone run)
    rw [hanswer] at htry
    obtain ⟨d, hdraft, hvalid, hmade⟩ := exists_draft_of_tryCreate hR htry
    exact ⟨context, d, rfl, hdraft.mono (hR.extends_resources _ _ hR₁), hvalid,
      hmade.later (hR.exists_calls _ _ hR₁)⟩

end FirstRequest

/-! ### The queue of a tenant -/

/-- The queued runs of a tenant, as they are listed. -/
def queuedRows (tenantId : String) (db : Database) : List RunRow :=
  (db.runs.rows.filter fun row => row.tenantId = tenantId ∧ row.status = .queued).insertionSort
    createdBefore

/-- What is listed of the queue of a tenant. -/
theorem perform_listRuns_queued (sha : Sha256) (tenantId : String) {limit : ℕ} (hlimit : 1 ≤ limit)
    (clock : ℕ → ClockReading) (db : Database) :
    (perform sha ⟨.listRuns tenantId none (some limit) none [.queued], clock⟩ db).1 =
      ((queuedRows tenantId db).take limit).mapM runFromRow := by
  have hrows : (db.runs.rows.filter fun r => r.tenantId = tenantId ∧
      (∀ a ∈ (none : Option RunRow), ¬ createdBefore r a) ∧
      (∀ s ∈ (none : Option UUID), r.sessionId = s) ∧
      (([RunStatus.queued] : List RunStatus) = [] ∨ r.status ∈ [RunStatus.queued])) =
      db.runs.rows.filter fun row => row.tenantId = tenantId ∧ row.status = .queued :=
    List.filter_congr fun row _ => by simp
  have hpositive : ∀ n ∈ some (limit : ℤ), 1 ≤ n := by
    rintro n ⟨⟩
    exact Nat.cast_le.mpr hlimit
  have hbody : SQLite.listRuns tenantId none (some limit) none [.queued] ⟨db, clock⟩ =
      (((queuedRows tenantId db).take limit).mapM runFromRow, ⟨db, clock⟩) := by
    have hchecked : Tx.raiseUnless (∀ n ∈ some (limit : ℤ), 1 ≤ n)
        (StoreError.valueError "limit must be positive") (⟨db, clock⟩ : Connection) =
        (.ok (), ⟨db, clock⟩) := Tx.yields_raiseUnless.mpr ⟨hpositive, rfl⟩
    rw [queuedRows, ← hrows, SQLite.listRuns, Tx.bind_of_ok hchecked]
    rfl
  rcases hruns : ((queuedRows tenantId db).take limit).mapM runFromRow with e | runs
  · rw [hruns] at hbody
    exact transaction_fst_eq_error_iff.mpr (congrArg Prod.fst hbody)
  · rw [hruns] at hbody
    exact congrArg Prod.fst (transaction_eq_ok_iff.mpr ⟨_, hbody, rfl⟩)

/-! ### The request again -/

/-- No table has changed. -/
structure SameTables (t t' : ServerState) : Prop where
  db_eq : t'.world.db = t.world.db
  invocations_eq : t'.world.invocations = t.world.invocations
  resources_eq : t'.resources = t.resources

/-- The answer with the run of a row, once it is published. -/
def publishRow (publish : RunSignal → Except Exn Unit) (row : RunRow) : Except Exn RunAnswer := do
  let run ← (runFromRow row).mapError Exn.store
  let _ ← publish (.ofWaiting run)
  RunAnswer.ofRun run

/-- What the `try` block comes to for a request whose run is in a row. -/
def CreationServer.answerAgain (server : CreationServer) (publish : RunSignal → Except Exn Unit)
    (tenantId : String) (row : RunRow) (db : Database) : Except Exn RunAnswer := do
  let queued ← (((queuedRows tenantId db).take server.maxQueuedRunsPerTenant).mapM
    runFromRow).mapError Exn.store
  if server.maxQueuedRunsPerTenant ≤ queued.length then .ok CreationServer.exhausted
  else publishRow publish row

/-- What becomes of a request whose run is in a row: no table changes, and no other run is the
answer. The run is the answer if and only if there is room in the queue of the tenant, the times in
the rows of the run and of the queued ones can be read, the signal is published, and there is a JSON
text of the run. -/
structure CreationServer.AnsweredAgain (server : CreationServer)
    (publish : RunSignal → Except Exn Unit) (tenantId : String) (row : RunRow) (t : ServerState)
    (x : Except Exn RunAnswer) (t' : ServerState) : Prop where
  same : SameTables t t'
  id_eq : ∀ again, x = .ok (.run again) → again.id = row.id
  answered_iff : (∃ again, x = .ok (.run again)) ↔
    (queuedRows tenantId t.world.db).length < server.maxQueuedRunsPerTenant ∧
      (∀ queued ∈ queuedRows tenantId t.world.db, queued.updatedAt.Aware) ∧
      ∃ again, runFromRow row = .ok again ∧ publish (.ofWaiting again) = .ok () ∧
        jsonResponse (runJson again) = .ok ()

section Again

variable {sha : Sha256} {server : CreationServer} {context : SecurityContext} {t : ServerState}

theorem ends_assistant {assistantId : String} {assistant : Assistant}
    (h : server.Resolves t.resources context assistantId assistant) :
    (server.assistant context assistantId).Ends (CreationCmd.exec sha)
      (fun x t' => x = .ok assistant ∧ t' = t) t := by
  rw [CreationServer.assistant]
  rcases h with hsome | ⟨hnone, record, hrecord, htemplate, hrevision⟩
  · rw [hsome]
    exact ⟨rfl, rfl⟩
  · rw [hnone]
    intro i
    show (Proc.ofExcept ((foundOr assistantId (t.resources.assistants.find?
      (context.tenantId.val, assistantId))).mapError Exn.store) >>= _).Ends _ _ t
    rw [hrecord]
    show (match server.assistants record.templateId with | some _ => _ | none => _ :
      Creating Assistant).Ends _ _ t
    rw [htemplate]
    dsimp only
    rw [if_pos hrevision]
    exact ⟨rfl, rfl⟩

theorem ends_checkSession {sessionId : UUID} {known : SessionRecord}
    (h : t.resources.sessions.find? sessionId = some known)
    (htenant : known.tenantId = context.tenantId.val) :
    (CreationServer.checkSession context sessionId).Ends (CreationCmd.exec sha)
      (fun x t' => x = .ok () ∧ t' = t) t := by
  intro i
  show ((Proc.ofExcept ((foundOr sessionId.str (t.resources.sessions.find? sessionId)).mapError
    Exn.store)).attempt >>= _).Ends _ _ t
  rw [h]
  show (Proc.throwUnless (known.tenantId = context.tenantId.val) _).Ends _ _ t
  rw [Proc.throwUnless, if_pos htenant]
  exact ⟨rfl, rfl⟩

theorem ends_newContext {d : Draft} :
    (CreationServer.newContext context d.assistant.revisionId).Ends (CreationCmd.exec sha)
      (fun x t' => (∃ runContext, x = .ok runContext ∧ d.ContextOf context runContext) ∧ t' = t)
      t :=
  fun _ _ _ => ⟨⟨_, rfl, ⟨rfl, rfl, rfl⟩⟩, rfl⟩

theorem ends_queued (tenantId : String) {limit : ℕ} (hlimit : 1 ≤ limit) :
    (Creating.system (Process.store
      (Op.listRuns tenantId none (some limit) none [.queued]))).Ends (CreationCmd.exec sha)
      (fun x t' =>
        x = (((queuedRows tenantId t.world.db).take limit).mapM runFromRow).mapError Exn.store ∧
          t' = t) t := by
  rw [system_store]
  intro i
  refine Proc.ends_ofExcept ⟨?_, ?_⟩
  · exact congrArg (Except.mapError Exn.store) (perform_listRuns_queued sha tenantId hlimit _ _)
  · show ServerState.mk { t.world with db := (perform sha _ t.world.db).2 } t.resources = t
    rw [perform_listRuns_snd]

/-- The run that was made for a draft is in the tables, with its request. -/
theorem exists_row_of_made {key : String} {d : Draft} {run : Run} {db : Database}
    (h : Made sha context (some key) d run db) : ∃ row runContext id createdAt made,
      db.runs.find? run.id = some row ∧ d.ContextOf context runContext ∧
      Run.create (d.submission runContext (some key)) id createdAt = .ok made ∧
      Repeats sha made row := by
  obtain ⟨runContext, id, createdAt, made, db₀, clock, calls, hc, hmade, hrun, rfl⟩ := h
  have hkey : made.idempotencyKey ≠ none := by
    rw [Run.create] at hmade
    split_ifs at hmade
    cases hmade
    exact Option.some_ne_none key
  obtain ⟨row₀, hrow₀, hrepeats⟩ := exists_repeats hkey hrun
  obtain ⟨row, hrow, hsame⟩ := exists_request_later sha calls hrow₀
  exact ⟨row, runContext, id, createdAt, made, hrow, hc, hmade, hrepeats.of_request hsame⟩

theorem ends_submit {key : String} {d : Draft} {row : RunRow} {c c₀ : RunContext} {id₀ : UUID}
    {createdAt₀ : Datetime} {made : Run} (hkeys : t.world.db.UniqueKeys)
    (hvalid : d.validated server.runtime.steps.texts = .ok ())
    (hrow : row ∈ t.world.db.runs.rows) (hc₀ : d.ContextOf context c₀)
    (hc : d.ContextOf context c)
    (hmade : Run.create (d.submission c₀ (some key)) id₀ createdAt₀ = .ok made)
    (hrepeats : Repeats sha made row) :
    (Creating.system (server.runtime.submit (d.submission c (some key)))).Ends
      (CreationCmd.exec sha)
      (fun x t' => x = (runFromRow row).mapError Exn.store ∧ SameTables t t') t := by
  rw [system_submit server.runtime hc.deadline_eq, Draft.validated_submission, hvalid]
  intro i j
  obtain ⟨again, hagain⟩ := Draft.exists_create hmade c j.system.uuid
    (Datetime.isUtc_utc (i.system.clock 0)).aware
  show (Proc.ofExcept ((Run.create (d.submission c (some key)) j.system.uuid
    (.utc (i.system.clock 0))).mapError Exn.store) >>= _).Ends _ _ t
  rw [hagain]
  intro k
  obtain ⟨hfingerprint, htenant, hsame⟩ := Draft.fingerprint_eq hc₀ hc hmade hagain sha
  obtain ⟨key', hkey', hrowKey⟩ := hrepeats.key_eq
  have hperform : perform sha ⟨.createRun again, k.system.clock⟩ t.world.db =
      (keyAnswer sha again row, t.world.db) :=
    perform_createRun_of_key k.system.clock hkeys hrow
      (hrepeats.tenant_eq.trans htenant.symm) (hsame.trans hkey') hrowKey
  rw [keyAnswer, if_pos (hrepeats.fingerprint_eq.trans hfingerprint.symm)] at hperform
  show (Proc.ofExcept ((perform sha ⟨.createRun again, k.system.clock⟩ t.world.db).1.mapError
    Exn.store) >>= _).Ends _ _ { t with world := { t.world with
      db := (perform sha ⟨.createRun again, k.system.clock⟩ t.world.db).2 } }
  rw [hperform]
  rcases hrun : runFromRow row with e | run
  · exact ⟨rfl, rfl, rfl, rfl⟩
  · exact fun _ => ⟨rfl, rfl, rfl, rfl⟩

/-- The `try` block for a request whose run is in a row. -/
theorem ends_tryCreate (publish : RunSignal → Except Exn Unit) {r : CreationRequest} {key : String}
    {d : Draft} {row : RunRow} {c₀ : RunContext} {id₀ : UUID} {createdAt₀ : Datetime} {made : Run}
    (hkey : r.idempotencyKey = some key) (hkeys : t.world.db.UniqueKeys)
    (hdraft : server.Drafts t.resources context r d)
    (hvalid : d.validated server.runtime.steps.texts = .ok ()) (hrow : row ∈ t.world.db.runs.rows)
    (hc₀ : d.ContextOf context c₀)
    (hmade : Run.create (d.submission c₀ (some key)) id₀ createdAt₀ = .ok made)
    (hrepeats : Repeats sha made row) :
    (server.tryCreate publish context r).Ends (CreationCmd.exec sha) (fun x t' =>
      x = server.answerAgain publish context.tenantId.val row t.world.db ∧ SameTables t t') t := by
  obtain ⟨body, assistantId, sessionText, hbody, hassistantId, hresolves, hsessionText, hsessionId,
    ⟨known, hknown, htenant⟩, hstate, hpriority⟩ := hdraft.exists_body
  refine Proc.ends_ofExcept_bind hbody (Proc.ends_ofExcept_bind hassistantId ?_)
  refine Proc.Ends.bind (ends_assistant hresolves) ?_ (by rintro e _ ⟨⟨⟩, -⟩)
  rintro _ _ ⟨⟨⟩, rfl⟩
  refine Proc.ends_ofExcept_bind hsessionText (Proc.ends_ofExcept_bind hsessionId ?_)
  refine Proc.Ends.bind (ends_checkSession hknown htenant) ?_ (by rintro e _ ⟨⟨⟩, -⟩)
  rintro _ _ ⟨⟨⟩, rfl⟩
  refine Proc.Ends.bind (ends_newContext (d := d)) ?_ (by rintro e _ ⟨⟨_, ⟨⟩, -⟩, -⟩)
  rintro runContext _ ⟨⟨_, ⟨⟩, hc⟩, rfl⟩
  refine Proc.ends_ofExcept_bind hstate ?_
  refine Proc.Ends.bind (ends_queued _ server.maxQueuedRunsPerTenant_pos) ?_ ?_
  · rintro queued _ ⟨hqueued, rfl⟩
    rw [CreationServer.answerAgain, ← hqueued]
    refine Proc.ends_ite (fun hfull => ⟨(if_pos hfull).symm, rfl, rfl, rfl⟩) fun hroom => ?_
    refine Proc.ends_ofExcept_bind hpriority ?_
    rw [hkey]
    have hrest : ∀ x, x = publishRow publish row → x =
        if server.maxQueuedRunsPerTenant ≤ queued.length then .ok CreationServer.exhausted
        else publishRow publish row := by
      intro x hx
      rw [if_neg hroom, hx]
    refine Proc.Ends.bind (ends_submit hkeys hvalid hrow hc₀ hc hmade hrepeats) ?_ ?_
    · rintro run t' ⟨hrun, hsame⟩
      rcases hpublish : publish (.ofWaiting run) with e | u
      · refine ⟨hrest _ ?_, hsame⟩
        rw [publishRow, ← hrun]
        exact (congrArg (· >>= fun _ => RunAnswer.ofRun run) hpublish).symm
      · refine Proc.ends_ofExcept ⟨hrest _ ?_, hsame⟩
        rw [publishRow, ← hrun]
        exact (congrArg (· >>= fun _ => RunAnswer.ofRun run) hpublish).symm
    · rintro e t' ⟨hrun, hsame⟩
      refine ⟨hrest _ ?_, hsame⟩
      rw [publishRow, ← hrun]
      rfl
  · rintro e _ ⟨hqueued, rfl⟩
    rw [CreationServer.answerAgain, ← hqueued]
    exact ⟨rfl, rfl, rfl, rfl⟩

theorem length_of_mapM {ε α β : Type} {f : α → Except ε β} {as : List α} {bs : List β}
    (h : as.mapM f = .ok bs) : bs.length = as.length := by
  induction as generalizing bs with
  | nil =>
    cases h
    rfl
  | cons a as ih =>
    rw [List.mapM_cons] at h
    obtain ⟨b, -, h⟩ := exists_of_bind_eq_ok h
    obtain ⟨bs, hbs, h⟩ := exists_of_bind_eq_ok h
    cases h
    rw [List.length_cons, List.length_cons, ih hbs]

theorem publishRow_eq_ok_iff {publish : RunSignal → Except Exn Unit} {row : RunRow} {run : Run} :
    publishRow publish row = .ok (.run run) ↔ runFromRow row = .ok run ∧
      publish (.ofWaiting run) = .ok () ∧ jsonResponse (runJson run) = .ok () := by
  rw [publishRow]
  simp only [bind_eq_ok_iff, mapError_eq_ok_iff, RunAnswer.ofRun_eq_ok_iff, RunAnswer.run.injEq]
  constructor
  · rintro ⟨_, hrow, ⟨⟩, hpublish, hjson, rfl⟩
    exact ⟨hrow, hpublish, hjson⟩
  · rintro ⟨hrow, hpublish, hjson⟩
    exact ⟨run, hrow, (), hpublish, hjson, rfl⟩

/-- When the `try` block answers with the run. -/
theorem CreationServer.answerAgain_eq_ok_iff {publish : RunSignal → Except Exn Unit}
    {tenantId : String} {row : RunRow} {db : Database} {run : Run} :
    server.answerAgain publish tenantId row db = .ok (.run run) ↔
      (queuedRows tenantId db).length < server.maxQueuedRunsPerTenant ∧
      (∀ queued ∈ queuedRows tenantId db, queued.updatedAt.Aware) ∧ runFromRow row = .ok run ∧
      publish (.ofWaiting run) = .ok () ∧ jsonResponse (runJson run) = .ok () := by
  rw [CreationServer.answerAgain, bind_eq_ok_iff, ← publishRow_eq_ok_iff]
  simp only [mapError_eq_ok_iff]
  constructor
  · rintro ⟨queued, hqueued, hanswer⟩
    have hlength := length_of_mapM hqueued
    rw [List.length_take] at hlength
    split_ifs at hanswer with hfull
    · cases hanswer
    · have hroom : (queuedRows tenantId db).length < server.maxQueuedRunsPerTenant := by omega
      refine ⟨hroom, fun row hrow => ?_, hanswer⟩
      rw [List.take_of_length_le hroom.le] at hqueued
      obtain ⟨run, hrun⟩ := exists_mapM_iff.mp ⟨queued, hqueued⟩ row hrow
      exact (runFromRow_eq_ok.mp hrun).1
  · rintro ⟨hroom, haware, hanswer⟩
    obtain ⟨queued, hqueued⟩ := exists_mapM_iff.mpr fun row hrow =>
      ⟨row.toRun (haware row hrow), runFromRow_eq_ok.mpr ⟨haware row hrow, rfl⟩⟩
    have hlength := length_of_mapM hqueued
    rw [List.take_of_length_le hroom.le]
    refine ⟨queued, hqueued, ?_⟩
    rw [if_neg (by omega)]
    exact hanswer

/-- The clauses leave an answer as it is, and make no run of an error. -/
theorem CreationServer.clauses_cases (server : CreationServer) (x : Except Exn RunAnswer) :
    server.clauses x = x ∨ (∃ e, x = .error e) ∧ ∀ run, server.clauses x ≠ .ok (.run run) :=
  answering_cases x

/-- **Repeated requests.** A request under an idempotency key was answered with a run, among any
others, and is sent again at a later time. Then the run is still there, and the request changes no
table and is not answered with any other run; and it is known exactly when it is answered with this
one. -/
theorem CreationServer.repeated {R : ServerState → ServerState → Prop}
    (hR : ServerInterference sha R) {s s' : ServerState}
    {trace : List ((c : CreationCmd) × c.Answer)} {publish : RunSignal → Except Exn Unit}
    (publish' : RunSignal → Except Exn Unit) {r : CreationRequest} {run : Run}
    (hkey : r.idempotencyKey ≠ none)
    (h : (server.createRun publish r).Completes (CreationCmd.exec sha) R s trace (.ok (.run run))
      s') (hreached : ∃ calls, s.world.db = after sha calls) (hlater : R s' t) :
    ∃ context row, authenticate r.context "run.create" = .ok context ∧
      t.world.db.runs.find? run.id = some row ∧
      (server.createRun publish' r).Ends (CreationCmd.exec sha)
        (server.AnsweredAgain publish' context.tenantId.val row t) t := by
  obtain ⟨context, d, hauth, hdraft, hvalid, hmade⟩ := exists_draft_of_createRun hR h
  obtain ⟨key, hkey⟩ := Option.ne_none_iff_exists'.mp hkey
  rw [hkey] at hmade
  obtain ⟨row, c₀, id₀, createdAt₀, made, hrow, hc₀, hcreate, hrepeats⟩ :=
    exists_row_of_made (hmade.later (hR.exists_calls _ _ hlater))
  refine ⟨context, row, hauth, hrow, ?_⟩
  have hkeys : t.world.db.UniqueKeys := by
    obtain ⟨past, hpast⟩ := hreached
    obtain ⟨calls, hcalls⟩ := exists_calls_trans (exists_calls_of_completes hR h)
      (hR.exists_calls _ _ hlater)
    rw [hcalls, hpast, later_after]
    exact uniqueKeys_after sha _
  rw [CreationServer.createRun, hauth]
  refine Proc.Ends.attempt_bind (ends_tryCreate publish' hkey hkeys
    (hdraft.mono (hR.extends_resources _ _ hlater)) hvalid (Table.mem_of_find? hrow) hc₀ hcreate
    hrepeats) ?_
  rintro x t' ⟨hx, hsame⟩
  have hanswer : ∀ again, server.clauses x = .ok (.run again) ↔
      server.answerAgain publish' context.tenantId.val row t.world.db = .ok (.run again) := by
    intro again
    rw [← hx]
    rcases server.clauses_cases x with hclauses | ⟨⟨e, rfl⟩, hnone⟩
    · rw [hclauses]
    · exact iff_of_false (hnone again) (by simp)
  refine Proc.ends_ofExcept ⟨hsame, fun again hagain => ?_, ?_⟩
  · obtain ⟨-, -, hread, -⟩ := CreationServer.answerAgain_eq_ok_iff.mp ((hanswer again).mp hagain)
    obtain ⟨haware, rfl⟩ := runFromRow_eq_ok.mp hread
    rfl
  · simp only [hanswer, CreationServer.answerAgain_eq_ok_iff, exists_and_left]

end Again

/-- All ways in which others can call the stores. -/
theorem serverInterference_calls (sha : Sha256) : ServerInterference sha fun a b =>
    (∃ calls, b.world.db = later sha calls a.world.db) ∧ a.resources.Extends b.resources where
  refl s := ⟨⟨[], rfl⟩, .refl _⟩
  trans := by
    rintro a b c ⟨hcalls, hextends⟩ ⟨hmore, hextends'⟩
    exact ⟨exists_calls_trans hcalls hmore, hextends.trans _ _ _ hextends'⟩
  exists_calls _ _ h := h.1
  extends_resources _ _ h := h.2

/-! ### A sample -/

namespace Sample

theorem strip_runCreate : strip "run.create" = "run.create" := by decide

theorem ne_empty_runCreate : "run.create" ≠ "" := by decide

/-- A caller who may create runs. -/
def creator : SecurityContext :=
  { reader with grants := {⟨"run.create", strip_runCreate, ne_empty_runCreate⟩} }

/-- A server with one assistant, and room for one queued run of a tenant. -/
def agentServer : CreationServer where
  assistants id := if id = "charge" then
      some ⟨(registration none).plan, [], run.revisionId⟩
    else none
  runtime := { runtime none with readings := documented }
  decimals := decimals
  maxQueuedRunsPerTenant := 1
  maxQueuedRunsPerTenant_pos := Nat.le_refl 1

/-- A request for a run of the assistant. -/
def creation : CreationRequest where
  context := some creator
  body := .ok [("assistant_id", .str "charge"), ("priority", .str "0"),
    ("session_id", .str run.sessionId.str)]
  idempotencyKey := some "key"

/-- The server with the session. -/
def opened : ServerState where
  world := ⟨.empty, .empty, [], .empty⟩
  resources := ((ResourceCmd.insertSession ⟨run.sessionId, "tenant", run.createdAt⟩).exec .empty).2

/-- The request is answered for the first time. -/
def created : List ((c : CreationCmd) × c.Answer) × Option (Except Exn RunAnswer) × ServerState :=
  (agentServer.createRun (fun _ => .ok ()) creation).complete (CreationCmd.exec Sample.sha)
    ⟨input 1, "0af7651916cd43dd"⟩ opened

/-- The run of an answer. -/
def answered : Option (Except Exn RunAnswer) → Option Run
  | some (.ok (.run run)) => some run
  | _ => none

theorem isSome_created : (answered created.2.1).isSome = true := by decide +kernel

theorem exists_created : ∃ made, created.2.1 = some (.ok (.run made)) := by
  obtain ⟨made, hmade⟩ := Option.isSome_iff_exists.mp isSome_created
  refine ⟨made, ?_⟩
  generalize created.2.1 = x at hmade
  match x, hmade with
  | some (.ok (.run run)), hmade =>
    cases hmade
    rfl

/-- A worker claims a run. -/
def afterClaim (s : ServerState) : ServerState :=
  { s with world := { s.world with
      db := later Sample.sha [⟨.claimNext "first" (.finite 30) none, clock 2⟩] s.world.db } }

theorem afterClaim_later (s : ServerState) :
    (∃ calls, (afterClaim s).world.db = later Sample.sha calls s.world.db) ∧
      s.resources.Extends (afterClaim s).resources :=
  ⟨⟨_, rfl⟩, .refl _⟩

theorem completes_created {made : Run} (hmade : created.2.1 = some (.ok (.run made))) :
    (agentServer.createRun (fun _ => .ok ()) creation).Completes (CreationCmd.exec Sample.sha)
      (fun a b => (∃ calls, b.world.db = later Sample.sha calls a.world.db) ∧
        a.resources.Extends b.resources) opened created.1 (.ok (.run made)) created.2.2 :=
  Proc.completes_complete (serverInterference_calls Sample.sha).refl hmade

theorem created_repeated : ∃ made context row, created.2.1 = some (.ok (.run made)) ∧
    authenticate creation.context "run.create" = .ok context ∧
    (afterClaim created.2.2).world.db.runs.find? made.id = some row ∧
    (agentServer.createRun (fun _ => .ok ()) creation).Ends (CreationCmd.exec Sample.sha)
      (agentServer.AnsweredAgain (fun _ => .ok ()) context.tenantId.val row
        (afterClaim created.2.2)) (afterClaim created.2.2) := by
  obtain ⟨made, hmade⟩ := exists_created
  have hR := serverInterference_calls Sample.sha
  obtain ⟨context, row, hauth, hrow, hends⟩ := CreationServer.repeated hR (fun _ => .ok ())
    (Option.some_ne_none "key") (completes_created hmade) ⟨[], rfl⟩ (afterClaim_later created.2.2)
  refine ⟨made, context, row, hmade, hauth, hrow, ?_⟩
  assumption

/-- There is room again. -/
example : (queuedRows "tenant" (afterClaim created.2.2).world.db).length <
    agentServer.maxQueuedRunsPerTenant := by decide +kernel

end Sample

end OpenRath
