import OpenRath.Runtime.Footprint

/-!
# The identity that a run is executed under

`LocalRuntime.submit` (`src/rath/runtime/local.py`) makes a run and puts its context into the cache
of the runtime. When the same request is submitted again, `create_run` answers with the earlier run,
and the cache gets the context of the second submission: the fingerprint of a request ignores the
context. A runtime whose cache is empty restores the context of the first submission from the column
of the run instead.

The two sources agree on a run as long as every request that is answered by it comes with its
identity. Then every handler of a step of the run is called with the identity that was stored when
the run was inserted, through every order of submissions, restarts and claims.

## Main definitions

* `Submission`, `Run.create`, `LocalRuntime.submit`.
* `World.Persisted`: the identity that is stored with a run.
* `ContextsSound`: every context of a run in memory has the identity that is stored with the run.
* `Cmd.KeepsIdentity`: the condition on requests that are answered by a run.
* `Hosted`: the processes of a system with submissions.

## Main results

* `identity_of_creator`: handlers are called with the identity that was inserted with the run.
* `identity_replaced`: a repeated submission that replaces the identity.
-/

namespace OpenRath

open Process

/-! ### Submissions -/

/-- The arguments of `submit`, with the plan that its workflow is compiled to. -/
structure Submission where
  plan : ExecutionPlan
  /-- The input schema of the definition of the plan. -/
  inputSchema : JsonObject
  sessionId : UUID
  context : RunContext
  state : JsonObject
  idempotencyKey : Option String
  priority : ℤ

/-- `Run.create` for a submission, with the id it draws and the time it reads. -/
def Run.create (s : Submission) (id : UUID) (createdAt : Datetime) : Except StoreError Run :=
  if priority : -100 ≤ s.priority ∧ s.priority ≤ 100 then
    if aware : createdAt.Aware then .ok
      { id := id
        planId := s.plan.id
        revisionId := s.context.revisionId
        sessionId := s.sessionId
        tenantId := s.context.security.tenantId.val
        status := .queued
        state := s.state
        nextNodes := [s.plan.entrypoint]
        createdAt := createdAt
        updatedAt := createdAt
        version := 0
        idempotencyKey := s.idempotencyKey
        context := s.context.column
        priority := s.priority
        tenantId_not_blank := s.context.security.tenantId.val_not_blank
        priority_mem := priority
        createdAt_aware := aware
        updatedAt_aware := aware }
    else .error (.valueError "run.created_at must be timezone-aware")
  else .error (.valueError "run priority must be between -100 and 100")

theorem Run.create_eq_ok {s : Submission} {id : UUID} {createdAt : Datetime} {run : Run}
    (h : Run.create s id createdAt = .ok run) :
    run.context = s.context.column ∧ run.tenantId = s.context.security.tenantId.val := by
  rw [Run.create] at h
  split_ifs at h
  cases h
  exact ⟨rfl, rfl⟩

/-- `submit`, once the plan is registered. -/
def LocalRuntime.submit (rt : LocalRuntime) (s : Submission) : Process Run := do
  s.context.ensureActive
  .ofExcept (if s.inputSchema = [] then .ok ()
    else (validateJson rt.steps.texts true (.obj s.state) s.inputSchema "$").mapError .schema)
  let createdAt ← Process.now
  let id ← uuid4
  let run ← check (Run.create s id createdAt)
  let created : Run ← store (.createRun run)
  Process.context (.set rt.number created.id s.context)
  pure created

/-! ### Identities in memory -/

section Identities

variable (sha : Sha256) (texts : Texts)

/-- The identity that is stored with the run `i`. -/
def World.Persisted (w : World) (i : UUID) (s : SecurityContext) : Prop :=
  ∃ row ∈ w.db.runs.find? i, storedSecurity texts row.context row.tenantId = .ok s

/-- Every context of the run `i` in memory has the identity that is stored with the run. -/
structure ContextsSound (i : UUID) (w : World) : Prop where
  cached : ∀ r context, w.contexts.cached r i = some context →
    w.Persisted texts i context.security
  given : ∀ context, (i, context) ∈ w.contexts.given → w.Persisted texts i context.security

/-- A run that is there stays, with its request. -/
def World.KeepsRequests (w w' : World) : Prop :=
  ∀ i, ∀ row ∈ w.db.runs.find? i, ∃ row' ∈ w'.db.runs.find? i, row'.request = row.request

/-- A command that puts a context of the run `i` into memory does so under the identity that is
stored. -/
def ContextCmd.Right (i : UUID) (w : World) : ContextCmd → Prop
  | set _ k context | give k context => k = i → w.Persisted texts k context.security
  | get _ _ | pop _ _ => True

/-- If a request is answered by the run `i`, its identity is the one that is stored with the run. -/
def Cmd.KeepsIdentity (i : UUID) (c : Cmd) (w : World) : Prop :=
  match c with
  | .store (.createRun run) => ∀ row ∈ w.db.runs.find? i, SQLite.Repeats sha run row →
    storedSecurity texts row.context row.tenantId =
      storedSecurity texts run.context run.tenantId
  | _ => True

instance (w : World) (i : UUID) (s : SecurityContext) : Decidable (w.Persisted texts i s) :=
  inferInstanceAs (Decidable (∃ _ ∈ _, _))

instance (i : UUID) (w : World) : (c : Cmd) → Decidable (c.KeepsIdentity sha texts i w)
  | .store (.createRun _) => inferInstanceAs (Decidable (∀ _ ∈ _, _ → _))
  | .store (.getRun _) | .store (.listRuns ..) | .store (.countRuns ..)
  | .store (.transitionRun ..) | .store (.listRunEvents ..) | .store (.appendRunEvent ..)
  | .store (.appendCheckpoint _) | .store (.latestCheckpoint _) | .store (.listCheckpoints _)
  | .store (.commitCheckpoint ..) | .store (.finishClaim ..) | .store (.createInterrupt ..)
  | .store (.getInterrupt _) | .store (.listInterrupts ..) | .store (.expireInterrupts _)
  | .store (.decideInterrupt ..) | .store (.claimNext ..) | .store (.renewLease ..)
  | .store (.assertFencingToken ..) | .store (.requeueExpiredLeases _) | .ledger _ | .now
  | .uuid4 | .elapsed | .startTool .. | .observe | .context _ => .isTrue trivial

end Identities

section Steps

variable {sha : Sha256} {texts : Texts} {w w' w'' : World} {i k : UUID} {s : SecurityContext}

namespace World

theorem KeepsRequests.refl (w : World) : w.KeepsRequests w :=
  fun _ row hrow => ⟨row, hrow, rfl⟩

theorem KeepsRequests.trans (w w' w'' : World) (h : w.KeepsRequests w')
    (h' : w'.KeepsRequests w'') : w.KeepsRequests w'' := by
  intro i row hrow
  obtain ⟨row', hrow', hsame⟩ := h i row hrow
  obtain ⟨row'', hrow'', hsame'⟩ := h' i row' hrow'
  exact ⟨row'', hrow'', hsame'.trans hsame⟩

theorem keepsRequests_exec (sha : Sha256) (c : Cmd) (input : Input) (w : World) :
    w.KeepsRequests (exec sha c input w).2 := by
  intro i row hrow
  obtain ⟨a, hstep⟩ := exists_step_exec sha c input w i
  exact hstep.exists_request hrow

theorem KeepsRequests.persisted (h : w.KeepsRequests w') (hs : w.Persisted texts i s) :
    w'.Persisted texts i s := by
  obtain ⟨row, hrow, hs⟩ := hs
  obtain ⟨row', hrow', hsame⟩ := h i row hrow
  have hcontext : row'.context = row.context := congrArg RunRequest.context hsame
  have htenant : row'.tenantId = row.tenantId := congrArg RunRequest.tenantId hsame
  exact ⟨row', hrow', by rw [hcontext, htenant, hs]⟩

end World

theorem ContextsSound.of_contexts_eq (h : ContextsSound texts i w) (hkeeps : w.KeepsRequests w')
    (hsame : w'.contexts = w.contexts) : ContextsSound texts i w' where
  cached r context hc := hkeeps.persisted (h.cached r context (hsame ▸ hc))
  given context he := hkeeps.persisted (h.given context (hsame ▸ he))

/-- A change of one entry of a cache to a context with the stored identity, or to none. -/
theorem ContextsSound.put (h : ContextsSound texts i w) (r : ℕ) {context : Option RunContext}
    (hcontext : k = i → ∀ c ∈ context, w.Persisted texts k c.security) :
    ContextsSound texts i { w with contexts := w.contexts.put r k context } := by
  refine ⟨fun r' c hc => ?_, h.given⟩
  rw [Contexts.put] at hc
  dsimp only at hc
  split_ifs at hc with hat
  · rw [hat.2]
    exact hcontext hat.2.symm c hc
  · exact h.cached r' c hc

/-- A command keeps the contexts in memory sound, if it puts only right ones there. -/
theorem ContextsSound.exec (h : ContextsSound texts i w) {c : Cmd} (input : Input)
    (hc : ∀ x, c = .context x → x.Right texts i w) :
    ContextsSound texts i (World.exec sha c input w).2 := by
  cases c with
  | store | ledger | now | uuid4 | elapsed | startTool | observe =>
    exact h.of_contexts_eq (World.keepsRequests_exec sha _ input w) rfl
  | context x =>
    have hright := hc x rfl
    cases x with
    | get => exact h
    | set r k context => exact h.put r fun hk c hc => by cases hc; exact hright hk
    | pop r k => exact h.put r fun _ c hc => by cases hc
    | give k context =>
      refine ⟨h.cached, fun context' he => ?_⟩
      rcases List.mem_append.mp he with he | he
      · exact h.given context' he
      · cases List.mem_singleton.mp he
        exact hright rfl

end Steps

/-! ### Programs -/

section Programs

variable (sha : Sha256) (texts : Texts) (i : UUID)

/-- A program that keeps the contexts of the run `i` in memory sound among others that leave the
requests of runs alone, as long as the requests that the run answers keep its identity. -/
abbrev Sound {ε α : Type} (p : Proc Cmd Cmd.Answer ε α) (Q : Except ε α → World → Prop)
    (w : World) : Prop :=
  p.Safe (World.exec sha) (ContextsSound texts i) World.KeepsRequests
    (Cmd.KeepsIdentity sha texts i) Q w

variable {sha texts i} {w : World}

/-- A single command is sound if the context that it puts into memory is right. -/
theorem sound_perform {ε : Type} {c : Cmd}
    (hc : ∀ w', w.KeepsRequests w' → ∀ x, c = .context x → x.Right texts i w') :
    Sound sha texts i (Proc.perform c : Proc Cmd Cmd.Answer ε c.Answer) (fun _ _ => True) w := by
  refine Proc.safe_call fun w₁ hR hI _ input => ⟨hI.exec input (hc w₁ hR), ?_, trivial⟩
  exact World.keepsRequests_exec sha c input w₁

theorem sound_contextless {ε : Type} {c : Cmd} (hc : c.Contextless) (w : World) :
    Sound sha texts i (Proc.perform c : Proc Cmd Cmd.Answer ε c.Answer) (fun _ _ => True) w := by
  refine sound_perform fun _ _ x hx => ?_
  subst hx
  exact hc.elim

theorem closedOnRuntime_sound : ClosedOnRuntime fun _ _ p =>
    ∀ w, Sound sha texts i p (fun _ _ => True) w where
  toClosed := Proc.closed_safe
  command _ _ _ hc := sound_contextless hc

/-- An operation of the run store, with a condition on what it returns. -/
theorem sound_store {op : Op} {Q : Except Exn op.Result → World → Prop}
    (h : ∀ w₁ input r, w.KeepsRequests w₁ → Cmd.KeepsIdentity sha texts i (.store op) w₁ →
      (SQLite.perform sha ⟨op, input.clock⟩ w₁.db).1 = .ok r →
      Q (.ok r) (World.exec sha (.store op) input w₁).2)
    (herror : ∀ e w', Q (.error e) w') : Sound sha texts i (store op) Q w := by
  refine safe_store fun w₁ hR hI hE input =>
    ⟨hI.exec input (fun _ h => by cases h), World.keepsRequests_exec sha _ input w₁, ?_⟩
  rcases hr : (SQLite.perform sha ⟨op, input.clock⟩ w₁.db).1 with e | r
  · exact herror _ _
  · exact h w₁ input r hR hE hr

/-- What is stored with the run is so at the end of a sound program. -/
theorem Sound.keep {ε α : Type} {p : Proc Cmd Cmd.Answer ε α} {Q : Except ε α → World → Prop}
    {k : UUID} {s : SecurityContext} (h : Sound sha texts i p Q w)
    (hs : k = i → w.Persisted texts k s) :
    Sound sha texts i p (fun r w' => (k = i → w'.Persisted texts k s) ∧ Q r w') w :=
  Proc.Safe.keep World.KeepsRequests.refl World.KeepsRequests.trans
    (fun _ hR hk => hR.persisted (hs hk)) h

/-- A sound program, followed by one that is so wherever the identity of the run is stored. -/
theorem Sound.bind_keep {ε α β : Type} {p : Proc Cmd Cmd.Answer ε α} {Q : Except ε α → World → Prop}
    {f : α → Proc Cmd Cmd.Answer ε β} {Q' : Except ε β → World → Prop} {k : UUID}
    {s : SecurityContext} (h : Sound sha texts i p Q w) (hs : k = i → w.Persisted texts k s)
    (hf : ∀ a w', (k = i → w'.Persisted texts k s) → Q (.ok a) w' →
      Sound sha texts i (f a) Q' w')
    (herror : ∀ e w', Q (.error e) w' → Q' (.error e) w') : Sound sha texts i (p >>= f) Q' w :=
  (h.keep hs).bind (fun a w' hw => hf a w' hw.1 hw.2) fun e w' hw => herror e w' hw.2

/-! ### Programs: the execution of a claim -/

theorem sound_execute (x : ToolExecutor) (call : ToolCall) (w : World) :
    Sound sha texts i (x.execute call) (fun _ _ => True) w :=
  x.closed_execute closedOnRuntime_sound.onSteps call
    (fun invocationId => sound_contextless (c := .startTool call invocationId) trivial)
    (fun id => closedOnRuntime_sound.bind
      (sound_contextless (c := .ledger (.markDispatched id)) trivial)
      fun _ => closedOnRuntime_sound.ofExcept _) w

/-- The handler of a node is called with the identity that is stored. -/
theorem sound_giveContext {run : Run} {context : RunContext} (node : NodeSpec)
    (hs : run.id = i → w.Persisted texts run.id context.security) :
    Sound sha texts i (LocalRuntime.giveContext run node context) (fun _ _ => True) w := by
  refine Proc.safe_ite (fun _ => trivial) fun _ =>
    sound_perform (c := .context (.give run.id context)) fun w' hR x hx => ?_
  cases hx
  exact fun hrun => hR.persisted (hs hrun)

namespace LocalRuntime

variable (rt : LocalRuntime)

theorem sound_forgetContextIfTerminal (run : Run) (w : World) :
    Sound sha texts i (rt.forgetContextIfTerminal run) (fun _ _ => True) w := by
  refine Proc.safe_ite (fun _ => sound_perform (c := .context (.pop rt.number run.id))
    fun _ _ x hx => ?_) fun _ => trivial
  cases hx
  trivial

theorem sound_commitCheckpoint (checkpoint : Checkpoint) (workerId : String) (token v : ℤ)
    (w : World) : Sound sha texts i (store (.commitCheckpoint checkpoint workerId token v))
      (fun r _ => ∀ run : Run, r = .ok run → run.id = checkpoint.runId) w := by
  refine sound_store (fun w₁ input r _ _ hr run hrun => ?_) fun _ _ _ h => by cases h
  cases hrun
  obtain ⟨c', hy, -⟩ := World.exists_yields_of_ok sha hr
  exact (SQLite.wrote_commitCheckpoint hy).2.id_eq

/-- A commit returns the run it moves. -/
theorem sound_commit (claim : ClaimedRun) (plan : ExecutionPlan) (run : Run)
    (latest : Option Checkpoint) (state : JsonObject) (nextNodes : List String) (w : World) :
    Sound sha texts i (rt.commit claim plan run latest state nextNodes)
      (fun r _ => ∀ run', r = .ok run' → run'.id = run.id) w := by
  have hG : ClosedOnRuntime fun _ _ p => ∀ w, Sound sha texts i p (fun _ _ => True) w :=
    closedOnRuntime_sound
  have herror : ∀ (e : Exn) (_ : World) (run' : Run),
      (Except.error e : Except Exn Run) = .ok run' → run'.id = run.id := fun _ _ _ h => by cases h
  have hput : ∃ f : ℕ → Process Run, rt.commit claim plan run latest state nextNodes =
      (if rt.effectLedger then ledger (.watermark run.id) >>= f else pure 0 >>= f) ∧
      ∀ n w, Sound sha texts i (f n) (fun r _ => ∀ run', r = .ok run' → run'.id = run.id) w := by
    refine ⟨_, rfl, fun n w => ?_⟩
    refine (hG.onSteps.uuid4 w).bind (fun id w' _ => ?_) fun e w' _ => herror e w'
    refine (hG.onSteps.now w').bind (fun createdAt w' _ => ?_) fun e w' _ => herror e w'
    refine Proc.safe_dite (fun aware => ?_) fun _ => herror _ w'
    exact sound_commitCheckpoint _ _ _ _ w'
  obtain ⟨f, hf, hsound⟩ := hput
  rw [hf]
  refine Proc.safe_ite (fun _ => ?_) fun _ => hsound 0 w
  exact (hG.onSteps.ledger (.watermark run.id) trivial w).bind (fun n w' _ => hsound n w')
    fun e w' _ => herror e w'

/-- A node is executed with the context of its run, which it keeps. -/
theorem sound_executeNode (claim : ClaimedRun) (registration : Registration)
    {context : RunContext} {run : Run} (nodeId : String)
    (hs : run.id = i → w.Persisted texts run.id context.security) :
    Sound sha texts i (rt.executeNode claim registration context run nodeId)
      (fun r _ => ∀ run', r = .ok run' → run'.id = run.id) w := by
  have hG : ClosedOnRuntime fun _ _ p => ∀ w, Sound sha texts i p (fun _ _ => True) w :=
    closedOnRuntime_sound
  rw [executeNode]
  rcases registration.plan.node? nodeId with _ | node
  · exact fun _ h => by cases h
  have hnone : ∀ (e : Exn) (_ : World), True → ∀ run',
      (Except.error e : Except Exn Run) = .ok run' → run'.id = run.id :=
    fun _ _ _ _ h => by cases h
  refine Sound.bind_keep (hG.store (.latestCheckpoint run.id) trivial w) hs
    (fun latest w' hs _ => ?_) hnone
  refine Sound.bind_keep (sound_giveContext node hs) hs (fun _ w' hs _ => ?_) hnone
  refine Sound.bind_keep (rt.steps.closed_execute hG.onSteps _ _ _ (sound_execute _) _ _ _ _ w') hs
    (fun result w' hs _ => ?_) hnone
  refine Sound.bind_keep (hG.ofExcept _ w') hs (fun value w' hs _ => ?_) hnone
  refine Sound.bind_keep (hG.ofExcept _ w') hs (fun position w' hs _ => ?_) hnone
  refine Sound.bind_keep (hG.ofExcept _ w') hs (fun _ w' hs _ => ?_) hnone
  refine Proc.safe_ite (fun _ => rt.sound_commit ..) fun _ => ?_
  exact fun run' h => by cases h; rfl

/-- The loop of a claim calls every handler with the context it was given. -/
theorem sound_executeNodes (claim : ClaimedRun) (registration : Registration)
    {context : RunContext} (maxSteps : Option ℤ) (fuel : ℕ) {run : Run} (steps : ℕ)
    (hs : run.id = i → w.Persisted texts run.id context.security) :
    Sound sha texts i (rt.executeNodes claim registration context maxSteps fuel run steps)
      (fun _ _ => True) w := by
  have hG : ClosedOnRuntime fun _ _ p => ∀ w, Sound sha texts i p (fun _ _ => True) w :=
    closedOnRuntime_sound
  induction fuel generalizing run steps w with
  | zero => trivial
  | succ fuel ih =>
    rw [executeNodes]
    rcases run.nextNodes with _ | ⟨nodeId, rest⟩
    · trivial
    refine Proc.safe_ite (fun _ => ?_) fun _ => trivial
    refine Sound.bind_keep (closed_ensureActive hG.onSteps context w) hs (fun _ w' hs _ => ?_)
      fun _ _ _ => trivial
    refine Sound.bind_keep (hG.store (.getRun run.id) trivial w') hs (fun durable w' hs _ => ?_)
      fun _ _ _ => trivial
    refine Proc.safe_ite (fun _ => trivial) fun _ => ?_
    refine Sound.bind_keep (hG.throwUnless _ _ w') hs (fun _ w' hs _ => ?_) fun _ _ _ => trivial
    refine Sound.bind_keep (rt.sound_executeNode claim registration nodeId hs) hs
      (fun run' w' hs hrun' => ?_) fun _ _ _ => trivial
    rw [← hrun' run' rfl] at hs
    exact ih (steps + 1) hs

/-- A context that is restored has the identity that is stored in the column. -/
theorem sound_restoreContext (readings : Readings) (run : Run) (w : World) :
    Sound sha texts i (restoreContext texts readings run) (fun r _ => ∀ context, r = .ok context →
      storedSecurity texts run.context run.tenantId = .ok context.security) w := by
  have hG : ClosedOnRuntime fun _ _ p => ∀ w, Sound sha texts i p (fun _ _ => True) w :=
    closedOnRuntime_sound
  have herror : ∀ (e : Exn) (_ : World) (context : RunContext),
      (Except.error e : Except Exn RunContext) = .ok context →
      storedSecurity texts run.context run.tenantId = .ok context.security :=
    fun _ _ _ h => by cases h
  rw [restoreContext]
  rcases hstored : storedSecurity texts run.context run.tenantId with e | security
  · exact fun _ h => by cases h
  rw [hstored] at herror
  refine Proc.safe_ite (fun _ => ?_) fun _ => ?_
  · refine (hG.onSteps.uuid4 w).bind (fun requestId w' _ => ?_) fun e w' _ => herror e w'
    refine (closed_tokenHex hG.onSteps 16 w').bind (fun traceId w' _ => ?_) fun e w' _ =>
      herror e w'
    refine (closed_tokenHex hG.onSteps 8 w').bind (fun spanId w' _ => ?_) fun e w' _ => herror e w'
    exact fun context h => by cases h; rfl
  · refine (hG.ofExcept _ w).bind (fun rest w' _ => ?_) fun e w' _ => herror e w'
    exact fun context h => by cases h; rfl

/-- The context that a claimed run is executed with has the identity that is stored. -/
theorem sound_contextOf (htexts : rt.steps.texts = texts) {run : Run}
    (hrun : ∀ s, storedSecurity texts run.context run.tenantId = .ok s →
      w.Persisted texts run.id s) :
    Sound sha texts i (rt.contextOf run) (fun r w' => ∀ context, r = .ok context →
      run.id = i → w'.Persisted texts run.id context.security) w := by
  refine Proc.safe_call fun w₁ hR hI _ input => ⟨hI, .refl w₁, ?_⟩
  change Sound sha texts i (rt.cachedOr run (w₁.contexts.cached rt.number run.id)) _ w₁
  rcases hcached : w₁.contexts.cached rt.number run.id with _ | context
  · rw [cachedOr, htexts]
    refine ((sound_restoreContext rt.readings run w₁).remember World.KeepsRequests.refl
      World.KeepsRequests.trans).imp fun r w' hr context hcontext _ => ?_
    exact hr.1.persisted (hR.persisted (hrun _ (hr.2 context hcontext)))
  · intro context' h hi
    cases h
    rw [hi] at hcached ⊢
    exact hI.cached _ _ hcached

/-- A run that is claimed is the one that is stored. -/
theorem sound_claimNext (workerId : String) (leaseSeconds : Seconds)
    (givenNow : Option Datetime) (w : World) :
    Sound sha texts i (store (.claimNext workerId leaseSeconds givenNow))
      (fun r w₀ => ∀ claim : ClaimedRun, r = .ok (some claim) → ∀ w', w₀.KeepsRequests w' → ∀ s,
        storedSecurity texts claim.run.context claim.run.tenantId = .ok s →
        w'.Persisted texts claim.run.id s) w := by
  refine sound_store (fun w₁ input r _ _ hr claim hclaim w' hkeeps s hs => ?_)
    fun _ _ _ h => by cases h
  obtain ⟨c', hy, hdb⟩ := World.exists_yields_of_ok sha hr
  rcases SQLite.claimed_claimNext hy with ⟨rfl, -⟩ | ⟨claimed, rfl, -, hclaimed⟩
  · cases hclaim
  cases hclaim
  obtain ⟨row, hrow, hread⟩ := hclaimed.stored
  obtain ⟨haware, hrun⟩ := SQLite.runFromRow_eq_ok.mp hread
  refine hkeeps.persisted ⟨row, ?_, ?_⟩
  · rw [hdb]
    exact hrow
  · rw [← hrun] at hs
    exact hs

/-- A claim is executed under the identity that is stored with the run. -/
theorem sound_executeClaim (htexts : rt.steps.texts = texts) (fuel : ℕ) {claim : ClaimedRun}
    (maxSteps : Option ℤ)
    (hrun : ∀ w', w.KeepsRequests w' → ∀ s,
      storedSecurity texts claim.run.context claim.run.tenantId = .ok s →
      w'.Persisted texts claim.run.id s) :
    Sound sha texts i (rt.executeClaim fuel claim maxSteps) (fun _ _ => True) w := by
  have hG : ClosedOnRuntime fun _ _ p => ∀ w, Sound sha texts i p (fun _ _ => True) w :=
    closedOnRuntime_sound
  rw [executeClaim]
  rcases rt.registrations claim.run.planId with _ | registration
  · trivial
  refine (rt.sound_contextOf htexts (hrun w (.refl w))).bind (fun context w' hs => ?_)
    fun _ _ _ => trivial
  refine Sound.bind_keep (hG.store (.latestCheckpoint claim.run.id) trivial w') (hs context rfl)
    (fun latest w' hs _ => ?_) fun _ _ _ => trivial
  refine Sound.bind_keep (hG.throwUnless _ _ w') hs (fun _ w' hs _ => ?_) fun _ _ _ => trivial
  refine (rt.sound_executeNodes claim registration maxSteps fuel 0 hs).bind
    (fun result w' _ => ?_) fun _ _ _ => trivial
  rcases result with durable | run
  · trivial
  · exact hG.ite (hG.store (.finishClaim _ _ _ _ .succeeded _ _) rfl) (hG.ret _) w'

theorem sound_endClaim (claim : ClaimedRun) (workerId : String) (e : Exn) (w : World) :
    Sound sha texts i (rt.endClaim claim workerId e) (fun _ _ => True) w := by
  have hG : ClosedOnRuntime fun _ _ p => ∀ w, Sound sha texts i p (fun _ _ => True) w :=
    closedOnRuntime_sound
  exact rt.closed_endClaim hG.onSteps (rt.sound_forgetContextIfTerminal ·) claim workerId e
    (fun _ _ => hG.bind (sound_contextless (c := .store _) trivial) fun _ => hG.ofExcept _) w

/-- A worker calls every handler with the identity that is stored with the run. -/
theorem sound_workOnce (htexts : rt.steps.texts = texts) (fuel : ℕ) (workerId : String)
    (leaseSeconds : Seconds) (maxSteps : Option ℤ) (givenNow : Option Datetime) (w : World) :
    Sound sha texts i (rt.workOnce fuel workerId leaseSeconds maxSteps givenNow) (fun _ _ => True)
      w := by
  have hG : ClosedOnRuntime fun _ _ p => ∀ w, Sound sha texts i p (fun _ _ => True) w :=
    closedOnRuntime_sound
  refine (sound_claimNext workerId leaseSeconds givenNow w).bind (fun claimed w' hclaimed => ?_)
    fun _ _ _ => trivial
  rcases claimed with _ | claim
  · trivial
  refine (rt.sound_executeClaim htexts fuel maxSteps (hclaimed claim rfl)).attempt_bind
    fun result w' _ => ?_
  rcases result with e | run
  · cases e with
    | suspended message => exact hG.bind (hG.store (.getRun _) trivial) (fun _ => hG.ret _) w'
    | store | ledger | schema | deadlineExceeded | timeout | other =>
      exact hG.bind (rt.sound_endClaim claim workerId _) (fun _ => hG.ret _) w'
  · exact hG.bind (rt.sound_forgetContextIfTerminal run) (fun _ => hG.ret _) w'

end LocalRuntime

/-! ### Programs: submissions -/

/-- A request with a context is answered by a run with which its identity is stored. -/
theorem sound_createRun {s : Submission} {run : Run} (hcontext : run.context = s.context.column)
    (htenant : run.tenantId = s.context.security.tenantId.val) (w : World) :
    Sound sha texts i (store (.createRun run)) (fun r w₀ => ∀ created : Run, r = .ok created →
      created.id = i → w₀.Persisted texts created.id s.context.security) w := by
  have hstored : storedSecurity texts run.context run.tenantId = .ok s.context.security := by
    rw [hcontext, htenant, storedSecurity_column]
  refine sound_store (fun w₁ input r _ hE hr created hcreated hi => ?_) fun _ _ _ h => by cases h
  cases hcreated
  obtain ⟨c', hy, hdb⟩ := World.exists_yields_of_ok sha hr
  rcases SQLite.answer_createRun hy with ⟨row, hrow, hrepeats, ⟨haware, rfl⟩, hc⟩ |
    ⟨hmade, htakes⟩
  · have hfind : w₁.db.runs.find? row.id = some row := Table.find?_of_mem hrow
    refine ⟨row, ?_, (hE row (hi ▸ hfind) hrepeats).trans hstored⟩
    rw [hdb, ← hc]
    exact hfind
  · obtain ⟨fingerprint, hrow⟩ := htakes.step.of_create
    rw [hmade]
    exact ⟨_, hdb ▸ hrow, hstored⟩

namespace LocalRuntime

/-- A submission puts into the cache the identity that is stored with the run. -/
theorem sound_submit (rt : LocalRuntime) (s : Submission) (w : World) :
    Sound sha texts i (rt.submit s) (fun _ _ => True) w := by
  have hG : ClosedOnRuntime fun _ _ p => ∀ w, Sound sha texts i p (fun _ _ => True) w :=
    closedOnRuntime_sound
  refine hG.bind (closed_ensureActive hG.onSteps s.context) (fun _ => ?_) w
  refine hG.bind (hG.ofExcept _) fun _ => hG.bind hG.onSteps.now fun createdAt =>
    hG.bind hG.onSteps.uuid4 fun id => ?_
  intro w
  rcases hcreate : Run.create s id createdAt with e | run
  · rw [check]
    trivial
  obtain ⟨hcontext, htenant⟩ := Run.create_eq_ok hcreate
  refine (sound_createRun hcontext htenant w).bind (fun created w' hs => ?_)
    fun _ _ _ => trivial
  refine (sound_perform (c := .context (.set rt.number created.id s.context))
    fun w' hR x hx => ?_).bind (fun _ _ _ => trivial) fun _ _ _ => trivial
  cases hx
  exact fun hi => hR.persisted (hs created rfl hi)

end LocalRuntime

end Programs

/-! ### Systems with submissions -/

/-- The processes of a system with submissions: submissions and workers of any runtimes, and any
processes that do not concern contexts. -/
inductive Hosted (texts : Texts) : Process Outcome → Prop
  | submit (rt : LocalRuntime) (s : Submission) : Hosted texts do
      let _ ← rt.submit s
      pure .done
  | work (rt : LocalRuntime) (fuel : ℕ) (workerId : String) (leaseSeconds : Seconds)
      (maxSteps : Option ℤ) (givenNow : Option Datetime) (htexts : rt.steps.texts = texts) :
      Hosted texts do
        let r ← rt.workOnce fuel workerId leaseSeconds maxSteps givenNow
        pure (.worked r)
  | other (p : Process Outcome) (h : p.Issues Cmd.Contextless) : Hosted texts p

theorem Hosted.sound {sha : Sha256} {texts : Texts} {i : UUID} {p : Process Outcome}
    (h : Hosted texts p) (w : World) : Sound sha texts i p (fun _ _ => True) w := by
  have hG : ClosedOnRuntime fun _ _ p => ∀ w, Sound sha texts i p (fun _ _ => True) w :=
    closedOnRuntime_sound
  cases h with
  | submit rt s => exact hG.bind (rt.sound_submit s) (fun _ => hG.ret _) w
  | work rt _ _ _ _ _ htexts =>
    exact hG.bind (rt.sound_workOnce htexts _ _ _ _ _) (fun _ => hG.ret _) w
  | other _ h =>
    refine h.safe (fun c hc w' hI _ input => ?_) w
    have hright : ∀ x, c = .context x → x.Right texts i w' := by
      rintro x rfl
      exact hc.elim
    exact ⟨hI.exec input hright, World.keepsRequests_exec sha c input w'⟩

/-- The system before any submission. -/
structure Pool.Unused (texts : Texts) (x : Pool Cmd Cmd.Answer Exn Outcome World) : Prop where
  hosted : ∀ p ∈ x.procs, Hosted texts p
  db_eq : x.state.db = .empty
  contexts_eq : x.state.contexts = .empty

/-- The contexts of a run in memory stay sound along a schedule on which every request that the run
answers keeps its identity. -/
theorem Pool.Unused.contextsSound {sha : Sha256} {texts : Texts}
    {x : Pool Cmd Cmd.Answer Exn Outcome World} (hx : x.Unused texts)
    {schedule : List (ℕ × Input)} {i : UUID}
    (h : x.Along (World.exec sha) (Pool.Expected (Cmd.KeepsIdentity sha texts i)) schedule) :
    ContextsSound texts i (x.run (World.exec sha) schedule).state := by
  have hstart : ContextsSound texts i x.state := by
    constructor <;> rw [hx.contexts_eq]
    · exact fun r context hc => by cases hc
    · exact fun context he => by cases he
  have hsafe : x.Safe (World.exec sha) (ContextsSound texts i) World.KeepsRequests
      (Cmd.KeepsIdentity sha texts i) :=
    ⟨hstart, fun p hp => ⟨_, fun _ _ _ _ _ => trivial, (hx.hosted p hp).sound x.state⟩⟩
  exact (Pool.safe_run World.KeepsRequests.refl World.KeepsRequests.trans hsafe h).1.invariant

/-- **Identity of the creator.** In a system of submissions and workers of any runtimes, among any
other processes, along a schedule on which every request that is answered by a run comes with the
identity of the run: a context that a handler of a step of the run was called with has the identity
that was stored with the run at the step that inserted it. -/
theorem identity_of_creator (sha : Sha256) (texts : Texts)
    {x : Pool Cmd Cmd.Answer Exn Outcome World} (hx : x.Unused texts)
    {schedule : List (ℕ × Input)} {i : UUID}
    (h : x.Along (World.exec sha) (Pool.Expected (Cmd.KeepsIdentity sha texts i)) schedule)
    {context : RunContext}
    (hgiven : (i, context) ∈ (x.run (World.exec sha) schedule).state.contexts.given) :
    ∃ past l future, schedule = past ++ l :: future ∧
      (x.run (World.exec sha) past).state.db.runs.find? i = none ∧
      ∃ row ∈ (x.run (World.exec sha) (past ++ [l])).state.db.runs.find? i,
        storedSecurity texts row.context row.tenantId = .ok context.security := by
  obtain ⟨row, hrow, hstored⟩ := (hx.contextsSound h).given _ hgiven
  have hfinally : ((x.run (World.exec sha) schedule).state.db.runs.find? i).isSome := by
    rw [Option.mem_def.mp hrow]
    rfl
  obtain ⟨past, l, future, hsplit, hbefore, hafter⟩ :=
    Pool.exists_step_of_run (P := fun w : World => (w.db.runs.find? i).isSome)
      (by rw [hx.db_eq]; exact Bool.false_ne_true) hfinally
  obtain ⟨row₀, hrow₀⟩ := Option.isSome_iff_exists.mp hafter
  refine ⟨past, l, future, hsplit, by simpa using hbefore, row₀, hrow₀, ?_⟩
  -- The request of the run has not changed since.
  have hkeeps := Pool.run_rel World.KeepsRequests.refl World.KeepsRequests.trans
    (World.keepsRequests_exec sha) (x.run (World.exec sha) (past ++ [l])) future
  rw [← Pool.run_append, List.append_assoc, List.singleton_append, ← hsplit] at hkeeps
  obtain ⟨row', hrow', hsame⟩ := hkeeps i row₀ hrow₀
  cases (Option.mem_def.mp hrow).symm.trans hrow'
  have hcontext : row.context = row₀.context := congrArg RunRequest.context hsame
  have htenant : row.tenantId = row₀.tenantId := congrArg RunRequest.tenantId hsame
  rw [← hcontext, ← htenant, hstored]

namespace Sample

/-- The name of a sample tenant. -/
def tenant : Required := ⟨"tenant", by decide, by decide⟩

/-- The context of a user. -/
def userContext (user : Required) : RunContext where
  security := ⟨⟨user, .user, []⟩, tenant, none, ∅, []⟩
  revisionId := run.revisionId
  requestId := ⟨7⟩
  traceContext := ⟨"0af7651916cd43dd8448eb211c80319c", "b7ad6b7169203331", true⟩
  deadline := none
  deadline_aware := Datetime.aware_none

/-- Two users. -/
def alice : RunContext := userContext ⟨"alice", by decide, by decide⟩

@[inherit_doc alice]
def bob : RunContext := userContext ⟨"bob", by decide, by decide⟩

/-- A request under a key. -/
def submission (context : RunContext) : Submission where
  plan := (registration none).plan
  inputSchema := []
  sessionId := run.sessionId
  context := context
  state := []
  idempotencyKey := some "key"
  priority := 0

/-- The same request is submitted by two users, and a worker of the same runtime executes it. -/
def submitters (first second : RunContext) : Pool Cmd Cmd.Answer Exn Outcome World where
  state := ⟨.empty, .empty, [], .empty⟩
  procs := [
    do let _ ← (runtime none).submit (submission first); pure .done,
    do let _ ← (runtime none).submit (submission second); pure .done,
    do let r ← (runtime none).workOnce 1 "first" (.finite 30) none none; pure (.worked r)]

theorem unused_submitters (first second : RunContext) :
    (submitters first second).Unused texts where
  hosted p hp := by
    rcases List.mem_cons.mp hp with rfl | hp
    · exact .submit ..
    rcases List.mem_cons.mp hp with rfl | hp
    · exact .submit ..
    · obtain rfl := List.mem_singleton.mp hp
      exact .work _ _ _ _ _ _ rfl
  db_eq := rfl
  contexts_eq := rfl

/-- The first submission, the second one, and the execution up to the handler. -/
def submitted : List (ℕ × Input) :=
  List.replicate 4 (0, input 1) ++ List.replicate 4 (1, input 2) ++
    List.replicate 6 (2, input 3)

end Sample

/-- A handler is called with the identity of the user who has submitted the request twice. -/
theorem identity_of_creator_sample : ∃ past l future,
    Sample.submitted = past ++ l :: future ∧
    ((Sample.submitters Sample.alice Sample.alice).run (World.exec Sample.sha)
      past).state.db.runs.find? (Sample.input 1).uuid = none ∧
    ∃ row ∈ ((Sample.submitters Sample.alice Sample.alice).run (World.exec Sample.sha)
      (past ++ [l])).state.db.runs.find? (Sample.input 1).uuid,
      storedSecurity Sample.texts row.context row.tenantId = .ok Sample.alice.security :=
  identity_of_creator Sample.sha Sample.texts (Sample.unused_submitters Sample.alice Sample.alice)
    (by decide +kernel) (by decide +kernel)

/-- **An identity that is replaced.** A request that is repeated by another user is answered by the
earlier run, and the handler of the run is called with the identity of that other user. -/
theorem identity_replaced :
    (Sample.submitters Sample.alice Sample.bob).Unused Sample.texts ∧
    ((Sample.submitters Sample.alice Sample.bob).run (World.exec Sample.sha)
      (List.replicate 4 (0, Sample.input 1))).state.Persisted Sample.texts (Sample.input 1).uuid
        Sample.alice.security ∧
    ((Sample.input 1).uuid, Sample.bob) ∈ ((Sample.submitters Sample.alice Sample.bob).run
      (World.exec Sample.sha) Sample.submitted).state.contexts.given ∧
    Sample.bob.security ≠ Sample.alice.security := by
  refine ⟨Sample.unused_submitters _ _, ?_, ?_, ?_⟩ <;> decide +kernel

end OpenRath
