import OpenRath.Runtime.Invocations

/-!
# Calls after a failure

A call of a tool whose handler raises is recorded as failed, and no operation of the ledger moves a
failed invocation. A later call under the same key finds it (`prepare` returns what is there), tries
to dispatch it and is refused: only a prepared invocation is dispatched. So the next attempt of a
step raises in the ledger, whatever the effects of the tool are.

## Main definitions

* `Refused`: the stages of a call under the key of a failed invocation.

## Main results

* `Ledger.underKey_perform`: a failed invocation stays under its key.
* `not_restarted`: a call under the key of a failed invocation does not start its handler.
-/

namespace OpenRath

open Process

/-! ### The invocation under a key -/

namespace Ledger

open Tx

section Tables

variable {t t' : Table ToolInvocation.id} {runId : UUID} {key : Option String}
  {row : ToolInvocation}

/-- An update that leaves runs, keys and the invocation alone. -/
theorem underKey_update {p : ToolInvocation → Prop} [DecidablePred p]
    {f : ToolInvocation → ToolInvocation} (hf : ∀ r, (f r).id = r.id)
    (hrun : ∀ r, (f r).runId = r.runId) (hkey : ∀ r, (f r).idempotencyKey = r.idempotencyKey)
    (hrow : underKey runId key t.rows = some row) (hp : ¬ p row) :
    underKey runId key (t.update p f hf).rows = some row := by
  obtain ⟨k, rfl, hfind⟩ := Option.bind_eq_some_iff.mp hrow
  have hsame : ((fun r : ToolInvocation => decide (r.runId = runId ∧ r.idempotencyKey = some k)) ∘
      fun r => if p r then f r else r) =
      fun r => decide (r.runId = runId ∧ r.idempotencyKey = some k) := by
    funext r
    by_cases hpr : p r
    · simp only [Function.comp_apply, if_pos hpr, hrun, hkey]
    · simp only [Function.comp_apply, if_neg hpr]
  rw [underKey, Option.bind_some, Table.update_rows, List.find?_map, hsame, hfind,
    Option.map_some, if_neg hp]

/-- A row that is inserted comes after it. -/
theorem underKey_insert {new : ToolInvocation} (h : t.insert? new = some t')
    (hrow : underKey runId key t.rows = some row) : underKey runId key t'.rows = some row := by
  obtain ⟨k, rfl, hfind⟩ := Option.bind_eq_some_iff.mp hrow
  rw [underKey, Option.bind_some, (Table.insert?_eq_some_iff.mp h).2, List.find?_append, hfind,
    Option.some_or]

end Tables

variable {runId : UUID} {key : Option String} {row : ToolInvocation} {c c' : LedgerConnection}

theorem underKey_transition {invocationId : UUID} {expected : List InvocationStatus}
    {target : InvocationStatus} {result : Json} {error : Option String} {u : Unit}
    (h : (transition invocationId expected target result error).Yields c u c')
    (hrow : underKey runId key c.invocations.rows = some row) (hs : row.status ∉ expected) :
    underKey runId key c'.invocations.rows = some row := by
  obtain ⟨-, row', now, hnow, hfind, hs', hupdate⟩ := transition_cases h
  rw [hupdate]
  refine underKey_update (p := fun r => r.id = invocationId)
    (f := fun r => recorded r target result error now hnow) (fun _ => rfl) (fun _ => rfl)
    (fun _ => rfl) hrow fun hid => hs ?_
  obtain ⟨k, -, hunder⟩ := Option.bind_eq_some_iff.mp hrow
  rwa [← c.invocations.eq_of_key_eq (List.mem_of_find?_eq_some hunder) (Table.mem_of_find? hfind)
    (hid.trans (Table.key_of_find? hfind).symm)] at hs'

theorem underKey_reconcileStale {olderThan : Datetime} {reported : List ToolInvocation}
    (h : (reconcileStale olderThan).Yields c reported c')
    (hrow : underKey runId key c.invocations.rows = some row) (hs : row.status ≠ .dispatched) :
    underKey runId key c'.invocations.rows = some row := by
  simp only [reconcileStale, yields_bind, yields_query, yields_now] at h
  obtain ⟨rows, _, ⟨rfl, rfl⟩, now, _, ⟨-, rfl⟩, h⟩ := h
  split_ifs at h with hnow
  · simp only [yields_bind, yields_pure] at h
    obtain ⟨_, _, hloop, -, rfl⟩ := h
    refine yields_forEach_invariant
      (fun _ t => underKey runId key t.invocations.rows = some row) hrow ?_ hloop
    intro pre r post t t' _ ht hstep
    rw [reconcileInvocation, yields_execute] at hstep
    obtain rfl := hstep
    exact underKey_update (fun r' => moved_id r' (staleTarget r) now hnow) (fun _ => rfl)
      (fun _ => rfl) ht fun hp => hs hp.2
  · exact absurd h not_yields_raise

/-- **Failures stay.** No operation touches the failed invocation under a key. -/
theorem underKey_perform {op : LedgerOp} {clock : ℕ → ClockReading} {uuid : UUID}
    {runs : Table RunRow.id} {invocations : Table ToolInvocation.id}
    (hrow : underKey runId key invocations.rows = some row) (hs : row.status = .failed) :
    underKey runId key (perform op clock uuid runs invocations).2.rows = some row := by
  rcases hr : (perform op clock uuid runs invocations).1 with e | r
  · rwa [perform_of_error hr]
  obtain ⟨c', hy, hc'⟩ := perform_of_ok hr
  rw [← hc']
  have hopen : row.status ∉ [InvocationStatus.prepared, .dispatched] := by
    rw [hs]
    decide
  cases op with
  | prepare =>
    obtain ⟨-, ⟨-, -, -, hsame⟩ | ⟨-, -, hins⟩⟩ := prepare_cases hy
    · rwa [hsame]
    · exact underKey_insert hins hrow
  | markDispatched =>
    refine underKey_transition hy hrow fun h => hopen ?_
    exact List.mem_cons.mpr (.inl (List.mem_singleton.mp h))
  | complete | fail => exact underKey_transition hy hrow hopen
  | get =>
    obtain ⟨-, rfl⟩ := yields_get.mp hy
    exact hrow
  | reconcileStale =>
    refine underKey_reconcileStale hy hrow ?_
    rw [hs]
    decide
  | watermark =>
    obtain ⟨-, rfl⟩ := yields_query.mp hy
    exact hrow

/-- A failed invocation is not dispatched. -/
theorem perform_markDispatched_of_failed (clock : ℕ → ClockReading) (uuid : UUID)
    (runs : Table RunRow.id) {invocations : Table ToolInvocation.id}
    (hrow : invocations.find? row.id = some row) (hs : row.status = .failed) :
    perform (.markDispatched row.id) clock uuid runs invocations =
      (.error (.conflict "invalid effect invocation transition"), invocations) := by
  have hclosed : row.status ∉ [InvocationStatus.prepared] := by
    rw [hs]
    decide
  exact @perform_of_raises (.markDispatched row.id) _ _ _ _ _ (raises_transition hrow hclosed)

theorem mem_of_underKey {rows : List ToolInvocation} (h : underKey runId key rows = some row) :
    row ∈ rows := by
  obtain ⟨k, -, hfind⟩ := Option.bind_eq_some_iff.mp h
  exact List.mem_of_find?_eq_some hfind

end Ledger

/-! ### Calls under the key of a failed invocation -/

/-- The invocation is under the key of the call in its run; it has failed, and was made for the same
tool and the same arguments. -/
structure FailedBefore (x : ToolExecutor) (call : ToolCall) (row : ToolInvocation) (w : World) :
    Prop where
  underKey : Ledger.underKey row.runId call.idempotencyKey w.invocations.rows = some row
  status_eq : row.status = .failed
  digest_eq : row.argumentsDigest = x.argumentsDigest call.arguments
  toolName_eq : row.toolName = call.spec.recordedName

/-- The stages of a call: it has not begun, is about to dispatch the failed invocation, or has
raised. -/
inductive Refused (x : ToolExecutor) (call : ToolCall) (row : ToolInvocation) :
    Process Json → Prop
  | fresh : Refused x call row (x.execute call)
  | dispatching (rest : Unit → Process Json) :
    Refused x call row (ledger (.markDispatched row.id) >>= rest)
  | raised (e : Exn) : Refused x call row (.throw e)

section Refused

variable {sha : Sha256} {x : ToolExecutor} {call : ToolCall} {row : ToolInvocation} {w : World}

/-- A failed invocation stays so whatever anyone does. -/
theorem FailedBefore.exec (h : FailedBefore x call row w) (c : Cmd) (i : Input) :
    FailedBefore x call row (World.exec sha c i w).2 := by
  refine ⟨?_, h.status_eq, h.digest_eq, h.toolName_eq⟩
  cases c with
  | ledger op => exact Ledger.underKey_perform h.underKey h.status_eq
  | store | now | uuid4 | elapsed | startTool | observe | context => exact h.underKey

/-- A call that is admitted prepares its invocation first. -/
theorem ToolExecutor.execute_eq {limit : ℕ} {runId : UUID}
    (hadmission : x.admission call = .ok limit)
    (hledger : x.effectLedger = true) (hrun : call.runId = some runId) :
    ∃ rest : ToolInvocation → Unit → Process Json, x.execute call =
      ledger (.prepare runId call.spec.recordedName call.spec.effects
        (x.argumentsDigest call.arguments) call.idempotencyKey (some call.nodeId)
        call.checkpointSequence) >>= fun (invocation : ToolInvocation) =>
        if invocation.status = .succeeded then pure invocation.result
        else if invocation.status ∈ [.ambiguous, .dispatched] then
          .throw (.other "RuntimeError"
            "tool invocation outcome is ambiguous and requires reconciliation")
        else ledger (.markDispatched invocation.id) >>= rest invocation := by
  rw [execute, hadmission]
  change ∃ _, (if x.effectLedger = true then _ else _) = _
  rw [if_pos hledger]
  simp only [hrun]
  exact ⟨fun _ _ => _, rfl⟩

/-- A step of such a call. -/
theorem Refused.next {p : Process Json} (hp : Refused x call row p) (h : FailedBefore x call row w)
    (hledger : x.effectLedger = true) (hrun : call.runId = some row.runId) (i : Input) :
    Refused x call row (p.next (World.exec sha) i w).1 := by
  cases hp with
  | raised e => exact .raised e
  | dispatching rest =>
    have hfind : w.invocations.find? row.id = some row :=
      Table.find?_of_mem (Ledger.mem_of_underKey h.underKey)
    have hperform := Ledger.perform_markDispatched_of_failed i.clock i.uuid w.db.runs hfind
      h.status_eq
    change Refused x call row (Proc.bind (.ofExcept
      ((Ledger.perform (.markDispatched row.id) _ _ _ _).1.mapError Exn.ledger)) _)
    rw [hperform]
    exact .raised _
  | fresh =>
    rcases hadmission : x.admission call with e | limit
    · have hthrow : x.execute call = .throw e := by
        rw [ToolExecutor.execute, hadmission]
        rfl
      rw [hthrow]
      exact .raised e
    · obtain ⟨rest, hexecute⟩ := ToolExecutor.execute_eq hadmission hledger hrun
      rw [hexecute]
      change Refused x call row (Proc.bind (.ofExcept
        ((Ledger.perform (.prepare ..) _ _ _ _).1.mapError Exn.ledger)) _)
      rw [Ledger.perform_prepare_of_underKey h.underKey, if_pos ⟨h.digest_eq, h.toolName_eq⟩]
      change Refused x call row (if row.status = .succeeded then pure row.result else _)
      rw [h.status_eq, if_neg (by decide), if_neg (by decide)]
      exact .dispatching _

/-- A call at these stages is not about to start a handler, and it does not return. -/
theorem Refused.command?_ne {p : Process Json} (hp : Refused x call row p)
    (hledger : x.effectLedger = true) (hrun : call.runId = some row.runId) :
    (∀ call' id, p.command? ≠ some (.startTool call' id)) ∧ p.result? = none := by
  cases hp with
  | raised e =>
    refine ⟨fun _ _ h => ?_, rfl⟩
    cases h
  | dispatching rest =>
    refine ⟨fun _ _ h => ?_, rfl⟩
    cases h
  | fresh =>
    rcases hadmission : x.admission call with e | limit
    · have hthrow : x.execute call = .throw e := by
        rw [ToolExecutor.execute, hadmission]
        rfl
      rw [hthrow]
      refine ⟨fun _ _ h => ?_, rfl⟩
      cases h
    · obtain ⟨rest, hexecute⟩ := ToolExecutor.execute_eq hadmission hledger hrun
      rw [hexecute]
      refine ⟨fun _ _ h => ?_, rfl⟩
      cases h

end Refused

/-- **No retry.** Once an invocation has failed, a call of the same tool with the same run, key and
arguments, made at any time and among any other processes, neither starts a handler nor returns:
whatever it is that is done in between, it raises, if it gets to an end. -/
theorem not_restarted (sha : Sha256) {x : ToolExecutor} {call : ToolCall} {row : ToolInvocation}
    (hledger : x.effectLedger = true) (hrun : call.runId = some row.runId)
    {pool : Pool Cmd Cmd.Answer Exn Json World} (hfailed : FailedBefore x call row pool.state)
    {j : ℕ} (hcall : pool.procs[j]? = some (x.execute call)) (schedule : List (ℕ × Input)) :
    (∀ call' id, (pool.run (World.exec sha) schedule).command? j ≠
        some (.startTool call' id)) ∧
      (pool.run (World.exec sha) schedule).result? j = none := by
  obtain ⟨-, p, hp, hrefused⟩ := Pool.run_of_invariant (World.exec sha)
    (I := FailedBefore x call row) (G := Refused x call row)
    (fun c i w h => h.exec c i) (fun p i w h hp => hp.next h hledger hrun i) hcall hfailed .fresh
    schedule
  obtain ⟨hcommand, hresult⟩ := hrefused.command?_ne hledger hrun
  rw [Pool.command?, Pool.result?, hp]
  exact ⟨hcommand, hresult⟩

namespace Sample

/-- A call of a tool that may be repeated, under a key. -/
def lookup : ToolCall := { charge (some "key") with spec := ⟨"lookup", "1", .idempotent, none⟩ }

/-- Two attempts at the call; the run is created. -/
def attempts : Pool Cmd Cmd.Answer Exn Json World where
  state := ⟨SQLite.after sha [⟨.createRun run, clock 0⟩], .empty, [], .empty⟩
  procs := [(runtime none).steps.executor.execute lookup,
    (runtime none).steps.executor.execute lookup]

/-- The handler raises in the first attempt. -/
def raising : List (ℕ × Input) :=
  List.replicate 6 (0, { input 1 with outcome := .error (.other "OSError" "unreachable") })

end Sample

/-- The handler of a tool that may be repeated raises, and the call is recorded as failed. The
second attempt ends without having started the handler, and without a result. -/
theorem second_attempt_refused :
    let failed := Sample.attempts.run (World.exec Sample.sha) Sample.raising
    let last := failed.run (World.exec Sample.sha) (List.replicate 6 (1, Sample.input 2))
    (failed.state.invocations.rows.map ToolInvocation.status = [.failed] ∧
      failed.state.started.length = 1) ∧
    last.state.started.length = 1 ∧ (last.command? 1).isNone ∧ (last.result? 1).isNone := by
  decide +kernel

/-- It is so however the attempt is scheduled. -/
theorem not_restarted_sample :
    (((Sample.attempts.run (World.exec Sample.sha) Sample.raising).run (World.exec Sample.sha)
      [(1, Sample.input 2), (0, Sample.input 3), (1, Sample.input 4)]).result? 1) = none := by
  have hfailed : ∃ row ∈ Ledger.underKey Sample.run.id (some "key")
      (Sample.attempts.run (World.exec Sample.sha) Sample.raising).state.invocations.rows,
      row.status = .failed ∧ row.argumentsDigest =
        (Sample.runtime none).steps.executor.argumentsDigest Sample.lookup.arguments ∧
      row.toolName = Sample.lookup.spec.recordedName ∧ row.runId = Sample.run.id := by
    decide +kernel
  obtain ⟨row, hrow, hstatus, hdigest, htool, hrun⟩ := hfailed
  rw [← hrun] at hrow
  exact (not_restarted Sample.sha (x := (Sample.runtime none).steps.executor)
    rfl (congrArg some hrun.symm) ⟨hrow, hstatus, hdigest, htool⟩ rfl _).2

end OpenRath
