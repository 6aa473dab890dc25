import OpenRath.Adapters.Governance
import OpenRath.Library.Completion
import OpenRath.Runtime.Submission

/-!
# Calls that have ended

When a governed call has started its handler, there is a dispatched invocation in the effect ledger,
which the call closes before it ends, as a success or as a failure. What the handler returns is
checked, encoded, stored and frozen before that, outside of the part of `execute` that records
exceptions: if one of these steps raises, the call ends with the invocation in flight.

## Main definitions

* `LedgerState`, `ToolCmd.exec`: the commands of a call on the tables of the ledger.
* `Untouched`: an invocation that others leave alone once it is dispatched.
* `LedgerState.Settled`, `LedgerState.InFlight`: the invocations that are closed, or not.
* `GovernedExecutor.Settles`: nothing raises between the handler and the ledger.

## Main results

* `GovernedExecutor.finish_settled_iff`: what a call leaves that has started its handler.
* `GovernedExecutor.settled_iff`: which calls close their invocations.
-/

namespace OpenRath

variable {l : Lower}

/-! ### The ledger during a call -/

/-- The tables that the ledger works on. -/
structure LedgerState where
  runs : Table RunRow.id
  invocations : Table ToolInvocation.id

/-- What a command of a call depends on: the readings of the clock, the UUID that is drawn, and what
the handler comes to. -/
structure ToolInput where
  clock : ℕ → ClockReading
  uuid : UUID
  outcome : HandlerOutcome

/-- A command of a call, on the tables of the ledger. -/
def ToolCmd.exec : (c : ToolCmd l) → ToolInput → LedgerState → c.Answer × LedgerState
  | .ledger op, i, s =>
    let out := Ledger.perform op i.clock i.uuid s.runs s.invocations
    (out.1, { s with invocations := out.2 })
  | .handler _ _, i, s => (i.outcome, s)

/-- The invocation stays as it is once it is dispatched. -/
def Untouched (id : UUID) (s s' : LedgerState) : Prop :=
  ∀ row, s.invocations.find? id = some row → row.status ≠ .prepared →
    s'.invocations.find? id = some row

theorem Untouched.refl (id : UUID) (s : LedgerState) : Untouched id s s := fun _ h _ => h

namespace LedgerState

/-- The invocation has succeeded or failed. -/
def Settled (id : UUID) (s : LedgerState) : Prop :=
  ∃ row, s.invocations.find? id = some row ∧ row.status ∈ [.succeeded, .failed]

/-- The invocation is dispatched. -/
def InFlight (id : UUID) (s : LedgerState) : Prop :=
  ∃ row, s.invocations.find? id = some row ∧ row.status = .dispatched

instance (id : UUID) (s : LedgerState) : Decidable (s.Settled id) :=
  inferInstanceAs (Decidable (∃ row ∈ s.invocations.find? id, _))

section Status

variable {id : UUID} {s s' : LedgerState}

theorem Settled.not_inFlight (h : s.Settled id) : ¬ s.InFlight id := by
  rintro ⟨row', hrow', hstatus'⟩
  obtain ⟨row, hrow, hstatus⟩ := h
  cases hrow.symm.trans hrow'
  rw [hstatus'] at hstatus
  exact absurd hstatus (by decide)

theorem Settled.untouched (h : s.Settled id) (hR : Untouched id s s') : s'.Settled id := by
  obtain ⟨row, hrow, hstatus⟩ := h
  refine ⟨row, hR row hrow fun hprepared => ?_, hstatus⟩
  rw [hprepared] at hstatus
  exact absurd hstatus (by decide)

theorem InFlight.untouched (h : s.InFlight id) (hR : Untouched id s s') : s'.InFlight id := by
  obtain ⟨row, hrow, hstatus⟩ := h
  refine ⟨row, hR row hrow fun hprepared => ?_, hstatus⟩
  cases hstatus.symm.trans hprepared

/-- No command moves an invocation that is closed. -/
theorem Settled.exec (h : s.Settled id) (c : ToolCmd l) (i : ToolInput) :
    (c.exec i s).2.Settled id := by
  obtain ⟨row, hrow, hstatus⟩ := h
  cases c with
  | handler => exact ⟨row, hrow, hstatus⟩
  | ledger op =>
    obtain ⟨row', hrow', hmoves⟩ := Ledger.exists_moves_perform op i.clock i.uuid s.runs hrow
    have hclosed : row.status ∈ [InvocationStatus.succeeded, .failed, .ambiguous] := by
      revert hstatus
      cases row.status <;> decide
    rw [hmoves.eq_of_settled hclosed] at hrow'
    exact ⟨row, hrow', hstatus⟩

/-- Reading an invocation leaves it in flight. -/
theorem InFlight.exec_get (h : s.InFlight id) (i : ToolInput) (k : UUID) :
    ((ToolCmd.ledger (l := l) (.get k)).exec i s).2.InFlight id := by
  obtain ⟨row, hrow, hstatus⟩ := h
  obtain ⟨row', hrow', hmoves⟩ := Ledger.exists_moves_perform (.get k) i.clock i.uuid s.runs hrow
  cases hmoves
  exact ⟨row, hrow', hstatus⟩

/-- A transition of an invocation in one of the expected statuses takes place. -/
theorem exists_yields_transition {c : LedgerConnection} {expected : List InvocationStatus}
    {row : ToolInvocation} (hrow : c.invocations.find? id = some row) (hs : row.status ∈ expected)
    (target : InvocationStatus) (result : Json) (error : Option String) :
    ∃ c', (Ledger.transition id expected target result error).Yields c () c' ∧
      ∃ row', c'.invocations.find? id = some row' ∧ row'.status = target := by
  refine ⟨_, Ledger.yields_transition hrow hs, Ledger.recorded row target result error
    (.utc (c.clock 0)) (Datetime.isUtc_utc _).aware, ?_, rfl⟩
  rw [Table.find?_update, hrow, Option.map_some, if_pos (Table.key_of_find? hrow)]

/-- An invocation in flight is closed as a success. -/
theorem InFlight.exec_complete (h : s.InFlight id) (i : ToolInput) (result : Json) :
    ((ToolCmd.ledger (l := l) (.complete id result)).exec i s).2.Settled id := by
  obtain ⟨row, hrow, hstatus⟩ := h
  have hopen : row.status ∈ [InvocationStatus.prepared, .dispatched] := by simp [hstatus]
  obtain ⟨c', hy, row', hrow', htarget⟩ := exists_yields_transition
    (c := ⟨s.runs, s.invocations, i.clock, i.uuid⟩) hrow hopen .succeeded result none
  have hperform := @Ledger.perform_of_yields (.complete id result) _ _ _ _ _ _ hy
  refine ⟨row', ?_, by simp [htarget]⟩
  rw [ToolCmd.exec, hperform]
  exact hrow'

/-- An invocation in flight is closed as a failure. -/
theorem InFlight.exec_fail (h : s.InFlight id) (i : ToolInput) (error : String) :
    ((ToolCmd.ledger (l := l) (.fail id error)).exec i s).2.Settled id := by
  obtain ⟨row, hrow, hstatus⟩ := h
  have hopen : row.status ∈ [InvocationStatus.prepared, .dispatched] := by simp [hstatus]
  obtain ⟨c', hy, row', hrow', htarget⟩ := exists_yields_transition
    (c := ⟨s.runs, s.invocations, i.clock, i.uuid⟩) hrow hopen .failed .null (some error)
  have hperform := @Ledger.perform_of_yields (.fail id error) _ _ _ _ _ _ hy
  refine ⟨row', ?_, by simp [htarget]⟩
  rw [ToolCmd.exec, hperform]
  exact hrow'

/-- The invocation that is read has the id under which it is. -/
theorem id_of_get {i : ToolInput} {row : ToolInvocation}
    (h : ((ToolCmd.ledger (l := l) (.get id)).exec i s).1 = .ok row) : row.id = id := by
  obtain ⟨c', hy, -⟩ := @Ledger.perform_of_ok (.get id) _ _ _ _ _ h
  exact Table.key_of_find? (Ledger.yields_get.mp hy).1

/-- A prepared invocation that has been dispatched is in flight. -/
theorem inFlight_of_markDispatched {i : ToolInput} {u : Unit}
    (h : ((ToolCmd.ledger (l := l) (.markDispatched id)).exec i s).1 = .ok u) :
    ((ToolCmd.ledger (l := l) (.markDispatched id)).exec i s).2.InFlight id := by
  obtain ⟨c', hy, hc'⟩ := @Ledger.perform_of_ok (.markDispatched id) _ _ _ _ _ h
  obtain ⟨-, row, now, hnow, hrow, -, hupdate⟩ := Ledger.transition_cases hy
  refine ⟨Ledger.recorded row .dispatched .null none now hnow, ?_, rfl⟩
  rw [ToolCmd.exec, ← hc', hupdate, Table.find?_update, hrow, Option.map_some,
    if_pos (Table.key_of_find? hrow)]

end Status

end LedgerState

/-! ### The commands of a call -/

namespace GovernedExecutor

open ToolProcess LedgerState

variable {x : GovernedExecutor l} {call : GovernedCall l} {now : Datetime} {id : UUID}
  {α : Type} {s u : LedgerState} {trace : List ((c : ToolCmd l) × c.Answer)}

/-- An invocation that is closed is closed at the end of every process. -/
theorem settled_of_completes {p : ToolProcess l α} {r : Except (ToolError l) α}
    (h : p.Completes ToolCmd.exec (Untouched id) s trace r u) (hs : s.Settled id) :
    u.Settled id := by
  induction h with
  | ret hR | throw hR => exact hs.untouched hR
  | call i hR _ ih => exact ih ((hs.untouched hR).exec _ i)

/-- An operation of the ledger returns, and the process goes on, or raises. -/
theorem completes_ledger {op : LedgerOp} {f : op.Result → ToolProcess l α}
    {r : Except (ToolError l) α}
    (h : (ledger op >>= f).Completes ToolCmd.exec (Untouched id) s trace r u) :
    ∃ i s₁ rest, Untouched id s s₁ ∧
      trace = ⟨.ledger op, ((ToolCmd.ledger op).exec i s₁).1⟩ :: rest ∧
      ((∃ a, ((ToolCmd.ledger (l := l) op).exec i s₁).1 = .ok a ∧
        (f a).Completes ToolCmd.exec (Untouched id) ((ToolCmd.ledger (l := l) op).exec i s₁).2
          rest r u) ∨
      rest = [] ∧ (∃ e, r = .error e) ∧
        Untouched id ((ToolCmd.ledger (l := l) op).exec i s₁).2 u) := by
  cases h with
  | @call _ _ _ s₁ _ rest _ i hR h =>
    refine ⟨i, s₁, rest, hR, rfl, ?_⟩
    rcases hanswer : ((ToolCmd.ledger (l := l) op).exec i s₁).1 with e | a
    · rw [hanswer] at h
      cases h with
      | throw hR => exact Or.inr ⟨rfl, ⟨_, rfl⟩, hR⟩
    · rw [hanswer] at h
      exact Or.inl ⟨a, rfl, h⟩

/-! ### Closing an invocation -/

section Closing

variable {row : ToolInvocation} {result : Value}

/-- A result that is frozen is recorded. -/
theorem settled_complete {frozen : Json} {r : Except (ToolError l) Unit}
    (hfrozen : result.freeze x.objects "tool result" = .ok frozen) (hs : s.InFlight row.id)
    (h : (x.complete (some row) result).Completes ToolCmd.exec (Untouched row.id) s trace r u) :
    u.Settled row.id := by
  rw [complete, hfrozen] at h
  obtain ⟨i, s₁, rest, hR, -, ⟨_, -, hrest⟩ | ⟨-, -, hlast⟩⟩ := completes_ledger h
  · exact settled_of_completes hrest ((hs.untouched hR).exec_complete i frozen)
  · exact ((hs.untouched hR).exec_complete i frozen).untouched hlast

/-- A result that is not frozen raises, and the invocation stays in flight. -/
theorem inFlight_complete {message : String} {r : Except (ToolError l) Unit}
    (herror : result.freeze x.objects "tool result" = .error message) (hs : s.InFlight row.id)
    (h : (x.complete (some row) result).Completes ToolCmd.exec (Untouched row.id) s trace r u) :
    u.InFlight row.id ∧ ∃ e, r = .error e := by
  rw [complete, herror] at h
  obtain ⟨i, s₁, rest, hR, -, hrest⟩ := completes_ledger h
  have hget := (hs.untouched hR).exec_get (l := l) i row.id
  rcases hrest with ⟨current, -, hraise⟩ | ⟨-, he, hlast⟩
  · split_ifs at hraise
    all_goals
      cases hraise with
      | throw hlast => exact ⟨hget.untouched hlast, _, rfl⟩
  · exact ⟨hget.untouched hlast, he⟩

/-- A failure is recorded. -/
theorem settled_fail {error : String} {r : Except (ToolError l) Unit} (hs : s.InFlight row.id)
    (h : (fail (some row) error).Completes ToolCmd.exec (Untouched row.id) s trace r u) :
    u.Settled row.id := by
  rw [fail] at h
  obtain ⟨i, s₁, rest, hR, -, ⟨_, -, hrest⟩ | ⟨-, -, hlast⟩⟩ := completes_ledger h
  · exact settled_of_completes hrest ((hs.untouched hR).exec_fail i error)
  · exact ((hs.untouched hR).exec_fail i error).untouched hlast

/-- A part of a process that closes the invocation. -/
theorem settled_of_bind {β : Type} {p : ToolProcess l α} {f : α → ToolProcess l β}
    {r : Except (ToolError l) β}
    (hp : ∀ trace r u, p.Completes ToolCmd.exec (Untouched id) s trace r u → u.Settled id)
    (h : (p >>= f).Completes ToolCmd.exec (Untouched id) s trace r u) : u.Settled id := by
  rcases h.of_bind (Untouched.refl id) with ⟨a, s₁, past, rest, hpast, hrest, -⟩ | ⟨e, he, -⟩
  · exact settled_of_completes hrest (hp _ _ _ hpast)
  · exact hp _ _ _ he

/-- The reference to an artifact is JSON. -/
theorem exists_freeze_reference (o : Objects) (field : String) (artifact : StoredArtifact) :
    ∃ frozen, (referenceValue artifact).freeze o field = .ok frozen := ⟨_, rfl⟩

end Closing

/-! ### What a call leaves -/

section Finish

variable (x call) in
/-- Nothing raises between the output of the handler and the ledger: the output meets the schema and
is encoded, it is stored if it is too long and there is a store, and it is JSON if it is not too
long. -/
def Delivers (context : AdapterRequestContext l) (result : Value) : Prop :=
  x.checkOutput call result = .ok () ∧ ∃ encoded, x.encode result = .ok encoded ∧
    if limit call context < encoded.length then
      ∀ put ∈ x.artifactStore, ∃ artifact,
        put context.tenantId encoded (metadata call) = .ok artifact
    else ∃ frozen, result.freeze x.objects "tool result" = .ok frozen

variable (x call) in
/-- Nothing raises between the handler and the ledger; an exception of the handler has a text. -/
def Settles (context : AdapterRequestContext l) (outcome : HandlerOutcome) : Prop :=
  match guarded call outcome with
  | .error e => ∃ text, x.text e = .ok text
  | .ok result => x.Delivers call context result

variable {context : AdapterRequestContext l} {row : ToolInvocation} {result : Value}
  {outcome : HandlerOutcome} {r : Except (ToolError l) Delivered}

/-- The invocation of an output is closed, unless something raises before. -/
theorem deliver_settled_iff (hs : s.InFlight row.id)
    (h : (x.deliver call context (some row) result).Completes ToolCmd.exec (Untouched row.id)
      s trace r u) : u.Settled row.id ↔ x.Delivers call context result := by
  rw [Delivers]
  rw [deliver] at h
  rcases hcheck : x.checkOutput call result with e | _
  · rw [hcheck] at h
    cases h with
    | throw hR => exact iff_of_false (fun hset => hset.not_inFlight (hs.untouched hR)) (by simp)
  rcases hencode : x.encode result with e | encoded
  · rw [hcheck, hencode] at h
    cases h with
    | throw hR => exact iff_of_false (fun hset => hset.not_inFlight (hs.untouched hR)) (by simp)
  simp only [hcheck, hencode, Except.mapError, Proc.ofExcept, Proc.bind_eq, Proc.ret_bind] at h
  simp only [Except.ok.injEq, exists_eq_left', true_and]
  split_ifs at h ⊢ with hlimit
  · -- The output is too long.
    rcases hstore : x.artifactStore with _ | put
    · rw [hstore] at h
      exact iff_of_true (settled_of_bind (fun _ _ _ => settled_fail hs) h) (by simp)
    · rw [hstore] at h
      simp only [Option.mem_some_iff, forall_eq']
      dsimp only at h
      rcases hput : put context.tenantId encoded (metadata call) with e | artifact
      · rw [hput] at h
        cases h with
        | throw hR =>
          exact iff_of_false (fun hset => hset.not_inFlight (hs.untouched hR)) (by simp)
      · simp only [hput] at h
        obtain ⟨frozen, hfrozen⟩ := exists_freeze_reference x.objects "tool result" artifact
        exact iff_of_true (settled_of_bind (fun _ _ _ => settled_complete hfrozen hs) h) (by simp)
  · rcases hfreeze : result.freeze x.objects "tool result" with message | frozen
    · rcases h.of_bind (Untouched.refl row.id) with ⟨_, _, _, _, hpast, -⟩ | ⟨e, he, -⟩
      · obtain ⟨-, e, he⟩ := inFlight_complete hfreeze hs hpast
        cases he
      · have hflight := (inFlight_complete hfreeze hs he).1
        exact iff_of_false (fun hset => hset.not_inFlight hflight) (by simp)
    · exact iff_of_true (settled_of_bind (fun _ _ _ => settled_complete hfreeze hs) h) (by simp)

/-- **After the handler.** The invocation of a call whose repetition does no harm is closed, unless
something raises between the handler and the ledger or the handler has timed out. -/
theorem finish_settled_iff (hclass : call.spec.effects ≠ .nonIdempotent)
    (htime : ∀ e, guarded call outcome = .error e → e.isTimeout = false) (hs : s.InFlight row.id)
    (h : (x.finish call context (some row) outcome).Completes ToolCmd.exec (Untouched row.id)
      s trace r u) : u.Settled row.id ↔ x.Settles call context outcome := by
  rw [Settles]
  rw [finish] at h
  rcases hguarded : guarded call outcome with e | result
  · rw [hguarded] at h
    have hrecords : recordsFailure call e = true := by
      simp [recordsFailure, hclass, htime e hguarded]
    simp only [hrecords, Option.isSome_some, and_self, if_true] at h
    rcases htext : x.text e with e' | text
    · rw [htext] at h
      cases h with
      | throw hR =>
        exact iff_of_false (fun hset => hset.not_inFlight (hs.untouched hR)) (by simp [htext])
    · simp only [htext, Except.mapError, Proc.ofExcept, Proc.bind_eq, Proc.ret_bind] at h
      exact iff_of_true (settled_of_bind (fun _ _ _ => settled_fail hs) h) ⟨text, htext⟩
  · rw [hguarded] at h
    exact deliver_settled_iff hs h

/-! ### The call -/

/-- A command after the handler neither starts one nor dispatches an invocation. -/
theorem Closing.ne {c : ToolCmd l} (h : Closing c) :
    (∀ arguments context, c ≠ .handler arguments context) ∧
      ∀ id, c ≠ .ledger (.markDispatched id) := by
  constructor
  · rintro arguments context rfl
    cases h
  · rintro id rfl
    cases h

/-- A call that starts its handler goes on with what it comes to, and dispatches nothing more. -/
theorem finish_of_start {invocation : Option ToolInvocation}
    (h : (x.start call context invocation).Completes ToolCmd.exec (Untouched id) s trace r u) :
    (∀ k answer, ⟨.ledger (.markDispatched k), answer⟩ ∉ trace) ∧
    ∀ arguments context' outcome, ⟨.handler arguments context', outcome⟩ ∈ trace →
      context' = context ∧ ∃ s₁ rest, Untouched id s s₁ ∧
        (x.finish call context invocation outcome).Completes ToolCmd.exec (Untouched id)
          s₁ rest r u := by
  cases h with
  | @call _ _ _ s₁ _ rest _ i hR h =>
    have hclosing : ∀ e ∈ rest, Closing e.1 :=
      (x.issues_finish call context invocation i.outcome).of_mem_trace h
    constructor
    · intro k answer hmem
      rcases List.mem_cons.mp hmem with heq | hmem
      · cases heq
      · exact (hclosing _ hmem).ne.2 k rfl
    · intro arguments context' outcome hmem
      rcases List.mem_cons.mp hmem with heq | hmem
      · cases heq
        exact ⟨rfl, s₁, rest, hR, h⟩
      · exact absurd rfl ((hclosing _ hmem).ne.1 arguments context')

/-- If the handler is started after an operation of the ledger, the operation has returned. -/
theorem returns_of_start {op : LedgerOp} {f : op.Result → ToolProcess l α}
    {r : Except (ToolError l) α}
    (h : (ledger op >>= f).Completes ToolCmd.exec (Untouched id) s trace r u)
    {arguments : List (Value × Value)}
    (hstart : ⟨.handler arguments context, outcome⟩ ∈ trace) :
    ∃ i s₁ rest a, Untouched id s s₁ ∧ ((ToolCmd.ledger (l := l) op).exec i s₁).1 = .ok a ∧
      trace = ⟨.ledger op, ((ToolCmd.ledger op).exec i s₁).1⟩ :: rest ∧
      ⟨.handler arguments context, outcome⟩ ∈ rest ∧
      (f a).Completes ToolCmd.exec (Untouched id) ((ToolCmd.ledger (l := l) op).exec i s₁).2
        rest r u := by
  obtain ⟨i, s₁, rest, hR, rfl, hrest⟩ := completes_ledger h
  have hmem : ⟨.handler arguments context, outcome⟩ ∈ rest := by
    rcases List.mem_cons.mp hstart with heq | hmem
    · cases heq
    · exact hmem
  rcases hrest with ⟨a, ha, hrest⟩ | ⟨rfl, -, -⟩
  · exact ⟨i, s₁, rest, a, hR, ha, rfl, hmem, hrest⟩
  · cases hmem

/-- A call that has dispatched an invocation and started its handler has gone on from there, with
the invocation in flight. -/
theorem exists_finish (h : (x.execute call now).Completes ToolCmd.exec (Untouched id) s trace r u)
    {answer : Except LedgerError Unit}
    (hdispatch : ⟨.ledger (.markDispatched id), answer⟩ ∈ trace)
    {arguments : List (Value × Value)}
    (hstart : ⟨.handler arguments context, outcome⟩ ∈ trace) :
    ∃ row s₁ rest, row.id = id ∧ s₁.InFlight id ∧
      (x.finish call context (some row) outcome).Completes ToolCmd.exec (Untouched id)
        s₁ rest r u := by
  rw [execute] at h
  rcases hadmission : x.admission call now with e | ⟨digest, context'⟩
  · rw [hadmission] at h
    cases h
    cases hstart
  rw [hadmission] at h
  replace h : (x.dispatch call digest context').Completes ToolCmd.exec (Untouched id) s trace r u :=
    h
  rw [dispatch] at h
  split_ifs at h with hledger
  · rcases hrun : call.runId with _ | runId
    · rw [hrun] at h
      cases h
      cases hstart
    rw [hrun] at h
    -- The invocation is prepared, dispatched and read.
    obtain ⟨_, _, rest, invocation, -, -, rfl, hstart, h⟩ := returns_of_start h hstart
    replace hdispatch : ⟨.ledger (.markDispatched id), answer⟩ ∈ rest := by
      rcases List.mem_cons.mp hdispatch with heq | hmem
      · cases heq
      · exact hmem
    split_ifs at h
    · cases h
      cases hstart
    · cases h
      cases hstart
    · obtain ⟨i₂, s₂, rest, _, -, hmark, rfl, hstart, h⟩ := returns_of_start h hstart
      obtain ⟨i₃, s₃, rest, row, hR₃, hget, rfl, hstart, h⟩ := returns_of_start h hstart
      obtain ⟨hno, hfinish⟩ := finish_of_start h
      have hid : id = invocation.id := by
        rcases List.mem_cons.mp hdispatch with heq | hmem
        · cases congrArg Sigma.fst heq
          rfl
        rcases List.mem_cons.mp hmem with heq | hmem
        · cases congrArg Sigma.fst heq
        · exact absurd hmem (hno id answer)
      subst hid
      have hflight := ((inFlight_of_markDispatched hmark).untouched hR₃).exec_get (l := l) i₃
        invocation.id
      obtain ⟨rfl, s₄, rest', hR₄, hrest⟩ := hfinish _ _ _ hstart
      exact ⟨row, s₄, rest', id_of_get hget, hflight.untouched hR₄, hrest⟩
  · exact absurd hdispatch ((finish_of_start h).1 id answer)

/-- **Calls that have ended.** A call of a tool whose repetition does no harm has dispatched an
invocation and started its handler, which has not timed out. When the call has returned or raised,
and nobody else has touched the invocation, it is closed if and only if nothing has raised between
the handler and the ledger. -/
theorem settled_iff (hclass : call.spec.effects ≠ .nonIdempotent)
    (h : (x.execute call now).Completes ToolCmd.exec (Untouched id) s trace r u)
    {answer : Except LedgerError Unit}
    (hdispatch : ⟨.ledger (.markDispatched id), answer⟩ ∈ trace)
    {arguments : List (Value × Value)}
    (hstart : ⟨.handler arguments context, outcome⟩ ∈ trace)
    (htime : ∀ e, guarded call outcome = .error e → e.isTimeout = false) :
    u.Settled id ↔ x.Settles call context outcome := by
  obtain ⟨row, s₁, rest, rfl, hflight, hrest⟩ := exists_finish h hdispatch hstart
  exact finish_settled_iff hclass htime hflight hrest

end Finish

end GovernedExecutor

/-! ### A sample -/

namespace Sample

/-- A policy that allows everything. -/
def permissive : PolicyEngine lower := fun _ _ _ => .ok
  { effect := .allow
    reason := tenant
    policyId := tenant
    constraints := .unlimited }

/-- A tool that finds an object. -/
def finder : GovernedTool where
  name := "lookup"
  version := "1"
  effects := .readOnly
  outputSchema := some [("type", .str "object")]
  inputSchema := []
  risk := .low
  maxOutputBytes := 1000
  requiresApproval := false
  name_ne_empty := by decide
  version_ne_empty := by decide
  maxOutputBytes_pos := by decide
  requiresApproval_of_risk := by decide

/-- The context in which it is called. -/
def finding : AdapterRequestContext lower where
  runId := run.id
  nodeId := "first"
  tenantId := tenant.val
  deadline := none
  traceContext := alice.traceContext
  idempotencyKey := none
  policyConstraints := .unlimited
  checkpointSequence := none
  nodeId_not_blank := first_not_blank
  tenantId_not_blank := tenant.val_not_blank
  deadline_aware := Datetime.aware_none
  checkpointSequence_pos n h := absurd h (Option.not_mem_none n)

/-- A call without arguments. -/
def find : GovernedCall lower where
  spec := finder
  arguments := []
  adapterContext := finding
  runContext := alice
  approval := none
  runId := some run.id
  idempotencyKey := none

/-- An executor with a ledger and without a store; its values are those at an empty object. -/
def governor : GovernedExecutor lower where
  policy := permissive
  effectLedger := true
  artifactStore := none
  approvalValidator := none
  objects := ⟨fun _ => "dict", fun _ => "\x7b\x7d", fun _ _ => false⟩
  texts := texts
  sha256 _ := "44136fa355b3678a1146ad16f7e8649e94fb4fc21fe77e8310c060f61caaff8a"
  encode _ := .ok [123, 125]
  text _ := .ok ""

/-- The handler comes to an outcome. -/
def coming (outcome : HandlerOutcome) : ToolInput := ⟨clock 2, ⟨11⟩, outcome⟩

/-- The call at an outcome of the handler, from the tables after the first claim. -/
def found (outcome : HandlerOutcome) :
    List ((c : ToolCmd lower) × c.Answer) × Option (Except (ToolError lower) Delivered) ×
      LedgerState :=
  (governor.execute find (.utc (reading 2))).complete ToolCmd.exec (coming outcome)
    ⟨(SQLite.after Sample.sha claimed).runs, .empty⟩

/-- Whether the call has dispatched its invocation, started the handler and ended. -/
def concluded (outcome : HandlerOutcome) : Bool :=
  (found outcome).1.any (fun e => match e.1 with
    | .ledger (.markDispatched id) => id = ⟨11⟩
    | _ => false) &&
  (found outcome).1.any (fun e => match e.1 with
    | .handler _ _ => true
    | _ => false) &&
  (found outcome).2.1.isSome

/-- The execution of a call that is concluded. -/
theorem completes_found (outcome : HandlerOutcome) (h : concluded outcome = true) :
    ∃ r, (governor.execute find (.utc (reading 2))).Completes ToolCmd.exec (Untouched ⟨11⟩)
        ⟨(SQLite.after Sample.sha claimed).runs, .empty⟩ (found outcome).1 r (found outcome).2.2 ∧
      (∃ answer, ⟨.ledger (.markDispatched ⟨11⟩), answer⟩ ∈ (found outcome).1) ∧
      ∃ arguments context, ⟨.handler arguments context, outcome⟩ ∈ (found outcome).1 := by
  simp only [concluded, Bool.and_eq_true, List.any_eq_true] at h
  obtain ⟨⟨⟨⟨c, answer⟩, hmem, hc⟩, ⟨c', answer'⟩, hmem', hc'⟩, hend⟩ := h
  obtain ⟨r, hr⟩ := Option.isSome_iff_exists.mp hend
  refine ⟨r, Proc.completes_complete (Untouched.refl ⟨11⟩) hr, ?_, ?_⟩
  · split at hc
    · next id hid =>
      obtain rfl : id = ⟨11⟩ := of_decide_eq_true hc
      subst hid
      exact ⟨answer, hmem⟩
    · cases hc
  · split at hc'
    · next arguments context hhandler =>
      subst hhandler
      obtain ⟨s₁, rfl⟩ := Proc.exists_answer_of_mem_complete hmem'
      exact ⟨arguments, context, hmem'⟩
    · cases hc'

/-- The handler returns an object, and the invocation succeeds. -/
theorem found_settled : (found (.returned (.mapping []) false)).2.2.Settled ⟨11⟩ := by
  obtain ⟨r, h, ⟨answer, hdispatch⟩, arguments, context, hstart⟩ :=
    completes_found (.returned (.mapping []) false) (by decide +kernel)
  refine (GovernedExecutor.settled_iff (by decide) h hdispatch hstart ?_).mpr ?_
  · intro e he
    cases he
  · refine ⟨rfl, _, rfl, ?_⟩
    split_ifs
    · exact fun _ hput => by cases hput
    · exact ⟨_, rfl⟩

/-- The handler returns null, which is no object, and the call raises with the invocation in
flight. -/
theorem found_not_settled : ¬ ∀ (x : GovernedExecutor lower) (call : GovernedCall lower)
    (now : Datetime) (id : UUID) (s u : LedgerState)
    (trace : List ((c : ToolCmd lower) × c.Answer)) (r : Except (ToolError lower) Delivered)
    (answer : Except LedgerError Unit) (arguments : List (Value × Value))
    (context : AdapterRequestContext lower) (outcome : HandlerOutcome),
    call.spec.effects ≠ .nonIdempotent →
    (x.execute call now).Completes ToolCmd.exec (Untouched id) s trace r u →
    ⟨.ledger (.markDispatched id), answer⟩ ∈ trace →
    ⟨.handler arguments context, outcome⟩ ∈ trace →
    (∀ e, GovernedExecutor.guarded call outcome = .error e → e.isTimeout = false) →
    u.Settled id := by
  intro hall
  obtain ⟨r, h, ⟨answer, hdispatch⟩, arguments, context, hstart⟩ :=
    completes_found (.returned .null false) (by decide +kernel)
  have hsettled := hall _ _ _ _ _ _ _ _ _ _ _ _ (by decide) h hdispatch hstart fun e he => by
    cases he
  exact absurd hsettled (by decide +kernel)

end Sample

end OpenRath
