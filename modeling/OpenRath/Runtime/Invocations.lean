import OpenRath.Library.Protocol
import OpenRath.Runtime.Footprint

/-!
# Invocations of tools by many workers

`ToolExecutor.execute` is four transactions of the ledger with the handler of the tool between the
second and the third: the invocation is prepared, marked as dispatched, the handler is started, and
the result is recorded. Workers make such calls side by side, may crash between any two of them,
and a reconciliation may move an invocation meanwhile.

The protocol of a call (`dispatching`) has three phases. A worker that has prepared an invocation
is ready to dispatch it; one that has dispatched it holds it and may start the handler once. An
invocation that the reconciliation does not return to `PREPARED` is dispatched at most once, so the
starts of its handler together with the workers that hold it are at most one (`AtMostOnce`).

## Main definitions

* `Ledger.Ordered`: the invocations of a run are numbered in their order and keys are unique.
* `Phase`, `dispatching`: the protocol of a call.
* `Client`: the processes of a system of workers.
* `AtMostOnce`: the invariant of starts.

## Main results

* `Ledger.Ordered.perform`, `LedgerOp.Moves.eq_of_settled`: laws of the ledger.
* `Client.obeys`: the clients obey the protocol.
* `invocation_machine`: the laws of invocations along every run of a system of clients.
-/

namespace OpenRath

open Process

/-! ### The order of the invocations -/

namespace Ledger

open Tx

/-- The number of an invocation, in the order of its run. -/
def number (r : ToolInvocation) : ℕ := r.invocationSequence.getD 0

/-- The invocations of every run are numbered in the order of their insertion, and no two of them
have the same key. -/
structure Ordered (rows : List ToolInvocation) : Prop where
  numbered : ∀ runId, Numbered number (invocationsOf runId rows)
  keys : ∀ a ∈ rows, ∀ b ∈ rows, a.runId = b.runId → a.idempotencyKey ≠ none →
    a.idempotencyKey = b.idempotencyKey → a = b

theorem ordered_nil : Ordered [] :=
  ⟨fun _ => numbered_nil, fun _ h => absurd h List.not_mem_nil⟩

namespace Ordered

variable {rows : List ToolInvocation}

theorem map (h : Ordered rows) {g : ToolInvocation → ToolInvocation}
    (hrun : ∀ r, (g r).runId = r.runId) (hkey : ∀ r, (g r).idempotencyKey = r.idempotencyKey)
    (hseq : ∀ r, (g r).invocationSequence = r.invocationSequence) : Ordered (rows.map g) := by
  refine ⟨fun runId => ?_, ?_⟩
  · have hrows : invocationsOf runId (rows.map g) = (invocationsOf runId rows).map g := by
      rw [invocationsOf, invocationsOf, List.filter_map]
      congr 2
      funext r
      simp [hrun]
    have hnumber : number ∘ g = number := by
      funext r
      rw [Function.comp_apply, number, hseq, number]
    rw [Numbered, hrows, List.map_map, hnumber, List.length_map]
    exact h.numbered runId
  · intro a ha b hb hruns hsome hkeys
    obtain ⟨a, ha', rfl⟩ := List.mem_map.mp ha
    obtain ⟨b, hb', rfl⟩ := List.mem_map.mp hb
    rw [hrun, hrun] at hruns
    rw [hkey] at hsome
    rw [hkey, hkey] at hkeys
    rw [h.keys a ha' b hb' hruns hsome hkeys]

theorem concat (h : Ordered rows) {row : ToolInvocation}
    (hseq : row.invocationSequence = some (maxNumber number (invocationsOf row.runId rows) + 1))
    (hkey : ∀ r ∈ rows, r.runId = row.runId →
      r.idempotencyKey = none ∨ r.idempotencyKey ≠ row.idempotencyKey) :
    Ordered (rows ++ [row]) := by
  have hother : ∀ r ∈ rows, r.runId = row.runId → row.idempotencyKey ≠ none →
      r.idempotencyKey ≠ row.idempotencyKey := by
    intro r hr hrun hsome heq
    rcases hkey r hr hrun with hnone | hne
    · exact hsome (heq ▸ hnone)
    · exact hne heq
  refine ⟨fun runId => ?_, fun a ha b hb hruns hsome hkeys => ?_⟩
  · rw [invocationsOf, List.filter_append]
    by_cases hrun : row.runId = runId
    · subst hrun
      have hone : [row].filter (fun r => decide (r.runId = row.runId)) = [row] := by simp
      rw [hone]
      refine (h.numbered row.runId).concat ?_
      rw [number, hseq]
      rfl
    · have hnone : [row].filter (fun r => decide (r.runId = runId)) = [] := by simp [hrun]
      rw [hnone, List.append_nil]
      exact h.numbered runId
  · rcases List.mem_append.mp ha with hold | hnew <;>
      rcases List.mem_append.mp hb with hold' | hnew'
    · exact h.keys a hold b hold' hruns hsome hkeys
    · obtain rfl := List.mem_singleton.mp hnew'
      exact absurd hkeys (hother a hold hruns (hkeys ▸ hsome))
    · obtain rfl := List.mem_singleton.mp hnew
      exact absurd hkeys.symm (hother b hold' hruns.symm hsome)
    · rw [List.mem_singleton.mp hnew, List.mem_singleton.mp hnew']

/-- The invocation of a run under a key is the only one. -/
theorem underKey_of_mem (h : Ordered rows) {row : ToolInvocation} (hrow : row ∈ rows)
    {key : String} (hkey : row.idempotencyKey = some key) :
    underKey row.runId (some key) rows = some row := by
  rcases hfound : underKey row.runId (some key) rows with _ | row'
  · exact absurd hkey (underKey_eq_none hfound row hrow rfl)
  · obtain ⟨hmem, hrun, hsome, hkey'⟩ := underKey_eq_some hfound
    rw [h.keys row' hmem row hrow hrun (hkey' ▸ hsome) (hkey'.trans hkey.symm)]

/-- The numbers of the invocations of a run increase in the order of their insertion. -/
theorem increasing (h : Ordered rows) (runId : UUID) :
    (invocationsOf runId rows).Pairwise fun a b => ∃ m n, a.invocationSequence = some m ∧
      b.invocationSequence = some n ∧ m < n := by
  have hsome : ∀ r ∈ invocationsOf runId rows, r.invocationSequence = some (number r) := by
    intro r hr
    obtain ⟨k, hk, rfl⟩ := List.mem_iff_getElem.mp hr
    have hnum := (h.numbered runId).num_getElem hk
    rw [number] at hnum ⊢
    rcases hseq : (invocationsOf runId rows)[k].invocationSequence with _ | n
    · rw [hseq] at hnum
      exact absurd hnum (by simp)
    · rfl
  refine (h.numbered runId).pairwise_lt.imp_of_mem fun {a b} ha hb hab => ?_
  exact ⟨_, _, hsome a ha, hsome b hb, hab⟩

end Ordered

variable {c c' : LedgerConnection}

/-- What `INSERT INTO tool_invocations` requires of a new invocation. -/
theorem free_of_insertInvocation {row : ToolInvocation} {u : Unit}
    (h : (insertInvocation row).Yields c u c') : ∀ r ∈ c.invocations.rows, r.runId = row.runId →
      r.idempotencyKey = none ∨ r.idempotencyKey ≠ row.idempotencyKey := by
  simp only [insertInvocation, yields_bind, yields_query, yields_raiseUnless] at h
  obtain ⟨_, _, ⟨rfl, rfl⟩, _, _, ⟨-, rfl⟩, _, _, ⟨hfree, rfl⟩, -⟩ := h
  exact fun r hr hrun => (hfree r hr hrun).1

theorem ordered_prepare {runId : UUID} {toolName digest : String} {effectClass : EffectClass}
    {key nodeId : Option String} {sequence : Option ℤ} {row : ToolInvocation}
    (h : (prepare runId toolName effectClass digest key nodeId sequence).Yields c row c')
    (hc : Ordered c.invocations.rows) : Ordered c'.invocations.rows := by
  simp only [prepare, yields_bind, yields_now, yields_query] at h
  obtain ⟨now, _, ⟨-, rfl⟩, found, _, ⟨hfound, rfl⟩, h⟩ := h
  rcases found with _ | existing
  · simp only [yields_bind, yields_query] at h
    obtain ⟨n, _, ⟨rfl, rfl⟩, id, _, ⟨rfl, rfl⟩, h⟩ := h
    split_ifs at h
    · simp only [yields_bind, yields_pure] at h
      obtain ⟨_, _, hins, rfl, rfl⟩ := h
      have hfree := free_of_insertInvocation hins
      obtain ⟨t, ht, rfl⟩ := yields_insertInvocation hins
      have hrows := Table.insert?_rows ht
      rw [hrows]
      exact hc.concat rfl hfree
    · exact absurd h not_yields_raise
    · exact absurd h not_yields_raise
    · exact absurd h not_yields_raise
  · simp only [yields_bind, yields_raiseUnless, yields_pure] at h
    obtain ⟨_, _, ⟨-, rfl⟩, -, rfl⟩ := h
    exact hc

/-- An update of rows in place keeps their order. -/
theorem Ordered.update {t : Table ToolInvocation.id} {p : ToolInvocation → Prop}
    [DecidablePred p] {f : ToolInvocation → ToolInvocation} (hf : ∀ r, (f r).id = r.id)
    (h : Ordered t.rows) (hrun : ∀ r, (f r).runId = r.runId)
    (hkey : ∀ r, (f r).idempotencyKey = r.idempotencyKey)
    (hseq : ∀ r, (f r).invocationSequence = r.invocationSequence) :
    Ordered (t.update p f hf).rows := by
  refine h.map (fun r => ?_) (fun r => ?_) fun r => ?_
  · split_ifs
    · exact hrun r
    · rfl
  · split_ifs
    · exact hkey r
    · rfl
  · split_ifs
    · exact hseq r
    · rfl

theorem ordered_transition {invocationId : UUID} {expected : List InvocationStatus}
    {target : InvocationStatus} {result : Json} {error : Option String} {u : Unit}
    (h : (transition invocationId expected target result error).Yields c u c')
    (hc : Ordered c.invocations.rows) : Ordered c'.invocations.rows := by
  obtain ⟨-, row, now, hnow, -, -, hupdate⟩ := transition_cases h
  rw [hupdate]
  exact hc.update _ (fun _ => rfl) (fun _ => rfl) fun _ => rfl

theorem ordered_reconcileStale {olderThan : Datetime} {reported : List ToolInvocation}
    (h : (reconcileStale olderThan).Yields c reported c')
    (hc : Ordered c.invocations.rows) : Ordered c'.invocations.rows := by
  simp only [reconcileStale, yields_bind, yields_query, yields_now] at h
  obtain ⟨rows, _, ⟨rfl, rfl⟩, now, _, ⟨-, rfl⟩, h⟩ := h
  split_ifs at h with hnow
  · simp only [yields_bind, yields_pure] at h
    obtain ⟨_, _, hloop, -, rfl⟩ := h
    refine yields_forEach_invariant (fun _ t => Ordered t.invocations.rows) hc ?_ hloop
    intro pre row post t t' _ ht hstep
    rw [reconcileInvocation, yields_execute] at hstep
    obtain rfl := hstep
    exact ht.update (fun r => moved_id r (staleTarget row) now hnow) (fun _ => rfl)
      (fun _ => rfl) fun _ => rfl
  · exact absurd h not_yields_raise

/-- An operation keeps the order of the invocations. -/
theorem Ordered.perform {op : LedgerOp} {clock : ℕ → ClockReading} {uuid : UUID}
    {runs : Table RunRow.id} {invocations : Table ToolInvocation.id}
    (h : Ordered invocations.rows) :
    Ordered (Ledger.perform op clock uuid runs invocations).2.rows := by
  rcases hr : (Ledger.perform op clock uuid runs invocations).1 with e | r
  · rwa [perform_of_error hr]
  obtain ⟨c', hy, hc'⟩ := perform_of_ok hr
  rw [← hc']
  cases op with
  | prepare => exact ordered_prepare hy h
  | markDispatched | complete | fail => exact ordered_transition hy h
  | get =>
    obtain ⟨-, rfl⟩ := yields_get.mp hy
    exact h
  | reconcileStale => exact ordered_reconcileStale hy h
  | watermark =>
    obtain ⟨-, rfl⟩ := yields_query.mp hy
    exact h

end Ledger

/-! ### The protocol of a call -/

/-- The operation by which a call of a tool is prepared. -/
def ToolCall.prepareOp (digest : JsonObject → String) (call : ToolCall) (runId : UUID) :
    LedgerOp :=
  .prepare runId call.spec.recordedName call.spec.effects (digest call.arguments)
    call.idempotencyKey (some call.nodeId) call.checkpointSequence

/-- How far a worker has come with a call: it makes none, it has prepared an invocation by an
operation, or it has dispatched it and may start the handler. -/
inductive Phase
  | idle
  | ready (op : LedgerOp) (id : UUID)
  | holds (op : LedgerOp) (id : UUID)

/-- An invocation is dispatched by a worker that has prepared it, and the handler is started by a
worker that has dispatched the invocation of the call. -/
def Phase.Allows (digest : JsonObject → String) : Phase → Cmd → Prop
  | holds op id, .startTool call (some id') =>
    id' = id ∧ ∃ runId, call.runId = some runId ∧ op = call.prepareOp digest runId
  | _, .startTool _ _ => False
  | ready _ id, .ledger (.markDispatched id') => id' = id
  | _, .ledger (.markDispatched _) => False
  | _, _ => True

/-- The phase after an answer. -/
def Phase.advance : Phase → (c : Cmd) → c.Answer → Phase
  | _, .ledger (.prepare runId toolName effectClass digest key nodeId sequence), r =>
    match (r : Except LedgerError ToolInvocation) with
    | .ok row => .ready (.prepare runId toolName effectClass digest key nodeId sequence) row.id
    | .error _ => .idle
  | ready op id, .ledger (.markDispatched _), r =>
    match (r : Except LedgerError Unit) with
    | .ok _ => .holds op id
    | .error _ => .idle
  | _, .startTool _ _, _ => .idle
  | l, _, _ => l

/-- An invocation is found under its id. -/
def Cmd.Answers : (c : Cmd) → c.Answer → Prop
  | .ledger (.get id), r => ∀ row, (r : Except LedgerError ToolInvocation) = .ok row → row.id = id
  | _, _ => True

/-- The protocol of calls of tools. -/
def dispatching (digest : JsonObject → String) : Protocol Cmd Cmd.Answer Phase :=
  ⟨Phase.Allows digest, Cmd.Answers, Phase.advance⟩

theorem answers_exec (sha : Sha256) (c : Cmd) (i : Input) (w : World) :
    c.Answers (World.exec sha c i w).1 := by
  cases c with
  | ledger op =>
    cases op with
    | get id =>
      intro row hrow
      obtain ⟨c', hy, -⟩ := Ledger.perform_of_ok hrow
      exact Table.key_of_find? (Ledger.yields_get.mp hy).1
    | _ => trivial
  | _ => trivial

theorem Cmd.Free.allows {digest : JsonObject → String} {c : Cmd} (h : c.Free) (l : Phase) :
    (dispatching digest).allows l c := by
  cases c with
  | startTool => exact h.elim
  | ledger op =>
    cases op with
    | markDispatched => exact h.elim
    | _ => cases l <;> trivial
  | _ => cases l <;> trivial

section Obeys

variable {digest : JsonObject → String}

theorem closedOnRuntime_obeys (digest : JsonObject → String) :
    ClosedOnRuntime fun _ _ (p : Proc Cmd Cmd.Answer _ _) => p.Obeys (dispatching digest) where
  toClosed := Proc.closed_obeys _
  command _ _ h _ l := ⟨h.allows l, fun _ _ => trivial⟩

/-- After the answer of an operation of the ledger, a process goes on in the next phase. -/
theorem follows_ledger_bind {α : Type} {op : LedgerOp} {f : op.Result → Process α} {l : Phase}
    (hl : l.Allows digest (.ledger op))
    (hf : ∀ r, Cmd.Answers (.ledger op) (.ok r) →
      (f r).Follows (dispatching digest) (l.advance (.ledger op) (.ok r))) :
    (Process.ledger op >>= f).Follows (dispatching digest) l := by
  refine ⟨hl, fun r hr => ?_⟩
  rcases r with e | r
  · trivial
  · exact hf r hr

/-- A call of a tool obeys the protocol. -/
theorem ToolExecutor.obeys_execute (x : ToolExecutor) (call : ToolCall)
    (hledger : x.effectLedger = true) (hdigest : x.argumentsDigest = digest) :
    (x.execute call).Obeys (dispatching digest) := by
  have hG := closedOnRuntime_obeys digest
  refine hG.bind (hG.ofExcept _) fun limit => ?_
  rw [if_pos hledger]
  rcases hrun : call.runId with _ | runId
  · exact hG.throw _
  have hop : LedgerOp.prepare runId call.spec.recordedName call.spec.effects
      (x.argumentsDigest call.arguments) call.idempotencyKey (some call.nodeId)
      call.checkpointSequence = call.prepareOp digest runId := by
    rw [hdigest, ToolCall.prepareOp]
  refine fun l => follows_ledger_bind (by cases l <;> trivial) fun (row : ToolInvocation) _ =>
    Proc.follows_ite trivial (Proc.follows_ite trivial ?_)
  refine follows_ledger_bind (l := .ready _ row.id) rfl fun _ _ =>
    follows_ledger_bind (l := .holds _ row.id) trivial fun dispatched hid => ?_
  obtain ⟨f, hf, hclosed⟩ := exists_run_eq hG.onSteps x call limit (some dispatched)
  rw [hf]
  exact ⟨⟨hid dispatched rfl, runId, hrun, hop⟩, fun r _ => hclosed r _⟩

end Obeys

/-! ### Starts of a handler -/

/-- An invocation that the reconciliation does not return to `PREPARED`. -/
def ToolInvocation.Single (row : ToolInvocation) : Prop :=
  row.effectClass = .nonIdempotent ∨ row.effectClass = .idempotent ∧ row.idempotencyKey = none

instance (row : ToolInvocation) : Decidable row.Single := inferInstanceAs (Decidable (_ ∨ _))

/-- How often the handler was started for an invocation. -/
def World.starts (w : World) (id : UUID) : ℕ := w.started.countP fun s => s.2 = some id

/-- Whether a worker in a phase may start the handler for an invocation. -/
def Phase.holdsOn (id : UUID) : Phase → Bool
  | holds _ id' => id' = id
  | _ => false

/-- The starts of the handler for an invocation that were made or may still be made. -/
def World.uses (w : World) (ls : List Phase) (id : UUID) : ℕ :=
  w.starts id + ls.countP (Phase.holdsOn id)

/-- Handlers are started for invocations that are there, and at most once for an invocation that
never returns to `PREPARED`. -/
structure AtMostOnce (w : World) (ls : List Phase) : Prop where
  fresh : ∀ id, w.invocations.find? id = none → w.uses ls id = 0
  once : ∀ id row, w.invocations.find? id = some row → row.Single →
    w.uses ls id ≤ if row.status = .prepared then 0 else 1

section Moves

variable {op : LedgerOp} {row row' : ToolInvocation}

theorem LedgerOp.Moves.single_iff (h : op.Moves row row') : row'.Single ↔ row.Single := by
  obtain ⟨-, -, -, -, hclass, hkey⟩ := h.kept
  rw [ToolInvocation.Single, ToolInvocation.Single, hclass, hkey]

/-- The reconciliation does not return such an invocation to `PREPARED`. -/
theorem ToolInvocation.Single.staleTarget_eq (h : row.Single) :
    Ledger.staleTarget row = .ambiguous := by
  rw [Ledger.staleTarget, if_neg]
  rcases h with hclass | ⟨hclass, hkey⟩
  · simp [hclass]
  · simp [hclass, hkey]

/-- An invocation that was dispatched and never returns to `PREPARED` is not prepared. -/
theorem LedgerOp.Moves.not_prepared (h : op.Moves row row') (hsingle : row.Single)
    (hs : row.status ≠ .prepared) : row'.status ≠ .prepared := by
  cases h with
  | stay => exact hs
  | dispatch | complete | fail => exact InvocationStatus.noConfusion
  | reconcile hnow hstale =>
    change Ledger.staleTarget row ≠ _
    rw [hsingle.staleTarget_eq]
    exact InvocationStatus.noConfusion

end Moves

namespace AtMostOnce

variable {sha : Sha256} {digest : JsonObject → String} {w : World} {ls : List Phase}

/-- The invariant is kept if the starts do not increase but for one that was dispatched. -/
theorem exec (h : AtMostOnce w ls) {c : Cmd} {i : Input} {ls' : List Phase}
    (huses : ∀ id, (World.exec sha c i w).2.uses ls' id ≤ w.uses ls id ∨
      (∃ row row', w.invocations.find? id = some row ∧ row.status = .prepared ∧
        (World.exec sha c i w).2.invocations.find? id = some row' ∧ row'.status ≠ .prepared ∧
        (World.exec sha c i w).2.uses ls' id ≤ w.uses ls id + 1)) :
    AtMostOnce (World.exec sha c i w).2 ls' := by
  refine ⟨fun id hnone => ?_, fun id row' hrow' hsingle => ?_⟩
  · have hbefore : w.invocations.find? id = none := by
      rcases hrow : w.invocations.find? id with _ | row
      · rfl
      · obtain ⟨row', hrow', -⟩ := World.exists_moves_exec sha c i hrow
        cases hnone.symm.trans hrow'
    have hzero := h.fresh id hbefore
    rcases huses id with hle | ⟨row, -, hrow, -⟩
    · omega
    · cases hbefore.symm.trans hrow
  · rcases hrow : w.invocations.find? id with _ | row
    · have hzero := h.fresh id hrow
      rcases huses id with hle | ⟨row, -, hrow', -⟩
      · omega
      · cases hrow.symm.trans hrow'
    · obtain ⟨row'', hrow'', hmove⟩ := World.exists_moves_exec sha c i hrow
      cases hrow'.symm.trans hrow''
      have hkept : (row'.Single ↔ row.Single) ∧
          (row.Single → row.status ≠ .prepared → row'.status ≠ .prepared) := by
        rcases hmove with rfl | ⟨op, -, hmove⟩
        · exact ⟨Iff.rfl, fun _ hs => hs⟩
        · exact ⟨hmove.single_iff, hmove.not_prepared⟩
      have honce := h.once id row hrow (hkept.1.mp hsingle)
      rcases huses id with hle | ⟨row₁, row₁', hrow₁, hs, hrow₁', hs', hle⟩
      · refine hle.trans (honce.trans ?_)
        by_cases hs : row.status = .prepared
        · rw [if_pos hs]
          exact Nat.zero_le _
        · rw [if_neg hs, if_neg (hkept.2 (hkept.1.mp hsingle) hs)]
      · cases hrow.symm.trans hrow₁
        cases hrow'.symm.trans hrow₁'
        rw [if_pos hs] at honce
        rw [if_neg hs']
        omega

/-- A dispatch finds the invocation prepared and leaves it dispatched. -/
theorem dispatched_of_ok {id : UUID} {i : Input} {u : Unit}
    (h : (World.exec sha (.ledger (.markDispatched id)) i w).1 = .ok u) :
    ∃ row row', w.invocations.find? id = some row ∧ row.status = .prepared ∧
      (World.exec sha (.ledger (.markDispatched id)) i w).2.invocations.find? id = some row' ∧
      row'.status ≠ .prepared := by
  obtain ⟨c', hy, hc'⟩ := Ledger.perform_of_ok h
  obtain ⟨-, row, now, hnow, hrow, hs, hupdate⟩ := Ledger.transition_cases hy
  refine ⟨row, Ledger.recorded row .dispatched .null none now hnow, hrow, by simpa using hs, ?_,
    InvocationStatus.noConfusion⟩
  change (Ledger.perform _ _ _ _ _).2.find? id = _
  rw [← hc', hupdate, Table.find?_update, hrow, Option.map_some,
    if_pos (Table.key_of_find? hrow)]

/-- An allowed command keeps the invariant. -/
theorem step (h : AtMostOnce w ls) {j : ℕ} {l : Phase} {c : Cmd} {i : Input}
    (hl : ls[j]? = some l) (hallows : l.Allows digest c) :
    AtMostOnce (World.exec sha c i w).2 (ls.set j (l.advance c (World.exec sha c i w).1)) := by
  refine h.exec fun id => ?_
  have hcount := Pool.countP_set_add hl (l.advance c (World.exec sha c i w).1) (Phase.holdsOn id)
  -- The phase stays, or it is one in which no handler may be started.
  have hstay : (World.exec sha c i w).2.starts id = w.starts id →
      (Phase.holdsOn id (l.advance c (World.exec sha c i w).1) = true → Phase.holdsOn id l = true) →
      (World.exec sha c i w).2.uses (ls.set j (l.advance c (World.exec sha c i w).1)) id ≤
        w.uses ls id := by
    intro hstarts hholds
    rw [World.uses, World.uses, hstarts]
    split_ifs at hcount with h₁ h₂ h₂
    · omega
    · omega
    · exact absurd (hholds h₂) h₁
    · omega
  cases c with
  | store | now | uuid4 | elapsed | observe | context =>
    refine Or.inl (hstay rfl ?_)
    cases l <;> exact fun h => h
  | startTool call id? =>
    cases l with
    | idle | ready => exact hallows.elim
    | holds op id₀ =>
      rcases id? with _ | id'
      · exact hallows.elim
      obtain ⟨rfl, -⟩ := hallows
      have hstarts : (World.exec sha (.startTool call (some id')) i w).2.starts id =
          w.starts id + if id' = id then 1 else 0 := by
        simp [World.starts, World.exec, List.countP_append]
      have hidle : Phase.holdsOn id
          ((Phase.holds op id').advance (.startTool call (some id')) i.outcome) = false := rfl
      have hholds : Phase.holdsOn id (.holds op id') = decide (id' = id) := rfl
      refine Or.inl (Nat.le_of_eq ?_)
      change (World.exec sha _ i w).2.starts id + _ = w.starts id + _
      rw [hstarts]
      simp only [World.exec, hidle, hholds, Bool.false_eq_true, if_false, decide_eq_true_eq]
        at hcount ⊢
      omega
  | ledger op =>
    cases op with
    | prepare runId toolName effectClass arguments key nodeId sequence =>
      refine Or.inl (hstay rfl fun hholds => ?_)
      have hready : Phase.holdsOn id (l.advance _ (World.exec sha (.ledger (.prepare runId toolName
          effectClass arguments key nodeId sequence)) i w).1) = false := by
        cases l <;> simp only [Phase.advance] <;> split <;> rfl
      exact absurd (hready.symm.trans hholds) Bool.false_ne_true
    | markDispatched id' =>
      cases l with
      | idle | holds => exact hallows.elim
      | ready op id₀ =>
        obtain rfl : id' = id₀ := hallows
        rcases hr : (World.exec sha (.ledger (.markDispatched id')) i w).1 with e | u
        · rw [hr] at hstay
          exact Or.inl (hstay rfl fun hholds => absurd hholds Bool.false_ne_true)
        · rw [hr] at hstay hcount
          by_cases hid : id' = id
          · subst hid
            obtain ⟨row, row', hrow, hs, hrow', hs'⟩ := dispatched_of_ok hr
            refine Or.inr ⟨row, row', hrow, hs, hrow', hs', ?_⟩
            change w.starts id' + _ ≤ w.starts id' + _ + 1
            split_ifs at hcount <;> omega
          · exact Or.inl (hstay rfl fun hholds => absurd (of_decide_eq_true hholds) hid)
    | complete | fail | get | reconcileStale | watermark =>
      refine Or.inl (hstay rfl ?_)
      cases l <;> exact fun h => h

end AtMostOnce

/-- A command keeps the order of the invocations. -/
theorem Ledger.Ordered.exec {sha : Sha256} {c : Cmd} {i : Input} {w : World}
    (h : Ordered w.invocations.rows) : Ordered (World.exec sha c i w).2.invocations.rows := by
  cases c with
  | ledger op => exact h.perform
  | store | now | uuid4 | elapsed | startTool | observe | context => exact h

/-! ### Settled invocations -/

/-- What a preparation answers if the run has an invocation under the key. -/
theorem Ledger.perform_prepare_of_underKey {runId : UUID} {toolName digest : String}
    {effectClass : EffectClass} {key nodeId : Option String} {sequence : Option ℤ}
    {clock : ℕ → ClockReading} {uuid : UUID} {runs : Table RunRow.id}
    {invocations : Table ToolInvocation.id} {row : ToolInvocation}
    (h : underKey runId key invocations.rows = some row) :
    (perform (.prepare runId toolName effectClass digest key nodeId sequence) clock uuid
      runs invocations).1 = if row.argumentsDigest = digest ∧ row.toolName = toolName then .ok row
        else .error (.conflict "effect idempotency key was reused with different input") := by
  let c : LedgerConnection := ⟨runs, invocations, clock, uuid⟩
  split_ifs with hsame
  · have hy : (prepare runId toolName effectClass digest key nodeId sequence).Yields c row
        { c with clock := fun n => c.clock (n + 1) } := by
      simp only [prepare, Tx.yields_bind, yields_now, Tx.yields_query]
      refine ⟨_, _, ⟨rfl, rfl⟩, _, _, ⟨h, rfl⟩, ?_⟩
      simp only [Tx.yields_bind, Tx.yields_raiseUnless, Tx.yields_pure]
      exact ⟨(), _, ⟨hsame, rfl⟩, trivial, rfl⟩
    exact (Tx.yields_atomically.mpr hy).fst_eq
  · have hraise : (prepare runId toolName effectClass digest key nodeId sequence).Raises c
        (.conflict "effect idempotency key was reused with different input") := by
      simp only [prepare, Tx.raises_bind, yields_now, Tx.yields_query]
      refine Or.inr ⟨_, _, ⟨rfl, rfl⟩, Or.inr ⟨_, _, ⟨h, rfl⟩, ?_⟩⟩
      simp only [Tx.raises_bind, Tx.raises_raiseUnless]
      exact Or.inl ⟨hsame, trivial⟩
    exact Tx.raises_atomically.mpr hraise

/-- A call that reaches the ledger under the key of a succeeded invocation is answered by it. -/
theorem ToolExecutor.next_execute_of_succeeded {sha : Sha256} {x : ToolExecutor} {call : ToolCall}
    {i : Input} {w : World} {row : ToolInvocation} {limit : ℕ}
    (hrow : Ledger.underKey row.runId call.idempotencyKey w.invocations.rows = some row)
    (hs : row.status = .succeeded) (hadmission : x.admission call = .ok limit)
    (hledger : x.effectLedger = true) (hrun : call.runId = some row.runId) :
    ((x.execute call).next (World.exec sha) i w).1 =
        (if row.argumentsDigest = x.argumentsDigest call.arguments ∧
            row.toolName = call.spec.recordedName then .ret row.result
          else .throw (.ledger
            (.conflict "effect idempotency key was reused with different input"))) ∧
      ((x.execute call).next (World.exec sha) i w).2.started = w.started := by
  have hcall : ∃ rest : ToolInvocation → Process Json, x.execute call =
      ledger (.prepare row.runId call.spec.recordedName call.spec.effects
        (x.argumentsDigest call.arguments) call.idempotencyKey (some call.nodeId)
        call.checkpointSequence) >>= fun (invocation : ToolInvocation) =>
        if invocation.status = .succeeded then pure invocation.result else rest invocation := by
    rw [execute, hadmission]
    change ∃ _, (if x.effectLedger = true then _ else _) = _
    rw [if_pos hledger]
    simp only [hrun]
    exact ⟨_, rfl⟩
  obtain ⟨rest, hexecute⟩ := hcall
  rw [hexecute]
  refine ⟨?_, rfl⟩
  change Proc.bind (.ofExcept ((Ledger.perform _ _ _ _ _).1.mapError Exn.ledger)) _ = _
  rw [Ledger.perform_prepare_of_underKey hrow]
  split_ifs
  · change (if row.status = .succeeded then pure row.result else rest row) = _
    rw [if_pos hs]
    rfl
  · rfl

/-! ### Systems of clients -/

/-- The processes of a system of workers that call tools through the ledger: calls, workers,
reconciliations of the ledger, and any processes that neither dispatch an invocation nor start a
handler. -/
inductive Client (digest : JsonObject → String) : Process Json → Prop
  | execute (x : ToolExecutor) (call : ToolCall) (hledger : x.effectLedger = true)
      (hdigest : x.argumentsDigest = digest) : Client digest (x.execute call)
  | work (rt : LocalRuntime) (fuel : ℕ) (workerId : String) (leaseSeconds : Seconds)
      (maxSteps : Option ℤ) (givenNow : Option Datetime)
      (hledger : rt.steps.executor.effectLedger = true)
      (hdigest : rt.steps.executor.argumentsDigest = digest) : Client digest do
        let _ ← rt.workOnce fuel workerId leaseSeconds maxSteps givenNow
        pure .null
  | reconcileStale (olderThan : Datetime) : Client digest do
        let _ ← ledger (.reconcileStale olderThan)
        pure .null
  | other (p : Process Json) (h : p.Issues Cmd.Free) : Client digest p

theorem Client.obeys {digest : JsonObject → String} {p : Process Json} (h : Client digest p) :
    p.Obeys (dispatching digest) := by
  have hG := closedOnRuntime_obeys digest
  cases h with
  | execute x call hledger hdigest => exact x.obeys_execute call hledger hdigest
  | work rt _ _ _ _ _ hledger hdigest =>
    have hcontext : ∀ c, (Process.context c).Obeys (dispatching digest) := fun c l =>
      ⟨Cmd.Free.allows (c := .context c) trivial l, fun _ _ => trivial⟩
    have hend : ∀ claim workerId e, (rt.endClaim claim workerId e).Obeys (dispatching digest) :=
      fun claim workerId e => rt.closed_endClaim hG.onSteps
        (rt.closed_forgetContextIfTerminal hG.onSteps hcontext) claim workerId e fun _ _ l =>
          ⟨Cmd.Free.allows (c := .store _) trivial l, fun _ _ => hG.ofExcept _ _⟩
    exact hG.bind (rt.closed_workOnce hG
      (fun call => rt.steps.executor.obeys_execute call hledger hdigest) hcontext hend _ _ _ _ _)
      fun _ => hG.ret _
  | reconcileStale olderThan =>
    exact hG.bind (hG.onSteps.ledger (.reconcileStale _) trivial) fun _ => hG.ret _
  | other _ h => exact (h.imp fun _ hc l => hc.allows l).obeys

/-- The system before any call. -/
structure Pool.Fresh (digest : JsonObject → String) (x : Pool Cmd Cmd.Answer Exn Json World) :
    Prop where
  clients : ∀ p ∈ x.procs, Client digest p
  invocations_eq : x.state.invocations = .empty
  started_eq : x.state.started = []

section Runs

variable {sha : Sha256} {digest : JsonObject → String} {x : Pool Cmd Cmd.Answer Exn Json World}

theorem atMostOnce_empty {w : World} (hinvocations : w.invocations = .empty)
    (hstarted : w.started = []) (n : ℕ) : AtMostOnce w (List.replicate n .idle) := by
  refine ⟨fun id _ => ?_, fun id row hrow => ?_⟩
  · have hnone : Phase.holdsOn id .idle = false := rfl
    simp [World.uses, World.starts, hstarted, List.countP_replicate, hnone]
  · rw [hinvocations] at hrow
    cases hrow

/-- The invariant of starts along a run. -/
theorem exists_atMostOnce_run (hx : x.Fresh digest) (schedule : List (ℕ × Input)) :
    ∃ ls, AtMostOnce (x.run (World.exec sha) schedule).state ls := by
  obtain ⟨ls, -, hI⟩ := Pool.follows_run (D := fun _ => True) (I := fun _ => AtMostOnce)
    (answers_exec sha) (fun _ _ h => h) (fun _ _ _ _ _ _ _ _ hI hl hc => hI.step hl hc) []
    (Pool.follows_replicate (fun p hp => (hx.clients p hp).obeys) Phase.idle)
    (atMostOnce_empty hx.invocations_eq hx.started_eq _) schedule trivial
  exact ⟨ls, hI⟩

/-- The order of the invocations along a run. -/
theorem ordered_run (hx : x.Fresh digest) (schedule : List (ℕ × Input)) :
    Ledger.Ordered (x.run (World.exec sha) schedule).state.invocations.rows := by
  have hstart : Ledger.Ordered x.state.invocations.rows := by
    rw [hx.invocations_eq]
    exact Ledger.ordered_nil
  clear hx
  induction schedule generalizing x with
  | nil => exact hstart
  | cons l ls ih =>
    refine ih (x := x.step (World.exec sha) l) ?_
    rcases Pool.step_state_cases (World.exec sha) x l with hsame | ⟨c, k, -, hexec⟩
    · rwa [hsame]
    · rw [hexec]
      exact hstart.exec

end Runs

/-- **Invocations.** Along every run of a system of clients: succeeded, failed and ambiguous
invocations are left alone by every step; the handler is started at most once for an invocation
that is not idempotent, or idempotent without a key; a call that reaches the ledger under the key
of a succeeded invocation is answered by its result, if tool and arguments are the same, and
refused otherwise; and the invocations of a run are numbered in the order of their insertion. -/
theorem invocation_machine (sha : Sha256) {digest : JsonObject → String}
    {x : Pool Cmd Cmd.Answer Exn Json World} (hx : x.Fresh digest)
    (schedule : List (ℕ × Input)) :
    let y := x.run (World.exec sha) schedule
    (∀ id row, y.state.invocations.find? id = some row →
      row.status ∈ [.succeeded, .failed, .ambiguous] →
      ∀ l, (y.step (World.exec sha) l).state.invocations.find? id = some row) ∧
    (∀ id row, y.state.invocations.find? id = some row → row.Single → y.state.starts id ≤ 1) ∧
    (∀ id row key, y.state.invocations.find? id = some row → row.status = .succeeded →
      row.idempotencyKey = some key →
      ∀ (t : ToolExecutor) (call : ToolCall) (limit : ℕ) (i : Input),
      t.admission call = .ok limit → t.effectLedger = true → call.runId = some row.runId →
      call.idempotencyKey = some key →
      ((t.execute call).next (World.exec sha) i y.state).1 =
          (if row.argumentsDigest = t.argumentsDigest call.arguments ∧
              row.toolName = call.spec.recordedName then .ret row.result
            else .throw (.ledger
              (.conflict "effect idempotency key was reused with different input"))) ∧
        ((t.execute call).next (World.exec sha) i y.state).2.started = y.state.started) ∧
    ∀ runId, (Ledger.invocationsOf runId y.state.invocations.rows).Pairwise fun a b =>
      ∃ m n, a.invocationSequence = some m ∧ b.invocationSequence = some n ∧ m < n := by
  intro y
  have hordered : Ledger.Ordered y.state.invocations.rows := ordered_run hx schedule
  refine ⟨fun id row hrow hs l => ?_, fun id row hrow hsingle => ?_,
    fun id row key hrow hs hkey t call limit i hadmission hledger hrun hcall => ?_,
    hordered.increasing⟩
  · rcases Pool.step_state_cases (World.exec sha) y l with hsame | ⟨c, k, -, hexec⟩
    · rwa [hsame]
    · rw [hexec]
      obtain ⟨row', hrow', rfl | ⟨op, -, hmoves⟩⟩ := World.exists_moves_exec sha c l.2 hrow
      · exact hrow'
      · rwa [hmoves.eq_of_settled hs] at hrow'
  · obtain ⟨ls, honce⟩ : ∃ ls, AtMostOnce y.state ls := exists_atMostOnce_run hx schedule
    have hle := honce.once id row hrow hsingle
    rw [World.uses] at hle
    split_ifs at hle <;> omega
  · refine t.next_execute_of_succeeded ?_ hs hadmission hledger hrun
    rw [hcall]
    exact hordered.underKey_of_mem (Table.mem_of_find? hrow) hkey

namespace Sample

/-- Two calls of the tool without a key, and a reconciliation of the ledger; the run is
created. -/
def clients : Pool Cmd Cmd.Answer Exn Json World where
  state := ⟨SQLite.after sha [⟨.createRun run, clock 0⟩], .empty, [], .empty⟩
  procs := [(runtime none).steps.executor.execute (charge none),
    (runtime none).steps.executor.execute (charge none),
    do let _ ← ledger (.reconcileStale (.utc (reading 20))); pure .null]

theorem fresh_clients : clients.Fresh (runtime none).steps.executor.argumentsDigest where
  clients p hp := by
    rcases List.mem_cons.mp hp with rfl | hp
    · exact .execute _ _ rfl rfl
    rcases List.mem_cons.mp hp with rfl | hp
    · exact .execute _ _ rfl rfl
    · obtain rfl := List.mem_singleton.mp hp
      exact .reconcileStale _
  invocations_eq := rfl
  started_eq := rfl

/-- The first call crashes after the start of the handler, and is reconciled. -/
def called : List (ℕ × Input) :=
  List.replicate 4 (0, input 1) ++ [(2, input 30)] ++ List.replicate 5 (1, input 31)

end Sample

/-- The handler of the first of two calls was started once. -/
theorem invocation_machine_sample :
    (Sample.clients.run (World.exec Sample.sha) Sample.called).state.starts
      (Sample.input 1).uuid ≤ 1 := by
  have hfound : ∃ row ∈ (Sample.clients.run (World.exec Sample.sha)
      Sample.called).state.invocations.find? (Sample.input 1).uuid, row.Single := by
    decide +kernel
  obtain ⟨row, hrow, hsingle⟩ := hfound
  exact (invocation_machine Sample.sha Sample.fresh_clients Sample.called).2.1 _ row hrow hsingle

end OpenRath
