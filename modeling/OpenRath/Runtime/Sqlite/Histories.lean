import OpenRath.Runtime.RunStore
import OpenRath.Runtime.Sqlite.Operations

/-!
# Histories of the SQLite store

A history is a list of calls, each run as one transaction on the tables the calls before it left.
The interleavings of the operations of any number of workers are the histories. Every call acts on
every run by a step of the machine of a run, so the laws of the machine hold along every history.

## Main definitions

* `SQLite.body`: the operations of the interface, as bodies of transactions.
* `SQLite.perform`: a call as a transaction; `SQLite.after`: the tables after a history.
* `Sample.run`, `Sample.claimed`: a run and the history of its first claim.

## Main results

* `SQLite.perform_of_error`: a call that raises leaves every table as it was.
* `SQLite.step_perform`: **refinement**, a call that returns acts on every run by a step of the
  machine that the operation stands for.
* `SQLite.after_induction`: the invariant rule of histories.
-/

namespace OpenRath

namespace SQLite

open Tx Connection

variable (sha : Sha256)

/-! ### Calls -/

/-- The operations of the interface as bodies of transactions. -/
def body : (op : Op) → Sql op.Result
  | .createRun run => createRun sha run
  | .getRun runId => getRun runId
  | .listRuns tenantId after limit sessionId statuses =>
    listRuns tenantId after limit sessionId statuses
  | .countRuns status tenantId => countRuns status tenantId
  | .transitionRun runId expectedVersion target state nextNodes =>
    transitionRun runId expectedVersion target state nextNodes
  | .listRunEvents runId afterSequence limit => listRunEvents runId afterSequence limit
  | .appendRunEvent runId type data => appendRunEvent runId type data
  | .appendCheckpoint checkpoint => appendCheckpoint checkpoint
  | .latestCheckpoint runId => latestCheckpoint runId
  | .listCheckpoints runId => listCheckpoints runId
  | .commitCheckpoint checkpoint workerId fencingToken expectedRunVersion =>
    commitCheckpoint checkpoint workerId fencingToken expectedRunVersion
  | .finishClaim runId workerId fencingToken expectedRunVersion target eventType eventData =>
    finishClaim runId workerId fencingToken expectedRunVersion target eventType eventData
  | .createInterrupt interrupt expectedRunVersion =>
    createInterrupt interrupt expectedRunVersion
  | .getInterrupt interruptId => getInterrupt interruptId
  | .listInterrupts tenantId pendingOnly => listInterrupts tenantId pendingOnly
  | .expireInterrupts now => expireInterrupts now
  | .decideInterrupt interruptId decision expectedRunVersion =>
    decideInterrupt interruptId decision expectedRunVersion
  | .claimNext workerId leaseSeconds now => claimNext sha workerId leaseSeconds now
  | .renewLease runId workerId fencingToken leaseSeconds now =>
    renewLease runId workerId fencingToken leaseSeconds now
  | .assertFencingToken runId workerId fencingToken =>
    assertFencingToken runId workerId fencingToken
  | .requeueExpiredLeases now => requeueExpiredLeases now

/-- A call as a transaction: its result and the tables it leaves. -/
def perform (call : Call) (db : Database) : Except StoreError call.op.Result × Database :=
  transaction (body sha call.op) call.clock db

/-- The tables after a history, from those of a new store. -/
def after (calls : List Call) : Database :=
  calls.foldl (fun db call => (perform sha call db).2) .empty

variable {sha}

/-- A call that raises leaves every table as it was. -/
theorem perform_of_error {call : Call} {db : Database} {e : StoreError}
    (h : (perform sha call db).1 = .error e) : (perform sha call db).2 = db :=
  transaction_snd_of_error h

/-- A call raises and leaves the tables as they were, or its body returns. -/
theorem perform_cases (sha : Sha256) (call : Call) (db : Database) :
    (∃ e, (perform sha call db).1 = .error e ∧ (perform sha call db).2 = db) ∨
      ∃ r c', (perform sha call db).1 = .ok r ∧ (perform sha call db).2 = c'.db ∧
        (body sha call.op).Yields ⟨db, call.clock⟩ r c' := by
  rcases h : (perform sha call db).1 with e | r
  · exact Or.inl ⟨e, rfl, perform_of_error h⟩
  · obtain ⟨c', hy, hdb⟩ := transaction_eq_ok_iff.mp (Prod.ext h rfl :
      transaction (body sha call.op) call.clock db = (.ok r, (perform sha call db).2))
    exact Or.inr ⟨r, c', rfl, hdb.symm, hy⟩

/-! ### Refinement -/

variable {c c' : Connection}

section Reads

theorem keeps_readRun (k : UUID) : Keeps Connection.db (readRun k) := by
  intro c run c' h
  obtain ⟨-, -, rfl⟩ := stored_of_readRun h
  rfl

theorem keeps_listRuns (tenantId : String) (cursor : Option UUID) (limit : Option ℤ)
    (sessionId : Option UUID) (statuses : List RunStatus) :
    Keeps Connection.db (listRuns tenantId cursor limit sessionId statuses) := by
  refine keeps_bind (keeps_raiseUnless _ _) fun _ => keeps_bind ?_ fun _ =>
    keeps_bind (keeps_query _) fun _ => keeps_ofExcept _
  rcases cursor with _ | k
  · exact keeps_pure none
  · refine keeps_bind (keeps_query _) fun row => ?_
    rcases row with _ | row
    · exact keeps_raise _
    · exact keeps_bind (keeps_raiseUnless _ _) fun _ => keeps_pure _

theorem keeps_listRunEvents (k : UUID) (afterSequence : ℤ) (limit : Option ℤ) :
    Keeps Connection.db (listRunEvents k afterSequence limit) :=
  keeps_bind (keeps_raiseUnless _ _) fun _ => keeps_bind (keeps_raiseUnless _ _) fun _ =>
    keeps_bind (keeps_query _) fun _ => keeps_pure _

theorem keeps_getInterrupt (i : UUID) : Keeps Connection.db (getInterrupt i) := by
  refine keeps_bind (keeps_query _) fun row => ?_
  rcases row with _ | row
  · exact keeps_raise _
  · exact keeps_pure _

theorem keeps_assertFencingToken (k : UUID) (workerId : String) (token : ℤ) :
    Keeps Connection.db (assertFencingToken k workerId token) := by
  refine keeps_bind (fun c lease c' h => ?_) fun _ => keeps_pure _
  obtain ⟨-, rfl⟩ := yields_requiredLease.mp h
  rfl

end Reads

theorem step_of_db_eq {db db' : Database} (h : db' = db) (i : UUID) :
    (db.view i).Step .stay (db'.view i) := by
  rw [h]
  exact .stay _

/-- The body of an operation that returns acts on every run by a step the operation stands
for. -/
theorem step_body {op : Op} {r : op.Result} (h : (body sha op).Yields c r c') (i : UUID) :
    ∃ a, op.Does r i a ∧ (c.db.view i).Step a (c'.db.view i) := by
  cases op with
  | createRun run =>
    rcases takes_createRun h with rfl | ⟨hr, htakes⟩
    · exact ⟨_, Or.inl rfl, .stay _⟩
    · exact ⟨_, Or.inr ⟨hr, rfl⟩, htakes.only i⟩
  | transitionRun => exact ⟨_, rfl, (wrote_transitionRun h).takes.only i⟩
  | appendRunEvent => exact ⟨_, rfl, (takes_appendRunEvent h).only i⟩
  | appendCheckpoint => exact ⟨_, rfl, (takes_appendCheckpoint h).only i⟩
  | commitCheckpoint => exact ⟨_, rfl, (wrote_commitCheckpoint h).2.takes.only i⟩
  | finishClaim => exact ⟨_, rfl, (wrote_finishClaim h).2.takes.only i⟩
  | createInterrupt => exact ⟨_, rfl, (wrote_createInterrupt h).takes.only i⟩
  | decideInterrupt =>
    obtain ⟨k, -, hwrote⟩ := wrote_decideInterrupt h
    have htakes := hwrote.takes
    rw [← hwrote.id_eq] at htakes
    exact ⟨_, rfl, htakes.only i⟩
  | expireInterrupts =>
    rcases step_expireInterrupts h i with hsame | hstep
    · exact ⟨.stay, Or.inl rfl, hsame ▸ .stay _⟩
    · exact ⟨.expire, Or.inr rfl, hstep⟩
  | claimNext =>
    rcases claimed_claimNext h with ⟨rfl, hsame⟩ | ⟨claimed, rfl, -, hclaimed⟩
    · exact ⟨.stay, rfl, step_of_db_eq hsame i⟩
    · exact ⟨_, rfl, hclaimed.takes.only i⟩
  | renewLease => exact ⟨_, rfl, (takes_renewLease h).2.only i⟩
  | requeueExpiredLeases =>
    obtain ⟨d, -, -, hrows, hrest, rfl⟩ := step_requeueExpiredLeases h
    have hmem : i ∈ ((expiredLeases c.db d).filter fun row => row.status = .running).map
        (fun row => row.lease.runId) ↔
        ∃ row ∈ expiredLeases c.db d, row.status = .running ∧ row.lease.runId = i := by
      simp [and_assoc]
    by_cases hi : ∃ row ∈ expiredLeases c.db d, row.lease.runId = i
    · obtain ⟨row, hrow, rfl⟩ := hi
      have hstep := hrows row hrow
      rw [sweepAction] at hstep
      split_ifs at hstep with hs
      · exact ⟨.requeue, Or.inl ⟨rfl, hmem.mpr ⟨row, hrow, hs, rfl⟩⟩, hstep⟩
      · refine ⟨.release, Or.inr ⟨Or.inr rfl, fun h => ?_⟩, hstep⟩
        obtain ⟨row', hrow', hs', hid⟩ := hmem.mp h
        obtain rfl := List.inj_on_of_nodup_map (nodup_expiredLeases c.db d) hrow' hrow hid
        exact hs hs'
    · push Not at hi
      refine ⟨.stay, Or.inr ⟨Or.inl rfl, fun h => ?_⟩, hrest i hi ▸ .stay _⟩
      obtain ⟨row', hrow', -, hid⟩ := hmem.mp h
      exact hi row' hrow' hid
  | getRun k => exact ⟨.stay, rfl, step_of_db_eq (keeps_readRun k h) i⟩
  | listRuns => exact ⟨.stay, rfl, step_of_db_eq (keeps_listRuns _ _ _ _ _ h) i⟩
  | countRuns => exact ⟨.stay, rfl, step_of_db_eq (keeps_query _ h) i⟩
  | listRunEvents => exact ⟨.stay, rfl, step_of_db_eq (keeps_listRunEvents _ _ _ h) i⟩
  | latestCheckpoint => exact ⟨.stay, rfl, step_of_db_eq (keeps_query _ h) i⟩
  | listCheckpoints => exact ⟨.stay, rfl, step_of_db_eq (keeps_query _ h) i⟩
  | getInterrupt => exact ⟨.stay, rfl, step_of_db_eq (keeps_getInterrupt _ h) i⟩
  | listInterrupts => exact ⟨.stay, rfl, step_of_db_eq (keeps_query _ h) i⟩
  | assertFencingToken =>
    exact ⟨.stay, rfl, step_of_db_eq (keeps_assertFencingToken _ _ _ h) i⟩

/-- **Refinement.** A call that returns acts on every run by a step of the machine that the
operation stands for. -/
theorem step_perform {call : Call} {db : Database} {r : call.op.Result}
    (h : (perform sha call db).1 = .ok r) (i : UUID) :
    ∃ a, call.op.Does r i a ∧ (db.view i).Step a ((perform sha call db).2.view i) := by
  rcases perform_cases sha call db with ⟨e, he, -⟩ | ⟨r', c', hr, hdb, hy⟩
  · cases h.symm.trans he
  · cases h.symm.trans hr
    obtain ⟨a, ha, hstep⟩ := step_body hy i
    exact ⟨a, ha, hdb ▸ hstep⟩

/-- A call acts on every run by a step of the machine, whether it returns or raises. -/
theorem exists_step_perform (sha : Sha256) (call : Call) (db : Database) (i : UUID) :
    ∃ a, (a = .stay ∨ ∃ r, call.op.Does r i a) ∧
      (db.view i).Step a ((perform sha call db).2.view i) := by
  rcases h : (perform sha call db).1 with e | r
  · exact ⟨.stay, Or.inl rfl, step_of_db_eq (perform_of_error h) i⟩
  · obtain ⟨a, ha, hstep⟩ := step_perform h i
    exact ⟨a, Or.inr ⟨r, ha⟩, hstep⟩

/-! ### Reading calls -/

section ReadingCalls

variable {db : Database} {clock : ℕ → ClockReading} {k : UUID}

/-- A run that is read is the one in the tables. -/
theorem exists_row_of_getRun {run : Run}
    (h : (perform sha ⟨.getRun k, clock⟩ db).1 = .ok run) :
    ∃ row haware, db.runs.find? k = some row ∧ row.toRun haware = run := by
  obtain ⟨c', hy, -⟩ := transaction_eq_ok_iff.mp (Prod.ext h rfl :
    transaction (getRun k) clock db = (.ok run, (perform sha ⟨.getRun k, clock⟩ db).2))
  obtain ⟨row, hrow, ⟨haware, hrun⟩, -⟩ := yields_readRun.mp hy
  exact ⟨row, haware, hrow, hrun⟩

/-- A reading of a run leaves the tables alone. -/
theorem perform_getRun_snd (sha : Sha256) (k : UUID) (clock : ℕ → ClockReading)
    (db : Database) : (perform sha ⟨.getRun k, clock⟩ db).2 = db := by
  rcases h : (perform sha ⟨.getRun k, clock⟩ db).1 with e | run
  · exact perform_of_error h
  · obtain ⟨c', hy, hdb⟩ := transaction_eq_ok_iff.mp (Prod.ext h rfl :
      transaction (getRun k) clock db = (.ok run, (perform sha ⟨.getRun k, clock⟩ db).2))
    rw [← hdb]
    exact keeps_readRun k hy

end ReadingCalls

/-! ### Histories -/

theorem after_concat (calls : List Call) (call : Call) :
    after sha (calls ++ [call]) = (perform sha call (after sha calls)).2 := by
  rw [after, List.foldl_append]
  rfl

/-- **Invariant rule.** A property of the tables that is kept by every body that returns holds
after every history. -/
theorem after_invariant {I : Database → Prop} (hempty : I .empty)
    (hbody : ∀ (op : Op) (r : op.Result) (c c' : Connection), (body sha op).Yields c r c' →
      I c.db → I c'.db) (calls : List Call) : I (after sha calls) := by
  induction calls using List.reverseRecOn with
  | nil => exact hempty
  | append_singleton calls call ih =>
    rw [after_concat]
    rcases perform_cases sha call (after sha calls) with ⟨e, -, hsame⟩ | ⟨r, c', -, hdb, hy⟩
    · rwa [hsame]
    · rw [hdb]
      exact hbody call.op r _ c' hy ih

/-- **Invariant rule for runs.** A property of the view of a run that holds of a run that is not
there and is kept by every step that the operations of a history stand for holds after
the history. -/
theorem after_induction {P : Op → Prop} {I : RunView → Prop} {i : UUID}
    (hempty : I ⟨none, none, [], []⟩)
    (hstep : ∀ op r a v v', P op → op.Does r i a → v.Step a v' → I v → I v')
    {calls : List Call} (hcalls : ∀ call ∈ calls, P call.op) : I ((after sha calls).view i) := by
  induction calls using List.reverseRecOn with
  | nil => exact hempty
  | append_singleton calls call ih =>
    rw [after_concat]
    have hprev := ih fun call hcall => hcalls call (List.mem_append_left _ hcall)
    obtain ⟨a, rfl | ⟨r, ha⟩, hs⟩ := exists_step_perform sha call (after sha calls) i
    · rw [hs.eq_of_stay]
      exact hprev
    · exact hstep call.op r a _ _ (hcalls call (by simp)) ha hs hprev

end SQLite

/-! ### A sample -/

namespace Sample

instance instNeZeroSeconds : NeZero 1000 := ⟨by decide⟩

/-- The reading of the clock `s` seconds after the start of 2026. -/
def reading (s : Fin 1000) : ClockReading :=
  ⟨63902822400000000 + s * 1000000, by
    have h : Calendar.maxDays * usPerDay = 315537897600000000 := rfl
    rw [h]
    omega⟩

/-- A clock that stands still at `s` seconds after the start of 2026. -/
def clock (s : Fin 1000) : ℕ → ClockReading := fun _ => reading s

/-- The values of SHA-256 at the request and at the id of the sample run. -/
def sha : Sha256 where
  hexdigest _ := "101164bf4eed0bead8c7dc08d15edf021b778c8a17cdf20b3e5f48c088d31a48"
  uuid _ := ⟨163171677777202617151077897462066788024⟩

/-- A run that counts, at its start. -/
def run : Run where
  id := ⟨1⟩
  planId := ⟨2⟩
  revisionId := ⟨3⟩
  sessionId := ⟨4⟩
  tenantId := "tenant"
  status := .queued
  state := [("n", .int 0)]
  nextNodes := ["first"]
  createdAt := .utc (reading 0)
  updatedAt := .utc (reading 0)
  version := 0
  idempotencyKey := none
  context := []
  priority := 0
  tenantId_not_blank := by decide
  priority_mem := by decide
  createdAt_aware := by decide
  updatedAt_aware := by decide

theorem first_pos : 1 ≤ 1 := Nat.le_refl 1

/-- The first checkpoint of the sample run. -/
def checkpoint : Checkpoint where
  id := ⟨9⟩
  runId := run.id
  sequence := 1
  planHash := "64879f7d6b960a01909762d911a32d4582c20010c5641ee90278b644a9e3b525"
  state := [("n", .int 1)]
  nextNodes := ["second"]
  pendingInterrupts := []
  effectWatermark := 0
  createdAt := .utc (reading 2)
  sequence_pos := first_pos
  planHash_length := by decide
  createdAt_aware := by decide

/-- The creation and the first claim of the sample run. -/
def claimed : List Call :=
  [⟨.createRun run, clock 0⟩, ⟨.claimNext "first" (.finite 30) none, clock 1⟩]

end Sample

end OpenRath
