import OpenRath.Library.Numbered
import OpenRath.Library.Table
import OpenRath.Library.Transaction
import OpenRath.Runtime.Models

/-!
# The tables of the run store

The five tables a run store works on, with the constraints of the schema
(`_SCHEMA` in `src/rath/runtime/sqlite.py`): the primary key of every table is the key of a
`Table`, the unique index of active runs is a field of the `Database`, and the other unique
constraints are conditions that insertions check. The lease table is keyed by its unique column
`run_id`, by which every statement addresses it.

A row of `run_events`, `checkpoints` and `interrupts` holds the columns of the record it was
written from and nothing else, so the records are the rows. A row of `runs` carries the checks of
the run it was written from except the one on `updated_at`, which a sweep with a naive clock
reading can overwrite with a naive datetime.

A transaction sees the tables and the readings of the clock it will make, in their order
(`Connection`). Integer columns are unbounded.

## Main definitions

* `RunRow`, `RunRow.ofRun`, `RunRow.toRun`, `LeaseRow`, `Database`.
* `OneActivePerSession`: the unique index of active runs of a session.
* `Connection`, with `Connection.tick` and the setters of its tables; `Sql`, `now`,
  `transaction`.
-/

namespace OpenRath

/-! ### Rows -/

/-- A row of `runs`. -/
@[ext]
structure RunRow where
  id : UUID
  planId : UUID
  revisionId : UUID
  sessionId : UUID
  tenantId : String
  status : RunStatus
  state : JsonObject
  nextNodes : List String
  idempotencyKey : Option String
  context : JsonObject
  priority : ℤ
  requestFingerprint : String
  createdAt : Datetime
  updatedAt : Datetime
  version : ℕ
  tenantId_not_blank : isBlank tenantId = false
  priority_mem : -100 ≤ priority ∧ priority ≤ 100
  createdAt_aware : createdAt.Aware

instance : DecidableEq RunRow := fun _ _ => decidable_of_iff' _ RunRow.ext_iff

/-- The row a run is inserted as. -/
def RunRow.ofRun (run : Run) (fingerprint : String) : RunRow where
  id := run.id
  planId := run.planId
  revisionId := run.revisionId
  sessionId := run.sessionId
  tenantId := run.tenantId
  status := run.status
  state := run.state
  nextNodes := run.nextNodes
  idempotencyKey := run.idempotencyKey
  context := run.context
  priority := run.priority
  requestFingerprint := fingerprint
  createdAt := run.createdAt
  updatedAt := run.updatedAt
  version := run.version
  tenantId_not_blank := run.tenantId_not_blank
  priority_mem := run.priority_mem
  createdAt_aware := run.createdAt_aware

/-- The run of a row whose `updated_at` is aware. -/
def RunRow.toRun (row : RunRow) (h : row.updatedAt.Aware) : Run where
  id := row.id
  planId := row.planId
  revisionId := row.revisionId
  sessionId := row.sessionId
  tenantId := row.tenantId
  status := row.status
  state := row.state
  nextNodes := row.nextNodes
  createdAt := row.createdAt
  updatedAt := row.updatedAt
  version := row.version
  idempotencyKey := row.idempotencyKey
  context := row.context
  priority := row.priority
  tenantId_not_blank := row.tenantId_not_blank
  priority_mem := row.priority_mem
  createdAt_aware := row.createdAt_aware
  updatedAt_aware := h

section ToRun

variable (row : RunRow) (h : row.updatedAt.Aware)

@[simp] theorem RunRow.toRun_id : (row.toRun h).id = row.id := rfl

@[simp] theorem RunRow.toRun_status : (row.toRun h).status = row.status := rfl

end ToRun

/-- A row of `run_leases`. -/
structure LeaseRow where
  id : UUID
  runId : UUID
  holderWorkerId : String
  expiresAt : Datetime
  fencingToken : ℕ
  active : Bool
  createdAt : Datetime
  updatedAt : Datetime
deriving DecidableEq

/-- The key of an event in `run_events`. -/
def RunEvent.key (e : RunEvent) : UUID × ℕ := (e.runId, e.sequence)

/-! ### Tables -/

/-- The unique index of `runs` on the session of active runs. -/
def OneActivePerSession (rows : List RunRow) : Prop :=
  ((rows.filter fun r => r.status.Active).map RunRow.sessionId).Nodup

instance (rows : List RunRow) : Decidable (OneActivePerSession rows) :=
  inferInstanceAs (Decidable (List.Nodup _))

theorem oneActivePerSession_iff {rows : List RunRow} : OneActivePerSession rows ↔
    rows.Pairwise fun a b => a.status.Active → b.status.Active → a.sessionId ≠ b.sessionId := by
  simp [OneActivePerSession, List.Nodup, List.pairwise_map, List.pairwise_filter]

/-- An update that changes no session and makes no run active keeps the index. -/
theorem OneActivePerSession.update {t : Table RunRow.id} (h : OneActivePerSession t.rows)
    {p : RunRow → Prop} [DecidablePred p] {f : RunRow → RunRow} {hf : ∀ r, (f r).id = r.id}
    (hsession : ∀ r, (f r).sessionId = r.sessionId)
    (hactive : ∀ r ∈ t.rows, p r → r.status.Active) :
    OneActivePerSession (t.update p f hf).rows := by
  have hkeep : ∀ r ∈ t.rows, (if p r then f r else r).status.Active → r.status.Active := by
    intro r hr hact
    by_cases hp : p r
    · exact hactive r hr hp
    · rwa [if_neg hp] at hact
  have hsame : ∀ r, (if p r then f r else r).sessionId = r.sessionId := by
    intro r
    by_cases hp : p r <;> simp [hp, hsession]
  rw [oneActivePerSession_iff] at h ⊢
  rw [Table.update_rows, List.pairwise_map]
  refine h.imp_of_mem fun {a b} ha hb hab hactA hactB => ?_
  rw [hsame, hsame]
  exact hab (hkeep a ha hactA) (hkeep b hb hactB)

/-- The tables of a run store. -/
structure Database where
  runs : Table RunRow.id
  runEvents : Table RunEvent.key
  checkpoints : Table Checkpoint.id
  interrupts : Table Interrupt.id
  runLeases : Table LeaseRow.runId
  one_active : OneActivePerSession runs.rows
deriving DecidableEq

/-- The tables of a new store. -/
def Database.empty : Database := ⟨.empty, .empty, .empty, .empty, .empty, List.nodup_nil⟩

namespace Database

variable (db : Database)

/-- The events of a run, in order of insertion. -/
def eventsOf (i : UUID) : List RunEvent := db.runEvents.rows.filter fun e => e.runId = i

/-- The checkpoints of a run, in order of insertion. -/
def checkpointsOf (i : UUID) : List Checkpoint :=
  db.checkpoints.rows.filter fun c => c.runId = i

/-- `COALESCE(MAX(sequence), 0)` over the events of a run. -/
def maxEvent (i : UUID) : ℕ := maxNumber RunEvent.sequence (db.eventsOf i)

/-- `COALESCE(MAX(sequence), 0)` over the checkpoints of a run. -/
def maxCheckpoint (i : UUID) : ℕ := maxNumber Checkpoint.sequence (db.checkpointsOf i)

end Database

/-! ### Transactions -/

/-- A reading of the clock, in UTC. -/
abbrev ClockReading : Type := Fin (Calendar.maxDays * usPerDay)

/-- What a transaction works on: the tables and the readings of the clock still to come. -/
structure Connection where
  db : Database
  clock : ℕ → ClockReading

namespace Connection

/-- The connection after a reading of the clock. -/
def tick (c : Connection) : Connection := { c with clock := fun n => c.clock (n + 1) }

/-- The connection with another table `runs`. -/
def setRuns (c : Connection) (t : Table RunRow.id) (h : OneActivePerSession t.rows) :
    Connection :=
  { c with db := { c.db with runs := t, one_active := h } }

/-- The connection with another table `run_events`. -/
def setEvents (c : Connection) (t : Table RunEvent.key) : Connection :=
  { c with db := { c.db with runEvents := t } }

/-- The connection with another table `checkpoints`. -/
def setCheckpoints (c : Connection) (t : Table Checkpoint.id) : Connection :=
  { c with db := { c.db with checkpoints := t } }

/-- The connection with another table `interrupts`. -/
def setInterrupts (c : Connection) (t : Table Interrupt.id) : Connection :=
  { c with db := { c.db with interrupts := t } }

/-- The connection with another table `run_leases`. -/
def setLeases (c : Connection) (t : Table LeaseRow.runId) : Connection :=
  { c with db := { c.db with runLeases := t } }

end Connection

/-- The body of an operation of the store. -/
abbrev Sql (α : Type) : Type := Tx Connection StoreError α

/-- `_now`: the next reading of the clock. -/
def now : Sql Datetime := fun c => (.ok (.utc (c.clock 0)), c.tick)

/-- `now or _now()`: the datetime the caller gave, or else the clock. -/
def nowOr : Option Datetime → Sql Datetime
  | some d => pure d
  | none => now

@[simp] theorem yields_now {c c' : Connection} {d : Datetime} :
    now.Yields c d c' ↔ .utc (c.clock 0) = d ∧ c.tick = c' := by
  simp [now, Tx.Yields]

@[simp] theorem not_raises_now {c : Connection} {e : StoreError} : ¬ now.Raises c e := by
  simp [now, Tx.Raises]

/-- `_transaction`: a body run between `BEGIN IMMEDIATE` and the commit, and rolled back when it
raises; its result and the tables it leaves. -/
def transaction {α : Type} (body : Sql α) (clock : ℕ → ClockReading) (db : Database) :
    Except StoreError α × Database :=
  let out := body.atomically ⟨db, clock⟩
  (out.1, out.2.db)

/-- A transaction that raises leaves every table as it was. -/
theorem transaction_snd_of_error {α : Type} {body : Sql α} {clock : ℕ → ClockReading}
    {db : Database} {e : StoreError} (h : (transaction body clock db).1 = .error e) :
    (transaction body clock db).2 = db := by
  have hraise : body.Raises ⟨db, clock⟩ e := Tx.raises_atomically.mp h
  exact congrArg Connection.db (Tx.atomically_snd_of_raises hraise)

/-- A transaction that returns leaves the tables its body left. -/
theorem transaction_eq_ok_iff {α : Type} {body : Sql α} {clock : ℕ → ClockReading}
    {db db' : Database} {a : α} : transaction body clock db = (.ok a, db') ↔
      ∃ c', body.Yields ⟨db, clock⟩ a c' ∧ c'.db = db' := by
  constructor
  · intro h
    obtain ⟨h₁, h₂⟩ := Prod.mk.inj h
    exact ⟨(body.atomically ⟨db, clock⟩).2, Tx.yields_atomically.mp (Prod.ext h₁ rfl), h₂⟩
  · rintro ⟨c', hc', rfl⟩
    have hy : body.atomically ⟨db, clock⟩ = (.ok a, c') := Tx.yields_atomically.mpr hc'
    rw [transaction, hy]

theorem transaction_fst_eq_error_iff {α : Type} {body : Sql α} {clock : ℕ → ClockReading}
    {db : Database} {e : StoreError} :
    (transaction body clock db).1 = .error e ↔ body.Raises ⟨db, clock⟩ e := by
  change body.atomically.Raises ⟨db, clock⟩ e ↔ _
  exact Tx.raises_atomically

end OpenRath
