import OpenRath.Library.Locks
import OpenRath.Runtime.Postgres.Equivalence
import OpenRath.Runtime.Sqlite.Lifecycle

/-!
# The row locks of the Postgres run store

The operations of `PostgresRunStore` (`src/rath/runtime/postgres.py`) lock the rows of runs, leases
and interrupts that they read for writing, and keep the locks until their transactions end. The
sweeps and `claim_next` skip the rows that are locked. `commit_checkpoint` and `finish_claim` lock
the lease of a run before the run. `create_interrupt` and `claim_next` lock the run before its
lease. So two calls on a run can wait for each other.

A statement looks for its row when it begins, waits for it, and reads it when it has got it. What a
call does after its checks is done when it commits, as nobody else can write its rows meanwhile.

## Main definitions

* `Postgres.lockProgram`: the locks of a call.
* `Postgres.LeaseFirst`, `Postgres.RunFirst`: calls that have locked one of the two rows of a run
  and are to lock the other one.
* `Postgres.Separate`: no call comes to be of one of these kinds while there is one of the other
  kind.

## Main results

* `Postgres.follows_lockProgram`: the orders in which the calls lock rows.
* `Postgres.not_deadlocked_iff`: the runs without a deadlock.
* `Postgres.deadlocked_of_claimed`: a checkpoint and a question that wait for each other.
-/

namespace OpenRath

namespace Postgres

open Tx LockProgram

/-- A row that is locked. -/
inductive LockedRow
  | run (id : UUID)
  | lease (runId : UUID)
  | interrupt (id : UUID)
deriving DecidableEq

/-- The order in which rows are locked: the rows of a run and its lease come in both orders. -/
inductive LockedRow.After : LockedRow → LockedRow → Prop
  | run_lease (runId : UUID) : After (.lease runId) (.run runId)
  | lease_run (runId : UUID) : After (.run runId) (.lease runId)
  | run_interrupt (id runId : UUID) : After (.interrupt id) (.run runId)

/-! ### The locks of the operations -/

section Programs

variable (clock : ℕ → ClockReading)

/-- The statements do not raise. -/
def passes {α : Type} (body : Sql α) (db : Database) : Bool :=
  match (transaction body clock db).1 with
  | .ok _ => true
  | .error _ => false

/-- A row is locked that is found by its key. -/
def lockRow {α : Type} (found : Database → Option α) (row : LockedRow)
    (next : Database → LockProgram Database LockedRow) (db : Database) :
    LockProgram Database LockedRow :=
  lockFound ((found db).map fun _ => row) next db

/-- The row of a run is locked. -/
def lockRun (runId : UUID) (next : Database → LockProgram Database LockedRow) :
    Database → LockProgram Database LockedRow :=
  lockRow (fun db => db.runs.find? runId) (.run runId) next

/-- The row of a lease is locked. -/
def lockLease (runId : UUID) (next : Database → LockProgram Database LockedRow) :
    Database → LockProgram Database LockedRow :=
  lockRow (fun db => db.runLeases.find? runId) (.lease runId) next

/-- The row of an interrupt is locked. -/
def lockInterrupt (id : UUID) (next : Database → LockProgram Database LockedRow) :
    Database → LockProgram Database LockedRow :=
  lockRow (fun db => db.interrupts.find? id) (.interrupt id) next

/-- The row of the run of an interrupt is locked. -/
def lockInterrupted (id : UUID) (next : Database → LockProgram Database LockedRow)
    (db : Database) : LockProgram Database LockedRow :=
  match db.interrupts.find? id with
  | some row => lockRun row.runId next db
  | none => .commit fun db => db

/-- The rest of a transaction, unless its checks raise. -/
def afterChecks (checks : Sql Unit) (next : Database → LockProgram Database LockedRow)
    (db : Database) : LockProgram Database LockedRow :=
  if passes clock checks db then next db else .commit fun db => db

/-- The checks of `transition_run` before it writes. -/
def transitionChecks (runId : UUID) (expectedVersion : ℤ) (target : RunStatus) : Sql Unit := do
  let current ← readRun runId
  raiseUnless ((current.version : ℤ) = expectedVersion) (.conflict "run version conflict" [])
  ofExcept (assertTransition current.status target)

/-- The checks of `commit_checkpoint` and `finish_claim` before they lock the run. -/
def leaseChecks (runId : UUID) (workerId : String) (fencingToken : ℤ) : Sql Unit := do
  let _ ← requiredLease runId workerId fencingToken

/-- What `create_interrupt` does before it releases the lease. -/
def interruptChecks (interrupt : Interrupt) (expectedRunVersion : ℤ) : Sql Unit := do
  let current ← readRun interrupt.runId
  raiseUnless ((current.version : ℤ) = expectedRunVersion) (.conflict "run version conflict" [])
  ofExcept (assertTransition current.status .waiting)
  SQLite.requireReference interrupt.runId
  match ← query fun c => c.db.interrupts.insert? (interruptRow interrupt) with
  | none => raise .integrityError
  | some interrupts =>
    execute fun c => c.setInterrupts interrupts
    let _ ← updateStatus current .waiting expectedRunVersion

/-- The checks of `decide_interrupt` before it locks the run. -/
def decisionChecks (interruptId : UUID) : Sql Unit := do
  match ← query fun c => c.db.interrupts.find? interruptId with
  | none => raise (.keyError interruptId.str)
  | some row => raiseUnless (row.decision = none) (.conflict "interrupt was already decided" [])

/-- The checks of `claim_next` before its transaction. -/
def claimChecks (workerId : String) (leaseSeconds : Seconds) (givenNow : Option Datetime) :
    Sql Unit := do
  raiseUnless (isBlank workerId = false) (.valueError "worker_id must not be empty")
  raiseUnless (leaseSeconds.nonpos = false)
    (.valueError "lease_seconds must be greater than zero")
  let claimedAt ← nowOr givenNow
  raiseUnless claimedAt.Aware (.valueError "now must be timezone-aware")

/-- The checks of `renew_lease` before its transaction. -/
def renewalChecks (leaseSeconds : Seconds) (givenNow : Option Datetime) : Sql Unit := do
  raiseUnless (leaseSeconds.nonpos = false)
    (.valueError "lease_seconds must be greater than zero")
  let renewedAt ← nowOr givenNow
  let _ ← ofExcept (SQLite.addSeconds renewedAt leaseSeconds)

end Programs

/-! ### Operations that skip locked rows -/

/-- `claim_next`, of a run that has been selected. -/
def claimSelected (select : Database → Option RunRow) (sha : Sha256) (workerId : String)
    (leaseSeconds : Seconds) (givenNow : Option Datetime) : Sql (Option ClaimedRun) := do
  raiseUnless (isBlank workerId = false) (.valueError "worker_id must not be empty")
  raiseUnless (leaseSeconds.nonpos = false)
    (.valueError "lease_seconds must be greater than zero")
  let claimedAt ← nowOr givenNow
  raiseUnless claimedAt.Aware (.valueError "now must be timezone-aware")
  match ← query fun c => select c.db with
  | none => pure none
  | some row =>
    let current ← ofExcept (runFromRow row)
    let previous ← query fun c => c.db.runLeases.find? current.id
    let leaseId := match previous with
      | some l => l.id
      | none => sha.uuid current.id.str
    let token := match previous with
      | some l => l.fencingToken + 1
      | none => 1
    let createdAt := match previous with
      | some l => l.createdAt
      | none => claimedAt
    let expiresAt ← ofExcept (SQLite.addSeconds claimedAt leaseSeconds)
    let updated ← updateRunsReturning
      (fun r => r.id = current.id ∧ r.version = current.version ∧ r.status = .queued)
      (fun r => { r with
        status := .running
        updatedAt := claimedAt.toUtc
        version := r.version + 1 })
      (id_of_claim claimedAt)
    let row ← requireUpdated updated "run claim conflict"
    SQLite.upsertLease ⟨leaseId, current.id, workerId, expiresAt.toUtc, token, true,
      createdAt.toUtc, claimedAt.toUtc⟩
    let _ ← appendEvent current.id "run.claimed"
      [("fencing_token", .int token), ("worker_id", .str workerId)]
    let run ← ofExcept (runFromRow row)
    let lease ← ofExcept
      (ResourceLease.ofRun leaseId current.id workerId expiresAt token createdAt claimedAt)
    pure (some ⟨run, lease⟩)

/-- `expire_interrupts`, of the rows that have been selected. -/
def expireSelected (select : Database → Datetime → List SQLite.ExpiredRow)
    (givenNow : Option Datetime) : Sql (List UUID) := do
  let expiredAt ← nowOr givenNow
  if h : expiredAt.Aware then
    let rows ← query fun c => select c.db expiredAt
    forEach (expireInterrupt expiredAt h) rows
    pure (rows.map fun row => row.interrupt.id)
  else raise (.valueError "now must be timezone-aware")

/-- `requeue_expired_leases`, of the rows that have been selected. -/
def requeueSelected (select : Database → Datetime → List SQLite.ExpiredLease)
    (givenNow : Option Datetime) : Sql (List UUID) := do
  let recoveredAt ← nowOr givenNow
  let rows ← query fun c => select c.db recoveredAt
  forEach (requeueLease recoveredAt) rows
  pure ((rows.filter fun row => row.status = .running).map fun row => row.lease.runId)

/-- Two rows, the second one of which is looked at if the first one is not locked. -/
def lockPair (locked : LockedRow → Bool) (first second : LockedRow) : List LockedRow :=
  if locked first then [] else if locked second then [first] else [first, second]

/-- The first queued run that is not locked. -/
def selectQueued (db : Database) (locked : LockedRow → Bool) : List LockedRow :=
  (((db.runs.rows.filter fun r => r.status = .queued).insertionSort claimedBefore).find?
    fun r => !locked (.run r.id)).toList.map fun r => .run r.id

/-- The expired interrupts and their runs that are not locked. -/
def selectExpired (expiredAt : Datetime) (db : Database) (locked : LockedRow → Bool) :
    List LockedRow :=
  (expiredRows db expiredAt).flatMap fun row =>
    lockPair locked (.interrupt row.interrupt.id) (.run row.interrupt.runId)

/-- The expired leases and their runs that are not locked. -/
def selectExpiredLeases (recoveredAt : Datetime) (db : Database) (locked : LockedRow → Bool) :
    List LockedRow :=
  (expiredLeases db recoveredAt).flatMap fun row =>
    lockPair locked (.lease row.lease.runId) (.run row.lease.runId)

/-! ### Calls -/

/-- What `claim_next` does with the run that it has locked. -/
def lockClaimed (sha : Sha256) (clock : ℕ → ClockReading) (workerId : String)
    (leaseSeconds : Seconds) (givenNow : Option Datetime) (db : Database) (rows : List LockedRow) :
    LockProgram Database LockedRow :=
  match rows with
  | [.run runId] =>
    lockLease runId (fun _ => .commit fun db => (transaction
      (claimSelected (fun db => db.runs.find? runId) sha workerId leaseSeconds givenNow)
        clock db).2) db
  | _ => .commit fun db => db

/-- The locks of a call. -/
def lockProgram (sha : Sha256) (call : Call) (db : Database) : LockProgram Database LockedRow :=
  let commit : Database → LockProgram Database LockedRow :=
    fun _ => .commit fun db => (perform sha call db).2
  match call.op with
  | .createRun run =>
    lockFound ((run.idempotencyKey.bind fun key => db.runs.rows.find? fun r =>
      r.tenantId = run.tenantId ∧ r.idempotencyKey = some key).map fun r => .run r.id) commit db
  | .transitionRun runId expectedVersion target _ _ =>
    -- The run is read without a lock, and locked when it is written.
    afterChecks call.clock (transitionChecks runId expectedVersion target) (lockRun runId commit) db
  | .appendRunEvent runId _ _ => lockRun runId commit db
  | .appendCheckpoint checkpoint => lockRun checkpoint.runId commit db
  | .commitCheckpoint checkpoint workerId fencingToken _ =>
    lockLease checkpoint.runId
      (afterChecks call.clock (leaseChecks checkpoint.runId workerId fencingToken)
        (lockRun checkpoint.runId commit)) db
  | .finishClaim runId workerId fencingToken _ _ _ _ =>
    lockLease runId
      (afterChecks call.clock (leaseChecks runId workerId fencingToken) (lockRun runId commit)) db
  | .createInterrupt interrupt expectedRunVersion =>
    lockRun interrupt.runId
      (afterChecks call.clock (interruptChecks interrupt expectedRunVersion)
        (lockLease interrupt.runId commit)) db
  | .decideInterrupt interruptId _ _ =>
    lockInterrupt interruptId
      (afterChecks call.clock (decisionChecks interruptId) (lockInterrupted interruptId commit)) db
  | .claimNext workerId leaseSeconds givenNow =>
    afterChecks call.clock (claimChecks workerId leaseSeconds givenNow)
      (fun _ => .skipLocked selectQueued
        (lockClaimed sha call.clock workerId leaseSeconds givenNow)) db
  | .renewLease runId _ _ leaseSeconds givenNow =>
    afterChecks call.clock (renewalChecks leaseSeconds givenNow) (lockLease runId commit) db
  | .assertFencingToken runId _ _ => lockLease runId commit db
  | .expireInterrupts givenNow =>
    let expiredAt := givenNow.getD (.utc (call.clock 0))
    if expiredAt.Aware then
      .skipLocked (selectExpired expiredAt) fun _ rows => .commit fun db => (transaction
        (expireSelected (fun db expiredAt => (expiredRows db expiredAt).filter fun row =>
          .interrupt row.interrupt.id ∈ rows ∧ .run row.interrupt.runId ∈ rows) givenNow)
            call.clock db).2
    else .commit fun db => db
  | .requeueExpiredLeases givenNow =>
    .skipLocked (selectExpiredLeases (givenNow.getD (.utc (call.clock 0)))) fun _ rows =>
      .commit fun db => (transaction
        (requeueSelected (fun db recoveredAt => (expiredLeases db recoveredAt).filter fun row =>
          .lease row.lease.runId ∈ rows ∧ .run row.lease.runId ∈ rows) givenNow) call.clock db).2
  | _ => commit db

/-! ### The order of the locks -/

section Follows

open LockProgram

variable {held : List LockedRow} {next : Database → LockProgram Database LockedRow}

/-- No three rows are locked one after the other. -/
theorem LockedRow.After.not_after (a b c : LockedRow) (hab : After a b) (hbc : After b c) :
    ¬ After a c := by
  intro hac
  cases hab <;> cases hbc <;> cases hac

theorem follows_lockRow {α : Type} {found : Database → Option α} {row : LockedRow}
    (hheld : ∀ r ∈ held, LockedRow.After r row)
    (hlocked : ∀ db, (next db).Follows LockedRow.After (row :: held))
    (hmissing : ∀ db, (next db).Follows LockedRow.After held) (db : Database) :
    (lockRow found row next db).Follows LockedRow.After held := by
  refine follows_lockFound (fun r hr => ?_) fun _ => hmissing db
  obtain ⟨-, -, rfl⟩ := Option.map_eq_some_iff.mp hr
  exact ⟨hheld, hlocked⟩

/-- A row is locked, and then the transaction commits. -/
theorem follows_lockRow_commit {α : Type} {found : Database → Option α} {row : LockedRow}
    {effect : Database → Database} (hheld : ∀ r ∈ held, LockedRow.After r row) (db : Database) :
    (lockRow found row (fun _ => .commit effect) db).Follows LockedRow.After held :=
  follows_lockRow hheld (fun _ => by simp only [LockProgram.Follows])
    (fun _ => by simp only [LockProgram.Follows]) db

theorem follows_lockInterrupted {id : UUID} {effect : Database → Database}
    (hheld : ∀ runId, ∀ r ∈ held, LockedRow.After r (.run runId)) (db : Database) :
    (lockInterrupted id (fun _ => .commit effect) db).Follows LockedRow.After held := by
  unfold lockInterrupted
  split
  · exact follows_lockRow_commit (hheld _) db
  · trivial

theorem follows_afterChecks {clock : ℕ → ClockReading} {checks : Sql Unit}
    (hnext : ∀ db, (next db).Follows LockedRow.After held) (db : Database) :
    (afterChecks clock checks next db).Follows LockedRow.After held := by
  unfold afterChecks
  split
  · exact hnext db
  · trivial

/-- `claim_next` locks the lease of the run that it has selected. -/
theorem follows_lockClaimed (sha : Sha256) (clock : ℕ → ClockReading) (workerId : String)
    (leaseSeconds : Seconds) (givenNow : Option Datetime) (db : Database) (rows : List LockedRow) :
    (lockClaimed sha clock workerId leaseSeconds givenNow db rows).Follows
      LockedRow.After rows := by
  unfold lockClaimed
  split
  · rename_i runId
    refine follows_lockRow_commit (fun r hr => ?_) db
    rw [List.mem_singleton.mp hr]
    exact .lease_run runId
  · trivial

/-- A lease is locked before its run, or the other way around. -/
theorem follows_lockProgram (sha : Sha256) (call : Call) (db : Database) :
    (lockProgram sha call db).Follows LockedRow.After [] := by
  have hfirst : ∀ row : LockedRow, ∀ r ∈ ([] : List LockedRow), LockedRow.After r row := by
    intro row r hr
    cases hr
  have hsecond : ∀ {row' row : LockedRow}, LockedRow.After row' row →
      ∀ r ∈ [row'], LockedRow.After r row := by
    intro row' row hAfter r hr
    rwa [List.mem_singleton.mp hr]
  obtain ⟨op, clock⟩ := call
  unfold lockProgram
  cases op with
  | createRun run =>
    exact follows_lockFound (fun r _ => ⟨hfirst r, fun _ => trivial⟩) fun _ => trivial
  | transitionRun runId expectedVersion target =>
    exact follows_afterChecks (follows_lockRow_commit (hfirst _)) db
  | appendRunEvent runId => exact follows_lockRow_commit (hfirst _) db
  | appendCheckpoint checkpoint => exact follows_lockRow_commit (hfirst _) db
  | commitCheckpoint checkpoint workerId fencingToken =>
    exact follows_lockRow (hfirst _)
      (follows_afterChecks (follows_lockRow_commit (hsecond (.run_lease _))))
      (follows_afterChecks (follows_lockRow_commit (hfirst _))) db
  | finishClaim runId workerId fencingToken =>
    exact follows_lockRow (hfirst _)
      (follows_afterChecks (follows_lockRow_commit (hsecond (.run_lease _))))
      (follows_afterChecks (follows_lockRow_commit (hfirst _))) db
  | createInterrupt interrupt expectedRunVersion =>
    exact follows_lockRow (hfirst _)
      (follows_afterChecks (follows_lockRow_commit (hsecond (.lease_run _))))
      (follows_afterChecks (follows_lockRow_commit (hfirst _))) db
  | decideInterrupt interruptId =>
    exact follows_lockRow (hfirst _)
      (follows_afterChecks (follows_lockInterrupted fun _ => hsecond (.run_interrupt _ _)))
      (follows_afterChecks (follows_lockInterrupted fun _ => hfirst _)) db
  | claimNext workerId leaseSeconds givenNow =>
    have hclaim : (LockProgram.skipLocked selectQueued
        (lockClaimed sha clock workerId leaseSeconds givenNow)).Follows LockedRow.After [] :=
      ⟨rfl, fun db _ => follows_lockClaimed sha clock workerId leaseSeconds givenNow db _⟩
    exact follows_afterChecks (fun _ => hclaim) db
  | renewLease runId workerId fencingToken leaseSeconds givenNow =>
    exact follows_afterChecks (follows_lockRow_commit (hfirst _)) db
  | assertFencingToken runId => exact follows_lockRow_commit (hfirst _) db
  | expireInterrupts givenNow =>
    simp only []
    split
    · exact ⟨rfl, fun _ _ => trivial⟩
    · trivial
  | requeueExpiredLeases givenNow => exact ⟨rfl, fun _ _ => trivial⟩
  | _ => trivial

end Follows

/-! ### Deadlocks -/

/-- The lease of a run has been locked, and the run is to be locked. -/
def LeaseFirst (t : LockTransaction Database LockedRow) (runId : UUID) : Prop :=
  .lease runId ∈ t.held ∧ t.program.wants = some (.run runId)

/-- A run has been locked, and its lease is to be locked. -/
def RunFirst (t : LockTransaction Database LockedRow) (runId : UUID) : Prop :=
  .run runId ∈ t.held ∧ t.program.wants = some (.lease runId)

/-- The transactions are separate: the lease of a run is not locked before the run while a
transaction that has locked the run waits for the lease, nor the run before the lease while a
transaction that has locked the lease waits for the run. -/
def Separate (s : LockSystem Database LockedRow) (e : LockEvent Call)
    (_ : LockSystem Database LockedRow) : Prop :=
  ∀ i t, e = .advance i → s.transactions[i]? = some t →
    ∀ u ∈ s.transactions.eraseIdx i, ∀ runId,
      (.lease runId ∈ s.takes i t → (s.rest i t).wants = some (.run runId) → ¬ RunFirst u runId) ∧
      (.run runId ∈ s.takes i t → (s.rest i t).wants = some (.lease runId) → ¬ LeaseFirst u runId)

/-- No two transactions are to lock the rows of a run in both orders. -/
def Uncrossed (s : LockSystem Database LockedRow) : Prop :=
  ∀ t ∈ s.transactions, ∀ u ∈ s.transactions, ∀ runId, LeaseFirst t runId → ¬ RunFirst u runId

section Deadlocks

variable {s s' : LockSystem Database LockedRow}

/-- The ranks of the rows: a run for which a transaction waits that has its lease is ranked after
the leases, and the other runs are ranked before them. -/
noncomputable def rank (s : LockSystem Database LockedRow) : LockedRow → ℕ
  | .interrupt _ => 0
  | .lease _ => 2
  | .run runId => open scoped Classical in
    if ∃ t ∈ s.transactions, LeaseFirst t runId then 3 else 1

theorem rank_lt (hs : s.Follows LockedRow.After) (huncrossed : Uncrossed s) :
    ∀ t ∈ s.transactions, ∀ r ∈ t.held, ∀ row, t.program.wants = some row →
      rank s r < rank s row := by
  intro t ht r hr row hrow
  have hafter := (hs t ht).of_wants hrow r hr
  cases hafter with
  | run_lease runId =>
    have hfirst : ∃ t ∈ s.transactions, LeaseFirst t runId := ⟨t, ht, hr, hrow⟩
    simp only [rank, if_pos hfirst]
    omega
  | lease_run runId =>
    have hfirst : ¬ ∃ t ∈ s.transactions, LeaseFirst t runId := by
      rintro ⟨u, hu, hlease⟩
      exact huncrossed u hu t ht runId hlease ⟨hr, hrow⟩
    simp only [rank, if_neg hfirst]
    omega
  | run_interrupt id runId =>
    simp only [rank]
    split <;> omega

/-- There is no deadlock unless the rows of a run are locked in both orders. -/
theorem deadlocked_iff (hs : s.Follows LockedRow.After) : s.Deadlocked ↔ ¬ Uncrossed s := by
  constructor
  · intro hdead huncrossed
    exact LockSystem.not_deadlocked_of_rank (rank s) (rank_lt hs huncrossed) hdead
  · intro hcrossed
    obtain ⟨t, ht, u, hu, runId, hlease, hrun⟩ :
        ∃ t ∈ s.transactions, ∃ u ∈ s.transactions, ∃ runId, LeaseFirst t runId ∧
          RunFirst u runId := by
      simpa only [Uncrossed, not_forall, not_not, exists_prop] using hcrossed
    refine LockSystem.deadlocked_of_crossed
      ⟨t, ht, u, hu, .lease runId, .run runId, ?_, hlease.1, hlease.2, hrun.1, hrun.2⟩
    simp only [ne_eq, reduceCtorEq, not_false_eq_true]

/-- A transaction has locked nothing when it begins or has ended. -/
theorem uncrossed_of_mem {transactions : List (LockTransaction Database LockedRow)}
    (huncrossed : Uncrossed s)
    (h : ∀ t ∈ transactions, t ∈ s.transactions ∨ t.held = []) (db : Database) :
    Uncrossed ⟨db, transactions⟩ := by
  intro t ht u hu runId hlease hrun
  rcases h t ht with ht | hnone
  · rcases h u hu with hu | hnone
    · exact huncrossed t ht u hu runId hlease hrun
    · rw [RunFirst, hnone] at hrun
      exact List.not_mem_nil hrun.1
  · rw [LeaseFirst, hnone] at hlease
    exact List.not_mem_nil hlease.1

/-- After a step there are no calls that are to lock rows in both orders if the call that has made
the step was separate. -/
theorem uncrossed_advance {i : ℕ} {t t' : LockTransaction Database LockedRow} {db : Database}
    (hs : s.Follows LockedRow.After) (huncrossed : Uncrossed s) (ht : s.transactions[i]? = some t)
    (hadvance : s.advance i t = some (t', db))
    (hseparate : ∀ u ∈ s.transactions.eraseIdx i, ∀ runId,
      (.lease runId ∈ s.takes i t → (s.rest i t).wants = some (.run runId) → ¬ RunFirst u runId) ∧
      (.run runId ∈ s.takes i t → (s.rest i t).wants = some (.lease runId) →
        ¬ LeaseFirst u runId)) :
    Uncrossed ⟨db, s.transactions.set i t'⟩ := by
  have hprogram := LockSystem.advance_program hadvance
  -- What a call that waits after its step holds, it has locked with the step.
  have hheld : ∀ row, t'.program.wants = some row → t'.held = s.takes i t := by
    intro row hrow
    have hnone := LockSystem.held_eq_nil_of_wants LockedRow.After.not_after
      (hs t (List.mem_of_getElem? ht)) (hprogram ▸ hrow)
    rw [LockSystem.advance_held hadvance hrow, hnone, List.append_nil]
  have hothers : ∀ u ∈ s.transactions.eraseIdx i, u ∈ s.transactions := fun u hu =>
    (List.eraseIdx_sublist s.transactions i).subset hu
  intro x hx y hy runId hlease hrun
  rcases (LockSystem.mem_set_iff ht).mp hx with rfl | hx'
  · rcases (LockSystem.mem_set_iff ht).mp hy with rfl | hy'
    · cases hlease.2.symm.trans hrun.2
    · refine (hseparate y hy' runId).1 ?_ (hprogram ▸ hlease.2) hrun
      exact hheld _ hlease.2 ▸ hlease.1
  · rcases (LockSystem.mem_set_iff ht).mp hy with rfl | hy'
    · refine (hseparate x hx' runId).2 ?_ (hprogram ▸ hrun.2) hlease
      exact hheld _ hrun.2 ▸ hrun.1
    · exact huncrossed x (hothers x hx') y (hothers y hy') runId hlease hrun

/-- A call that was not separate has crossed another one. -/
theorem separate_of_uncrossed {i : ℕ} {t t' : LockTransaction Database LockedRow} {db : Database}
    (ht : s.transactions[i]? = some t) (hadvance : s.advance i t = some (t', db))
    (huncrossed : Uncrossed ⟨db, s.transactions.set i t'⟩) :
    ∀ u ∈ s.transactions.eraseIdx i, ∀ runId,
      (.lease runId ∈ s.takes i t → (s.rest i t).wants = some (.run runId) → ¬ RunFirst u runId) ∧
      (.run runId ∈ s.takes i t → (s.rest i t).wants = some (.lease runId) →
        ¬ LeaseFirst u runId) := by
  intro u hu runId
  have hprogram := LockSystem.advance_program hadvance
  have hmem : t' ∈ s.transactions.set i t' := (LockSystem.mem_set_iff ht).mpr (.inl rfl)
  have hu' : u ∈ s.transactions.set i t' := (LockSystem.mem_set_iff ht).mpr (.inr hu)
  constructor
  · intro htakes hwants
    rw [← hprogram] at hwants
    refine huncrossed t' hmem u hu' runId ⟨?_, hwants⟩
    rw [LockSystem.advance_held hadvance hwants]
    exact List.mem_append_left t.held htakes
  · intro htakes hwants hlease
    rw [← hprogram] at hwants
    refine huncrossed u hu' t' hmem runId hlease ⟨?_, hwants⟩
    rw [LockSystem.advance_held hadvance hwants]
    exact List.mem_append_left t.held htakes

/-- **Steps.** While the calls lock rows in one of the orders, they go on to do so exactly if the
steps are separate. -/
theorem uncrossed_step {sha : Sha256} (hs : s.Follows LockedRow.After) (huncrossed : Uncrossed s)
    {e : LockEvent Call} (h : LockSystem.step (lockProgram sha) s e = some s') :
    Uncrossed s' ↔ Separate s e s' := by
  rcases e with call | i | i
  · cases h
    refine iff_of_true (uncrossed_of_mem huncrossed (fun t ht => ?_) s.db) ?_
    · rcases List.mem_append.mp ht with ht | hnew
      · exact .inl ht
      · rw [List.mem_singleton.mp hnew]
        exact .inr rfl
    · intro i t he
      cases he
  · obtain ⟨t, t', ht, hadvance, htransactions⟩ := LockSystem.advance_cases h
    obtain ⟨db, transactions⟩ := s'
    subst htransactions
    constructor
    · intro huncrossed' j u hj hu
      cases hj
      cases ht.symm.trans hu
      exact separate_of_uncrossed ht hadvance huncrossed'
    · intro hseparate
      exact uncrossed_advance hs huncrossed ht hadvance (hseparate i t rfl ht)
  · cases h
    refine iff_of_true (uncrossed_of_mem huncrossed (fun t ht => ?_) s.db) ?_
    · rcases List.mem_or_eq_of_mem_set ht with ht | rfl
      · exact .inl ht
      · exact .inr rfl
    · intro i t he
      cases he

end Deadlocks

/-- **Deadlocks.** A run of calls, whose transactions lock their rows one by one and in any order
among one another, comes to no deadlock if and only if its steps are separate: no call locks one of
the two rows of a run, to wait for the other one, while another call does so the other way round. -/
theorem not_deadlocked_iff (sha : Sha256) (db : Database) (events : List (LockEvent Call)) :
    Events.Along (LockSystem.step (lockProgram sha)) (fun _ _ s' => ¬ s'.Deadlocked)
      ⟨db, []⟩ events ↔
      Events.Along (LockSystem.step (lockProgram sha)) Separate ⟨db, []⟩ events := by
  have hfollows : ∀ (s s' : LockSystem Database LockedRow) (e : LockEvent Call),
      s.Follows LockedRow.After → LockSystem.step (lockProgram sha) s e = some s' →
        s'.Follows LockedRow.After :=
    fun _ _ _ hs h => LockSystem.follows_step (follows_lockProgram sha) hs h
  refine Events.along_iff_of_invariant (I := fun s => s.Follows LockedRow.After ∧ Uncrossed s)
    ?_ ?_ ⟨?_, ?_⟩
  · rintro s e s' ⟨hs, huncrossed⟩ h hseparate
    have hs' := hfollows s s' e hs h
    have huncrossed' := (uncrossed_step hs huncrossed h).mpr hseparate
    exact ⟨⟨hs', huncrossed'⟩, fun hdead => (deadlocked_iff hs').mp hdead huncrossed'⟩
  · rintro s e s' ⟨hs, huncrossed⟩ h hdead
    refine (uncrossed_step hs huncrossed h).mp (not_not.mp fun hcrossed => ?_)
    exact hdead ((deadlocked_iff (hfollows s s' e hs h)).mpr hcrossed)
  · intro t ht
    cases ht
  · intro t ht
    cases ht

/-! ### A deadlock -/

theorem lockFound_of_isSome {α : Type} {found : Option α} {row : LockedRow}
    {next : Database → LockProgram Database LockedRow} {db : Database} (hfound : found.isSome) :
    lockFound (found.map fun _ => row) next db = .lock row next := by
  obtain ⟨a, rfl⟩ := Option.isSome_iff_exists.mp hfound
  rfl

theorem lockRun_of_isSome {runId : UUID} {next : Database → LockProgram Database LockedRow}
    {db : Database} (hrun : (db.runs.find? runId).isSome) :
    lockRun runId next db = .lock (.run runId) next :=
  lockFound_of_isSome hrun

theorem lockLease_of_isSome {runId : UUID} {next : Database → LockProgram Database LockedRow}
    {db : Database} (hlease : (db.runLeases.find? runId).isSome) :
    lockLease runId next db = .lock (.lease runId) next :=
  lockFound_of_isSome hlease

theorem afterChecks_of_passes {clock : ℕ → ClockReading} {checks : Sql Unit}
    {next : Database → LockProgram Database LockedRow} {db : Database}
    (hpasses : passes clock checks db) : afterChecks clock checks next db = next db :=
  if_pos hpasses

/-- A worker commits a checkpoint of the sample run while it asks a question about the run. Each of
the two calls has the row that the other one waits for. -/
theorem deadlocked_of_claimed : ∃ s : LockSystem Database LockedRow,
    Events.final? (LockSystem.step (lockProgram Sample.sha))
      ⟨after Sample.sha Sample.claimed, []⟩
      [.begin ⟨.commitCheckpoint Sample.checkpoint "first" 1 1, Sample.clock 2⟩,
        .begin ⟨.createInterrupt Sample.question 1, Sample.clock 3⟩,
        .advance 0, .advance 1] = some s ∧ s.Deadlocked := by
  have hrun : ((after Sample.sha Sample.claimed).runs.find? Sample.run.id).isSome := by
    decide +kernel
  have hlease : ((after Sample.sha Sample.claimed).runLeases.find? Sample.run.id).isSome := by
    decide +kernel
  have hcommit : passes (Sample.clock 2) (leaseChecks Sample.run.id "first" 1)
      (after Sample.sha Sample.claimed) := by
    decide +kernel
  have hask : passes (Sample.clock 3) (interruptChecks Sample.question 1)
      (after Sample.sha Sample.claimed) := by
    decide +kernel
  generalize after Sample.sha Sample.claimed = db at hrun hlease hcommit hask ⊢
  let commits : Database → LockProgram Database LockedRow := fun _ => .commit fun db =>
    (perform Sample.sha ⟨.commitCheckpoint Sample.checkpoint "first" 1 1, Sample.clock 2⟩ db).2
  let asks : Database → LockProgram Database LockedRow := fun _ => .commit fun db =>
    (perform Sample.sha ⟨.createInterrupt Sample.question 1, Sample.clock 3⟩ db).2
  have hcommits : lockProgram Sample.sha
      ⟨.commitCheckpoint Sample.checkpoint "first" 1 1, Sample.clock 2⟩ db =
        .lock (.lease Sample.run.id) (afterChecks (Sample.clock 2)
          (leaseChecks Sample.run.id "first" 1) (lockRun Sample.run.id commits)) :=
    lockLease_of_isSome hlease
  have hasks : lockProgram Sample.sha ⟨.createInterrupt Sample.question 1, Sample.clock 3⟩ db =
        .lock (.run Sample.run.id) (afterChecks (Sample.clock 3)
          (interruptChecks Sample.question 1) (lockLease Sample.run.id asks)) :=
    lockRun_of_isSome hrun
  have hcommits' : afterChecks (Sample.clock 2) (leaseChecks Sample.run.id "first" 1)
      (lockRun Sample.run.id commits) db = .lock (.run Sample.run.id) commits :=
    (afterChecks_of_passes hcommit).trans (lockRun_of_isSome hrun)
  have hasks' : afterChecks (Sample.clock 3) (interruptChecks Sample.question 1)
      (lockLease Sample.run.id asks) db = .lock (.lease Sample.run.id) asks :=
    (afterChecks_of_passes hask).trans (lockLease_of_isSome hlease)
  refine ⟨⟨db, [⟨.lock (.run Sample.run.id) commits, [.lease Sample.run.id]⟩,
    ⟨.lock (.lease Sample.run.id) asks, [.run Sample.run.id]⟩]⟩, ?_, ?_⟩
  · simp [LockSystem.step, hcommits, hasks, LockSystem.advance, LockSystem.locked, hcommits',
      hasks']
  · refine LockSystem.deadlocked_of_crossed
      ⟨_, List.mem_cons_self, _, List.mem_cons_of_mem _ List.mem_cons_self,
        .lease Sample.run.id, .run Sample.run.id, ?_, List.mem_cons_self, rfl,
        List.mem_cons_self, rfl⟩
    simp only [ne_eq, reduceCtorEq, not_false_eq_true]

end Postgres

end OpenRath
