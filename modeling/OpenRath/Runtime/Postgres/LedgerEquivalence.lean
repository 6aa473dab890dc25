import Mathlib.Data.Set.List
import OpenRath.Library.Coupling
import OpenRath.Runtime.Postgres.EffectLedger
import OpenRath.Runtime.Sqlite.Histories

/-!
# The two effect ledgers are observationally equivalent

Two clients make the same calls, one to the SQLite ledger and one to the Postgres ledger, on the
same runs and with the same readings of the clock. The ledgers draw UUIDs of their own, so that a
call names an invocation by the call of `prepare` that returned it. Every call then has the same
answer from both ledgers but for the UUIDs, and after every call the tables have the same rows.

The Postgres ledger reads the clock anew for each invocation that it reconciles. Their `updated_at`
is the same in both ledgers if the clock stands still during each reconciliation. Nothing else
depends on it: a row that is looked up by its `updated_at` is dispatched, and has been written by
`mark_dispatched` last.

## Main definitions

* `LedgerCall`, `EffectLedger.call`, `EffectLedger.after`: calls of a client.
* `SameInvocation`, `SameAnswer`: what the answers have in common.

## Main results

* `ledgers_alike`.
* `not_ledgers_alike`: the readings of a clock that goes on during a reconciliation.
-/

namespace OpenRath

/-! ### Clients -/

/-- The calls of a client. An invocation is named by its place among those that `prepare` has
returned. -/
inductive LedgerCall
  | prepare (p : Preparation)
  | get (place : ℕ)
  | markDispatched (place : ℕ)
  | complete (place : ℕ) (result : Json)
  | fail (place : ℕ) (error : String)
  | reconcileStale (olderThan : Datetime)
  | watermark (runId : UUID)

/-- What a client is told. -/
inductive LedgerAnswer
  | invocation (row : ToolInvocation)
  | invocations (rows : List ToolInvocation)
  | count (n : ℕ)

/-- The tables of a ledger, and the UUIDs that `prepare` has returned to its client. -/
structure LedgerClient (T : Type) where
  tables : T
  ids : List UUID

namespace EffectLedger

variable {T : Type} (ledger : EffectLedger T)

/-- A call about an invocation, if the client knows it. -/
def about (f : UUID → T → Except LedgerError ToolInvocation × T) (place : ℕ) (s : LedgerClient T) :
    Option (Except LedgerError LedgerAnswer) × LedgerClient T :=
  match s.ids[place]? with
  | none => (none, s)
  | some id =>
    (some ((f id s.tables).1.map .invocation), { s with tables := (f id s.tables).2 })

/-- A call of a client. A client does not make calls about invocations that it does not know. -/
def call (draws : Draws) (c : LedgerCall) (s : LedgerClient T) :
    Option (Except LedgerError LedgerAnswer) × LedgerClient T :=
  match c with
  | .prepare p =>
    let out := ledger.prepare draws p s.tables
    (some (out.1.map .invocation),
      ⟨out.2, s.ids ++ (out.1.toOption.map ToolInvocation.id).toList⟩)
  | .get place => about (ledger.get draws) place s
  | .markDispatched place => about (ledger.markDispatched draws) place s
  | .complete place result => about (fun id => ledger.complete draws id result) place s
  | .fail place error => about (fun id => ledger.fail draws id error) place s
  | .reconcileStale olderThan =>
    let out := ledger.reconcileStale draws olderThan s.tables
    (some (out.1.map .invocations), { s with tables := out.2 })
  | .watermark runId =>
    let out := ledger.watermark draws runId s.tables
    (some (out.1.map .count), { s with tables := out.2 })

end EffectLedger

/-- A call with the readings of the clock, and the UUID that each of the ledgers may draw. -/
structure LedgerInput where
  call : LedgerCall
  clock : ℕ → ClockReading
  sqliteId : UUID
  postgresId : UUID

section Clients

variable (runs : Table RunRow.id)

/-- The SQLite ledger after some calls. -/
def sqliteAfter (inputs : List LedgerInput) : LedgerClient (Table ToolInvocation.id) :=
  inputs.foldl (fun s i => ((sqliteEffectLedger runs).call ⟨i.clock, i.sqliteId⟩ i.call s).2)
    ⟨.empty, []⟩

/-- The Postgres ledger after some calls. -/
def postgresAfter (inputs : List LedgerInput) : LedgerClient (Table InvocationRow.id) :=
  inputs.foldl (fun s i => ((postgresEffectLedger runs).call ⟨i.clock, i.postgresId⟩ i.call s).2)
    ⟨.empty, []⟩

namespace LedgerInput

/-- The answer of the SQLite ledger, if there is such a call. -/
def sqliteAnswer (before : List LedgerInput) (i : LedgerInput) :
    Option (Except LedgerError LedgerAnswer) :=
  ((sqliteEffectLedger runs).call ⟨i.clock, i.sqliteId⟩ i.call (sqliteAfter runs before)).1

/-- The answer of the Postgres ledger, if there is such a call. -/
def postgresAnswer (before : List LedgerInput) (i : LedgerInput) :
    Option (Except LedgerError LedgerAnswer) :=
  ((postgresEffectLedger runs).call ⟨i.clock, i.postgresId⟩ i.call (postgresAfter runs before)).1

/-- The arguments are those that the tool executor passes: the run exists, the name is not empty,
the digest has its length, and datetimes are in UTC. -/
def Valid (i : LedgerInput) : Prop :=
  match i.call with
  | .prepare p => (runs.find? p.runId).isSome = true ∧ p.toolName ≠ "" ∧
      p.argumentsDigest.length = 64
  | .reconcileStale olderThan => olderThan.IsUtc
  | _ => True

/-- The clock stands still during a reconciliation. -/
def Steady (i : LedgerInput) : Prop :=
  match i.call with
  | .reconcileStale _ => ∀ n, i.clock n = i.clock 0
  | _ => True

end LedgerInput

end Clients

/-! ### What the answers have in common -/

/-- The invocation with another UUID and another time of its last change. -/
def ToolInvocation.stamped (a : ToolInvocation) (id : UUID) (updatedAt : Datetime)
    (h : updatedAt.Aware) : ToolInvocation :=
  { a with id := id, updatedAt := updatedAt, updatedAt_aware := h }

/-- Statuses in which a reconciliation leaves an invocation. -/
def InvocationStatus.Reconciled (s : InvocationStatus) : Prop := s = .prepared ∨ s = .ambiguous

/-- Invocations that are the same but for the UUIDs. The times of their last change may differ where
a reconciliation may have been the last change, that is, in every invocation that is `PREPARED` or
`AMBIGUOUS`, whether or not there was one. -/
inductive SameInvocation (steady : Prop) : ToolInvocation → ToolInvocation → Prop
  | intro (a : ToolInvocation) (id : UUID) (updatedAt : Datetime) (h : updatedAt.Aware)
      (hsame : steady ∨ ¬ a.status.Reconciled → updatedAt = a.updatedAt) :
      SameInvocation steady a (a.stamped id updatedAt h)

/-- Invocations that are the same, with UUIDs that were returned by one call. -/
def SameReturned (steady : Prop) (ids ids' : List UUID) (a b : ToolInvocation) : Prop :=
  SameInvocation steady a b ∧ (a.id, b.id) ∈ ids.zip ids'

/-- Lists of the same invocations, in the order of their creation. Those that were created at the
same time are in the order of the UUIDs. -/
def SameInvocations (steady : Prop) (ids ids' : List UUID) (rows rows' : List ToolInvocation) :
    Prop :=
  (∃ pairs : List (ToolInvocation × ToolInvocation), rows.Perm (pairs.map Prod.fst) ∧
    rows'.Perm (pairs.map Prod.snd) ∧ ∀ p ∈ pairs, SameReturned steady ids ids' p.1 p.2) ∧
  rows.map (·.createdAt.instant) = rows'.map (·.createdAt.instant)

/-- Answers that are the same, or conflicts. -/
inductive AlikeAnswers (steady : Prop) (ids ids' : List UUID) :
    Option (Except LedgerError LedgerAnswer) → Option (Except LedgerError LedgerAnswer) → Prop
  | unknown : AlikeAnswers steady ids ids' none none
  | invocation {a b : ToolInvocation} (h : SameReturned steady ids ids' a b) :
      AlikeAnswers steady ids ids' (some (.ok (.invocation a))) (some (.ok (.invocation b)))
  | invocations {rows rows' : List ToolInvocation}
      (h : SameInvocations steady ids ids' rows rows') :
      AlikeAnswers steady ids ids' (some (.ok (.invocations rows)))
        (some (.ok (.invocations rows')))
  | count (n : ℕ) :
      AlikeAnswers steady ids ids' (some (.ok (.count n))) (some (.ok (.count n)))
  | conflict (message message' : String) :
      AlikeAnswers steady ids ids' (some (.error (.conflict message)))
        (some (.error (.conflict message')))

/-! ### Rows that correspond -/

namespace ToolInvocation

/-- The row of an invocation. -/
def row (a : ToolInvocation) : InvocationRow where
  id := a.id
  runId := a.runId
  toolName := a.toolName
  effectClass := a.effectClass
  argumentsDigest := a.argumentsDigest
  status := a.status
  createdAt := a.createdAt
  updatedAt := a.updatedAt
  nodeId := a.nodeId
  checkpointSequence := a.checkpointSequence
  invocationSequence := a.invocationSequence
  idempotencyKey := a.idempotencyKey
  result := a.result
  error := a.error

theorem fromRow_row (a : ToolInvocation) : a.row.fromRow = .ok a := by
  rw [InvocationRow.fromRow, dif_pos (show a.row.toolName ≠ "" from a.toolName_ne_empty),
    dif_pos (show a.row.argumentsDigest.length = 64 from a.argumentsDigest_length),
    dif_pos (show a.row.createdAt.Aware ∧ a.row.updatedAt.Aware from
      ⟨a.createdAt_aware, a.updatedAt_aware⟩)]
  rfl

end ToolInvocation

/-- An invocation of the SQLite ledger and the row of the same one in the Postgres ledger. -/
inductive SameRow (steady : Prop) : ToolInvocation → InvocationRow → Prop
  | intro {a : ToolInvocation} (id : UUID) {updatedAt : Datetime} (h : updatedAt.Aware)
      (hcreated : a.createdAt.IsUtc) (hupdated : a.updatedAt.IsUtc) (hutc : updatedAt.IsUtc)
      (hsame : steady ∨ ¬ a.status.Reconciled → updatedAt = a.updatedAt) :
      SameRow steady a (a.stamped id updatedAt h).row

namespace SameRow

variable {steady : Prop} {a : ToolInvocation} {b : InvocationRow}

theorem exists_fromRow (h : SameRow steady a b) :
    ∃ c, b.fromRow = .ok c ∧ SameInvocation steady a c ∧ c.id = b.id := by
  obtain ⟨id, haware, -, -, -, hsame⟩ := h
  exact ⟨_, ToolInvocation.fromRow_row _, .intro a id _ haware hsame, rfl⟩

end SameRow

/-- The UUIDs of the rows that stand side by side. -/
def pairIds (pairs : List (ToolInvocation × InvocationRow)) : List (UUID × UUID) :=
  pairs.map fun p => (p.1.id, p.2.id)

/-- The ledgers of two clients have the same rows, which their clients know by the same calls. -/
structure LedgersAlike (steady : Prop) (s : LedgerClient (Table ToolInvocation.id))
    (t : LedgerClient (Table InvocationRow.id)) (pairs : List (ToolInvocation × InvocationRow)) :
    Prop where
  coupled : Coupled (SameRow steady) s.tables t.tables pairs
  length_ids : s.ids.length = t.ids.length
  mem_iff : ∀ xy, xy ∈ s.ids.zip t.ids ↔ xy ∈ pairIds pairs

/-! ### Transactions that return and that raise -/

namespace Preparation

/-- A prepared invocation. -/
def invocation (p : Preparation) (id : UUID) (reading : ClockReading) (number : ℕ)
    (hname : p.toolName ≠ "") (hdigest : p.argumentsDigest.length = 64) : ToolInvocation where
  id := id
  runId := p.runId
  toolName := p.toolName
  effectClass := p.effectClass
  argumentsDigest := p.argumentsDigest
  status := .prepared
  createdAt := .utc reading
  updatedAt := .utc reading
  nodeId := p.nodeId
  checkpointSequence := p.checkpointSequence
  invocationSequence := some number
  idempotencyKey := p.idempotencyKey
  result := .null
  error := none
  toolName_ne_empty := hname
  argumentsDigest_length := hdigest
  createdAt_aware := (Datetime.isUtc_utc _).aware
  updatedAt_aware := (Datetime.isUtc_utc _).aware

end Preparation

namespace Ledger

open Tx

variable {c : LedgerConnection} {p : Preparation}

/-- `prepare`, of the arguments of a call. -/
abbrev prepareOf (p : Preparation) : LedgerSql ToolInvocation :=
  prepare p.runId p.toolName p.effectClass p.argumentsDigest p.idempotencyKey p.nodeId
    p.checkpointSequence

theorem yields_prepare_found {existing : ToolInvocation}
    (h : underKey p.runId p.idempotencyKey c.invocations.rows = some existing)
    (hsame : existing.argumentsDigest = p.argumentsDigest ∧ existing.toolName = p.toolName) :
    (prepareOf p).Yields c existing (ticked c) := by
  rw [prepareOf, prepare, yields_bind]
  refine ⟨_, _, yields_now.mpr ⟨rfl, rfl⟩, ?_⟩
  rw [yields_bind]
  refine ⟨_, _, yields_query.mpr ⟨h, rfl⟩, ?_⟩
  rw [yields_bind]
  exact ⟨(), _, yields_raiseUnless.mpr ⟨hsame, rfl⟩, yields_pure.mpr ⟨rfl, rfl⟩⟩

theorem raises_prepare_found {existing : ToolInvocation}
    (h : underKey p.runId p.idempotencyKey c.invocations.rows = some existing)
    (hdiff : ¬ (existing.argumentsDigest = p.argumentsDigest ∧ existing.toolName = p.toolName)) :
    (prepareOf p).Raises c (.conflict "effect idempotency key was reused with different input") := by
  rw [prepareOf, prepare, raises_bind]
  refine Or.inr ⟨_, _, yields_now.mpr ⟨rfl, rfl⟩, ?_⟩
  rw [raises_bind]
  refine Or.inr ⟨_, _, yields_query.mpr ⟨h, rfl⟩, ?_⟩
  rw [raises_bind]
  exact Or.inl (raises_raiseUnless.mpr ⟨hdiff, rfl⟩)

/-- The number of the next invocation of a run. -/
def nextNumber (runId : UUID) (rows : List ToolInvocation) : ℕ :=
  maxNumber (fun r => r.invocationSequence.getD 0) (invocationsOf runId rows) + 1

theorem ne_nextNumber {runId : UUID} {rows : List ToolInvocation} {r : ToolInvocation}
    (hr : r ∈ rows) (hrun : r.runId = runId) :
    r.invocationSequence ≠ some (nextNumber runId rows) := by
  intro heq
  have hmem : r ∈ invocationsOf runId rows := List.mem_filter.mpr ⟨hr, decide_eq_true hrun⟩
  have hle := @le_maxNumber _ (fun r : ToolInvocation => r.invocationSequence.getD 0) _ _ hmem
  rw [heq, Option.getD_some, nextNumber] at hle
  omega

theorem yields_insertInvocation_of_insert {row : ToolInvocation} {t : Table ToolInvocation.id}
    (hrun : (c.runs.find? row.runId).isSome = true)
    (hunique : ∀ r ∈ c.invocations.rows, r.runId = row.runId →
      (r.idempotencyKey = none ∨ r.idempotencyKey ≠ row.idempotencyKey) ∧
        (r.invocationSequence = none ∨ r.invocationSequence ≠ row.invocationSequence))
    (ht : c.invocations.insert? row = some t) :
    (insertInvocation row).Yields c () { c with invocations := t } := by
  rw [insertInvocation, yields_bind]
  refine ⟨_, _, yields_query.mpr ⟨rfl, rfl⟩, ?_⟩
  rw [yields_bind]
  refine ⟨(), _, yields_raiseUnless.mpr ⟨hrun, rfl⟩, ?_⟩
  rw [yields_bind]
  refine ⟨(), _, yields_raiseUnless.mpr ⟨hunique, rfl⟩, ?_⟩
  rw [id_eq, ht]
  exact yields_execute.mpr rfl

theorem yields_prepare_new (h : underKey p.runId p.idempotencyKey c.invocations.rows = none)
    (hrun : (c.runs.find? p.runId).isSome = true) (hname : p.toolName ≠ "")
    (hdigest : p.argumentsDigest.length = 64) {t : Table ToolInvocation.id}
    (ht : c.invocations.insert? (p.invocation c.uuid (c.clock 0)
      (nextNumber p.runId c.invocations.rows) hname hdigest) = some t) :
    (prepareOf p).Yields c (p.invocation c.uuid (c.clock 0)
      (nextNumber p.runId c.invocations.rows) hname hdigest)
        { ticked c with invocations := t } := by
  rw [prepareOf, prepare, yields_bind]
  refine ⟨_, _, yields_now.mpr ⟨rfl, rfl⟩, ?_⟩
  rw [yields_bind]
  refine ⟨_, _, yields_query.mpr ⟨h, rfl⟩, ?_⟩
  dsimp only
  rw [yields_bind]
  refine ⟨_, _, yields_query.mpr ⟨rfl, rfl⟩, ?_⟩
  rw [yields_bind]
  refine ⟨_, _, yields_query.mpr ⟨rfl, rfl⟩, ?_⟩
  rw [dif_pos hname, dif_pos hdigest, dif_pos (Datetime.isUtc_utc _).aware, yields_bind]
  refine ⟨(), { ticked c with invocations := t }, ?_, yields_pure.mpr ⟨rfl, rfl⟩⟩
  refine yields_insertInvocation_of_insert hrun (fun r hr hr' => ⟨?_, ?_⟩) ht
  · cases hkey : p.idempotencyKey with
    | none => exact em (r.idempotencyKey = none)
    | some key =>
      rw [hkey] at h
      exact Or.inr (underKey_eq_none h r hr hr')
  · exact Or.inr (ne_nextNumber hr hr')

/-- An iteration of the reconciliation moves the row with its UUID. -/
theorem exists_yields_reconcileInvocation {now : Datetime} {hnow : now.Aware} {row : ToolInvocation}
    (hmem : row ∈ c.invocations.rows) (hs : row.status = .dispatched) :
    ∃ c', (reconcileInvocation now hnow row).Yields c () c' ∧
      c'.invocations.rows = c.invocations.rows.map fun r =>
        if r.id = row.id then moved r (staleTarget r) now hnow else r := by
  refine ⟨_, yields_execute.mpr rfl, ?_⟩
  rw [Table.update_rows]
  refine List.map_congr_left fun r hr => ?_
  by_cases hid : r.id = row.id
  · obtain rfl := c.invocations.eq_of_key_eq hr hmem hid
    rw [if_pos ⟨rfl, hs⟩, if_pos rfl]
  · rw [if_neg fun h => hid h.1, if_neg hid]

/-- The loop of the reconciliation. -/
theorem exists_yields_reconcile {now : Datetime} {hnow : now.Aware} {rows : List ToolInvocation}
    (hmem : ∀ r ∈ rows, r ∈ c.invocations.rows) (hs : ∀ r ∈ rows, r.status = .dispatched)
    (hnodup : (rows.map ToolInvocation.id).Nodup) :
    ∃ c', (forEach (reconcileInvocation now hnow) rows).Yields c () c' ∧
      c'.invocations.rows = c.invocations.rows.map fun r =>
        if r.id ∈ rows.map ToolInvocation.id then moved r (staleTarget r) now hnow else r := by
  induction rows generalizing c with
  | nil => exact ⟨c, yields_forEach_nil.mpr rfl, by simp⟩
  | cons row rows ih =>
    obtain ⟨hnot, hnodup⟩ := List.nodup_cons.mp hnodup
    obtain ⟨c₁, hstep, hrows₁⟩ := @exists_yields_reconcileInvocation _ now hnow _
      (hmem row List.mem_cons_self) (hs row List.mem_cons_self)
    have hrest : ∀ r ∈ rows, r ∈ c₁.invocations.rows := by
      intro r hr
      rw [hrows₁]
      refine List.mem_map.mpr ⟨r, hmem r (List.mem_cons_of_mem row hr), if_neg fun hid => hnot ?_⟩
      rw [← hid]
      exact List.mem_map_of_mem hr
    obtain ⟨c', hloop, hrows⟩ := ih hrest (fun r hr => hs r (List.mem_cons_of_mem row hr)) hnodup
    refine ⟨c', yields_forEach_cons.mpr ⟨c₁, hstep, hloop⟩, ?_⟩
    rw [hrows, hrows₁, List.map_map]
    refine List.map_congr_left fun r _ => ?_
    simp only [Function.comp_apply, List.map_cons, List.mem_cons]
    by_cases hid : r.id = row.id
    · rw [if_pos hid, moved_id, hid, if_neg hnot, if_pos (Or.inl rfl)]
    · rw [if_neg hid]
      simp only [hid, false_or]

end Ledger

namespace PostgresLedger

open Tx

variable {c : Connection} {p : Preparation}

/-- The connection after a reading of the clock. -/
abbrev ticked (c : Connection) : Connection := { c with clock := fun n => c.clock (n + 1) }

theorem yields_now {d : Datetime} {c' : Connection} :
    now.Yields c d c' ↔ .utc (c.clock 0) = d ∧ ticked c = c' := by
  simp [now, Yields]

/-- `prepare`, of the arguments of a call. -/
abbrev prepareOf (p : Preparation) : Sql InvocationRow :=
  prepare p.runId p.toolName p.effectClass p.argumentsDigest p.idempotencyKey p.nodeId
    p.checkpointSequence

/-- The number of the next invocation of a run. -/
def nextNumber (runId : UUID) (rows : List InvocationRow) : ℕ :=
  maxNumber (fun r => r.invocationSequence.getD 0) (invocationsOf runId rows) + 1

theorem ne_nextNumber {runId : UUID} {rows : List InvocationRow} {r : InvocationRow}
    (hr : r ∈ rows) (hrun : r.runId = runId) :
    r.invocationSequence ≠ some (nextNumber runId rows) := by
  intro heq
  have hmem : r ∈ invocationsOf runId rows := List.mem_filter.mpr ⟨hr, decide_eq_true hrun⟩
  have hle := @le_maxNumber _ (fun r : InvocationRow => r.invocationSequence.getD 0) _ _ hmem
  rw [heq, Option.getD_some, nextNumber] at hle
  omega

theorem yields_prepare_found {existing : InvocationRow}
    (h : underKey p.runId p.idempotencyKey c.invocations.rows = some existing)
    (hsame : existing.argumentsDigest = p.argumentsDigest ∧ existing.toolName = p.toolName) :
    (prepareOf p).Yields c existing (ticked c) := by
  rw [prepareOf, prepare, yields_bind]
  refine ⟨_, _, yields_now.mpr ⟨rfl, rfl⟩, ?_⟩
  rw [yields_bind]
  refine ⟨_, _, yields_query.mpr ⟨rfl, rfl⟩, ?_⟩
  rw [yields_bind]
  refine ⟨_, _, yields_query.mpr ⟨rfl, rfl⟩, ?_⟩
  rw [yields_bind]
  refine ⟨none, ticked c, ?_, ?_⟩
  · rw [insertInvocation, yields_bind]
    exact ⟨_, _, yields_query.mpr ⟨h, rfl⟩, yields_pure.mpr ⟨rfl, rfl⟩⟩
  · dsimp only
    rw [yields_bind]
    refine ⟨_, _, yields_query.mpr ⟨h, rfl⟩, ?_⟩
    dsimp only
    rw [yields_bind]
    exact ⟨(), _, yields_raiseUnless.mpr ⟨hsame, rfl⟩, yields_pure.mpr ⟨rfl, rfl⟩⟩

theorem raises_prepare_found {existing : InvocationRow}
    (h : underKey p.runId p.idempotencyKey c.invocations.rows = some existing)
    (hdiff : ¬ (existing.argumentsDigest = p.argumentsDigest ∧ existing.toolName = p.toolName)) :
    (prepareOf p).Raises c (.conflict "effect idempotency key was reused with different input") := by
  rw [prepareOf, prepare, raises_bind]
  refine Or.inr ⟨_, _, yields_now.mpr ⟨rfl, rfl⟩, ?_⟩
  rw [raises_bind]
  refine Or.inr ⟨_, _, yields_query.mpr ⟨rfl, rfl⟩, ?_⟩
  rw [raises_bind]
  refine Or.inr ⟨_, _, yields_query.mpr ⟨rfl, rfl⟩, ?_⟩
  rw [raises_bind]
  refine Or.inr ⟨none, ticked c, ?_, ?_⟩
  · rw [insertInvocation, yields_bind]
    exact ⟨_, _, yields_query.mpr ⟨h, rfl⟩, yields_pure.mpr ⟨rfl, rfl⟩⟩
  · dsimp only
    rw [raises_bind]
    refine Or.inr ⟨_, _, yields_query.mpr ⟨h, rfl⟩, ?_⟩
    dsimp only
    rw [raises_bind]
    exact Or.inl (raises_raiseUnless.mpr ⟨hdiff, rfl⟩)

theorem yields_insertInvocation_of_insert {row : InvocationRow} {t : Table InvocationRow.id}
    (hkey : underKey row.runId row.idempotencyKey c.invocations.rows = none)
    (hrun : (c.runs.find? row.runId).isSome = true)
    (hunique : ∀ r ∈ c.invocations.rows, r.runId = row.runId →
      r.invocationSequence = none ∨ r.invocationSequence ≠ row.invocationSequence)
    (ht : c.invocations.insert? row = some t) :
    (insertInvocation row).Yields c (some row) { c with invocations := t } := by
  rw [insertInvocation, yields_bind]
  refine ⟨_, _, yields_query.mpr ⟨hkey, rfl⟩, ?_⟩
  dsimp only
  rw [yields_bind]
  refine ⟨_, _, yields_query.mpr ⟨rfl, rfl⟩, ?_⟩
  rw [yields_bind]
  refine ⟨(), _, yields_raiseUnless.mpr ⟨hrun, rfl⟩, ?_⟩
  rw [yields_bind]
  refine ⟨(), _, yields_raiseUnless.mpr ⟨hunique, rfl⟩, ?_⟩
  rw [id_eq, ht]
  dsimp only
  rw [yields_bind]
  exact ⟨(), _, yields_execute.mpr rfl, yields_pure.mpr ⟨rfl, rfl⟩⟩

theorem yields_prepare_new (h : underKey p.runId p.idempotencyKey c.invocations.rows = none)
    (hrun : (c.runs.find? p.runId).isSome = true) (hname : p.toolName ≠ "")
    (hdigest : p.argumentsDigest.length = 64) {t : Table InvocationRow.id}
    (ht : c.invocations.insert? (p.invocation c.uuid (c.clock 0)
      (nextNumber p.runId c.invocations.rows) hname hdigest).row = some t) :
    (prepareOf p).Yields c (p.invocation c.uuid (c.clock 0)
      (nextNumber p.runId c.invocations.rows) hname hdigest).row
      { ticked c with invocations := t } := by
  rw [prepareOf, prepare, yields_bind]
  refine ⟨_, _, yields_now.mpr ⟨rfl, rfl⟩, ?_⟩
  rw [yields_bind]
  refine ⟨_, _, yields_query.mpr ⟨rfl, rfl⟩, ?_⟩
  rw [yields_bind]
  refine ⟨_, _, yields_query.mpr ⟨rfl, rfl⟩, ?_⟩
  rw [Datetime.toUtc_of_isUtc (Datetime.isUtc_utc _), yields_bind]
  refine ⟨some _, { ticked c with invocations := t }, ?_, yields_pure.mpr ⟨rfl, rfl⟩⟩
  exact yields_insertInvocation_of_insert h hrun (fun r hr hr' => Or.inr (ne_nextNumber hr hr')) ht

/-- A row as `_transition` writes it. -/
def recorded (row : InvocationRow) (target : InvocationStatus) (result : Json)
    (error : Option String) (updatedAt : Datetime) : InvocationRow :=
  { row with status := target, result := result, error := error, updatedAt := updatedAt }

theorem yields_updateReturning {P : InvocationRow → Prop} [DecidablePred P]
    {f : InvocationRow → InvocationRow} {hf : ∀ r, (f r).id = r.id} :
    (updateReturning P f hf).Yields c ((c.invocations.rows.find? fun r => P r).map f)
      { c with invocations := c.invocations.update P f hf } := by
  rw [updateReturning, yields_bind]
  refine ⟨_, _, yields_query.mpr ⟨rfl, rfl⟩, ?_⟩
  rw [yields_bind]
  exact ⟨(), _, yields_execute.mpr rfl, yields_pure.mpr ⟨rfl, rfl⟩⟩

theorem yields_transition {id : UUID} {expected : List InvocationStatus}
    {target : InvocationStatus} {result : Json} {error : Option String} {row : InvocationRow}
    (hrow : c.invocations.rows.find? (fun r => r.id = id ∧ r.status ∈ expected) = some row) :
    (transition id expected target result error).Yields c
      (recorded row target result error (.utc (c.clock 0))) { ticked c with
        invocations := c.invocations.update (fun r => r.id = id ∧ r.status ∈ expected)
          (fun r => recorded r target result error (.utc (c.clock 0))) fun _ => rfl } := by
  rw [transition, yields_bind]
  refine ⟨_, _, yields_now.mpr ⟨rfl, rfl⟩, ?_⟩
  rw [Datetime.toUtc_of_isUtc (Datetime.isUtc_utc _), yields_bind]
  refine ⟨_, _, yields_updateReturning, ?_⟩
  rw [hrow]
  exact yields_pure.mpr ⟨rfl, rfl⟩

theorem raises_transition {id : UUID} {expected : List InvocationStatus}
    {target : InvocationStatus} {result : Json} {error : Option String}
    (hrow : c.invocations.rows.find? (fun r => r.id = id ∧ r.status ∈ expected) = none) :
    (transition id expected target result error).Raises c
      (.conflict "invalid effect invocation transition") := by
  rw [transition, raises_bind]
  refine Or.inr ⟨_, _, yields_now.mpr ⟨rfl, rfl⟩, ?_⟩
  rw [raises_bind]
  refine Or.inr ⟨_, _, yields_updateReturning, ?_⟩
  rw [hrow]
  exact raises_raise.mpr rfl

theorem mem_staleRows {rows : List InvocationRow} {olderThan : Datetime} {row : InvocationRow} :
    row ∈ staleRows rows olderThan ↔ row ∈ rows ∧ row.status = .dispatched ∧
      row.updatedAt.instant ≤ olderThan.instant := by
  rw [staleRows, List.mem_insertionSort, List.mem_filter, decide_eq_true_eq]

/-- A row as `reconcile_stale` writes it. -/
def reconciled (row : InvocationRow) (reading : ClockReading) : InvocationRow :=
  { row with status := staleTarget row, updatedAt := .utc reading }

/-- An invocation as `reconcile_stale` returns it. -/
def returned (a : ToolInvocation) (reading : ClockReading) : ToolInvocation :=
  Ledger.moved a (Ledger.staleTarget a) (.utc reading) (Datetime.isUtc_utc _).aware

/-- An iteration of the reconciliation moves the row with its UUID. -/
theorem exists_yields_update {a : ToolInvocation} (hmem : a.row ∈ c.invocations.rows)
    (hs : a.status = .dispatched) :
    ∃ c', (updateReturning (fun r => r.id = a.row.id ∧ r.status = .dispatched)
        (fun r => { r with status := staleTarget a.row, updatedAt := .utc (c.clock 0) })
        fun _ => rfl).Yields (ticked c) (some (returned a (c.clock 0)).row) c' ∧
      (c'.invocations.rows = c.invocations.rows.map fun r =>
        if r.id = a.id then reconciled r (c.clock 0) else r) ∧
      ∀ n, c'.clock n = c.clock (n + 1) := by
  have hfind : (ticked c).invocations.rows.find?
      (fun r => r.id = a.row.id ∧ r.status = .dispatched) = some a.row :=
    (Table.rows_find?_eq_some_iff fun _ h => h.1).mpr ⟨Table.find?_of_mem hmem, rfl, hs⟩
  have hyields := @yields_updateReturning (ticked c)
    (fun r => r.id = a.row.id ∧ r.status = .dispatched) _
    (fun r => { r with status := staleTarget a.row, updatedAt := .utc (c.clock 0) }) fun _ => rfl
  rw [hfind] at hyields
  refine ⟨_, hyields, ?_, fun n => rfl⟩
  rw [Table.update_rows]
  refine List.map_congr_left fun r hr => ?_
  by_cases hid : r.id = a.id
  · obtain rfl : r = a.row := c.invocations.eq_of_key_eq hr hmem hid
    rw [if_pos ⟨rfl, hs⟩, if_pos hid]
    rfl
  · rw [if_neg fun h => hid h.1, if_neg hid]

/-- The loop of the reconciliation, which reads the clock for every row. -/
theorem exists_yields_reconcileRows {rows : List ToolInvocation}
    (hmem : ∀ a ∈ rows, a.row ∈ c.invocations.rows) (hs : ∀ a ∈ rows, a.status = .dispatched)
    (hnodup : (rows.map ToolInvocation.id).Nodup) :
    ∃ (reading : UUID → ClockReading) (c' : Connection),
      (reconcileRows (rows.map ToolInvocation.row)).Yields c
        (rows.map fun a => returned a (reading a.id)) c' ∧
      (c'.invocations.rows = c.invocations.rows.map fun r =>
        if r.id ∈ rows.map ToolInvocation.id then reconciled r (reading r.id) else r) ∧
      ((∀ n, c.clock n = c.clock 0) → ∀ id, reading id = c.clock 0) := by
  induction rows generalizing c with
  | nil => exact ⟨fun _ => c.clock 0, c, yields_pure.mpr ⟨rfl, rfl⟩, by simp, fun _ _ => rfl⟩
  | cons a rows ih =>
    obtain ⟨hnot, hnodup⟩ := List.nodup_cons.mp hnodup
    obtain ⟨c₁, hstep, hrows₁, hclock⟩ := exists_yields_update (hmem a List.mem_cons_self)
      (hs a List.mem_cons_self)
    have hrest : ∀ b ∈ rows, b.row ∈ c₁.invocations.rows := by
      intro b hb
      rw [hrows₁]
      refine List.mem_map.mpr ⟨b.row, hmem b (List.mem_cons_of_mem a hb), if_neg fun hid => hnot ?_⟩
      rw [← show b.row.id = a.id from hid]
      exact List.mem_map_of_mem hb
    obtain ⟨reading, c', hloop, hrows, hsteady⟩ :=
      ih hrest (fun b hb => hs b (List.mem_cons_of_mem a hb)) hnodup
    refine ⟨fun id => if id = a.id then c.clock 0 else reading id, c', ?_, ?_, fun h id => ?_⟩
    · rw [List.map_cons, reconcileRows, yields_bind]
      refine ⟨_, _, yields_now.mpr ⟨rfl, rfl⟩, ?_⟩
      rw [Datetime.toUtc_of_isUtc (Datetime.isUtc_utc _), yields_bind]
      refine ⟨_, _, hstep, ?_⟩
      dsimp only
      rw [yields_bind]
      refine ⟨_, _, yields_ofExcept.mpr ⟨ToolInvocation.fromRow_row (returned a (c.clock 0)), rfl⟩,
        ?_⟩
      rw [yields_bind]
      refine ⟨_, _, hloop, yields_pure.mpr ⟨?_, rfl⟩⟩
      rw [List.map_cons, if_pos rfl]
      refine congrArg _ (List.map_congr_left fun b hb => ?_)
      have hne : b.id ≠ a.id := fun hid => hnot (hid ▸ List.mem_map_of_mem hb)
      rw [if_neg hne]
    · rw [hrows, hrows₁, List.map_map]
      refine List.map_congr_left fun r _ => ?_
      simp only [Function.comp_apply, List.map_cons, List.mem_cons]
      by_cases hid : r.id = a.id
      · have hkeep : (reconciled r (c.clock 0)).id = r.id := rfl
        rw [if_pos hid, hkeep, hid, if_neg hnot, if_pos (Or.inl rfl), if_pos rfl]
      · rw [if_neg hid]
        simp only [hid, false_or, if_false]
    · have hconst : ∀ n, c₁.clock n = c₁.clock 0 := by
        intro n
        rw [hclock, h, hclock, h (0 + 1)]
      dsimp only
      split_ifs
      · rfl
      · rw [hsteady hconst, hclock, h]

variable {α : Type} {body : Sql α} {draws : Draws} {runs : Table RunRow.id}
  {invocations : Table InvocationRow.id}

theorem perform_of_yields {a : α} {c' : Connection}
    (h : body.Yields ⟨runs, invocations, draws.clock, draws.uuid⟩ a c') :
    perform runs body draws invocations = (.ok a, c'.invocations) := by
  rw [perform, yields_atomically.mpr h]

theorem perform_of_raises {e : LedgerError}
    (h : body.Raises ⟨runs, invocations, draws.clock, draws.uuid⟩ e) :
    perform runs body draws invocations = (.error e, invocations) := by
  have herror := raises_atomically.mpr h
  rw [perform, atomically_snd_of_raises h]
  exact Prod.ext herror rfl

end PostgresLedger

/-! ### Calls, one by one -/

section Calls

open Tx

variable {steady : Prop} {t : Table ToolInvocation.id} {t' : Table InvocationRow.id}
  {pairs : List (ToolInvocation × InvocationRow)}

theorem SameRow.createdAt_isUtc {a : ToolInvocation} {b : InvocationRow} (h : SameRow steady a b) :
    a.createdAt.IsUtc := by
  obtain ⟨-, -, hcreated, -, -, -⟩ := h
  exact hcreated

theorem SameRow.columns {a : ToolInvocation} {b : InvocationRow} (h : SameRow steady a b) :
    b.runId = a.runId ∧ b.idempotencyKey = a.idempotencyKey ∧ b.status = a.status ∧
      b.invocationSequence = a.invocationSequence ∧ b.argumentsDigest = a.argumentsDigest ∧
      b.toolName = a.toolName := by
  cases h
  exact ⟨rfl, rfl, rfl, rfl, rfl, rfl⟩

/-- The invocation under a key is the same in both ledgers. -/
theorem exists_underKey (h : Coupled (SameRow steady) t t' pairs) (runId : UUID)
    (key : Option String) : ∃ found : Option (ToolInvocation × InvocationRow),
      Ledger.underKey runId key t.rows = found.map Prod.fst ∧
      PostgresLedger.underKey runId key t'.rows = found.map Prod.snd ∧ ∀ p ∈ found, p ∈ pairs := by
  cases key with
  | none => exact ⟨none, rfl, rfl, fun p hp => by cases hp⟩
  | some key =>
    have hfind := h.find?_eq (fun r => r.runId = runId ∧ r.idempotencyKey = some key)
      (fun r => r.runId = runId ∧ r.idempotencyKey = some key) fun p hp => by
        obtain ⟨hrun, hkey, -⟩ := (h.related p hp).columns
        rw [hrun, hkey]
    exact ⟨_, hfind.1, hfind.2, fun p hp => List.mem_of_find?_eq_some hp⟩

theorem nextNumber_eq (h : Coupled (SameRow steady) t t' pairs) (runId : UUID) :
    PostgresLedger.nextNumber runId t'.rows = Ledger.nextNumber runId t.rows := by
  have hmap := h.map_filter_eq (fun r => r.runId = runId) (fun r => r.runId = runId)
    (fun r => r.invocationSequence.getD 0) (fun r => r.invocationSequence.getD 0)
    (fun p hp => by rw [(h.related p hp).columns.1])
    fun p hp => by rw [(h.related p hp).columns.2.2.2.1]
  rw [PostgresLedger.nextNumber, Ledger.nextNumber, maxNumber, maxNumber,
    PostgresLedger.invocationsOf, Ledger.invocationsOf, hmap]

/-- The watermarks of a run are the same in both ledgers. -/
theorem watermark_eq (h : Coupled (SameRow steady) t t' pairs) (runs : Table RunRow.id)
    (draws draws' : Draws) (runId : UUID) :
    ∃ n, (sqliteEffectLedger runs).watermark draws runId t = (.ok n, t) ∧
      (postgresEffectLedger runs).watermark draws' runId t' = (.ok n, t') := by
  have hmap := h.map_filter_eq (fun r => r.runId = runId ∧ r.status = .succeeded)
    (fun r => r.runId = runId ∧ r.status = .succeeded)
    ToolInvocation.invocationSequence InvocationRow.invocationSequence
    (fun p hp => by
      obtain ⟨hrun, -, hstatus, -⟩ := (h.related p hp).columns
      rw [hrun, hstatus])
    fun p hp => (h.related p hp).columns.2.2.2.1.symm
  have hrows : (Ledger.invocationsOf runId t.rows).filter (fun r => r.status = .succeeded) =
      t.rows.filter fun r => r.runId = runId ∧ r.status = .succeeded := by
    simp only [Ledger.invocationsOf, List.filter_filter, Bool.decide_and, Bool.and_comm]
  have hrows' : (PostgresLedger.invocationsOf runId t'.rows).filter
        (fun r => r.status = .succeeded) =
      t'.rows.filter fun r => r.runId = runId ∧ r.status = .succeeded := by
    simp only [PostgresLedger.invocationsOf, List.filter_filter, Bool.decide_and, Bool.and_comm]
  refine ⟨_, rfl, Prod.ext (congrArg Except.ok ?_) rfl⟩
  have hnumbers := congrArg (List.filterMap id) hmap
  have hcount := congrArg List.length hmap
  rw [List.filterMap_map, List.filterMap_map] at hnumbers
  rw [List.length_map, List.length_map] at hcount
  dsimp only
  rw [hrows, hrows', ← hcount]
  exact congrArg (fun l : List ℕ => l.max?.getD _) hnumbers.symm

theorem ok_bind {ε α β : Type} (a : α) (f : α → Except ε β) : (Except.ok a >>= f) = f a := rfl

/-- What a call about an invocation does with both ledgers. -/
structure Together (steady : Prop) (ids ids' : List UUID)
    (pairs : List (ToolInvocation × InvocationRow))
    (out : Except LedgerError ToolInvocation × Table ToolInvocation.id)
    (out' : Except LedgerError ToolInvocation × Table InvocationRow.id) : Prop where
  alike : AlikeAnswers steady ids ids' (some (out.1.map .invocation))
    (some (out'.1.map .invocation))
  coupled : ∃ pairs', pairIds pairs' = pairIds pairs ∧
    Coupled (SameRow steady) out.2 out'.2 pairs'

variable {ids ids' : List UUID} {p : ToolInvocation × InvocationRow} {runs : Table RunRow.id}
  {draws draws' : Draws}

theorem SameRow.exists_returned {a : ToolInvocation} {b : InvocationRow} (h : SameRow steady a b)
    (hids : (a.id, b.id) ∈ ids.zip ids') :
    ∃ c, b.fromRow = .ok c ∧ SameReturned steady ids ids' a c := by
  obtain ⟨c, hc, hsame, hid⟩ := h.exists_fromRow
  exact ⟨c, hc, hsame, hid ▸ hids⟩

theorem sqlite_get_of_find? {id : UUID} {a : ToolInvocation} (h : t.find? id = some a) :
    Ledger.perform (.get id) draws.clock draws.uuid runs t = (.ok a, t) :=
  @Ledger.perform_of_yields (.get id) _ _ _ _ _ _ (Ledger.yields_get.mpr ⟨h, rfl⟩)

theorem get_together (h : Coupled (SameRow steady) t t' pairs) (hp : p ∈ pairs)
    (hids : (p.1.id, p.2.id) ∈ ids.zip ids') :
    Together steady ids ids' pairs ((sqliteEffectLedger runs).get draws p.1.id t)
      ((postgresEffectLedger runs).get draws' p.2.id t') := by
  obtain ⟨c, hc, hsame⟩ := (h.related p hp).exists_returned hids
  have hget : (sqliteEffectLedger runs).get draws p.1.id t = (.ok p.1, t) :=
    sqlite_get_of_find? (h.find?_left hp)
  have hget' : PostgresLedger.perform runs (PostgresLedger.get p.2.id) draws' t' =
    (.ok p.2, t') := by
    have hyields : (PostgresLedger.get p.2.id).Yields ⟨runs, t', draws'.clock, draws'.uuid⟩ p.2
        ⟨runs, t', draws'.clock, draws'.uuid⟩ := by
      rw [PostgresLedger.get, yields_bind]
      exact ⟨_, _, yields_query.mpr ⟨h.find?_right hp, rfl⟩, yields_pure.mpr ⟨rfl, rfl⟩⟩
    exact PostgresLedger.perform_of_yields hyields
  have hrow : (postgresEffectLedger runs).get draws' p.2.id t' = (.ok c, t') := by
    rw [← hc]
    simp only [postgresEffectLedger, PostgresLedger.performRow, hget', ok_bind]
  rw [hget, hrow]
  exact ⟨.invocation hsame, pairs, rfl, h⟩

theorem SameRow.recorded {a : ToolInvocation} {b : InvocationRow} (h : SameRow steady a b)
    (target : InvocationStatus) (result : Json) (error : Option String) (reading : ClockReading) :
    SameRow steady
      (Ledger.recorded a target result error (.utc reading) (Datetime.isUtc_utc _).aware)
      (PostgresLedger.recorded b target result error (.utc reading)) := by
  obtain ⟨id, _, hcreated, -, -, -⟩ := h
  exact .intro id (Datetime.isUtc_utc reading).aware hcreated (Datetime.isUtc_utc _)
    (Datetime.isUtc_utc _) fun _ => rfl

/-- Updates that keep the UUIDs keep those that stand side by side. -/
theorem pairIds_map {P : ToolInvocation → Prop} [DecidablePred P]
    {f : ToolInvocation → ToolInvocation} {f' : InvocationRow → InvocationRow}
    (hf : ∀ r, (f r).id = r.id) (hf' : ∀ r, (f' r).id = r.id) :
    pairIds (pairs.map fun p => if P p.1 then (f p.1, f' p.2) else p) = pairIds pairs := by
  rw [pairIds, pairIds, List.map_map]
  refine List.map_congr_left fun p _ => ?_
  rw [Function.comp_apply]
  split_ifs
  · rw [hf, hf']
  · rfl

/-- A transition in both ledgers. -/
theorem transition_together (h : Coupled (SameRow steady) t t' pairs) (hp : p ∈ pairs)
    (hids : (p.1.id, p.2.id) ∈ ids.zip ids') (hclock : draws'.clock = draws.clock) (op : LedgerOp)
    {expected : List InvocationStatus} {target : InvocationStatus} {result : Json}
    {error : Option String}
    (hreturn : ∀ c', (Ledger.transition p.1.id expected target result error).Yields
      ⟨runs, t, draws.clock, draws.uuid⟩ () c' →
        ∃ r, Ledger.perform op draws.clock draws.uuid runs t = (.ok r, c'.invocations))
    (hraise : ∀ e, (Ledger.transition p.1.id expected target result error).Raises
      ⟨runs, t, draws.clock, draws.uuid⟩ e →
        Ledger.perform op draws.clock draws.uuid runs t = (.error e, t)) :
    Together steady ids ids' pairs (thenGet runs draws p.1.id op t)
      (PostgresLedger.performRow runs (PostgresLedger.transition p.2.id expected target
        result error)
        draws' t') := by
  have hstatus := (h.related p hp).columns.2.2.1
  by_cases hs : p.1.status ∈ expected
  · obtain ⟨r, hperform⟩ := hreturn _ (Ledger.yields_transition (h.find?_left hp) hs)
    have hfind : t'.rows.find? (fun r => r.id = p.2.id ∧ r.status ∈ expected) = some p.2 :=
      (Table.rows_find?_eq_some_iff fun _ h => h.1).mpr ⟨h.find?_right hp, rfl, hstatus ▸ hs⟩
    have hperform' := PostgresLedger.perform_of_yields
      (@PostgresLedger.yields_transition ⟨runs, t', draws'.clock, draws'.uuid⟩ p.2.id
        expected target
        result error p.2 hfind)
    have hcorrespond : ∀ q ∈ pairs,
        q.1.id = p.1.id ↔ q.2.id = p.2.id ∧ q.2.status ∈ expected := by
      intro q hq
      constructor
      · intro hid
        obtain rfl := (h.key_eq_iff_eq hq hp).mp hid
        exact ⟨rfl, hstatus ▸ hs⟩
      · exact fun hid => (h.key_eq_iff hq hp).mpr hid.1
    have hcoupled := @Coupled.update _ _ _ _ _ _ _ (SameRow steady) _ _ _
      (fun r => r.id = p.1.id) (fun r => r.id = p.2.id ∧ r.status ∈ expected) _ _ h hcorrespond
      (fun r => Ledger.recorded r target result error (.utc (draws.clock 0))
        (Datetime.isUtc_utc _).aware)
      (fun r => PostgresLedger.recorded r target result error (.utc (draws.clock 0)))
      (fun r => Ledger.recorded_id r target result error _ _) (fun _ => rfl)
      (fun q hq _ => (h.related q hq).recorded target result error (draws.clock 0))
      fun q hq _ => h.related q hq
    have hids' := @pairIds_map pairs (fun r => r.id = p.1.id) _
      (fun r => Ledger.recorded r target result error (.utc (draws.clock 0))
        (Datetime.isUtc_utc _).aware)
      (fun r => PostgresLedger.recorded r target result error (.utc (draws.clock 0)))
      (fun _ => rfl) (fun _ => rfl)
    have hmem := @Coupled.mem_update _ _ pairs (fun r => r.id = p.1.id) _ p hp rfl
      (fun r => Ledger.recorded r target result error (.utc (draws.clock 0))
        (Datetime.isUtc_utc _).aware)
      (fun r => PostgresLedger.recorded r target result error (.utc (draws.clock 0)))
    obtain ⟨c, hc, hsame⟩ := (hcoupled.related _ hmem).exists_returned hids
    have hfound := hcoupled.find?_left hmem
    rw [hclock] at hperform'
    rw [thenGet, hperform, PostgresLedger.performRow, hperform']
    dsimp only
    dsimp only at hc hsame
    rw [@sqlite_get_of_find? _ _ _ p.1.id _ hfound, ok_bind, hc]
    exact ⟨.invocation hsame, _, hids', hcoupled⟩
  · have hfind : t'.rows.find? (fun r => r.id = p.2.id ∧ r.status ∈ expected) = none := by
      rw [List.find?_eq_none]
      intro r hr hcond
      obtain ⟨hid, hr'⟩ := of_decide_eq_true hcond
      obtain rfl := t'.eq_of_key_eq hr (h.mem_right hp) hid
      exact hs (hstatus ▸ hr')
    have hperform := hraise _ (Ledger.raises_transition (h.find?_left hp) hs)
    have hperform' := PostgresLedger.perform_of_raises
      (@PostgresLedger.raises_transition ⟨runs, t', draws'.clock, draws'.uuid⟩ p.2.id
        expected target
        result error hfind)
    rw [thenGet, hperform, PostgresLedger.performRow, hperform']
    exact ⟨.conflict _ _, pairs, rfl, h⟩

section Prepare

variable {prep : Preparation}

theorem sqlite_prepare_of_yields {a : ToolInvocation} {c : LedgerConnection}
    (h : (Ledger.prepareOf prep).Yields ⟨runs, t, draws.clock, draws.uuid⟩ a c) :
    (sqliteEffectLedger runs).prepare draws prep t = (.ok a, c.invocations) :=
  @Ledger.perform_of_yields (.prepare _ _ _ _ _ _ _) _ _ _ _ _ _ h

theorem sqlite_prepare_of_raises {e : LedgerError}
    (h : (Ledger.prepareOf prep).Raises ⟨runs, t, draws.clock, draws.uuid⟩ e) :
    (sqliteEffectLedger runs).prepare draws prep t = (.error e, t) :=
  @Ledger.perform_of_raises (.prepare _ _ _ _ _ _ _) _ _ _ _ _ h

theorem postgres_prepare_of_yields {b : InvocationRow} {c : PostgresLedger.Connection}
    (h : (PostgresLedger.prepareOf prep).Yields ⟨runs, t', draws'.clock, draws'.uuid⟩ b c) :
    (postgresEffectLedger runs).prepare draws' prep t' = (b.fromRow, c.invocations) := by
  have hperform := PostgresLedger.perform_of_yields h
  simp only [postgresEffectLedger, PostgresLedger.performRow, hperform, ok_bind]

theorem postgres_prepare_of_raises {e : LedgerError}
    (h : (PostgresLedger.prepareOf prep).Raises ⟨runs, t', draws'.clock, draws'.uuid⟩ e) :
    (postgresEffectLedger runs).prepare draws' prep t' = (.error e, t') := by
  have hperform := PostgresLedger.perform_of_raises h
  simp only [postgresEffectLedger, PostgresLedger.performRow, hperform]
  rfl

end Prepare

/-- What a preparation does with both ledgers: it finds an invocation, makes one, or raises. -/
inductive Prepared (steady : Prop) (draws draws' : Draws)
    (pairs : List (ToolInvocation × InvocationRow))
    (t : Table ToolInvocation.id) (t' : Table InvocationRow.id) :
    Except LedgerError ToolInvocation × Table ToolInvocation.id →
      Except LedgerError ToolInvocation × Table InvocationRow.id → Prop
  | found {a b : ToolInvocation} (hsame : SameInvocation steady a b)
      (hids : (a.id, b.id) ∈ pairIds pairs) :
      Prepared steady draws draws' pairs t t' (.ok a, t) (.ok b, t')
  | made {a b : ToolInvocation} {u : Table ToolInvocation.id} {u' : Table InvocationRow.id}
      (hsame : SameInvocation steady a b) (ha : a.id = draws.uuid) (hb : b.id = draws'.uuid)
      (hcoupled : Coupled (SameRow steady) u u' (pairs ++ [(a, b.row)])) :
      Prepared steady draws draws' pairs t t' (.ok a, u) (.ok b, u')
  | conflict (message message' : String) :
      Prepared steady draws draws' pairs t t' (.error (.conflict message), t)
        (.error (.conflict message'), t')

theorem prepared (h : Coupled (SameRow steady) t t' pairs) (hclock : draws'.clock = draws.clock)
    {prep : Preparation} (hrun : (runs.find? prep.runId).isSome = true) (hname : prep.toolName ≠ "")
    (hdigest : prep.argumentsDigest.length = 64) (hfresh : ∀ q ∈ pairs, q.1.id ≠ draws.uuid)
    (hfresh' : ∀ q ∈ pairs, q.2.id ≠ draws'.uuid) :
    Prepared steady draws draws' pairs t t' ((sqliteEffectLedger runs).prepare draws prep t)
      ((postgresEffectLedger runs).prepare draws' prep t') := by
  obtain ⟨found, hfound, hfound', hmem⟩ := exists_underKey h prep.runId prep.idempotencyKey
  cases found with
  | none =>
    -- The numbers and the readings of the clock are the same.
    have hnumber := nextNumber_eq h prep.runId
    have hrow : SameRow steady
        (prep.invocation draws.uuid (draws.clock 0) (Ledger.nextNumber prep.runId t.rows) hname
          hdigest)
        (prep.invocation draws'.uuid (draws'.clock 0)
          (PostgresLedger.nextNumber prep.runId t'.rows) hname hdigest).row := by
      rw [hclock, hnumber]
      exact .intro draws'.uuid (Datetime.isUtc_utc _).aware (Datetime.isUtc_utc _)
        (Datetime.isUtc_utc _) (Datetime.isUtc_utc _) fun _ => rfl
    obtain ⟨u, u', hu, hu', hcoupled⟩ := h.exists_insert hfresh hfresh' hrow
    obtain ⟨c, hc, hsame, hid⟩ := hrow.exists_fromRow
    rw [ToolInvocation.fromRow_row] at hc
    obtain rfl := Except.ok.inj hc
    rw [sqlite_prepare_of_yields (Ledger.yields_prepare_new hfound hrun hname hdigest hu),
      postgres_prepare_of_yields (PostgresLedger.yields_prepare_new hfound' hrun hname hdigest hu'),
      ToolInvocation.fromRow_row]
    exact .made hsame rfl rfl hcoupled
  | some p =>
    have hp := hmem p rfl
    obtain ⟨-, -, -, -, hdigests, hnames⟩ := (h.related p hp).columns
    obtain ⟨c, hc, hsame, hid⟩ := (h.related p hp).exists_fromRow
    by_cases hagree : p.1.argumentsDigest = prep.argumentsDigest ∧ p.1.toolName = prep.toolName
    · have hagree' : p.2.argumentsDigest = prep.argumentsDigest ∧ p.2.toolName = prep.toolName := by
        rwa [hdigests, hnames]
      rw [sqlite_prepare_of_yields (Ledger.yields_prepare_found hfound hagree),
        postgres_prepare_of_yields (PostgresLedger.yields_prepare_found hfound' hagree'), hc]
      refine .found hsame ?_
      rw [hid]
      exact List.mem_map_of_mem hp
    · have hagree' : ¬ (p.2.argumentsDigest = prep.argumentsDigest ∧
          p.2.toolName = prep.toolName) := by
        rwa [hdigests, hnames]
      rw [sqlite_prepare_of_raises (Ledger.raises_prepare_found hfound hagree),
        postgres_prepare_of_raises (PostgresLedger.raises_prepare_found hfound' hagree')]
      exact .conflict _ _

/-- The invocation of a row of the Postgres ledger, beside that of the SQLite ledger. -/
def partner (p : ToolInvocation × InvocationRow) : ToolInvocation :=
  if h : p.2.updatedAt.Aware then p.1.stamped p.2.id p.2.updatedAt h else p.1

theorem row_partner {p : ToolInvocation × InvocationRow} (h : SameRow steady p.1 p.2) :
    (partner p).row = p.2 ∧ SameInvocation steady p.1 (partner p) ∧
      (partner p).createdAt = p.1.createdAt := by
  obtain ⟨a, b⟩ := p
  change SameRow steady a b at h
  obtain ⟨id, haware, -, -, -, hsame⟩ := h
  have hpartner : partner (a, (a.stamped id _ haware).row) = a.stamped id _ haware :=
    dif_pos haware
  rw [hpartner]
  exact ⟨rfl, .intro a id _ haware hsame, rfl⟩

theorem row_injective : Function.Injective ToolInvocation.row := by
  intro a b h
  have hok := congrArg InvocationRow.fromRow h
  rw [ToolInvocation.fromRow_row, ToolInvocation.fromRow_row] at hok
  exact Except.ok.inj hok

/-- Both ledgers take the same invocations for stale. -/
theorem stale_iff {a : ToolInvocation} {b : InvocationRow} (h : SameRow steady a b)
    {olderThan : Datetime} (hutc : olderThan.IsUtc) : Ledger.Stale olderThan a ↔
      b.status = .dispatched ∧ b.updatedAt.instant ≤ olderThan.instant := by
  obtain ⟨id, haware, -, hupdated, -, hsame⟩ := h
  refine and_congr_right fun hs => ?_
  rw [Datetime.isoformat_utc_le_iff hupdated hutc]
  have hkept : ¬ a.status.Reconciled := by
    rw [hs]
    rintro (h | h) <;> cases h
  rw [← hsame (Or.inr hkept)]
  rfl

theorem SameRow.reconciled {a : ToolInvocation} {b : InvocationRow} (h : SameRow steady a b)
    {reading reading' : ClockReading} (hsteady : steady → reading' = reading) :
    SameRow steady (PostgresLedger.returned a reading) (PostgresLedger.reconciled b reading') := by
  obtain ⟨id, _, hcreated, -, -, -⟩ := h
  refine .intro id (Datetime.isUtc_utc reading').aware hcreated (Datetime.isUtc_utc _)
    (Datetime.isUtc_utc _) fun hcases => ?_
  rcases hcases with hs | hkept
  · rw [hsteady hs]
    rfl
  · refine absurd ?_ hkept
    change (Ledger.staleTarget a).Reconciled
    rw [Ledger.staleTarget]
    split_ifs
    · exact Or.inl rfl
    · exact Or.inr rfl

variable {olderThan : Datetime}

/-- The pairs of rows that are stale. -/
def stalePairs (olderThan : Datetime) (pairs : List (ToolInvocation × InvocationRow)) :
    List (ToolInvocation × InvocationRow) :=
  pairs.filter fun p => Ledger.Stale olderThan p.1

theorem staleInvocations_perm (h : Coupled (SameRow steady) t t' pairs) :
    (Ledger.staleInvocations t.rows olderThan).Perm
      ((stalePairs olderThan pairs).map Prod.fst) := by
  refine (List.perm_insertionSort _ _).trans ?_
  rw [h.left, List.filter_map]
  exact List.Perm.refl _

theorem staleRows_perm (h : Coupled (SameRow steady) t t' pairs) (hutc : olderThan.IsUtc) :
    (PostgresLedger.staleRows t'.rows olderThan).Perm
      ((stalePairs olderThan pairs).map Prod.snd) := by
  refine (List.perm_insertionSort _ _).trans ?_
  have hfilter : pairs.filter ((fun r : InvocationRow => decide (r.status = .dispatched ∧
        r.updatedAt.instant ≤ olderThan.instant)) ∘ Prod.snd) = stalePairs olderThan pairs :=
    List.filter_congr fun p hp => decide_eq_decide.mpr (stale_iff (h.related p hp) hutc).symm
  rw [h.right, List.filter_map, hfilter]

/-- Both ledgers report the stale invocations in the order of their creation. -/
theorem stale_instants (h : Coupled (SameRow steady) t t' pairs) (hutc : olderThan.IsUtc) :
    (Ledger.staleInvocations t.rows olderThan).map (·.createdAt.instant) =
      (PostgresLedger.staleRows t'.rows olderThan).map (·.createdAt.instant) := by
  have hcreated : ∀ a ∈ t.rows, a.createdAt.IsUtc := by
    intro a ha
    rw [h.left] at ha
    obtain ⟨p, hp, rfl⟩ := List.mem_map.mp ha
    exact (h.related p hp).createdAt_isUtc
  -- The texts of datetimes in UTC are in the order of the instants.
  have hsort : Ledger.staleInvocations t.rows olderThan =
      (t.rows.filter fun r => r.status = .dispatched ∧
        r.updatedAt.isoformat ≤ olderThan.isoformat).insertionSort fun a b =>
          a.createdAt.instant < b.createdAt.instant ∨
            a.createdAt.instant = b.createdAt.instant ∧ a.id ≤ b.id := by
    refine insertionSort_congr fun a ha b hb => ?_
    have ha := hcreated a (List.mem_filter.mp ha).1
    have hb := hcreated b (List.mem_filter.mp hb).1
    rw [Ledger.createdBefore, Datetime.isoformat_utc_lt_iff ha hb,
      Datetime.isoformat_utc_eq_iff ha hb]
  refine List.Perm.eq_of_pairwise (fun x y _ _ hxy hyx => le_antisymm hxy hyx) ?_
    (pairwise_map_insertionSort (fun _ _ => Iff.rfl) _) ?_
  · rw [hsort]
    exact pairwise_map_insertionSort (fun _ _ => Iff.rfl) _
  · refine ((staleInvocations_perm h).map _).trans (List.Perm.trans ?_
      ((staleRows_perm h hutc).map _).symm)
    rw [List.map_map, List.map_map]
    refine List.Perm.of_eq (List.map_congr_left fun p hp => ?_)
    obtain ⟨hrow, -, hcreatedAt⟩ := row_partner (h.related p (List.mem_filter.mp hp).1)
    rw [Function.comp_apply, Function.comp_apply, ← hrow, ← hcreatedAt]
    rfl

theorem reconciled_together {p : ToolInvocation × InvocationRow} (h : SameRow steady p.1 p.2)
    (hids : (p.1.id, p.2.id) ∈ ids.zip ids') {reading reading' : ClockReading}
    (hsteady : steady → reading' = reading) :
    SameReturned steady ids ids' (PostgresLedger.returned p.1 reading)
      (PostgresLedger.returned (partner p) reading') := by
  obtain ⟨hrow, -, -⟩ := row_partner h
  obtain ⟨c, hc, hsame, hid⟩ := (h.reconciled hsteady).exists_fromRow
  rw [← hrow] at hc hids
  have hreturned := ToolInvocation.fromRow_row (PostgresLedger.returned (partner p) reading')
  obtain rfl := Except.ok.inj (hreturned.symm.trans hc)
  exact ⟨hsame, hids⟩

/-- The rows that the Postgres ledger goes through are those of the partners of the stale pairs. -/
theorem exists_stale (h : Coupled (SameRow steady) t t' pairs) (hutc : olderThan.IsUtc) :
    ∃ stale : List ToolInvocation,
      stale.map ToolInvocation.row = PostgresLedger.staleRows t'.rows olderThan ∧
        stale.Perm ((stalePairs olderThan pairs).map partner) := by
  have hrange : PostgresLedger.staleRows t'.rows olderThan ∈
      Set.range (List.map ToolInvocation.row) := by
    rw [Set.range_list_map]
    intro r hr
    obtain ⟨p, hp, rfl⟩ := List.mem_map.mp ((staleRows_perm h hutc).mem_iff.mp hr)
    exact ⟨partner p, (row_partner (h.related p (List.mem_filter.mp hp).1)).1⟩
  obtain ⟨stale, hstale⟩ := hrange
  refine ⟨stale, hstale, ?_⟩
  rw [← List.map_perm_map_iff row_injective, hstale, List.map_map]
  refine (staleRows_perm h hutc).trans (List.Perm.of_eq (List.map_congr_left fun p hp => ?_))
  exact (row_partner (h.related p (List.mem_filter.mp hp).1)).1.symm

/-- A reconciliation of the SQLite ledger, which reads the clock once. -/
theorem sqlite_reconcileStale (runs : Table RunRow.id) (draws : Draws) (olderThan : Datetime)
    (t : Table ToolInvocation.id) : ∃ u,
      (sqliteEffectLedger runs).reconcileStale draws olderThan t =
        (.ok ((Ledger.staleInvocations t.rows olderThan).map
          fun a => PostgresLedger.returned a (draws.clock 0)), u) ∧
      u.rows = t.rows.map fun a =>
        if Ledger.Stale olderThan a then PostgresLedger.returned a (draws.clock 0) else a := by
  have hmem : ∀ a ∈ Ledger.staleInvocations t.rows olderThan,
      a ∈ t.rows ∧ Ledger.Stale olderThan a := fun a ha => Ledger.mem_staleInvocations.mp ha
  have hnodup : ((Ledger.staleInvocations t.rows olderThan).map ToolInvocation.id).Nodup := by
    rw [Ledger.staleInvocations, ((List.perm_insertionSort _ _).map _).nodup_iff]
    exact t.nodup.sublist (List.filter_sublist.map _)
  obtain ⟨c, hloop, hrows⟩ := @Ledger.exists_yields_reconcile
    (Ledger.ticked ⟨runs, t, draws.clock, draws.uuid⟩) (.utc (draws.clock 0))
    (Datetime.isUtc_utc _).aware (Ledger.staleInvocations t.rows olderThan)
    (fun a ha => (hmem a ha).1) (fun a ha => (hmem a ha).2.1) hnodup
  refine ⟨c.invocations, ?_, hrows.trans (List.map_congr_left fun a ha => ?_)⟩
  · refine @Ledger.perform_of_yields (.reconcileStale olderThan) _ _ _ _ _ _ ?_
    change (Ledger.reconcileStale olderThan).Yields _ _ _
    rw [Ledger.reconcileStale, yields_bind]
    refine ⟨_, _, yields_query.mpr ⟨rfl, rfl⟩, ?_⟩
    rw [yields_bind]
    refine ⟨_, _, Ledger.yields_now.mpr ⟨rfl, rfl⟩, ?_⟩
    rw [dif_pos (Datetime.isUtc_utc _).aware, yields_bind]
    exact ⟨(), c, hloop, yields_pure.mpr ⟨rfl, rfl⟩⟩
  · have ha : a ∈ t.rows := ha
    have hcond : a.id ∈ (Ledger.staleInvocations t.rows olderThan).map ToolInvocation.id ↔
        Ledger.Stale olderThan a := by
      rw [t.key_mem_map_iff (fun a ha => (hmem a ha).1) ha, Ledger.mem_staleInvocations,
        and_iff_right ha]
    simp only [hcond]
    rfl

/-- A reconciliation of the Postgres ledger, which reads the clock for every row. -/
theorem postgres_reconcileStale (runs : Table RunRow.id) (draws : Draws)
    {stale : List ToolInvocation}
    (hstale : stale.map ToolInvocation.row = PostgresLedger.staleRows t'.rows olderThan) :
    ∃ (reading : UUID → ClockReading) (u' : Table InvocationRow.id),
      (postgresEffectLedger runs).reconcileStale draws olderThan t' =
        (.ok (stale.map fun a => PostgresLedger.returned a (reading a.id)), u') ∧
      (u'.rows = t'.rows.map fun r =>
        if r.status = .dispatched ∧ r.updatedAt.instant ≤ olderThan.instant then
          PostgresLedger.reconciled r (reading r.id) else r) ∧
      ((∀ n, draws.clock n = draws.clock 0) → ∀ id, reading id = draws.clock 0) := by
  have hmem : ∀ a ∈ stale, a.row ∈ t'.rows ∧ a.status = .dispatched := by
    intro a ha
    have hrow : a.row ∈ PostgresLedger.staleRows t'.rows olderThan := by
      rw [← hstale]
      exact List.mem_map_of_mem ha
    obtain ⟨hrow, hs, -⟩ := PostgresLedger.mem_staleRows.mp hrow
    exact ⟨hrow, hs⟩
  have hids : stale.map ToolInvocation.id =
      (PostgresLedger.staleRows t'.rows olderThan).map InvocationRow.id := by
    rw [← hstale, List.map_map]
    rfl
  have hnodup : (stale.map ToolInvocation.id).Nodup := by
    rw [hids, PostgresLedger.staleRows, ((List.perm_insertionSort _ _).map _).nodup_iff]
    exact t'.nodup.sublist (List.filter_sublist.map _)
  obtain ⟨reading, c', hloop, hrows, hconst⟩ := @PostgresLedger.exists_yields_reconcileRows
    ⟨runs, t', draws.clock, draws.uuid⟩ stale (fun a ha => (hmem a ha).1)
    (fun a ha => (hmem a ha).2) hnodup
  refine ⟨reading, c'.invocations, ?_, hrows.trans (List.map_congr_left fun r hr => ?_), hconst⟩
  · refine @PostgresLedger.perform_of_yields _ _ _ _ _ _ c' ?_
    rw [PostgresLedger.reconcileStale, yields_bind]
    refine ⟨_, _, yields_query.mpr ⟨rfl, rfl⟩, ?_⟩
    rw [← hstale]
    exact hloop
  · have hr : r ∈ t'.rows := hr
    have hcond : r.id ∈ stale.map ToolInvocation.id ↔
        r.status = .dispatched ∧ r.updatedAt.instant ≤ olderThan.instant := by
      rw [hids, t'.key_mem_map_iff (fun r hr => (PostgresLedger.mem_staleRows.mp hr).1) hr,
        PostgresLedger.mem_staleRows, and_iff_right hr]
    simp only [hcond]

section Reconciled

variable {now : ClockReading} {reading : UUID → ClockReading}

/-- What both ledgers return is the same. -/
theorem sameInvocations_reconciled (h : Coupled (SameRow steady) t t' pairs)
    (hutc : olderThan.IsUtc) (hreading : steady → ∀ id, reading id = now)
    (hids : ∀ xy ∈ pairIds pairs, xy ∈ ids.zip ids') {stale : List ToolInvocation}
    (hstale : stale.map ToolInvocation.row = PostgresLedger.staleRows t'.rows olderThan)
    (hperm : stale.Perm ((stalePairs olderThan pairs).map partner)) :
    SameInvocations steady ids ids'
      ((Ledger.staleInvocations t.rows olderThan).map fun a => PostgresLedger.returned a now)
      (stale.map fun a => PostgresLedger.returned a (reading a.id)) := by
  refine ⟨⟨(stalePairs olderThan pairs).map fun p => (PostgresLedger.returned p.1 now,
    PostgresLedger.returned (partner p) (reading (partner p).id)), ?_, ?_, fun q hq => ?_⟩, ?_⟩
  · refine ((staleInvocations_perm h).map _).trans (List.Perm.of_eq ?_)
    rw [List.map_map, List.map_map]
    rfl
  · refine (hperm.map _).trans (List.Perm.of_eq ?_)
    rw [List.map_map, List.map_map]
    rfl
  · obtain ⟨p, hp, rfl⟩ := List.mem_map.mp hq
    have hp := (List.mem_filter.mp hp).1
    exact reconciled_together (h.related p hp) (hids _ (List.mem_map_of_mem hp))
      fun hs => hreading hs _
  · have hinstants := stale_instants h hutc
    rw [← hstale, List.map_map] at hinstants
    rw [List.map_map, List.map_map]
    exact hinstants

/-- The rows stay coupled. -/
theorem coupled_reconciled (h : Coupled (SameRow steady) t t' pairs) (hutc : olderThan.IsUtc)
    (hreading : steady → ∀ id, reading id = now) {u : Table ToolInvocation.id}
    {u' : Table InvocationRow.id}
    (hrows : u.rows = t.rows.map fun a =>
      if Ledger.Stale olderThan a then PostgresLedger.returned a now else a)
    (hrows' : u'.rows = t'.rows.map fun r =>
      if r.status = .dispatched ∧ r.updatedAt.instant ≤ olderThan.instant then
        PostgresLedger.reconciled r (reading r.id) else r) :
    Coupled (SameRow steady) u u' (pairs.map fun p => if Ledger.Stale olderThan p.1 then
      (PostgresLedger.returned p.1 now, PostgresLedger.reconciled p.2 (reading p.2.id))
        else p) := by
  refine ⟨?_, ?_, fun q hq => ?_⟩
  · rw [hrows, h.left, List.map_map, List.map_map]
    refine List.map_congr_left fun p hp => ?_
    simp only [Function.comp_apply]
    split_ifs <;> rfl
  · rw [hrows', h.right, List.map_map, List.map_map]
    refine List.map_congr_left fun p hp => ?_
    simp only [Function.comp_apply, ← stale_iff (h.related p hp) hutc]
    split_ifs <;> rfl
  · obtain ⟨p, hp, rfl⟩ := List.mem_map.mp hq
    split_ifs
    · exact (h.related p hp).reconciled fun hs => hreading hs _
    · exact h.related p hp

end Reconciled

/-- What a reconciliation does with both ledgers. -/
theorem reconcile_together (h : Coupled (SameRow steady) t t' pairs) (hutc : olderThan.IsUtc)
    (hclock : draws'.clock = draws.clock) (hsteady : steady → ∀ n, draws.clock n = draws.clock 0)
    (hids : ∀ xy ∈ pairIds pairs, xy ∈ ids.zip ids') :
    ∃ rows rows' u u' pairs',
      (sqliteEffectLedger runs).reconcileStale draws olderThan t = (.ok rows, u) ∧
      (postgresEffectLedger runs).reconcileStale draws' olderThan t' = (.ok rows', u') ∧
      SameInvocations steady ids ids' rows rows' ∧ pairIds pairs' = pairIds pairs ∧
      Coupled (SameRow steady) u u' pairs' := by
  obtain ⟨stale, hstale, hperm⟩ := exists_stale h hutc
  obtain ⟨u, hfirst, hrows⟩ := sqlite_reconcileStale runs draws olderThan t
  obtain ⟨reading, u', hsecond, hrows', hconst⟩ := postgres_reconcileStale runs draws' hstale
  have hreading : steady → ∀ id, reading id = draws.clock 0 := by
    intro hs id
    rw [hconst fun n => ?_, hclock]
    rw [hclock]
    exact hsteady hs n
  refine ⟨_, _, u, u', _, hfirst, hsecond,
    sameInvocations_reconciled h hutc hreading hids hstale hperm, ?_,
    coupled_reconciled h hutc hreading hrows hrows'⟩
  exact @pairIds_map pairs (Ledger.Stale olderThan) _
    (fun a => PostgresLedger.returned a (draws.clock 0))
    (fun r => PostgresLedger.reconciled r (reading r.id)) (fun _ => rfl) fun _ => rfl

end Calls

/-! ### Sequences of calls -/

/-- Two ledgers after a call with the same answer, in which they may have drawn a UUID each. -/
def AlikeAfter (steady : Prop) (drawn : UUID × UUID)
    (pairs : List (ToolInvocation × InvocationRow))
    (out : Option (Except LedgerError LedgerAnswer) × LedgerClient (Table ToolInvocation.id))
    (out' : Option (Except LedgerError LedgerAnswer) × LedgerClient (Table InvocationRow.id)) :
    Prop :=
  ∃ pairs', LedgersAlike steady out.2 out'.2 pairs' ∧
    AlikeAnswers steady out.2.ids out'.2.ids out.1 out'.1 ∧
    ∀ xy ∈ pairIds pairs', xy ∈ pairIds pairs ∨ xy = drawn

namespace LedgersAlike

variable {steady : Prop} {s : LedgerClient (Table ToolInvocation.id)}
  {t : LedgerClient (Table InvocationRow.id)} {pairs : List (ToolInvocation × InvocationRow)}
  {runs : Table RunRow.id} {drawn : UUID × UUID}

/-- A call about an invocation, which the two clients know by different UUIDs. -/
theorem about (h : LedgersAlike steady s t pairs)
    {f : UUID → Table ToolInvocation.id →
      Except LedgerError ToolInvocation × Table ToolInvocation.id}
    {g : UUID → Table InvocationRow.id → Except LedgerError ToolInvocation × Table InvocationRow.id}
    (place : ℕ) (hfg : ∀ p ∈ pairs, (p.1.id, p.2.id) ∈ s.ids.zip t.ids →
      Together steady s.ids t.ids pairs (f p.1.id s.tables) (g p.2.id t.tables)) :
    AlikeAfter steady drawn pairs (EffectLedger.about f place s)
      (EffectLedger.about g place t) := by
  rw [EffectLedger.about, EffectLedger.about]
  cases hid : s.ids[place]? with
  | none =>
    have hnone : t.ids[place]? = none := by
      rw [List.getElem?_eq_none_iff, ← h.length_ids]
      exact List.getElem?_eq_none_iff.mp hid
    rw [hnone]
    exact ⟨pairs, h, .unknown, fun _ => Or.inl⟩
  | some id =>
    have hlt : place < t.ids.length := h.length_ids ▸ (List.getElem?_eq_some_iff.mp hid).1
    have hid' := List.getElem?_eq_getElem hlt
    have hzip : (id, t.ids[place]) ∈ s.ids.zip t.ids :=
      List.mem_of_getElem? (List.getElem?_zip_eq_some.mpr ⟨hid, hid'⟩)
    obtain ⟨p, hp, heq⟩ := List.mem_map.mp ((h.mem_iff _).mp hzip)
    obtain ⟨halike, pairs', hids, hcoupled⟩ := hfg p hp (heq ▸ hzip)
    obtain ⟨hfst, hsnd⟩ := Prod.mk.inj heq
    rw [hfst, hsnd] at halike hcoupled
    rw [hid']
    refine ⟨pairs', ⟨hcoupled, h.length_ids, fun xy => ?_⟩, halike, fun xy hxy => ?_⟩
    · rw [hids]
      exact h.mem_iff xy
    · exact Or.inl (hids ▸ hxy)

/-- A preparation. -/
theorem prepare (h : LedgersAlike steady s t pairs) {draws draws' : Draws} {p : Preparation}
    (hp : Prepared steady draws draws' pairs s.tables t.tables
      ((sqliteEffectLedger runs).prepare draws p s.tables)
      ((postgresEffectLedger runs).prepare draws' p t.tables)) :
    AlikeAfter steady (draws.uuid, draws'.uuid) pairs
      ((sqliteEffectLedger runs).call draws (.prepare p) s)
      ((postgresEffectLedger runs).call draws' (.prepare p) t) := by
  rw [EffectLedger.call, EffectLedger.call]
  generalize (sqliteEffectLedger runs).prepare draws p s.tables = out at hp
  generalize (postgresEffectLedger runs).prepare draws' p t.tables = out' at hp
  have hzip (a b : UUID) : (s.ids ++ [a]).zip (t.ids ++ [b]) = s.ids.zip t.ids ++ [(a, b)] :=
    List.zip_append h.length_ids
  have hlength (a b : UUID) : (s.ids ++ [a]).length = (t.ids ++ [b]).length := by
    rw [List.length_append, List.length_append, h.length_ids, List.length_singleton,
      List.length_singleton]
  have hlast (a b : UUID) : (a, b) ∈ (s.ids ++ [a]).zip (t.ids ++ [b]) := by
    rw [hzip]
    exact List.mem_append_right _ List.mem_cons_self
  cases hp with
  | @found a b hsame hids =>
    refine ⟨pairs, ⟨h.coupled, hlength a.id b.id, fun xy => ?_⟩,
      .invocation ⟨hsame, hlast a.id b.id⟩, fun _ => Or.inl⟩
    change xy ∈ (s.ids ++ [a.id]).zip (t.ids ++ [b.id]) ↔ _
    rw [hzip, List.mem_append, List.mem_singleton, h.mem_iff]
    exact or_iff_left_of_imp fun heq => heq ▸ hids
  | @made a b u u' hsame ha hb hcoupled =>
    have hids : pairIds (pairs ++ [(a, b.row)]) = pairIds pairs ++ [(a.id, b.id)] := by
      rw [pairIds, List.map_append]
      rfl
    refine ⟨_, ⟨hcoupled, hlength a.id b.id, fun xy => ?_⟩,
      .invocation ⟨hsame, hlast a.id b.id⟩, fun xy hxy => ?_⟩
    · change xy ∈ (s.ids ++ [a.id]).zip (t.ids ++ [b.id]) ↔ _
      rw [hzip, hids, List.mem_append, List.mem_append, h.mem_iff]
    · rw [hids, List.mem_append, List.mem_singleton, ha, hb] at hxy
      exact hxy
  | conflict message message' =>
    refine ⟨pairs, ⟨h.coupled, ?_, fun xy => ?_⟩, .conflict message message', fun _ => Or.inl⟩
    · change (s.ids ++ []).length = (t.ids ++ []).length
      rw [List.append_nil, List.append_nil]
      exact h.length_ids
    · change xy ∈ (s.ids ++ []).zip (t.ids ++ []) ↔ _
      rw [List.append_nil, List.append_nil]
      exact h.mem_iff xy

/-- The answer to a call is the same from both ledgers, and they stay alike. -/
theorem call (h : LedgersAlike steady s t pairs) {i : LedgerInput} (hvalid : i.Valid runs)
    (hsteady : steady → i.Steady) (hfresh : ∀ p ∈ pairs, p.1.id ≠ i.sqliteId)
    (hfresh' : ∀ p ∈ pairs, p.2.id ≠ i.postgresId) :
    AlikeAfter steady (i.sqliteId, i.postgresId) pairs
      ((sqliteEffectLedger runs).call ⟨i.clock, i.sqliteId⟩ i.call s)
      ((postgresEffectLedger runs).call ⟨i.clock, i.postgresId⟩ i.call t) := by
  obtain ⟨c, clock, sqliteId, postgresId⟩ := i
  have hclock : (⟨clock, postgresId⟩ : Draws).clock = (⟨clock, sqliteId⟩ : Draws).clock := rfl
  cases c with
  | prepare p =>
    obtain ⟨hrun, hname, hdigest⟩ := hvalid
    exact h.prepare (prepared h.coupled hclock hrun hname hdigest hfresh hfresh')
  | get place => exact h.about place fun p hp hids => get_together h.coupled hp hids
  | markDispatched place =>
    refine h.about place fun p hp hids => ?_
    exact transition_together h.coupled hp hids hclock (.markDispatched p.1.id)
      (fun c' hc => ⟨(), Ledger.perform_of_yields hc⟩) fun e he => Ledger.perform_of_raises he
  | complete place result =>
    refine h.about place fun p hp hids => ?_
    exact transition_together h.coupled hp hids hclock (.complete p.1.id result)
      (fun c' hc => ⟨(), Ledger.perform_of_yields hc⟩) fun e he => Ledger.perform_of_raises he
  | fail place error =>
    refine h.about place fun p hp hids => ?_
    exact transition_together h.coupled hp hids hclock (.fail p.1.id error)
      (fun c' hc => ⟨(), Ledger.perform_of_yields hc⟩) fun e he => Ledger.perform_of_raises he
  | reconcileStale olderThan =>
    obtain ⟨rows, rows', u, u', pairs', hrows, hrows', hsame, hids, hcoupled⟩ :=
      @reconcile_together steady s.tables t.tables pairs s.ids t.ids runs _ _ olderThan h.coupled
        hvalid hclock hsteady fun xy hxy => (h.mem_iff xy).mpr hxy
    simp only [EffectLedger.call, hrows, hrows']
    refine ⟨pairs', ⟨hcoupled, h.length_ids, fun xy => ?_⟩, .invocations hsame, fun xy hxy => ?_⟩
    · rw [hids]
      exact h.mem_iff xy
    · exact Or.inl (hids ▸ hxy)
  | watermark runId =>
    obtain ⟨n, hn, hn'⟩ := watermark_eq h.coupled runs ⟨clock, sqliteId⟩ ⟨clock, postgresId⟩ runId
    simp only [EffectLedger.call, hn, hn']
    exact ⟨pairs, h, .count n, fun _ => Or.inl⟩

end LedgersAlike

section Runs

variable {runs : Table RunRow.id} {steady : Prop} {inputs : List LedgerInput}

/-- Calls as the tool executor makes them, with UUIDs that are drawn only once. -/
structure Wellformed (runs : Table RunRow.id) (inputs : List LedgerInput) : Prop where
  valid : ∀ i ∈ inputs, i.Valid runs
  sqliteIds : (inputs.map LedgerInput.sqliteId).Nodup
  postgresIds : (inputs.map LedgerInput.postgresId).Nodup

theorem Wellformed.of_prefix {before : List LedgerInput} (h : Wellformed runs inputs)
    (hpre : before <+: inputs) : Wellformed runs before :=
  ⟨fun i hi => h.valid i (hpre.subset hi), h.sqliteIds.sublist (hpre.sublist.map _),
    h.postgresIds.sublist (hpre.sublist.map _)⟩

theorem sqliteAfter_concat (before : List LedgerInput) (i : LedgerInput) :
    sqliteAfter runs (before ++ [i]) = ((sqliteEffectLedger runs).call ⟨i.clock, i.sqliteId⟩ i.call
      (sqliteAfter runs before)).2 := by
  rw [sqliteAfter, List.foldl_append]
  rfl

theorem postgresAfter_concat (before : List LedgerInput) (i : LedgerInput) :
    postgresAfter runs (before ++ [i]) = ((postgresEffectLedger runs).call
      ⟨i.clock, i.postgresId⟩ i.call (postgresAfter runs before)).2 := by
  rw [postgresAfter, List.foldl_append]
  rfl

/-- The ledgers after some calls are alike, and their UUIDs are those that were drawn. -/
def AlikeRun (steady : Prop) (runs : Table RunRow.id) (inputs : List LedgerInput) : Prop :=
  ∃ pairs, LedgersAlike steady (sqliteAfter runs inputs) (postgresAfter runs inputs) pairs ∧
    ∀ xy ∈ pairIds pairs, ∃ i ∈ inputs, xy = (i.sqliteId, i.postgresId)

/-- A further call. -/
theorem AlikeRun.concat {before : List LedgerInput} {i : LedgerInput}
    (h : AlikeRun steady runs before) (hwell : Wellformed runs (before ++ [i]))
    (hsteady : steady → i.Steady) : AlikeRun steady runs (before ++ [i]) ∧
      AlikeAnswers steady (sqliteAfter runs (before ++ [i])).ids
        (postgresAfter runs (before ++ [i])).ids (i.sqliteAnswer runs before)
        (i.postgresAnswer runs before) := by
  obtain ⟨pairs, halike, hdrawn⟩ := h
  have hfresh : ∀ p ∈ pairs, p.1.id ≠ i.sqliteId ∧ p.2.id ≠ i.postgresId := by
    intro p hp
    obtain ⟨j, hj, heq⟩ := hdrawn _ (List.mem_map_of_mem hp)
    obtain ⟨hfst, hsnd⟩ := Prod.mk.inj heq
    have hids := hwell.sqliteIds
    have hids' := hwell.postgresIds
    rw [List.map_append, List.nodup_append] at hids hids'
    rw [hfst, hsnd]
    exact ⟨hids.2.2 _ (List.mem_map_of_mem hj) _ List.mem_cons_self,
      hids'.2.2 _ (List.mem_map_of_mem hj) _ List.mem_cons_self⟩
  obtain ⟨pairs', halike', hanswers, hids⟩ := halike.call
    (hwell.valid i (List.mem_append_right _ List.mem_cons_self)) hsteady
    (fun p hp => (hfresh p hp).1) fun p hp => (hfresh p hp).2
  rw [← sqliteAfter_concat, ← postgresAfter_concat] at halike' hanswers
  refine ⟨⟨pairs', halike', fun xy hxy => ?_⟩, hanswers⟩
  rcases hids xy hxy with hxy | rfl
  · obtain ⟨j, hj, heq⟩ := hdrawn xy hxy
    exact ⟨j, List.mem_append_left _ hj, heq⟩
  · exact ⟨i, List.mem_append_right _ List.mem_cons_self, rfl⟩

theorem alikeRun (h : Wellformed runs inputs) (hsteady : steady → ∀ i ∈ inputs, i.Steady) :
    AlikeRun steady runs inputs := by
  induction inputs using List.reverseRecOn with
  | nil =>
    exact ⟨[], ⟨Coupled.empty, rfl, fun xy => Iff.rfl⟩, fun xy hxy => absurd hxy List.not_mem_nil⟩
  | append_singleton before i ih =>
    refine (AlikeRun.concat (ih (h.of_prefix (List.prefix_append _ _)) fun hs j hj => ?_) h
      fun hs => ?_).1
    · exact hsteady hs j (List.mem_append_left _ hj)
    · exact hsteady hs i (List.mem_append_right _ List.mem_cons_self)

end Runs

/-- **Observational equivalence.** Along every sequence of calls, both ledgers give the same answer
to each call and have the same rows after it, but for the UUIDs and for the times of reconciliations
during which the clock went on. -/
theorem ledgers_alike (runs : Table RunRow.id) {inputs : List LedgerInput}
    (h : Wellformed runs inputs) :
    (∀ before i after, inputs = before ++ i :: after →
      AlikeAnswers (∀ j ∈ before ++ [i], j.Steady) (sqliteAfter runs (before ++ [i])).ids
        (postgresAfter runs (before ++ [i])).ids (i.sqliteAnswer runs before)
        (i.postgresAnswer runs before)) ∧
    ∀ before, before <+: inputs → ∃ pairs, LedgersAlike (∀ j ∈ before, j.Steady)
      (sqliteAfter runs before) (postgresAfter runs before) pairs := by
  refine ⟨fun before i after hinputs => ?_, fun before hpre => ?_⟩
  · have hpre : before ++ [i] <+: inputs := ⟨after, by rw [hinputs, List.append_assoc]; rfl⟩
    have hwell := h.of_prefix hpre
    have hbefore := alikeRun (hwell.of_prefix (List.prefix_append _ _))
      fun (hs : ∀ j ∈ before ++ [i], j.Steady) j hj => hs j (List.mem_append_left _ hj)
    exact (hbefore.concat hwell fun hs => hs i (List.mem_append_right _ List.mem_cons_self)).2
  · obtain ⟨pairs, halike, -⟩ := alikeRun (h.of_prefix hpre) fun hs => hs
    exact ⟨pairs, halike⟩

section Sample

/-- A call of `prepare` for the sample run. -/
def samplePreparation : Preparation where
  runId := Sample.run.id
  toolName := "lookup"
  effectClass := .readOnly
  argumentsDigest := "44136fa355b3678a1146ad16f7e8649e94fb4fc21fe77e8310c060f61caaff8a"
  idempotencyKey := none
  nodeId := none
  checkpointSequence := none

/-- A table with the sample run. -/
def sampleRuns : Table RunRow.id where
  rows := [RunRow.ofRun Sample.run ""]
  nodup := List.nodup_singleton _

/-- A clock of which the readings are a second apart. -/
def tickingClock (s : Fin 900) : ℕ → ClockReading := fun n => Sample.reading ⟨s + n % 100, by omega⟩

/-- Two dispatched invocations that are reconciled while the clock goes on. -/
def sampleInputs : List LedgerInput :=
  [⟨.prepare samplePreparation, tickingClock 0, ⟨1⟩, ⟨1⟩⟩,
    ⟨.prepare samplePreparation, tickingClock 1, ⟨2⟩, ⟨2⟩⟩,
    ⟨.markDispatched 0, tickingClock 2, ⟨3⟩, ⟨3⟩⟩,
    ⟨.markDispatched 1, tickingClock 3, ⟨4⟩, ⟨4⟩⟩]

/-- The reconciliation. -/
def sampleReconciliation : LedgerInput :=
  ⟨.reconcileStale (.utc (Sample.reading 500)), tickingClock 600, ⟨5⟩, ⟨5⟩⟩

theorem wellformed_sample : Wellformed sampleRuns (sampleInputs ++ [sampleReconciliation]) := by
  refine ⟨fun i hi => ?_, by decide +kernel, by decide +kernel⟩
  simp only [sampleInputs, List.cons_append, List.nil_append, List.mem_cons, List.not_mem_nil,
    or_false] at hi
  rcases hi with rfl | rfl | rfl | rfl | rfl
  · exact ⟨by decide +kernel, by decide, by decide⟩
  · exact ⟨by decide +kernel, by decide, by decide⟩
  · trivial
  · trivial
  · exact Datetime.isUtc_utc _

/-- The answers to a reconciliation are the same but for the times of the changes. -/
theorem ledgers_alike_sample :
    AlikeAnswers (∀ j ∈ sampleInputs ++ [sampleReconciliation], j.Steady)
      (sqliteAfter sampleRuns (sampleInputs ++ [sampleReconciliation])).ids
      (postgresAfter sampleRuns (sampleInputs ++ [sampleReconciliation])).ids
      (sampleReconciliation.sqliteAnswer sampleRuns sampleInputs)
      (sampleReconciliation.postgresAnswer sampleRuns sampleInputs) :=
  (ledgers_alike sampleRuns wellformed_sample).1 sampleInputs sampleReconciliation [] rfl

/-- The times of the last changes of some invocations. -/
def updates : Option (Except LedgerError LedgerAnswer) → List ℕ
  | some (.ok (.invocations rows)) => rows.map fun a => a.updatedAt.wall
  | _ => []

/-- In answers that are the same, they are the same. -/
theorem AlikeAnswers.updates_perm {ids ids' : List UUID}
    {x y : Option (Except LedgerError LedgerAnswer)} (h : AlikeAnswers True ids ids' x y) :
    (updates x).Perm (updates y) := by
  cases h with
  | unknown => exact List.Perm.refl _
  | invocation h => exact List.Perm.refl _
  | count n => exact List.Perm.refl _
  | conflict message message' => exact List.Perm.refl _
  | @invocations rows rows' h =>
    obtain ⟨⟨pairs, hrows, hrows', hsame⟩, -⟩ := h
    have hpairs : (pairs.map Prod.fst).map (fun a => (a.updatedAt.wall : ℕ)) =
        (pairs.map Prod.snd).map fun a => (a.updatedAt.wall : ℕ) := by
      rw [List.map_map, List.map_map]
      refine List.map_congr_left fun p hp => ?_
      obtain ⟨a, b⟩ := p
      obtain ⟨hsame, -⟩ := hsame _ hp
      change SameInvocation True a b at hsame
      obtain ⟨_, _, _, hupdated⟩ := hsame
      rw [Function.comp_apply, Function.comp_apply, ← hupdated (Or.inl trivial)]
      rfl
    exact (hrows.map _).trans (hpairs ▸ (hrows'.map _).symm)

/-- A clock that goes on during a reconciliation is read once by the one ledger and for every
invocation by the other. -/
theorem not_ledgers_alike : ¬ ∀ (runs : Table RunRow.id) (inputs : List LedgerInput),
    Wellformed runs inputs → ∀ before i after, inputs = before ++ i :: after →
      AlikeAnswers True (sqliteAfter runs (before ++ [i])).ids
        (postgresAfter runs (before ++ [i])).ids (i.sqliteAnswer runs before)
        (i.postgresAnswer runs before) := by
  intro h
  have hperm := (h _ _ wellformed_sample sampleInputs sampleReconciliation [] rfl).updates_perm
  revert hperm
  decide +kernel

end Sample

end OpenRath
