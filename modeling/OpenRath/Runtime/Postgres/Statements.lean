import OpenRath.Library.Simulation
import OpenRath.Runtime.Postgres.Store
import OpenRath.Runtime.Sqlite.Operations

/-!
# The statements of the two stores, compared

The tables of two stores are alike when they agree in everything but the `updated_at` column of
the leases. Each statement and helper of the SQLite store, started on alike tables in UTC with the
same clock, ends like its counterpart of the Postgres store: both return the same, on alike
tables, or both raise errors of the same class.

What is known about the table `runs` between two statements is carried along as a condition on
that table (`With`), as most statements leave it alone.

## Main definitions

* `StoreError.errorClass`.
* `Database.Regular`, `Database.Alike`, `With`.
* `SameEnd`, `SameResult`: bodies that end alike, and those that also return the same.

## Main results

* `Postgres.sim_readRun`, `Postgres.sim_requiredLease`, `Postgres.sim_appendEvent`,
  `Postgres.sim_insertCheckpoint`, `Postgres.sim_insertRun`, `Postgres.sim_updateRunsReturning`,
  `Postgres.sim_requireUpdated`, `Postgres.sim_updateStatus`, `Postgres.sim_updateLease`,
  `Postgres.sim_upsertLease`: the statements that differ.
-/

namespace OpenRath

/-! ### Alike tables -/

/-- The class of an error. -/
inductive ErrorClass
  | conflict
  | invalidTransition
  | keyError
  | valueError
  | overflowError
  | integrityError
deriving DecidableEq

/-- The class of an error. -/
def StoreError.errorClass : StoreError → ErrorClass
  | .conflict _ _ => .conflict
  | .invalidTransition _ _ => .invalidTransition
  | .keyError _ => .keyError
  | .valueError _ => .valueError
  | .overflowError => .overflowError
  | .integrityError => .integrityError

/-- Errors of one class. -/
def SameClass (e e' : StoreError) : Prop := e.errorClass = e'.errorClass

/-- The columns of a lease but `updated_at`, in whose place stands `created_at`. -/
def LeaseRow.core (l : LeaseRow) : LeaseRow := { l with updatedAt := l.createdAt }

theorem LeaseRow.core_eq_iff {l l' : LeaseRow} : l.core = l'.core ↔
    l.id = l'.id ∧ l.runId = l'.runId ∧ l.holderWorkerId = l'.holderWorkerId ∧
      l.expiresAt = l'.expiresAt ∧ l.fencingToken = l'.fencingToken ∧ l.active = l'.active ∧
      l.createdAt = l'.createdAt := by
  simp [core]

/-- The timestamps that a store reads back are in UTC, and no two checkpoints of a run have the
same number. -/
structure Database.Regular (db : Database) : Prop where
  runs : ∀ r ∈ db.runs.rows, r.createdAt.IsUtc ∧ r.updatedAt.IsUtc
  interrupts : ∀ i ∈ db.interrupts.rows, i.createdAt.IsUtc ∧ ∀ e ∈ i.expiresAt, e.IsUtc
  leases : ∀ l ∈ db.runLeases.rows, l.expiresAt.IsUtc ∧ l.createdAt.IsUtc
  checkpoints : ∀ a ∈ db.checkpoints.rows, ∀ b ∈ db.checkpoints.rows,
    a.runId = b.runId → a.sequence = b.sequence → a = b

theorem Database.regular_empty : Database.empty.Regular where
  runs _ hr := absurd hr List.not_mem_nil
  interrupts _ hi := absurd hi List.not_mem_nil
  leases _ hl := absurd hl List.not_mem_nil
  checkpoints _ ha := absurd ha List.not_mem_nil

/-- The tables agree in everything but the `updated_at` of leases. -/
structure Database.Alike (db db' : Database) : Prop where
  runs_eq : db'.runs = db.runs
  events_eq : db'.runEvents = db.runEvents
  checkpoints_eq : db'.checkpoints = db.checkpoints
  interrupts_eq : db'.interrupts = db.interrupts
  leases_eq : db'.runLeases.rows.map LeaseRow.core = db.runLeases.rows.map LeaseRow.core

theorem Database.Alike.refl (db : Database) : db.Alike db := ⟨rfl, rfl, rfl, rfl, rfl⟩

/-- Two connections on alike tables in UTC, with the same clock, whose runs satisfy a
condition. -/
structure With (F : Table RunRow.id → Prop) (s t : Connection) : Prop where
  clock_eq : t.clock = s.clock
  alike : s.db.Alike t.db
  regular : s.db.Regular
  runs : F s.db.runs

namespace With

variable {F G : Table RunRow.id → Prop} {s t : Connection}

theorem imp (h : With F s t) (hFG : F s.db.runs → G s.db.runs) : With G s t :=
  ⟨h.clock_eq, h.alike, h.regular, hFG h.runs⟩

theorem and (h : With F s t) (hG : G s.db.runs) : With (fun runs => F runs ∧ G runs) s t :=
  h.imp fun hF => ⟨hF, hG⟩

/-- The leases of the two tables under one key differ in `updated_at` only. -/
theorem find?_leases (h : With F s t) (k : UUID) :
    (t.db.runLeases.find? k).map LeaseRow.core = (s.db.runLeases.find? k).map LeaseRow.core := by
  have hmap : ∀ rows : List LeaseRow, (rows.find? fun l => l.runId = k).map LeaseRow.core =
      (rows.map LeaseRow.core).find? fun l => l.runId = k := by
    intro rows
    rw [List.find?_map]
    rfl
  rw [Table.find?, Table.find?, hmap, hmap, h.alike.leases_eq]

theorem lease_utc (h : With F s t) {k : UUID} {l : LeaseRow}
    (hl : s.db.runLeases.find? k = some l) : l.expiresAt.IsUtc ∧ l.createdAt.IsUtc :=
  h.regular.leases l (Table.mem_of_find? hl)

theorem run_utc (h : With F s t) {k : UUID} {r : RunRow} (hr : s.db.runs.find? k = some r) :
    r.createdAt.IsUtc ∧ r.updatedAt.IsUtc :=
  h.regular.runs r (Table.mem_of_find? hr)

theorem setEvents (h : With F s t) (events : Table RunEvent.key) :
    With F (s.setEvents events) (t.setEvents events) :=
  ⟨h.clock_eq, ⟨h.alike.runs_eq, rfl, h.alike.checkpoints_eq, h.alike.interrupts_eq,
    h.alike.leases_eq⟩, ⟨h.regular.runs, h.regular.interrupts, h.regular.leases,
    h.regular.checkpoints⟩, h.runs⟩

theorem setCheckpoints (h : With F s t) {checkpoints : Table Checkpoint.id}
    (hnumber : ∀ a ∈ checkpoints.rows, ∀ b ∈ checkpoints.rows,
      a.runId = b.runId → a.sequence = b.sequence → a = b) :
    With F (s.setCheckpoints checkpoints) (t.setCheckpoints checkpoints) :=
  ⟨h.clock_eq, ⟨h.alike.runs_eq, h.alike.events_eq, rfl, h.alike.interrupts_eq,
    h.alike.leases_eq⟩, ⟨h.regular.runs, h.regular.interrupts, h.regular.leases, hnumber⟩,
    h.runs⟩

theorem setInterrupts (h : With F s t) {interrupts : Table Interrupt.id}
    (hutc : ∀ i ∈ interrupts.rows, i.createdAt.IsUtc ∧ ∀ e ∈ i.expiresAt, e.IsUtc) :
    With F (s.setInterrupts interrupts) (t.setInterrupts interrupts) :=
  ⟨h.clock_eq, ⟨h.alike.runs_eq, h.alike.events_eq, h.alike.checkpoints_eq, rfl,
    h.alike.leases_eq⟩, ⟨h.regular.runs, hutc, h.regular.leases, h.regular.checkpoints⟩,
    h.runs⟩

theorem setLeases (h : With F s t) {leases leases' : Table LeaseRow.runId}
    (hcore : leases'.rows.map LeaseRow.core = leases.rows.map LeaseRow.core)
    (hutc : ∀ l ∈ leases.rows, l.expiresAt.IsUtc ∧ l.createdAt.IsUtc) :
    With F (s.setLeases leases) (t.setLeases leases') :=
  ⟨h.clock_eq, ⟨h.alike.runs_eq, h.alike.events_eq, h.alike.checkpoints_eq,
    h.alike.interrupts_eq, hcore⟩, ⟨h.regular.runs, h.regular.interrupts, hutc,
    h.regular.checkpoints⟩, h.runs⟩

theorem setRuns (h : With F s t) {runs : Table RunRow.id} (hone : OneActivePerSession runs.rows)
    (hutc : ∀ r ∈ runs.rows, r.createdAt.IsUtc ∧ r.updatedAt.IsUtc) (hG : G runs) :
    With G (s.setRuns runs hone) (t.setRuns runs hone) :=
  ⟨h.clock_eq, ⟨rfl, h.alike.events_eq, h.alike.checkpoints_eq, h.alike.interrupts_eq,
    h.alike.leases_eq⟩, ⟨hutc, h.regular.interrupts, h.regular.leases, h.regular.checkpoints⟩,
    hG⟩

end With

/-- Two bodies that, from states related by `P`, both return or both raise errors of one
class. -/
abbrev SameEnd {α β : Type} (P : Connection → Connection → Prop) (x : Sql α) (y : Sql β)
    (Q : α → β → Connection → Connection → Prop) : Prop :=
  Tx.Sim SameClass P x y Q

/-- Two bodies that, on alike tables with a condition on the runs, both return the same value, on
alike tables with a condition on the value and the runs, or both raise errors of one class. -/
def SameResult {α : Type} (F : Table RunRow.id → Prop) (x y : Sql α)
    (G : α → Table RunRow.id → Prop) : Prop :=
  SameEnd (With F) x y fun a b s t => b = a ∧ With (G a) s t

namespace SameResult

open Tx

variable {α β γ : Type} {F : Table RunRow.id → Prop} {x y : Sql α}
  {G H : α → Table RunRow.id → Prop}

theorem bind {f : α → Sql β} {g : α → Sql γ} {Q : β → γ → Connection → Connection → Prop}
    (h : SameResult F x y G) (hfg : ∀ a, SameEnd (With (G a)) (f a) (g a) Q) :
    SameEnd (With F) (x >>= f) (y >>= g) Q := by
  refine Sim.bind h fun a b => ⟨fun s t ⟨hab, hst⟩ => ?_⟩
  subst hab
  exact (hfg _).ends_alike s t hst

theorem imp (h : SameResult F x y G) (hGH : ∀ a runs, G a runs → H a runs) :
    SameResult F x y H :=
  Sim.consequence h (fun _ _ h => h) fun a _ _ _ ⟨hab, hst⟩ => ⟨hab, hst.imp (hGH a _)⟩

end SameResult

namespace Postgres

open Tx Connection

variable {α β : Type} {F : Table RunRow.id → Prop} {x y : Sql α}
  {G : α → Table RunRow.id → Prop}

/-! ### Rules -/

theorem sameResult_pure (a : α) : SameResult F (pure a) (pure a) fun b runs => F runs ∧ b = a :=
  ⟨fun _ _ h => ⟨rfl, h.and rfl⟩⟩

/-- What is known of the values alone can be taken out of the condition. -/
theorem assuming {γ : Type} {c : Prop} {x : Sql α} {y : Sql γ}
    {Q : α → γ → Connection → Connection → Prop} (h : c → SameEnd (With F) x y Q) :
    SameEnd (With fun runs => F runs ∧ c) x y Q :=
  ⟨fun s t hst => (h hst.runs.2).ends_alike s t (hst.imp And.left)⟩

theorem sameResult_raise {e e' : StoreError} (h : SameClass e e') :
    SameResult F (raise e) (raise e') G :=
  sim_raise h

theorem sameResult_raiseUnless {c c' : Prop} [Decidable c] [Decidable c'] {e e' : StoreError}
    (hc : c ↔ c') (h : SameClass e e') :
    SameResult F (raiseUnless c e) (raiseUnless c' e') fun _ runs => F runs ∧ c :=
  (sim_raiseUnless (fun _ _ _ => hc) h).consequence (fun _ _ h => h)
    fun _ _ _ _ ⟨hst, hc⟩ => ⟨rfl, hst.and hc⟩

/-- The same value is read on both sides if it is the same on alike tables. -/
theorem sameResult_query {f g : Connection → α} (h : ∀ s t, With F s t → g t = f s)
    (hG : ∀ s t, With F s t → G (f s) s.db.runs) : SameResult F (query f) (query g) G :=
  ⟨fun s t hst => ⟨h s t hst, hst.imp fun _ => hG s t hst⟩⟩

theorem sameResult_read {f g : Connection → α} (h : ∀ s t, With F s t → g t = f s) :
    SameResult F (query f) (query g) fun _ => F :=
  sameResult_query h fun _ _ h => h.runs

theorem sameResult_ofExcept (a : Except StoreError α) :
    SameResult F (ofExcept a) (ofExcept a) fun v runs => F runs ∧ a = .ok v := by
  refine ⟨fun s t hst => ?_⟩
  rcases a with e | a
  · exact rfl
  · exact ⟨rfl, hst.and rfl⟩

/-! ### Reading -/

theorem sim_runs (F : Table RunRow.id → Prop) : SameResult F (query fun c => c.db.runs)
    (query fun c => c.db.runs) fun a runs => F runs ∧ runs = a :=
  sameResult_query (fun _ _ h => h.alike.runs_eq) fun _ _ h => ⟨h.runs, rfl⟩

theorem sim_findRun (F : Table RunRow.id → Prop) (k : UUID) :
    SameResult F (query fun c => c.db.runs.find? k) (query fun c => c.db.runs.find? k)
      fun a runs => F runs ∧ runs.find? k = a :=
  sameResult_query (fun _ _ h => by rw [h.alike.runs_eq]) fun _ _ h => ⟨h.runs, rfl⟩

theorem sim_requiredRunRow (F : Table RunRow.id → Prop) (k : UUID) :
    SameResult F (SQLite.requiredRunRow k) (requiredRunRow k) fun row runs =>
      F runs ∧ runs.find? k = some row := by
  refine SameResult.bind (sim_findRun F k) fun found => ?_
  rcases found with _ | row
  · exact sameResult_raise rfl
  · exact (sameResult_pure row).imp fun _ _ ⟨h, ha⟩ => ha ▸ h

theorem sim_runFromRow {k : UUID} {row : RunRow} (hF : ∀ runs, F runs → runs.find? k = some row) :
    SameResult F (ofExcept (SQLite.runFromRow row)) (ofExcept (runFromRow row)) fun run runs =>
      F runs ∧ ∃ h, run = row.toRun h := by
  refine ⟨fun s t hst => ?_⟩
  have haware : row.updatedAt.Aware := (hst.run_utc (hF _ hst.runs)).2.aware
  rw [SQLite.runFromRow, runFromRow, dif_pos haware, dif_pos haware]
  exact ⟨rfl, hst.and ⟨haware, rfl⟩⟩

/-- The run is the one at the key `k`. -/
def Reads (k : UUID) (run : Run) (runs : Table RunRow.id) : Prop :=
  ∃ row, runs.find? k = some row ∧ ∃ h, run = row.toRun h

theorem Reads.id_eq {k : UUID} {run : Run} {runs : Table RunRow.id} (h : Reads k run runs) :
    run.id = k := by
  obtain ⟨row, hrow, h, rfl⟩ := h
  exact (RunRow.toRun_id row h).trans (Table.key_of_find? hrow)

theorem sim_readRun (F : Table RunRow.id → Prop) (k : UUID) :
    SameResult F (SQLite.readRun k) (readRun k) fun run runs => F runs ∧ Reads k run runs := by
  refine SameResult.bind (sim_requiredRunRow F k) fun row => ?_
  exact (sim_runFromRow fun _ h => h.2).imp fun _ _ ⟨h, hrun⟩ => ⟨h.1, row, h.2, hrun⟩

theorem sim_requireReference (F : Table RunRow.id → Prop) (k : UUID) :
    SameResult F (SQLite.requireReference k) (SQLite.requireReference k) fun _ => F := by
  refine SameResult.bind (sim_findRun F k) fun found => ?_
  rcases found with _ | row
  · exact sameResult_raise rfl
  · exact (sameResult_pure ()).imp fun _ _ h => h.1.1

theorem sim_now (F : Table RunRow.id → Prop) :
    SameResult F now now fun d runs => F runs ∧ d.IsUtc := by
  refine ⟨fun s t h => ⟨by rw [h.clock_eq], ?_⟩⟩
  exact ⟨by simp only [tick, h.clock_eq], h.alike, h.regular, h.runs, Datetime.isUtc_utc _⟩

theorem sim_nowOr (F : Table RunRow.id → Prop) {d : Option Datetime} (hd : ∀ e ∈ d, e.IsUtc) :
    SameResult F (nowOr d) (nowOr d) fun d runs => F runs ∧ d.IsUtc := by
  rcases d with _ | d
  · exact sim_now F
  · exact (sameResult_pure d).imp fun _ _ ⟨h, hb⟩ => ⟨h, hb ▸ hd d rfl⟩

/-- The leases that the two stores read differ in `updated_at` only. -/
theorem sim_findLease (F : Table RunRow.id → Prop) (k : UUID) :
    SameEnd (With F) (query fun c => c.db.runLeases.find? k)
      (query fun c => c.db.runLeases.find? k) fun a b s t =>
        (b.map LeaseRow.core = a.map LeaseRow.core ∧
          ∀ l ∈ a, l.expiresAt.IsUtc ∧ l.createdAt.IsUtc ∧ l.runId = k) ∧ With F s t := by
  refine ⟨fun s t h => ⟨⟨h.find?_leases k, fun l hl => ?_⟩, h⟩⟩
  obtain ⟨hexpires, hcreated⟩ := h.lease_utc hl
  exact ⟨hexpires, hcreated, Table.key_of_find? hl⟩

/-- A lease that both stores find passes or fails the same checks in both. -/
theorem sim_requiredLease (F : Table RunRow.id → Prop) (k : UUID) (workerId : String)
    (token : ℤ) : SameEnd (With F) (SQLite.requiredLease k workerId token)
      (requiredLease k workerId token) fun l l' s t =>
        (l'.core = l.core ∧ l.createdAt.IsUtc ∧ l.runId = k ∧ l.holderWorkerId = workerId) ∧
          With F s t := by
  refine (sim_findLease F k).bind fun found found' => ?_
  refine Sim.intro fun s t ⟨⟨hcore, hfound⟩, h⟩ => Sim.consequence ?_ (P := With F)
    (fun s' t' ⟨hs, ht⟩ => hs ▸ ht ▸ h) fun _ _ _ _ h => h
  rcases found with _ | l <;> rcases found' with _ | l'
  · exact sim_raise rfl
  · simp at hcore
  · simp at hcore
  obtain ⟨hutc, hcreated, hkey⟩ := hfound l rfl
  have hcore' : l'.core = l.core := by simpa using hcore
  obtain ⟨-, -, hholder, hexpires, htoken, hactive, -⟩ := LeaseRow.core_eq_iff.mp hcore'
  refine SameResult.bind (sameResult_raiseUnless (by rw [hholder, htoken, hactive]) rfl)
    fun _ => assuming fun hl => ?_
  have hparse : SQLite.parseTime l.expiresAt = .ok l.expiresAt := if_pos hutc.aware
  rw [hparse, ofExcept_ok_bind]
  refine SameResult.bind (sim_now F) fun d => assuming fun _ => ?_
  refine SameResult.bind (sameResult_raiseUnless (by rw [hexpires]) rfl)
    fun _ => assuming fun _ => ?_
  exact ⟨fun s t h => ⟨⟨hcore', hcreated, hkey, hl.2.1⟩, h⟩⟩

/-! ### Writing runs -/

section Update

variable {p : RunRow → Prop} [DecidablePred p] {f : RunRow → RunRow} {hf : ∀ r, (f r).id = r.id}

/-- The table is that of runs satisfying `F` after an update that matched `n` rows and returned a
row. -/
def Updated (F : Table RunRow.id → Prop) (p : RunRow → Prop) [DecidablePred p]
    (f : RunRow → RunRow) (hf : ∀ r, (f r).id = r.id) (n : ℕ) (row : Option RunRow)
    (runs : Table RunRow.id) : Prop :=
  ∃ runs', F runs' ∧ runs = runs'.update p f hf ∧ n = runs'.rowcount p ∧
    row = (runs'.rows.find? fun r => p r).map f

theorem sim_updateRuns (F : Table RunRow.id → Prop)
    (hutc : ∀ r, r.createdAt.IsUtc → r.updatedAt.IsUtc →
      (f r).createdAt.IsUtc ∧ (f r).updatedAt.IsUtc) :
    SameResult F (SQLite.updateRuns p f hf) (SQLite.updateRuns p f hf) fun n runs =>
      ∃ runs', F runs' ∧ runs = runs'.update p f hf ∧ n = runs'.rowcount p := by
  refine SameResult.bind (sim_runs F) fun runs => ?_
  by_cases hone : OneActivePerSession (runs.update p f hf).rows
  · simp only [dif_pos hone]
    refine ⟨fun s t h => ⟨rfl, ?_⟩⟩
    obtain ⟨hF, hruns⟩ := h.runs
    subst hruns
    exact h.setRuns hone
      (Table.forall_mem_update h.regular.runs fun r _ hr => hutc r hr.1 hr.2) ⟨_, hF, rfl, rfl⟩
  · simp only [dif_neg hone]
    exact sameResult_raise rfl

/-- The row returned is the one that was matched, as it was written. -/
theorem sim_updateRunsReturning (F : Table RunRow.id → Prop)
    (hutc : ∀ r, r.createdAt.IsUtc → r.updatedAt.IsUtc →
      (f r).createdAt.IsUtc ∧ (f r).updatedAt.IsUtc) :
    SameEnd (With F) (SQLite.updateRuns p f hf) (updateRunsReturning p f hf) fun n row s t =>
      With (Updated F p f hf n row) s t := by
  refine Sim.query_right fun runs => ?_
  have hsim : SameEnd (With fun runs' => F runs' ∧ runs' = runs)
      (SQLite.updateRuns p f hf >>= pure)
      (SQLite.updateRuns p f hf >>= fun _ => pure ((runs.rows.find? fun r => p r).map f))
      fun n row s t => With (Updated F p f hf n row) s t := by
    refine SameResult.bind (sim_updateRuns _ hutc) fun n => ⟨fun s t h => h.imp ?_⟩
    rintro ⟨runs', ⟨hF, rfl⟩, hruns, hn⟩
    exact ⟨runs', hF, hruns, hn, rfl⟩
  rw [bind_pure] at hsim
  refine hsim.consequence (fun s t ⟨h, hruns⟩ => h.and ?_) fun _ _ _ _ h => h
  rw [hruns, h.alike.runs_eq]

/-- Exactly one row was matched when one is returned, and it is the row of the run. -/
theorem sim_requireUpdated (F : Table RunRow.id → Prop) {k : UUID} (hp : ∀ r, p r → r.id = k)
    (n : ℕ) (row : Option RunRow) (message message' : String) (details : JsonObject) :
    SameEnd (With (Updated F p f hf n row))
      (raiseUnless (n = 1) (.conflict message details)) (requireUpdated row message')
      fun _ row s t => With (fun runs => runs.find? k = some row) s t := by
  refine Sim.intro fun s t h => ?_
  obtain ⟨runs, hF, hruns, rfl, rfl⟩ := h.runs
  by_cases hrow : ∃ r, runs.find? k = some r ∧ p r
  · have hcount := (Table.rowcount_eq_one_iff hp).mpr hrow
    obtain ⟨r, hfind, hpr⟩ := hrow
    have hwrote : s.db.runs.find? k = some (f r) := by
      rw [hruns, Table.find?_update, hfind, Option.map_some, if_pos hpr]
    rw [raiseUnless, if_pos hcount, (Table.rows_find?_eq_some_iff hp).mpr ⟨hfind, hpr⟩]
    refine ⟨?_⟩
    rintro _ _ ⟨rfl, rfl⟩
    exact h.imp fun _ => hwrote
  · have hcount : runs.rowcount p ≠ 1 := fun h => hrow ((Table.rowcount_eq_one_iff hp).mp h)
    have hnone : (runs.rows.find? fun r => p r) = none := by
      rcases hfind : runs.rows.find? fun r => p r with _ | r
      · rfl
      · exact absurd ⟨r, (Table.rows_find?_eq_some_iff hp).mp hfind⟩ hrow
    rw [raiseUnless, if_neg hcount, hnone]
    exact sim_raise rfl

/-- A row that is known to be matched is returned. -/
theorem sim_requireUpdated_of_matched {F : Table RunRow.id → Prop} {k : UUID}
    (hp : ∀ r, p r → r.id = k) (hF : ∀ runs, F runs → ∃ r, runs.find? k = some r ∧ p r) (n : ℕ)
    (row : Option RunRow) (message : String) :
    SameEnd (With (Updated F p f hf n row)) (pure ()) (requireUpdated row message)
      fun _ row s t => With (fun runs => runs.find? k = some row) s t := by
  refine Sim.intro fun s t h => ?_
  obtain ⟨runs, hruns, -, hn, -⟩ := h.runs
  have hcount : n = 1 := hn.trans ((Table.rowcount_eq_one_iff hp).mpr (hF runs hruns))
  have hraise : raiseUnless (n = 1) (.conflict message []) = (pure () : Sql Unit) :=
    if_pos hcount
  rw [← hraise]
  exact (sim_requireUpdated F hp n row message message []).consequence
    (fun s' t' ⟨hs, ht⟩ => hs ▸ ht ▸ h) fun _ _ _ _ h => h

end Update

theorem sim_updateStatus (F : Table RunRow.id → Prop) (current : Run) (target : RunStatus)
    (v : ℤ) : SameEnd (With F) (SQLite.updateStatus current target v)
      (updateStatus current target v) fun _ row s t =>
        With (fun runs => runs.find? current.id = some row) s t := by
  refine SameResult.bind (sim_now F) fun d => assuming fun hd => ?_
  rw [Datetime.toUtc_of_isUtc hd]
  refine Sim.bind (sim_updateRunsReturning F fun _ hc _ => ⟨hc, hd⟩) fun n row => ?_
  exact sim_requireUpdated F (fun _ h => h.1) n row _ _ _

/-- The row that an update returned is the run as a later query reads it. -/
theorem sim_readUpdated (k : UUID) (row : RunRow) :
    SameResult (fun runs => runs.find? k = some row) (SQLite.readRun k)
      (ofExcept (runFromRow row)) fun _ _ => True := by
  refine Sim.intro fun s t h => ?_
  have haware := (h.run_utc h.runs).2.aware
  have hrun : SQLite.readRun k s = (.ok (row.toRun haware), s) :=
    SQLite.yields_readRun.mpr ⟨row, h.runs, ⟨haware, rfl⟩, rfl⟩
  have hrow : runFromRow row = .ok (row.toRun haware) := dif_pos haware
  refine ⟨?_⟩
  rintro _ _ ⟨rfl, rfl⟩
  rw [hrun, hrow]
  exact ⟨rfl, h.imp fun _ => trivial⟩

/-- A row is inserted by both stores or by neither; the SQLite store raises where the Postgres
store returns no row. -/
theorem insertRun_cases {s t : Connection} (h : With F s t) {row : RunRow}
    (hrow : row.createdAt.IsUtc ∧ row.updatedAt.IsUtc) :
    (∃ s' t', (SQLite.insertRun row).Yields s () s' ∧ (insertRun row).Yields t true t' ∧
        With (fun _ => True) s' t') ∨
      (SQLite.insertRun row).Raises s .integrityError ∧ (insertRun row).Yields t false t := by
  have hruns := h.alike.runs_eq
  by_cases hkey : row.idempotencyKey = none ∨ ∀ r ∈ s.db.runs.rows,
      ¬ (r.tenantId = row.tenantId ∧ r.idempotencyKey = row.idempotencyKey)
  · rcases hins : s.db.runs.insert? row with _ | runs
    · right
      simp [SQLite.insertRun, insertRun, raises_bind, yields_bind, hruns, hkey, hins, -not_and]
    · by_cases hone : OneActivePerSession runs.rows
      · left
        refine ⟨s.setRuns runs hone, t.setRuns runs hone, ?_, ?_, h.setRuns hone ?_ trivial⟩
        · simp [SQLite.insertRun, yields_bind, hkey, hins, hone, -not_and]
        · simp [insertRun, yields_bind, hruns, hkey, hins, hone, -not_and, -bind_pure_comp]
        · intro r hr
          rw [(Table.insert?_eq_some_iff.mp hins).2, List.mem_append, List.mem_singleton] at hr
          rcases hr with hr | rfl
          · exact h.regular.runs r hr
          · exact hrow
      · right
        simp [SQLite.insertRun, insertRun, raises_bind, yields_bind, hruns, hkey, hins,
          hone, -not_and]
  · right
    refine ⟨?_, ?_⟩
    · simp only [SQLite.insertRun, raises_bind, raises_raiseUnless]
      exact Or.inr ⟨_, s, yields_query.mpr ⟨rfl, rfl⟩, Or.inl ⟨hkey, trivial⟩⟩
    · simp [insertRun, yields_bind, hruns, hkey, -not_and]

/-- An insertion whose failure the SQLite store reports under another error, and the Postgres
store by going on with `z`. -/
theorem sim_insertRun {γ : Type} {row : RunRow}
    (hrow : row.createdAt.IsUtc ∧ row.updatedAt.IsUtc) {g : StoreError → StoreError} {x : Sql α}
    {y z : Sql γ} {Q : α → γ → Connection → Connection → Prop}
    (hxy : SameEnd (With fun _ => True) x y Q)
    (hz : ∀ s t, With F s t → ∃ e, z.Raises t e ∧ SameClass (g .integrityError) e) :
    SameEnd (With F) ((SQLite.insertRun row).mapError g >>= fun _ => x)
      (insertRun row >>= fun inserted => if inserted = true then y else z) Q := by
  refine ⟨fun s t h => ?_⟩
  rcases insertRun_cases h hrow with ⟨s', t', hs, ht, h'⟩ | ⟨hs, ht⟩
  · rw [bind_of_ok (yields_mapError.mpr hs), bind_of_ok ht, if_pos rfl]
    exact hxy.ends_alike s' t' h'
  · have hs' : ((SQLite.insertRun row).mapError g).Raises s (g .integrityError) :=
      raises_mapError.mpr ⟨_, hs, rfl⟩
    obtain ⟨e, he, hclass⟩ := hz s t h
    rw [bind_of_error (Prod.ext hs' rfl), bind_of_ok ht, if_neg Bool.false_ne_true,
      (Prod.ext he rfl : z t = (.error e, (z t).2))]
    exact hclass

/-! ### Writing the other tables -/

theorem sim_appendEvent (F : Table RunRow.id → Prop) (k : UUID) (type : String)
    (data : JsonObject) : SameResult F (SQLite.appendEvent k type data) (appendEvent k type data)
      fun _ => F := by
  refine SameResult.bind (sameResult_read fun _ _ h => ?_) fun sequence => ?_
  · rw [Database.maxEvent, Database.maxEvent, Database.eventsOf, Database.eventsOf,
      h.alike.events_eq]
  refine SameResult.bind (sim_now F) fun d => assuming fun hd => ?_
  rw [Datetime.toUtc_of_isUtc hd]
  refine SameResult.bind (sim_requireReference F k) fun _ => ?_
  refine SameResult.bind (sameResult_read fun _ _ h => ?_) fun events => ?_
  · rw [h.alike.events_eq]
  rcases events with _ | events
  · exact sameResult_raise rfl
  · exact ⟨fun s t h => ⟨rfl, h.setEvents events⟩⟩

theorem sim_requireNextSequence (F : Table RunRow.id → Prop) (k : Checkpoint) :
    SameResult F (SQLite.requireNextSequence k) (validateCheckpointSequence k) fun _ => F := by
  refine SameResult.bind (sameResult_read fun _ _ h => ?_) fun sequence => ?_
  · rw [Database.maxCheckpoint, Database.maxCheckpoint, Database.checkpointsOf,
      Database.checkpointsOf, h.alike.checkpoints_eq]
  · exact (sameResult_raiseUnless Iff.rfl rfl).imp fun _ _ h => h.1

theorem checkpointRow_of_isUtc {k : Checkpoint} (h : k.createdAt.IsUtc) : checkpointRow k = k := by
  simp only [checkpointRow, Datetime.toUtc_of_isUtc h]

theorem sim_insertCheckpoint (F : Table RunRow.id → Prop) {k : Checkpoint}
    (hk : k.createdAt.IsUtc) :
    SameResult F (SQLite.insertCheckpoint k) (insertCheckpoint k) fun _ => F := by
  rw [insertCheckpoint, checkpointRow_of_isUtc hk]
  refine SameResult.bind (sim_requireReference F _) fun _ => ?_
  refine Sim.bind sim_query fun _ _ => Sim.intro fun s t ⟨h, hs, ht⟩ => ?_
  rw [h.alike.checkpoints_eq] at ht
  subst hs ht
  refine Sim.bind (sim_raiseUnless (fun _ _ _ => Iff.rfl) rfl) fun _ _ => ⟨?_⟩
  rintro s t ⟨⟨rfl, rfl⟩, hfresh⟩
  rcases hins : s.db.checkpoints.insert? k with _ | checkpoints
  · exact rfl
  refine ⟨rfl, h.setCheckpoints fun a ha b hb hrun hseq => ?_⟩
  rw [(Table.insert?_eq_some_iff.mp hins).2, List.mem_append, List.mem_singleton] at ha hb
  rcases ha with ha | rfl <;> rcases hb with hb | rfl
  · exact h.regular.checkpoints a ha b hb hrun hseq
  · exact absurd ⟨hrun, hseq⟩ (hfresh a ha)
  · exact absurd ⟨hrun.symm, hseq.symm⟩ (hfresh b hb)
  · rfl

section Leases

variable {k : UUID} {f g : LeaseRow → LeaseRow} {hf : ∀ l, (f l).runId = l.runId}
  {hg : ∀ l, (g l).runId = l.runId}

/-- Updates of a lease that agree but for `updated_at`. -/
theorem with_updateLease {s t : Connection} (h : With F s t)
    (hcore : ∀ l l' : LeaseRow, l'.core = l.core → (g l').core = (f l).core)
    (hutc : ∀ l : LeaseRow, l.expiresAt.IsUtc → l.createdAt.IsUtc →
      (f l).expiresAt.IsUtc ∧ (f l).createdAt.IsUtc) :
    With F (s.setLeases (s.db.runLeases.update (fun l => l.runId = k) f hf))
      (t.setLeases (t.db.runLeases.update (fun l => l.runId = k) g hg)) := by
  refine h.setLeases ?_
    (Table.forall_mem_update h.regular.leases fun l _ ⟨he, hc⟩ => hutc l he hc)
  have hrows := map_eq_map_iff_forall₂.mp h.alike.leases_eq
  rw [map_eq_map_iff_forall₂, Table.update_rows, Table.update_rows, List.forall₂_map_left_iff,
    List.forall₂_map_right_iff]
  refine hrows.imp fun l' l hl => ?_
  have hid : l'.runId = l.runId := (LeaseRow.core_eq_iff.mp hl).2.1
  rw [hid]
  split_ifs
  · exact hcore l l' hl
  · exact hl

theorem sim_updateLease (F : Table RunRow.id → Prop)
    (hcore : ∀ l l' : LeaseRow, l'.core = l.core → (g l').core = (f l).core)
    (hutc : ∀ l : LeaseRow, l.expiresAt.IsUtc → l.createdAt.IsUtc →
      (f l).expiresAt.IsUtc ∧ (f l).createdAt.IsUtc) :
    SameResult F (SQLite.updateLease k f hf) (SQLite.updateLease k g hg) fun _ => F :=
  ⟨fun _ _ h => ⟨rfl, with_updateLease h hcore hutc⟩⟩

/-- The lease of a run is inserted, or the one that is there is updated. -/
theorem sim_upsertLease (F : Table RunRow.id → Prop) {row row' : LeaseRow}
    (hrow : row'.core = row.core) (hutc : row.expiresAt.IsUtc ∧ row.createdAt.IsUtc) :
    SameResult F (SQLite.upsertLease row) (SQLite.upsertLease row') fun _ => F := by
  obtain ⟨hid, hrun, hholder, hexpires, htoken, hactive, hcreated⟩ :=
    LeaseRow.core_eq_iff.mp hrow
  rw [SQLite.upsertLease, SQLite.upsertLease, hrun]
  refine SameResult.bind (sim_requireReference F _) fun _ => ?_
  refine Sim.bind sim_query fun _ _ => Sim.intro fun s t hst => ?_
  obtain ⟨h, hleases, hleases'⟩ := hst
  subst hleases hleases'
  have hfind := h.find?_leases row.runId
  rcases hins : s.db.runLeases.insert? row with _ | leases
  · obtain ⟨l, hl⟩ := Table.insert?_eq_none_iff.mp hins
    have hins' : t.db.runLeases.insert? row' = none := by
      rw [hl, Option.map_some, Option.map_eq_some_iff] at hfind
      obtain ⟨l', hl', -⟩ := hfind
      exact Table.insert?_eq_none_iff.mpr ⟨l', hrun ▸ hl'⟩
    rw [hins']
    refine ⟨?_⟩
    rintro _ _ ⟨rfl, rfl⟩
    refine ⟨rfl, with_updateLease h (fun l l' hl => ?_) fun l _ hc => ⟨hutc.1, hc⟩⟩
    have hl := LeaseRow.core_eq_iff.mp hl
    simp only [LeaseRow.core_eq_iff, hl, hholder, hexpires, htoken, and_self]
  · obtain ⟨-, hnew⟩ := Table.insert?_eq_some_iff.mp hins
    rcases hins' : t.db.runLeases.insert? row' with _ | leases'
    · obtain ⟨l', hl'⟩ := Table.insert?_eq_none_iff.mp hins'
      rw [hrun] at hl'
      rw [hl', (Table.insert?_eq_some_iff.mp hins).1] at hfind
      simp at hfind
    obtain ⟨-, hnew'⟩ := Table.insert?_eq_some_iff.mp hins'
    have hids : t.db.runLeases.rows.map LeaseRow.id = s.db.runLeases.rows.map LeaseRow.id := by
      have := congrArg (List.map LeaseRow.id) h.alike.leases_eq
      rwa [List.map_map, List.map_map] at this
    have hfresh : (∀ l ∈ s.db.runLeases.rows, l.id ≠ row.id) ↔
        ∀ l ∈ t.db.runLeases.rows, l.id ≠ row'.id := by
      have hmem : ∀ ls : List LeaseRow, (∀ l ∈ ls, l.id ≠ row.id) ↔ row.id ∉ ls.map LeaseRow.id :=
        fun ls => by simp
      rw [hid, hmem, hmem, hids]
    refine Sim.bind (sim_raiseUnless (fun _ _ _ => hfresh) rfl) fun _ _ => ⟨?_⟩
    rintro _ _ ⟨⟨rfl, rfl⟩, -⟩
    refine ⟨rfl, h.setLeases ?_ fun l hl => ?_⟩
    · rw [hnew, hnew', List.map_append, List.map_append, h.alike.leases_eq, List.map_singleton,
        List.map_singleton, hrow]
    · rw [hnew, List.mem_append, List.mem_singleton] at hl
      rcases hl with hl | rfl
      · exact h.regular.leases l hl
      · exact hutc

end Leases

theorem sim_updateDecision (F : Table RunRow.id → Prop) (i : UUID) (decision : ApprovalDecision)
    {d d' : Datetime} (hd : d.Aware) (hd' : d'.Aware) (h : d' = d) :
    SameResult F (SQLite.updateDecision i decision d hd)
      (SQLite.updateDecision i decision d' hd') fun _ => F := by
  subst h
  refine ⟨fun s t h => ⟨rfl, ?_⟩⟩
  simp only [h.alike.interrupts_eq]
  exact h.setInterrupts (Table.forall_mem_update h.regular.interrupts fun _ _ hi => hi)

end Postgres

end OpenRath
