import OpenRath.Runtime.RunStore
import OpenRath.Runtime.Sqlite.Store

/-!
# What the statements of the SQLite store do

One lemma for each statement and helper of the store, saying when it returns and what it leaves,
and one for its effect on the view of every run. The operations are composed of these in
`OpenRath.Runtime.Sqlite.Operations`, which never unfolds a statement.

## Main results

* `SQLite.yields_readRun`, `SQLite.yields_requiredLease`, `SQLite.yields_updateRuns`,
  `SQLite.yields_updateStatus`, `SQLite.yields_insertCheckpoint`, `SQLite.yields_appendEvent`,
  `SQLite.yields_upsertLease`: the statements.
* `SQLite.exists_yields_appendEvent`: an event of a run that exists can always be appended.
* `Connection.view_setEvents`, `Connection.view_setCheckpoints`: their effect on views.
-/

namespace OpenRath

/-! ### Views after a write -/

namespace Connection

variable (c : Connection) (i : UUID)

@[simp] theorem db_tick : c.tick.db = c.db := rfl

@[simp] theorem view_setRuns (t : Table RunRow.id) (h : OneActivePerSession t.rows) :
    (c.setRuns t h).db.view i = { c.db.view i with row := t.find? i } := rfl

@[simp] theorem view_setLeases (t : Table LeaseRow.runId) :
    (c.setLeases t).db.view i = { c.db.view i with lease := t.find? i } := rfl

/-- A further event shows in the view of its own run. -/
theorem view_setEvents {t : Table RunEvent.key} {e : RunEvent}
    (h : c.db.runEvents.insert? e = some t) : (c.setEvents t).db.view i =
      if e.runId = i then { c.db.view i with events := (c.db.view i).events ++ [e] }
      else c.db.view i := by
  have hrows := Table.insert?_rows h
  have hevents : (c.setEvents t).db.eventsOf i =
      c.db.eventsOf i ++ if e.runId = i then [e] else [] := by
    change t.rows.filter _ = _
    rw [hrows, List.filter_append]
    by_cases he : e.runId = i <;> simp [he, Database.eventsOf]
  change (⟨_, _, (c.setEvents t).db.eventsOf i, _⟩ : RunView) = _
  rw [hevents]
  split_ifs
  · rfl
  · rw [List.append_nil]
    rfl

/-- A further checkpoint shows in the view of its own run. -/
theorem view_setCheckpoints {t : Table Checkpoint.id} {k : Checkpoint}
    (h : c.db.checkpoints.insert? k = some t) : (c.setCheckpoints t).db.view i =
      if k.runId = i then { c.db.view i with checkpoints := (c.db.view i).checkpoints ++ [k] }
      else c.db.view i := by
  have hrows := Table.insert?_rows h
  have hcheckpoints : (c.setCheckpoints t).db.checkpointsOf i =
      c.db.checkpointsOf i ++ if k.runId = i then [k] else [] := by
    change t.rows.filter _ = _
    rw [hrows, List.filter_append]
    by_cases he : k.runId = i <;> simp [he, Database.checkpointsOf]
  change (⟨_, _, _, (c.setCheckpoints t).db.checkpointsOf i⟩ : RunView) = _
  rw [hcheckpoints]
  split_ifs
  · rfl
  · rw [List.append_nil]
    rfl

end Connection

namespace SQLite

open Tx Connection

variable {c c' : Connection}

/-! ### Reading -/

@[simp] theorem parseTime_eq_ok {d d' : Datetime} :
    parseTime d = .ok d' ↔ d.Aware ∧ d = d' := by
  unfold parseTime
  split_ifs with h <;> simp [h]

theorem runFromRow_eq_ok {row : RunRow} {run : Run} :
    runFromRow row = .ok run ↔ ∃ h : row.updatedAt.Aware, row.toRun h = run := by
  unfold runFromRow
  split_ifs with h <;> simp [h]

theorem yields_requiredRunRow {runId : UUID} {row : RunRow} :
    (requiredRunRow runId).Yields c row c' ↔ c.db.runs.find? runId = some row ∧ c = c' := by
  rw [requiredRunRow, yields_bind]
  simp only [yields_query]
  constructor
  · rintro ⟨_, _, ⟨rfl, rfl⟩, h⟩
    rcases hf : c.db.runs.find? runId with _ | row'
    · simp [hf] at h
    · simpa [hf] using h
  · rintro ⟨h, rfl⟩
    exact ⟨_, _, ⟨rfl, rfl⟩, by simp [h]⟩

theorem yields_readRun {runId : UUID} {run : Run} :
    (readRun runId).Yields c run c' ↔ ∃ row, c.db.runs.find? runId = some row ∧
      (∃ h : row.updatedAt.Aware, row.toRun h = run) ∧ c = c' := by
  rw [readRun, yields_bind]
  simp only [yields_requiredRunRow, yields_ofExcept, runFromRow_eq_ok]
  constructor
  · rintro ⟨row, _, ⟨hrow, rfl⟩, hrun, rfl⟩
    exact ⟨row, hrow, hrun, rfl⟩
  · rintro ⟨row, hrow, hrun, rfl⟩
    exact ⟨row, _, ⟨hrow, rfl⟩, hrun, rfl⟩

/-- A worker may act on a lease at a datetime if it holds the lease under the token and the lease
is neither released nor expired. -/
structure Holds (db : Database) (d : Datetime) (runId : UUID) (workerId : String)
    (fencingToken : ℤ) (lease : LeaseRow) : Prop where
  find_eq : db.runLeases.find? runId = some lease
  active : lease.active = true
  holder_eq : lease.holderWorkerId = workerId
  token_eq : (lease.fencingToken : ℤ) = fencingToken
  aware : lease.expiresAt.Aware
  not_expired : d.instant < lease.expiresAt.instant

theorem yields_requiredLease {runId : UUID} {workerId : String} {fencingToken : ℤ}
    {lease : LeaseRow} : (requiredLease runId workerId fencingToken).Yields c lease c' ↔
      Holds c.db (.utc (c.clock 0)) runId workerId fencingToken lease ∧ c.tick = c' := by
  rw [requiredLease, yields_bind]
  simp only [yields_query]
  constructor
  · rintro ⟨_, _, ⟨rfl, rfl⟩, h⟩
    rcases hf : c.db.runLeases.find? runId with _ | l
    · simp [hf] at h
    · simp only [hf, yields_bind, yields_raiseUnless, yields_ofExcept, parseTime_eq_ok,
        yields_now, yields_pure] at h
      obtain ⟨_, _, ⟨⟨hactive, hholder, htoken⟩, rfl⟩, _, _, ⟨⟨haware, rfl⟩, rfl⟩, _, _,
        ⟨rfl, rfl⟩, _, _, ⟨hlt, rfl⟩, rfl, rfl⟩ := h
      exact ⟨⟨hf, hactive, hholder, htoken, haware, hlt⟩, rfl⟩
  · rintro ⟨h, rfl⟩
    refine ⟨_, _, ⟨rfl, rfl⟩, ?_⟩
    simp only [h.find_eq, yields_bind, yields_raiseUnless, yields_ofExcept, parseTime_eq_ok,
      yields_now, yields_pure]
    exact ⟨(), c, ⟨⟨h.active, h.holder_eq, h.token_eq⟩, rfl⟩, _, c, ⟨⟨h.aware, rfl⟩, rfl⟩, _,
      c.tick, ⟨rfl, rfl⟩, (), c.tick, ⟨h.not_expired, rfl⟩, trivial, rfl⟩

/-- A lease that a worker does not hold under the token is refused with a `ConflictError`, before
the expiry is looked at. -/
theorem requiredLease_raises {runId : UUID} {workerId : String} {fencingToken : ℤ}
    (h : ∀ l, c.db.runLeases.find? runId = some l → (l.fencingToken : ℤ) ≠ fencingToken) :
    (requiredLease runId workerId fencingToken).Raises c
      (.conflict "lease fencing token is stale or not owned" []) := by
  rw [requiredLease, raises_bind]
  refine Or.inr ⟨_, _, yields_query.mpr ⟨rfl, rfl⟩, ?_⟩
  rcases hf : c.db.runLeases.find? runId with _ | l
  · simp
  · simp only [raises_bind, raises_raiseUnless]
    exact Or.inl ⟨fun hl => h l hf hl.2.2, trivial⟩

/-! ### Writing -/

theorem yields_requireReference {runId : UUID} {u : Unit} :
    (requireReference runId).Yields c u c' ↔
      (∃ row, c.db.runs.find? runId = some row) ∧ c = c' := by
  rw [requireReference, yields_bind]
  simp only [yields_query]
  constructor
  · rintro ⟨_, _, ⟨rfl, rfl⟩, h⟩
    rcases hf : c.db.runs.find? runId with _ | row
    · simp [hf] at h
    · exact ⟨⟨row, rfl⟩, by simpa [hf] using h⟩
  · rintro ⟨⟨row, h⟩, rfl⟩
    exact ⟨_, _, ⟨rfl, rfl⟩, by simp [h]⟩

theorem yields_insertRun {row : RunRow} {u : Unit} (h : (insertRun row).Yields c u c') :
    ∃ t hone, c.db.runs.insert? row = some t ∧ c.setRuns t hone = c' := by
  simp only [insertRun, yields_bind, yields_query, yields_raiseUnless] at h
  obtain ⟨_, _, ⟨rfl, rfl⟩, _, _, ⟨-, rfl⟩, h⟩ := h
  rcases hins : c.db.runs.insert? row with _ | t
  · simp [hins] at h
  · simp only [hins] at h
    split_ifs at h with hone
    · exact ⟨t, hone, rfl, yields_execute.mp h⟩
    · exact absurd h not_yields_raise

/-- An insertion into `runs` makes a run that was not there. -/
theorem actsOn_insertRun {row : RunRow} {u : Unit} (h : (insertRun row).Yields c u c') :
    c.db.runs.find? row.id = none ∧
      ActsOn row.id { c.db.view row.id with row := some row } c.db c'.db := by
  obtain ⟨t, hone, hins, rfl⟩ := yields_insertRun h
  refine ⟨(Table.insert?_eq_some_iff.mp hins).1, ?_, fun i hi => ?_⟩
  · rw [view_setRuns, Table.find?_insert? hins, if_pos rfl]
  · rw [view_setRuns, Table.find?_insert? hins, if_neg hi]
    rfl

theorem yields_updateRuns {p : RunRow → Prop} [DecidablePred p] {f : RunRow → RunRow}
    {hf : ∀ r, (f r).id = r.id} {n : ℕ} : (updateRuns p f hf).Yields c n c' ↔
      ∃ h : OneActivePerSession (c.db.runs.update p f hf).rows, c.db.runs.rowcount p = n ∧
        c.setRuns (c.db.runs.update p f hf) h = c' := by
  rw [updateRuns, yields_bind]
  simp only [yields_query]
  constructor
  · rintro ⟨_, _, ⟨rfl, rfl⟩, h⟩
    split_ifs at h with hone
    · simp only [yields_bind, yields_execute, yields_pure] at h
      obtain ⟨_, _, rfl, hn, rfl⟩ := h
      exact ⟨hone, hn, rfl⟩
    · exact absurd h not_yields_raise
  · rintro ⟨hone, hn, rfl⟩
    refine ⟨_, _, ⟨rfl, rfl⟩, ?_⟩
    simp only [dif_pos hone, yields_bind, yields_execute, yields_pure]
    exact ⟨(), _, rfl, hn, rfl⟩

/-- An update of the run `k` acts on its row and on no other run. -/
theorem actsOn_updateRuns {p : RunRow → Prop} [DecidablePred p] {f : RunRow → RunRow}
    {hf : ∀ r, (f r).id = r.id} {n : ℕ} {k : UUID} {row : RunRow}
    (h : (updateRuns p f hf).Yields c n c') (hp : ∀ r, p r → r.id = k)
    (hrow : c.db.runs.find? k = some row) (hprow : p row) :
    ActsOn k { c.db.view k with row := some (f row) } c.db c'.db := by
  obtain ⟨hone, -, rfl⟩ := yields_updateRuns.mp h
  refine ⟨?_, fun i hi => ?_⟩
  · rw [view_setRuns, Table.find?_update, hrow]
    simp [hprow]
  · rw [view_setRuns, Table.find?_update_of_ne p f hf hp hi]
    rfl

@[simp] theorem yields_updateLease {runId : UUID} {f : LeaseRow → LeaseRow}
    {hf : ∀ l, (f l).runId = l.runId} {u : Unit} : (updateLease runId f hf).Yields c u c' ↔
      c.setLeases (c.db.runLeases.update (fun l => l.runId = runId) f hf) = c' :=
  yields_execute

/-- An update of the lease of the run `k` acts on no other run. -/
theorem actsOn_updateLease {k : UUID} {f : LeaseRow → LeaseRow}
    {hf : ∀ l, (f l).runId = l.runId} {u : Unit} (h : (updateLease k f hf).Yields c u c') :
    ActsOn k { c.db.view k with lease := (c.db.view k).lease.map f } c.db c'.db := by
  obtain rfl := yields_updateLease.mp h
  refine ⟨?_, fun i hi => ?_⟩
  · rw [view_setLeases, Table.find?_update]
    rcases hl : c.db.runLeases.find? k with _ | l
    · simp [Database.view, hl]
    · simp [Database.view, hl, Table.key_of_find? hl]
  · rw [view_setLeases, Table.find?_update_of_ne _ _ _ (fun _ h => h) hi]
    rfl

theorem yields_insertCheckpoint {k : Checkpoint} {u : Unit} :
    (insertCheckpoint k).Yields c u c' ↔ (∃ row, c.db.runs.find? k.runId = some row) ∧
      (∀ k' ∈ c.db.checkpoints.rows, ¬ (k'.runId = k.runId ∧ k'.sequence = k.sequence)) ∧
      ∃ t, c.db.checkpoints.insert? k = some t ∧ c.setCheckpoints t = c' := by
  rw [insertCheckpoint]
  simp only [yields_bind, yields_query, yields_raiseUnless, yields_requireReference]
  constructor
  · rintro ⟨_, _, ⟨hrow, rfl⟩, _, _, ⟨rfl, rfl⟩, _, _, ⟨hseq, rfl⟩, h⟩
    rcases hins : c.db.checkpoints.insert? k with _ | t
    · simp [hins] at h
    · exact ⟨hrow, hseq, t, rfl, by simpa [hins] using h⟩
  · rintro ⟨hrow, hseq, t, hins, rfl⟩
    refine ⟨(), _, ⟨hrow, rfl⟩, _, _, ⟨rfl, rfl⟩, (), _, ⟨hseq, rfl⟩, ?_⟩
    simp [hins]

theorem actsOn_insertCheckpoint {k : Checkpoint} {u : Unit}
    (h : (insertCheckpoint k).Yields c u c') : ActsOn k.runId { c.db.view k.runId with
      checkpoints := (c.db.view k.runId).checkpoints ++ [k] } c.db c'.db := by
  obtain ⟨-, -, t, ht, rfl⟩ := yields_insertCheckpoint.mp h
  refine ⟨?_, fun i hi => ?_⟩
  · rw [view_setCheckpoints c _ ht, if_pos rfl]
  · rw [view_setCheckpoints c i ht, if_neg hi.symm]

theorem yields_appendEvent {runId : UUID} {type : String} {data : JsonObject} {e : RunEvent} :
    (appendEvent runId type data).Yields c e c' ↔
      e = ⟨runId, c.db.maxEvent runId + 1, type, data, .utc (c.clock 0)⟩ ∧
      (∃ row, c.db.runs.find? runId = some row) ∧
      ∃ t, c.db.runEvents.insert? e = some t ∧ c.tick.setEvents t = c' := by
  rw [appendEvent]
  simp only [yields_bind, yields_query, yields_now, yields_requireReference]
  constructor
  · rintro ⟨_, _, ⟨rfl, rfl⟩, _, _, ⟨rfl, rfl⟩, _, _, ⟨hrow, rfl⟩, _, _, ⟨rfl, rfl⟩, h⟩
    rw [db_tick] at h hrow
    rcases hins : c.db.runEvents.insert?
      ⟨runId, c.db.maxEvent runId + 1, type, data, .utc (c.clock 0)⟩ with _ | t
    · simp [hins] at h
    · simp only [hins, yields_bind, yields_execute, yields_pure] at h
      obtain ⟨_, _, rfl, rfl, rfl⟩ := h
      exact ⟨rfl, hrow, t, hins, rfl⟩
  · rintro ⟨rfl, hrow, t, hins, rfl⟩
    refine ⟨_, _, ⟨rfl, rfl⟩, _, _, ⟨rfl, rfl⟩, (), _, ⟨hrow, rfl⟩, _, _, ⟨rfl, rfl⟩, ?_⟩
    rw [db_tick, hins]
    simp only [yields_bind, yields_execute, yields_pure]
    exact ⟨(), _, rfl, trivial, rfl⟩

/-- An event is numbered after the earlier ones of its run and shows in the view of that run
only. -/
theorem actsOn_appendEvent {k : UUID} {type : String} {data : JsonObject} {e : RunEvent}
    (h : (appendEvent k type data).Yields c e c') :
    e.sequence = (c.db.view k).nextEvent ∧ e.type = type ∧
      ActsOn k { c.db.view k with events := (c.db.view k).events ++ [e] } c.db c'.db := by
  obtain ⟨he, -, t, hins, rfl⟩ := yields_appendEvent.mp h
  have hid : e.runId = k := by rw [he]
  refine ⟨by rw [he]; rfl, by rw [he], ?_, fun i hi => ?_⟩
  · rw [view_setEvents c.tick k hins, if_pos hid, db_tick]
  · rw [view_setEvents c.tick i hins, if_neg (hid ▸ hi.symm), db_tick]

theorem yields_updateStatus {current : Run} {target : RunStatus} {v : ℤ} {u : Unit} :
    (updateStatus current target v).Yields c u c' ↔
      (∃ row, c.db.runs.find? current.id = some row ∧ (row.version : ℤ) = v) ∧
      ∃ h : OneActivePerSession (c.db.runs.update
        (fun r => r.id = current.id ∧ (r.version : ℤ) = v)
        (fun r => r.write target (.utc (c.clock 0))) (fun _ => rfl)).rows,
      c.tick.setRuns (c.db.runs.update
        (fun r => r.id = current.id ∧ (r.version : ℤ) = v)
        (fun r => r.write target (.utc (c.clock 0))) (fun _ => rfl)) h = c' := by
  have hcount : c.db.runs.rowcount (fun r => r.id = current.id ∧ (r.version : ℤ) = v) = 1 ↔
      ∃ row, c.db.runs.find? current.id = some row ∧ (row.version : ℤ) = v := by
    rw [Table.rowcount_eq_one_iff fun _ h => h.1]
    constructor
    · rintro ⟨row, hrow, -, hv⟩
      exact ⟨row, hrow, hv⟩
    · rintro ⟨row, hrow, hv⟩
      exact ⟨row, hrow, Table.key_of_find? hrow, hv⟩
  rw [updateStatus, ← hcount]
  simp only [yields_bind, yields_now, yields_updateRuns, yields_raiseUnless]
  constructor
  · rintro ⟨_, _, ⟨rfl, rfl⟩, _, _, ⟨hone, rfl, rfl⟩, hn, rfl⟩
    exact ⟨hn, hone, rfl⟩
  · rintro ⟨hn, hone, rfl⟩
    exact ⟨_, _, ⟨rfl, rfl⟩, _, _, ⟨hone, rfl, rfl⟩, hn, rfl⟩

theorem actsOn_updateStatus {current : Run} {target : RunStatus} {v : ℤ} {u : Unit} {k : UUID}
    {row : RunRow} (h : (updateStatus current target v).Yields c u c') (hid : current.id = k)
    (hrow : c.db.runs.find? k = some row) : (row.version : ℤ) = v ∧
      ActsOn k { c.db.view k with row := some (row.write target (.utc (c.clock 0))) }
        c.db c'.db := by
  subst hid
  obtain ⟨⟨row', hrow', hv⟩, hone, rfl⟩ := yields_updateStatus.mp h
  cases hrow.symm.trans hrow'
  exact ⟨hv, actsOn_updateRuns (c := c.tick) (f := fun r => r.write target (.utc (c.clock 0)))
    (yields_updateRuns.mpr ⟨hone, rfl, rfl⟩) (fun _ h => h.1) hrow
    ⟨Table.key_of_find? hrow, hv⟩⟩

@[simp] theorem yields_requireNextSequence {k : Checkpoint} {u : Unit} :
    (requireNextSequence k).Yields c u c' ↔
      k.sequence = (c.db.view k.runId).nextCheckpoint ∧ c = c' := by
  rw [requireNextSequence]
  simp only [yields_bind, yields_query, yields_raiseUnless]
  constructor
  · rintro ⟨_, _, ⟨rfl, rfl⟩, hk, rfl⟩
    exact ⟨hk, rfl⟩
  · rintro ⟨hk, rfl⟩
    exact ⟨_, _, ⟨rfl, rfl⟩, hk, rfl⟩

@[simp] theorem yields_updateDecision {i : UUID} {d : ApprovalDecision} {decidedAt : Datetime}
    {h : decidedAt.Aware} {u : Unit} : (updateDecision i d decidedAt h).Yields c u c' ↔
      c.setInterrupts (c.db.interrupts.update (fun k => k.id = i ∧ k.decision = none)
        (fun k => decided k d decidedAt h) (fun _ => rfl)) = c' :=
  yields_execute

/-- The lease a claim leaves: the columns of the new row, but the id and the time of creation of
the row that was there. -/
theorem actsOn_upsertLease {row : LeaseRow} {u : Unit} (h : (upsertLease row).Yields c u c')
    (hactive : row.active = true) : ∃ lease : LeaseRow,
      lease.active = true ∧ lease.holderWorkerId = row.holderWorkerId ∧
      lease.expiresAt = row.expiresAt ∧ lease.fencingToken = row.fencingToken ∧
      c.clock = c'.clock ∧
      ActsOn row.runId { c.db.view row.runId with lease := some lease } c.db c'.db := by
  simp only [upsertLease, yields_bind, yields_query, yields_requireReference] at h
  obtain ⟨_, _, ⟨-, rfl⟩, _, _, ⟨rfl, rfl⟩, h⟩ := h
  rcases hins : c.db.runLeases.insert? row with _ | t
  · simp only [hins, yields_execute] at h
    obtain ⟨old, hold⟩ := Table.insert?_eq_none_iff.mp hins
    have hview : (c.db.view row.runId).lease = some old := hold
    have hacts := actsOn_updateLease (k := row.runId) (u := ()) (f := fun l => { l with
      holderWorkerId := row.holderWorkerId
      expiresAt := row.expiresAt
      fencingToken := row.fencingToken
      active := true
      updatedAt := row.updatedAt }) (yields_updateLease.mpr h)
    rw [hview, Option.map_some] at hacts
    refine ⟨_, ?_, ?_, ?_, ?_, ?_, hacts⟩
    · rfl
    · rfl
    · rfl
    · rfl
    · rw [← h]
      rfl
  · simp only [hins, yields_bind, yields_raiseUnless, yields_execute] at h
    obtain ⟨_, _, ⟨-, rfl⟩, rfl⟩ := h
    refine ⟨row, hactive, rfl, rfl, rfl, rfl, ?_, fun i hi => ?_⟩
    · rw [view_setLeases, Table.find?_insert? hins, if_pos rfl]
    · rw [view_setLeases, Table.find?_insert? hins, if_neg hi]
      rfl

/-! ### Statements that cannot fail -/

/-- An event of a run that exists can always be appended, as its number is free. -/
theorem exists_yields_appendEvent {k : UUID} {row : RunRow} (type : String) (data : JsonObject)
    (hrow : c.db.runs.find? k = some row) :
    ∃ e c', (appendEvent k type data).Yields c e c' := by
  have hnone : c.db.runEvents.find? (k, c.db.maxEvent k + 1) = none := by
    rw [Table.find?_eq_none_iff]
    intro hmem
    obtain ⟨e, he, hkey⟩ := List.mem_map.mp hmem
    obtain ⟨hk, hseq⟩ := Prod.mk.inj hkey
    have hle : e.sequence ≤ c.db.maxEvent k :=
      le_maxNumber (List.mem_filter.mpr ⟨he, by simpa using hk⟩)
    omega
  rcases hins : c.db.runEvents.insert?
    ⟨k, c.db.maxEvent k + 1, type, data, .utc (c.clock 0)⟩ with _ | t
  · obtain ⟨e, he⟩ := Table.insert?_eq_none_iff.mp hins
    rw [RunEvent.key, hnone] at he
    cases he
  · exact ⟨_, _, yields_appendEvent.mpr ⟨rfl, ⟨row, hrow⟩, t, hins, rfl⟩⟩

/-- The status of an active run in the expected version can always be written. -/
theorem exists_yields_updateStatus (current : Run) (target : RunStatus) {v : ℤ} {k : UUID}
    {row : RunRow} (hid : current.id = k) (hrow : c.db.runs.find? k = some row)
    (hv : (row.version : ℤ) = v) (hactive : row.status.Active) :
    ∃ c', (updateStatus current target v).Yields c () c' := by
  subst hid
  refine ⟨_, yields_updateStatus.mpr ⟨⟨row, hrow, hv⟩, ?_, rfl⟩⟩
  refine c.db.one_active.update (fun _ => rfl) fun r hr hp => ?_
  obtain rfl : r = row := c.db.runs.eq_of_key_eq hr (Table.mem_of_find? hrow)
    (hp.1.trans (Table.key_of_find? hrow).symm)
  exact hactive

/-- A run whose time of update is aware can be read. -/
theorem exists_yields_readRun {k : UUID} {row : RunRow} (hrow : c.db.runs.find? k = some row)
    (haware : row.updatedAt.Aware) : ∃ run, (readRun k).Yields c run c :=
  ⟨_, yields_readRun.mpr ⟨row, hrow, ⟨haware, rfl⟩, rfl⟩⟩

/-! ### Statements that raise no conflict -/

section Conflicts

variable {k : UUID} {e : StoreError}

theorem isConflict_of_raises_readRun (h : (readRun k).Raises c e) : e.isConflict = false := by
  simp only [readRun, requiredRunRow, raises_bind, yields_bind, raises_ofExcept,
    yields_query] at h
  rcases h with (h | ⟨found, _, ⟨hfound, rfl⟩, h⟩) | ⟨row, _, -, h⟩
  · exact absurd h not_raises_query
  · rcases found with _ | row
    · obtain rfl := raises_raise.mp h
      rfl
    · exact absurd h not_raises_pure
  · rw [runFromRow] at h
    split_ifs at h
    obtain rfl := Except.error.inj h
    rfl

theorem isConflict_of_raises_updateRuns {p : RunRow → Prop} [DecidablePred p]
    {f : RunRow → RunRow} {hf : ∀ r, (f r).id = r.id} (h : (updateRuns p f hf).Raises c e) :
    e.isConflict = false := by
  simp only [updateRuns, raises_bind, yields_query] at h
  rcases h with h | ⟨_, _, ⟨rfl, rfl⟩, h⟩
  · exact absurd h not_raises_query
  · split_ifs at h
    · simp only [raises_bind] at h
      rcases h with h | ⟨_, _, -, h⟩
      · exact absurd h not_raises_execute
      · exact absurd h not_raises_pure
    · obtain rfl := raises_raise.mp h
      rfl

theorem isConflict_of_raises_appendEvent {type : String} {data : JsonObject}
    (h : (appendEvent k type data).Raises c e) : e.isConflict = false := by
  simp only [appendEvent, requireReference, raises_bind, yields_query, yields_now] at h
  rcases h with h | ⟨_, _, -, h⟩
  · exact absurd h not_raises_query
  rcases h with h | ⟨_, c₁, -, h⟩
  · exact absurd h not_raises_now
  rcases h with (h | ⟨found, _, -, h⟩) | ⟨_, c₂, -, h⟩
  · exact absurd h not_raises_query
  · rcases found with _ | row
    · obtain rfl := raises_raise.mp h
      rfl
    · exact absurd h not_raises_pure
  · rcases h with h | ⟨found, _, -, h⟩
    · exact absurd h not_raises_query
    rcases found with _ | t
    · obtain rfl := raises_raise.mp h
      rfl
    · simp only [raises_bind] at h
      rcases h with h | ⟨_, _, -, h⟩
      · exact absurd h not_raises_execute
      · exact absurd h not_raises_pure

/-- A transition of a run that is in the expected version, along the machine of statuses, does
not raise a conflict. -/
theorem isConflict_of_raises_transitionRun {v : ℤ} {target : RunStatus}
    {state : Option JsonObject} {nextNodes : Option (List String)} {row : RunRow}
    (hrow : c.db.runs.find? k = some row) (hv : (row.version : ℤ) = v)
    (htarget : target ∈ row.status.transitions)
    (h : (transitionRun k v target state nextNodes).Raises c e) : e.isConflict = false := by
  simp only [transitionRun, raises_bind, yields_raiseUnless, yields_ofExcept,
    assertTransition_eq_ok, yields_now, raises_raiseUnless, raises_ofExcept] at h
  rcases h with h | ⟨current, _, hread, h⟩
  · exact isConflict_of_raises_readRun h
  obtain ⟨row', hrow', ⟨haware, rfl⟩, rfl⟩ := yields_readRun.mp hread
  cases hrow.symm.trans hrow'
  rcases h with ⟨hne, -⟩ | ⟨_, _, ⟨-, rfl⟩, h⟩
  · exact absurd hv hne
  rcases h with h | ⟨_, _, ⟨-, rfl⟩, h⟩
  · rw [assertTransition, RunRow.toRun_status, if_pos htarget] at h
    cases h
  rcases h with h | ⟨_, c₁, ⟨rfl, rfl⟩, h⟩
  · exact absurd h not_raises_now
  rcases h with h | ⟨n, c₂, hwrite, h⟩
  · exact isConflict_of_raises_updateRuns h
  rcases h with ⟨hn, -⟩ | ⟨_, c₃, ⟨-, rfl⟩, h⟩
  · obtain ⟨-, hcount, -⟩ := yields_updateRuns.mp hwrite
    refine absurd (hcount.symm.trans ?_) hn
    exact (Table.rowcount_eq_one_iff fun _ h => h.1).mpr
      ⟨row, hrow, Table.key_of_find? hrow, hv⟩
  rcases h with h | ⟨_, c₄, -, h⟩
  · exact isConflict_of_raises_appendEvent h
  · exact isConflict_of_raises_readRun h

end Conflicts

end SQLite

end OpenRath
