import OpenRath.Runtime.Sqlite.Statements

/-!
# What the operations of the SQLite store do to a run

Every operation of the store that returns acts on the view of every run by a step of the machine
of `OpenRath.Runtime.RunMachine`; an operation that raises leaves all tables as they were. The
sweeps over expired interrupts and leases read all rows before their loop and write them one
after the other; that each run is still written at most once is the invariant of the loop.

## Main definitions

* `SQLite.Wrote`, `SQLite.Claimed`: what a successful operation tells about the run it wrote.
* `SQLite.Sweeps`: the loop of `expire_interrupts` after some of its rows.

## Main results

* `SQLite.wrote_transitionRun`, `SQLite.wrote_commitCheckpoint`, `SQLite.wrote_finishClaim`,
  `SQLite.wrote_createInterrupt`, `SQLite.wrote_decideInterrupt`, `SQLite.claimed_claimNext`: the
  steps that the operations on one run take.
* `SQLite.sweeps_expireInterrupts`, `SQLite.step_requeueExpiredLeases`: the steps of the sweeps.
-/

namespace OpenRath

namespace SQLite

open Tx Connection

variable {c c' : Connection}

/-! ### Operations on one run -/

/-- The run in the tables under its id is this one. -/
def Stored (db : Database) (run : Run) : Prop :=
  ∃ row, db.runs.find? run.id = some row ∧ runFromRow row = .ok run

theorem stored_of_readRun {k : UUID} {run : Run} (h : (readRun k).Yields c run c') :
    run.id = k ∧ Stored c.db run ∧ c = c' := by
  obtain ⟨row, hrow, ⟨haware, rfl⟩, rfl⟩ := yields_readRun.mp h
  obtain rfl : row.id = k := Table.key_of_find? hrow
  exact ⟨rfl, ⟨row, hrow, runFromRow_eq_ok.mpr ⟨haware, rfl⟩⟩, rfl⟩

/-- What a successful operation tells about the run it wrote: it was there with the expected
version, it took the step `a`, and the result is the run as it is now stored. -/
structure Wrote (k : UUID) (v : ℤ) (a : RunAction) (db db' : Database) (run : Run) : Prop where
  version_eq : ∃ row, db.runs.find? k = some row ∧ (row.version : ℤ) = v
  takes : Takes k a db db'
  id_eq : run.id = k
  stored : Stored db' run

theorem wrote_transitionRun {k : UUID} {v : ℤ} {target : RunStatus} {state : Option JsonObject}
    {nextNodes : Option (List String)} {run : Run}
    (h : (transitionRun k v target state nextNodes).Yields c run c') :
    Wrote k v (.transition target state nextNodes) c.db c'.db run := by
  simp only [transitionRun, yields_bind, yields_raiseUnless, yields_ofExcept,
    assertTransition_eq_ok, yields_now] at h
  obtain ⟨current, _, hread, _, _, ⟨hv, rfl⟩, _, _, ⟨ht, rfl⟩, _, _, ⟨rfl, rfl⟩, n, c₁, hwrite,
    _, _, ⟨-, rfl⟩, e, c₂, he, hlast⟩ := h
  obtain ⟨row, hrow, ⟨haware, rfl⟩, rfl⟩ := yields_readRun.mp hread
  have hupdate := actsOn_updateRuns hwrite (fun _ h => h.1) hrow ⟨Table.key_of_find? hrow, hv⟩
  obtain ⟨hseq, -, hevent⟩ := actsOn_appendEvent he
  obtain ⟨hid, hstored, rfl⟩ := stored_of_readRun hlast
  rw [hupdate.view_eq] at hseq hevent
  refine ⟨⟨row, hrow, hv⟩, (hupdate.trans hevent).takes ?_, hid, hstored⟩
  exact .transition (.utc (c.clock 0)) hrow ht hseq

theorem takes_appendRunEvent {k : UUID} {type : String} {data : JsonObject} {e : RunEvent}
    (h : (appendRunEvent k type data).Yields c e c') : Takes k .logEvent c.db c'.db := by
  simp only [appendRunEvent, yields_bind, yields_requiredRunRow] at h
  obtain ⟨row, _, ⟨hrow, rfl⟩, he⟩ := h
  obtain ⟨hseq, -, hevent⟩ := actsOn_appendEvent he
  exact hevent.takes (.logEvent hrow hseq)

theorem takes_appendCheckpoint {k : Checkpoint} {u : Unit}
    (h : (appendCheckpoint k).Yields c u c') :
    Takes k.runId .appendCheckpoint c.db c'.db := by
  simp only [appendCheckpoint, yields_bind, yields_requiredRunRow, yields_requireNextSequence,
    yields_pure] at h
  obtain ⟨row, _, ⟨hrow, rfl⟩, _, _, ⟨hk, rfl⟩, _, c₁, hput, e, _, he, -, rfl⟩ := h
  have hinsert := actsOn_insertCheckpoint hput
  obtain ⟨hseq, -, hevent⟩ := actsOn_appendEvent he
  rw [hinsert.view_eq] at hseq hevent
  exact (hinsert.trans hevent).takes (.appendCheckpoint hrow hk hseq)

theorem wrote_commitCheckpoint {k : Checkpoint} {workerId : String} {token v : ℤ} {run : Run}
    (h : (commitCheckpoint k workerId token v).Yields c run c') :
    (∃ lease, Holds c.db (.utc (c.clock 0)) k.runId workerId token lease) ∧
      Wrote k.runId v (.commit k) c.db c'.db run := by
  simp only [commitCheckpoint, yields_bind, yields_requiredLease, yields_raiseUnless,
    yields_requireNextSequence] at h
  obtain ⟨lease, _, ⟨hlease, rfl⟩, current, _, hread, _, _, ⟨hv, rfl⟩, _, _, ⟨hs, rfl⟩, _, _,
    ⟨hk, rfl⟩, _, c₁, hput, n, c₂, hwrite, e, _, he, hlast⟩ := h
  obtain ⟨row, hrow, ⟨haware, rfl⟩, rfl⟩ := yields_readRun.mp hread
  have hinsert := actsOn_insertCheckpoint hput
  have hrow₁ : c₁.db.runs.find? k.runId = some row :=
    (congrArg RunView.row hinsert.view_eq).trans hrow
  have hupdate := actsOn_updateRuns hwrite (fun _ h => h.1) hrow₁ ⟨Table.key_of_find? hrow, hv⟩
  obtain ⟨hseq, -, hevent⟩ := actsOn_appendEvent he
  obtain ⟨hid, hstored, rfl⟩ := stored_of_readRun hlast
  rw [hupdate.view_eq, hinsert.view_eq] at hseq hevent
  refine ⟨⟨lease, hlease⟩, ⟨row, hrow, hv⟩, ((hinsert.trans hupdate).trans hevent).takes ?_,
    hid, hstored⟩
  exact .commit hrow hs hlease.find_eq hlease.active hk hseq

theorem wrote_finishClaim {k : UUID} {workerId : String} {token v : ℤ} {target : RunStatus}
    {type : String} {data : Option JsonObject} {run : Run}
    (h : (finishClaim k workerId token v target type data).Yields c run c') :
    (∃ lease, Holds c.db (.utc (c.clock 0)) k workerId token lease) ∧
      Wrote k v (.finish target) c.db c'.db run := by
  simp only [finishClaim, yields_bind, yields_requiredLease, yields_raiseUnless,
    yields_ofExcept, assertTransition_eq_ok, yields_now] at h
  obtain ⟨lease, _, ⟨hlease, rfl⟩, current, _, hread, _, _, ⟨hv, rfl⟩, _, _, ⟨ht, rfl⟩, _, c₁,
    hstatus, _, _, ⟨rfl, rfl⟩, _, c₂, hfree, e, _, he, hlast⟩ := h
  obtain ⟨row, hrow, ⟨haware, rfl⟩, rfl⟩ := yields_readRun.mp hread
  have hkey : row.id = k := Table.key_of_find? hrow
  obtain ⟨-, hupdate⟩ := actsOn_updateStatus hstatus hkey hrow
  have hrelease := actsOn_updateLease hfree
  obtain ⟨hseq, -, hevent⟩ := actsOn_appendEvent he
  obtain ⟨hid, hstored, rfl⟩ := stored_of_readRun hlast
  have hview : (c.db.view k).lease = some lease := hlease.find_eq
  rw [hrelease.view_eq, db_tick, hupdate.view_eq, db_tick] at hseq hevent
  simp only [hview, Option.map_some] at hseq hevent
  refine ⟨⟨lease, hlease⟩, ⟨row, hrow, hv⟩, ((hupdate.trans hrelease).trans hevent).takes ?_,
    hid, hstored⟩
  exact .finish (.utc (c.clock 1)) (.utc (c₁.clock 0)) hrow ht hlease.find_eq hlease.active hseq

/-- The row that the end of a claim finds. -/
theorem exists_row_of_finishClaim {k : UUID} {workerId : String} {token v : ℤ}
    {target : RunStatus} {type : String} {data : Option JsonObject} {run : Run}
    (h : (finishClaim k workerId token v target type data).Yields c run c') :
    ∃ row, c.db.runs.find? k = some row ∧ (row.version : ℤ) = v ∧ row.updatedAt.Aware ∧
      target ∈ row.status.transitions := by
  simp only [finishClaim, yields_bind, yields_requiredLease, yields_raiseUnless,
    yields_ofExcept, assertTransition_eq_ok] at h
  obtain ⟨lease, _, ⟨-, rfl⟩, current, _, hread, _, _, ⟨hv, rfl⟩, _, _, ⟨ht, rfl⟩, -⟩ := h
  obtain ⟨row, hrow, ⟨haware, rfl⟩, rfl⟩ := yields_readRun.mp hread
  exact ⟨row, hrow, hv, haware, ht⟩

/-- The end of a claim succeeds if the worker holds the lease and expects the version that the run
is in. -/
theorem exists_yields_finishClaim {k : UUID} {workerId : String} {token v : ℤ}
    {target : RunStatus} (type : String) (data : Option JsonObject) {lease : LeaseRow}
    {row : RunRow} (hlease : Holds c.db (.utc (c.clock 0)) k workerId token lease)
    (hrow : c.db.runs.find? k = some row) (haware : row.updatedAt.Aware)
    (hv : (row.version : ℤ) = v) (htarget : target ∈ row.status.transitions) :
    ∃ run c', (finishClaim k workerId token v target type data).Yields c run c' := by
  have hkey : row.id = k := Table.key_of_find? hrow
  obtain ⟨c₁, hstatus⟩ := exists_yields_updateStatus (c := c.tick)
    (row.toRun haware) target hkey hrow hv
    (RunStatus.active_of_mem_transitions htarget)
  obtain ⟨-, hupdate⟩ := actsOn_updateStatus hstatus hkey hrow
  let c₂ : Connection := c₁.tick.setLeases (c₁.db.runLeases.update (fun l => l.runId = k)
    (fun l => { l with active := false, updatedAt := .utc (c₁.clock 0) }) fun _ => rfl)
  have hrow₂ : c₂.db.runs.find? k = some (row.write target (.utc (c.clock 1))) :=
    congrArg RunView.row hupdate.view_eq
  -- Whatever the event tells, it is appended, and the run is read back.
  have hevent : ∀ data, ∃ e c₃ run, (appendEvent k type data).Yields c₂ e c₃ ∧
      (readRun k).Yields c₃ run c₃ := by
    intro data
    obtain ⟨e, c₃, he⟩ := exists_yields_appendEvent type data hrow₂
    obtain ⟨-, -, hevent⟩ := actsOn_appendEvent he
    have hrow₃ : c₃.db.runs.find? k = some (row.write target (.utc (c.clock 1))) :=
      (congrArg RunView.row hevent.view_eq).trans hrow₂
    obtain ⟨run, hread⟩ := exists_yields_readRun hrow₃ (Datetime.isUtc_utc _).aware
    exact ⟨e, c₃, run, he, hread⟩
  choose e c₃ run he hread using hevent
  simp only [finishClaim, yields_bind, yields_requiredLease, yields_raiseUnless,
    yields_ofExcept, assertTransition_eq_ok, yields_now, yields_readRun]
  exact ⟨run _, c₃ _, lease, c.tick, ⟨hlease, rfl⟩, row.toRun haware, c.tick,
    ⟨row, hrow, ⟨haware, rfl⟩, rfl⟩, (), c.tick, ⟨hv, rfl⟩, (), c.tick, ⟨htarget, rfl⟩, (), c₁,
    hstatus, _, c₁.tick, ⟨rfl, rfl⟩, (), c₂, yields_updateLease.mpr rfl, e _, c₃ _,
    he _, yields_readRun.mp (hread _)⟩

theorem wrote_createInterrupt {k : Interrupt} {v : ℤ} {run : Run}
    (h : (createInterrupt k v).Yields c run c') :
    Wrote k.runId v .interrupt c.db c'.db run := by
  simp only [createInterrupt, yields_bind, yields_raiseUnless, yields_ofExcept,
    assertTransition_eq_ok, yields_requireReference, yields_query] at h
  obtain ⟨current, _, hread, _, _, ⟨hv, rfl⟩, _, _, ⟨ht, rfl⟩, _, _, ⟨-, rfl⟩, found, _,
    ⟨-, rfl⟩, h⟩ := h
  obtain ⟨row, hrow, ⟨haware, rfl⟩, rfl⟩ := yields_readRun.mp hread
  rcases found with _ | interrupts
  · exact absurd h not_yields_raise
  simp only [yields_bind, yields_execute] at h
  obtain ⟨_, _, rfl, _, c₁, hstatus, _, c₂, hfree, e, _, he, hlast⟩ := h
  have hkey : row.id = k.runId := Table.key_of_find? hrow
  obtain ⟨-, hupdate⟩ := actsOn_updateStatus hstatus hkey hrow
  have hrelease := actsOn_updateLease hfree
  obtain ⟨hseq, -, hevent⟩ := actsOn_appendEvent he
  obtain ⟨hid, hstored, rfl⟩ := stored_of_readRun hlast
  rw [hrelease.view_eq, hupdate.view_eq] at hseq hevent
  have hacts := (hupdate.trans hrelease).trans hevent
  refine ⟨⟨row, hrow, hv⟩, ActsOn.takes ⟨hacts.view_eq, hacts.view_of_ne⟩ ?_, hid, hstored⟩
  exact .interrupt (.utc (c.clock 0)) k.createdAt hrow ht hseq

theorem wrote_decideInterrupt {i : UUID} {d : ApprovalDecision} {v : ℤ} {run : Run}
    (h : (decideInterrupt i d v).Yields c run c') :
    ∃ k, c.db.interrupts.find? i = some k ∧ Wrote k.runId v .decide c.db c'.db run := by
  simp only [decideInterrupt, yields_bind, yields_query] at h
  obtain ⟨found, _, ⟨hfound, rfl⟩, h⟩ := h
  rcases found with _ | k
  · exact absurd h not_yields_raise
  simp only [yields_bind, yields_raiseUnless, yields_ofExcept, assertTransition_eq_ok,
    yields_now] at h
  obtain ⟨_, _, ⟨-, rfl⟩, current, _, hread, _, _, ⟨hv, rfl⟩, _, _, ⟨ht, rfl⟩, _, _, ⟨rfl, rfl⟩,
    h⟩ := h
  obtain ⟨row, hrow, ⟨haware, rfl⟩, rfl⟩ := yields_readRun.mp hread
  rw [dif_pos (Datetime.isUtc_utc _).aware] at h
  simp only [yields_bind, yields_updateDecision] at h
  obtain ⟨_, _, rfl, _, c₁, hstatus, e, _, he, hlast⟩ := h
  have hkey : row.id = k.runId := Table.key_of_find? hrow
  obtain ⟨-, hupdate⟩ := actsOn_updateStatus hstatus hkey hrow
  obtain ⟨hseq, -, hevent⟩ := actsOn_appendEvent he
  obtain ⟨hid, hstored, rfl⟩ := stored_of_readRun hlast
  rw [hupdate.view_eq] at hseq hevent
  have hacts := hupdate.trans hevent
  refine ⟨k, hfound, ⟨row, hrow, hv⟩, ActsOn.takes ⟨hacts.view_eq, hacts.view_of_ne⟩ ?_, hid,
    hstored⟩
  exact .decide (.utc (c.clock 1)) hrow ht hseq

/-- The row was made for the request that the run repeats: it has the same tenant, idempotency key
and fingerprint. -/
structure Repeats (sha : Sha256) (run : Run) (row : RunRow) : Prop where
  tenant_eq : row.tenantId = run.tenantId
  key_eq : ∃ key, run.idempotencyKey = some key ∧ row.idempotencyKey = some key
  fingerprint_eq : row.requestFingerprint = fingerprint sha run

instance (sha : Sha256) (run : Run) (row : RunRow) : Decidable (Repeats sha run row) :=
  decidable_of_iff (row.tenantId = run.tenantId ∧
    (run.idempotencyKey.isSome ∧ row.idempotencyKey = run.idempotencyKey) ∧
    row.requestFingerprint = fingerprint sha run)
    ⟨fun ⟨htenant, ⟨hsome, hkey⟩, hfingerprint⟩ => by
      obtain ⟨key, hk⟩ := Option.isSome_iff_exists.mp hsome
      exact ⟨htenant, ⟨key, hk, hkey.trans hk⟩, hfingerprint⟩,
    fun ⟨htenant, ⟨key, hk, hkey⟩, hfingerprint⟩ =>
      ⟨htenant, ⟨by rw [hk]; rfl, hkey.trans hk.symm⟩, hfingerprint⟩⟩

/-- A request is answered by an earlier run that was made for the same request, or it makes the
run. -/
theorem answer_createRun {sha : Sha256} {run r : Run} (h : (createRun sha run).Yields c r c') :
    (∃ row ∈ c.db.runs.rows, Repeats sha run row ∧ (∃ haware, row.toRun haware = r) ∧ c = c') ∨
      r = run ∧ Takes run.id (.create run) c.db c'.db := by
  simp only [createRun, yields_bind, yields_query] at h
  obtain ⟨found, _, ⟨hfound, rfl⟩, h⟩ := h
  rcases found with _ | row
  · simp only [yields_bind, yields_mapError, yields_pure] at h
    obtain ⟨_, c₁, hput, e, _, he, rfl, rfl⟩ := h
    obtain ⟨hnone, hinsert⟩ := actsOn_insertRun hput
    obtain ⟨hseq, htype, hevent⟩ := actsOn_appendEvent he
    change ActsOn run.id _ _ _ at hinsert
    rw [hinsert.view_eq] at hseq hevent
    exact Or.inr ⟨rfl, (hinsert.trans hevent).takes (.create _ hnone hseq htype)⟩
  · simp only [yields_bind, yields_raiseUnless, yields_ofExcept] at h
    obtain ⟨_, _, ⟨hfingerprint, rfl⟩, hrun, rfl⟩ := h
    obtain ⟨key, hkey, hfind⟩ := Option.bind_eq_some_iff.mp hfound
    have hrow : row.tenantId = run.tenantId ∧ row.idempotencyKey = some key := by
      simpa using List.find?_some hfind
    exact Or.inl ⟨row, List.mem_of_find?_eq_some hfind, ⟨hrow.1, ⟨key, hkey, hrow.2⟩,
      hfingerprint⟩, runFromRow_eq_ok.mp hrun, rfl⟩

/-- A request is answered by an earlier run, or it makes the run. -/
theorem takes_createRun {sha : Sha256} {run r : Run} (h : (createRun sha run).Yields c r c') :
    c = c' ∨ r = run ∧ Takes run.id (.create run) c.db c'.db := by
  rcases answer_createRun h with ⟨-, -, -, -, hsame⟩ | hmade
  · exact Or.inl hsame
  · exact Or.inr hmade

theorem db_of_nowOr {d : Option Datetime} {t : Datetime} (h : (nowOr d).Yields c t c') :
    c'.db = c.db := by
  rcases d with _ | d
  · obtain ⟨-, rfl⟩ := yields_now.mp h
    rfl
  · obtain ⟨-, rfl⟩ := yields_pure.mp h
    rfl

/-- What a lease record says about the lease it was built from. -/
theorem resourceLease_ofRun_eq_ok {id k : UUID} {workerId : String} {expiresAt : Datetime}
    {token : ℕ} {createdAt updatedAt : Datetime} {lease : ResourceLease}
    (h : ResourceLease.ofRun id k workerId expiresAt token createdAt updatedAt = .ok lease) :
    lease.ownerRunId = k ∧ lease.holderWorkerId = workerId ∧ lease.fencingToken = token ∧
      lease.expiresAt = expiresAt ∧ expiresAt.Aware := by
  unfold ResourceLease.ofRun at h
  split_ifs at h with h₁ h₂ h₃ h₄ h₅
  obtain rfl := Except.ok.inj h
  exact ⟨rfl, rfl, rfl, rfl, h₃⟩

/-- What a granted claim tells: the run was queued, it took a claim step, and the lease handed
out is the one in the tables. -/
structure Claimed (db db' : Database) (workerId : String) (claimed : ClaimedRun) : Prop where
  takes : Takes claimed.run.id (.claim claimed.lease.fencingToken) db db'
  stored : Stored db' claimed.run
  owner_eq : claimed.lease.ownerRunId = claimed.run.id
  lease_eq : ∃ lease, db'.runLeases.find? claimed.run.id = some lease ∧ lease.active = true ∧
    lease.holderWorkerId = workerId ∧ lease.fencingToken = claimed.lease.fencingToken

theorem claimed_claimNext {sha : Sha256} {workerId : String} {seconds : Seconds}
    {givenNow : Option Datetime} {r : Option ClaimedRun}
    (h : (claimNext sha workerId seconds givenNow).Yields c r c') :
    (r = none ∧ c'.db = c.db) ∨ ∃ claimed, r = some claimed ∧
      (∃ row, nextQueued c.db = some row ∧ row.id = claimed.run.id) ∧
      Claimed c.db c'.db workerId claimed := by
  simp only [claimNext, yields_bind, yields_raiseUnless, yields_query] at h
  obtain ⟨_, _, ⟨-, rfl⟩, _, _, ⟨-, rfl⟩, claimedAt, c₀, hnow, _, _, ⟨-, rfl⟩, found, _,
    ⟨hfound, rfl⟩, h⟩ := h
  have hdb := db_of_nowOr hnow
  rcases found with _ | row
  · obtain ⟨rfl, rfl⟩ := yields_pure.mp h
    exact Or.inl ⟨rfl, hdb⟩
  refine Or.inr ?_
  simp only [yields_bind, yields_raiseUnless, yields_query, yields_ofExcept,
    assertTransition_eq_ok, runFromRow_eq_ok, yields_pure] at h
  obtain ⟨current, _, ⟨⟨haware, rfl⟩, rfl⟩, _, _, ⟨ht, rfl⟩, n, c₁, hwrite, _, _, ⟨hn, rfl⟩,
    previous, _, ⟨hprevious, rfl⟩, createdAt, _, ⟨-, rfl⟩, expiresAt, _, ⟨-, rfl⟩, _, c₂, hput,
    e, c₃, he, run, c₄, hlast, lease, _, ⟨hlease, rfl⟩, rfl, rfl⟩ := h
  obtain ⟨row', hrow', hid, hv, hs⟩ := (Table.rowcount_eq_one_iff (k := row.id)
    fun _ h => h.1).mp ((yields_updateRuns.mp hwrite).2.1.trans hn)
  simp only [RunRow.toRun_id] at hprevious hput he hlast hlease
  have hupdate : ActsOn row.id
      { c₀.db.view row.id with row := some (row'.write .running claimedAt) } c₀.db c₁.db :=
    actsOn_updateRuns hwrite (fun _ h => h.1) hrow' ⟨hid, hv, hs⟩
  obtain ⟨new, hactive, hholder, -, htoken, -, hupsert⟩ := actsOn_upsertLease hput rfl
  obtain ⟨hseq, -, hevent⟩ := actsOn_appendEvent he
  obtain ⟨hrunId, hstored, rfl⟩ := stored_of_readRun hlast
  obtain ⟨howner, -, htoken', -, -⟩ := resourceLease_ofRun_eq_ok hlease
  simp only at hholder htoken hupsert
  rw [hupsert.view_eq, hupdate.view_eq] at hseq hevent
  have hacts := (hupdate.trans hupsert).trans hevent
  have hprevious' : (c₀.db.view row.id).lease = previous :=
    (congrArg RunView.lease hupdate.view_eq).symm.trans hprevious
  have hnew : new.fencingToken =
      ((c₀.db.view row.id).lease.map LeaseRow.fencingToken).getD 0 + 1 := by
    rw [htoken, hprevious']
    rcases previous with _ | l <;> rfl
  have hlease' : c₃.db.runLeases.find? row.id = some new := congrArg RunView.lease hacts.view_eq
  rw [← hdb]
  refine ⟨⟨run, lease⟩, rfl, ⟨row, hfound, hrunId.symm⟩, ?_, hstored, howner.trans hrunId.symm, ?_⟩
  · rw [hrunId, htoken', ← htoken]
    exact hacts.takes (.claim claimedAt hrow' hs hactive hnew hseq)
  · rw [hrunId, htoken']
    exact ⟨new, hlease', hactive, hholder, htoken⟩

theorem takes_renewLease {k : UUID} {workerId : String} {token : ℤ} {seconds : Seconds}
    {givenNow : Option Datetime} {r : ResourceLease}
    (h : (renewLease k workerId token seconds givenNow).Yields c r c') :
    (∃ d lease, Holds c.db d k workerId token lease) ∧ Takes k .renew c.db c'.db := by
  simp only [renewLease, yields_bind, yields_raiseUnless, yields_ofExcept,
    yields_requiredLease] at h
  obtain ⟨_, _, ⟨-, rfl⟩, renewedAt, c₀, hnow, expiresAt, _, ⟨-, rfl⟩, lease, _, ⟨hlease, rfl⟩,
    _, c₁, hwrite, _, _, ⟨-, rfl⟩, -, rfl⟩ := h
  have hdb := db_of_nowOr hnow
  have hview : (c₀.db.view k).lease = some lease := hlease.find_eq
  have hupdate := actsOn_updateLease hwrite
  rw [db_tick] at hupdate
  simp only [hview, Option.map_some] at hupdate
  rw [← hdb]
  exact ⟨⟨_, lease, hlease⟩, hupdate.takes (.renew expiresAt renewedAt hview hlease.active)⟩

/-! ### Sweeps -/

theorem mem_expiredRows {db : Database} {d : Datetime} {row : ExpiredRow} :
    row ∈ expiredRows db d ↔ db.interrupts.find? row.interrupt.id = some row.interrupt ∧
      row.interrupt.decision = none ∧
      (∃ e ∈ row.interrupt.expiresAt, e.isoformat ≤ d.isoformat) ∧
      ∃ r, db.runs.find? row.interrupt.runId = some r ∧ row.runVersion = r.version ∧
        row.runStatus = r.status := by
  rw [expiredRows, List.mem_insertionSort, List.mem_filterMap]
  simp only [List.mem_filter, decide_eq_true_eq, Option.map_eq_some_iff]
  constructor
  · rintro ⟨k, ⟨hk, hnone, hexpired⟩, r, hr, rfl⟩
    exact ⟨Table.find?_of_mem hk, hnone, hexpired, r, hr, rfl, rfl⟩
  · rintro ⟨hk, hnone, hexpired, r, hr, hv, hs⟩
    refine ⟨row.interrupt, ⟨Table.mem_of_find? hk, hnone, hexpired⟩, r, hr, ?_⟩
    rw [← hv, ← hs]

/-- An iteration of the sweep over interrupts times out the run of a row that was read as
waiting, if its version is still the one that was read. -/
theorem takes_expireInterrupt {d : Datetime} {hd : d.Aware} {row : ExpiredRow} {u : Unit}
    (h : (expireInterrupt d hd row).Yields c u c') :
    (row.runStatus ≠ .waiting ∧ ∀ i, c'.db.view i = c.db.view i) ∨
    row.runStatus = .waiting ∧ ∃ r v, c.db.runs.find? row.interrupt.runId = some r ∧
      r.version = row.runVersion ∧ ActsOn row.interrupt.runId v c.db c'.db ∧
      (r.status = .waiting → (c.db.view row.interrupt.runId).Step .expire v) := by
  simp only [expireInterrupt, yields_bind, yields_updateDecision] at h
  obtain ⟨_, _, rfl, h⟩ := h
  split_ifs at h with hs
  · simp only [yields_bind, yields_pure] at h
    obtain ⟨current, _, hread, _, c₁, hstatus, e, _, he, -, rfl⟩ := h
    obtain ⟨r, hr, ⟨haware, rfl⟩, rfl⟩ := yields_readRun.mp hread
    have hkey : r.id = row.interrupt.runId := Table.key_of_find? hr
    obtain ⟨hv, hupdate⟩ := actsOn_updateStatus hstatus hkey hr
    obtain ⟨hseq, -, hevent⟩ := actsOn_appendEvent he
    rw [hupdate.view_eq] at hseq hevent
    have hacts := hupdate.trans hevent
    refine Or.inr ⟨hs, r, _, hr, by exact_mod_cast hv, ⟨hacts.view_eq, hacts.view_of_ne⟩,
      fun hw => ?_⟩
    exact .expire (.utc (c.clock 0)) hr hw hseq
  · obtain ⟨-, rfl⟩ := yields_pure.mp h
    exact Or.inl ⟨hs, fun i => rfl⟩

/-- What the sweep over interrupts has done after some of its rows: the runs of the rows that were
read as waiting are timed out, the other runs are left alone, and no two of these rows have the
same run. -/
structure Sweeps (rows : List ExpiredRow) (db db' : Database) : Prop where
  runs : ∀ row ∈ rows, row.runStatus = .waiting →
    (db.view row.interrupt.runId).Step .expire (db'.view row.interrupt.runId)
  rest : ∀ i, (∀ row ∈ rows, row.interrupt.runId = i → row.runStatus ≠ .waiting) →
    db'.view i = db.view i
  alone : rows.Pairwise fun a b => a.runStatus = .waiting → b.runStatus = .waiting →
    a.interrupt.runId ≠ b.interrupt.runId

theorem sweeps_nil (db : Database) : Sweeps [] db db :=
  ⟨fun _ h => absurd h List.not_mem_nil, fun _ _ => rfl, .nil⟩

/-- An iteration finds the run as it was before the loop: an earlier row of the same run would have
raised its version. -/
theorem Sweeps.step {d : Datetime} {hd : d.Aware} {db : Database} {rows : List ExpiredRow}
    {row : ExpiredRow} {u : Unit} (h : Sweeps rows db c.db) (hmem : row ∈ expiredRows db d)
    (hy : (expireInterrupt d hd row).Yields c u c') : Sweeps (rows ++ [row]) db c'.db := by
  obtain ⟨-, -, -, r₀, hr₀, hver₀, hstat₀⟩ := mem_expiredRows.mp hmem
  rcases takes_expireInterrupt hy with ⟨hs, hsame⟩ | ⟨hs, r, v, hr, hver, hacts, hstep⟩
  · refine ⟨fun row' hrow' hs' => ?_, fun i hi => ?_, ?_⟩
    · rcases List.mem_append.mp hrow' with hpre | hlast
      · rw [hsame]
        exact h.runs row' hpre hs'
      · obtain rfl := List.mem_singleton.mp hlast
        exact absurd hs' hs
    · rw [hsame]
      exact h.rest i fun row' hrow' => hi row' (List.mem_append_left _ hrow')
    · refine List.pairwise_append.mpr ⟨h.alone, List.pairwise_singleton _ _, ?_⟩
      intro a _ b hb _ hs'
      rw [List.mem_singleton.mp hb] at hs'
      exact absurd hs' hs
  have hfresh : ∀ row' ∈ rows, row'.runStatus = .waiting →
      row'.interrupt.runId ≠ row.interrupt.runId := by
    intro row' hrow' hs' hid
    have hdone := h.runs row' hrow' hs'
    rw [hid] at hdone
    obtain ⟨r₁, r₂, hr₁, hw⟩ := hdone.exists_writes rfl
    have hold : r₀ = r₁ := Option.some.inj (hr₀.symm.trans hr₁)
    have hnew : r₂ = r := Option.some.inj (hw.row_eq.symm.trans hr)
    have hnext := hw.version_eq
    rw [← hold, hnew] at hnext
    omega
  have hsame := h.rest row.interrupt.runId fun row' hrow' hid hs' => hfresh row' hrow' hs' hid
  have hrr : r₀ = r := by
    have hview := congrArg RunView.row hsame
    exact Option.some.inj (hr₀.symm.trans (hview.symm.trans hr))
  subst hrr
  refine ⟨fun row' hrow' hs' => ?_, fun i hi => ?_, ?_⟩
  · rcases List.mem_append.mp hrow' with hpre | hlast
    · rw [hacts.view_of_ne _ (hfresh row' hpre hs')]
      exact h.runs row' hpre hs'
    · obtain rfl := List.mem_singleton.mp hlast
      rw [hacts.view_eq, ← hsame]
      exact hstep (hstat₀ ▸ hs)
  · have hne : i ≠ row.interrupt.runId := fun hid =>
      hi row (List.mem_append_right _ (List.mem_singleton_self row)) hid.symm hs
    rw [hacts.view_of_ne i hne]
    exact h.rest i fun row' hrow' => hi row' (List.mem_append_left _ hrow')
  · refine List.pairwise_append.mpr ⟨h.alone, List.pairwise_singleton _ _, ?_⟩
    intro a ha b hb hs' _
    rw [List.mem_singleton.mp hb]
    exact hfresh a ha hs'

/-- **Expiry of interrupts.** The runs of the rows that are read as waiting are timed out. -/
theorem sweeps_expireInterrupts {givenNow : Option Datetime} {ids : List UUID}
    (h : (expireInterrupts givenNow).Yields c ids c') : ∃ d c₀, ∃ hd : Datetime.Aware d,
      (nowOr givenNow).Yields c d c₀ ∧ Sweeps (expiredRows c.db d) c.db c'.db ∧
      (forEach (expireInterrupt d hd) (expiredRows c.db d)).Yields c₀ () c' ∧
      ids = (expiredRows c.db d).map fun row => row.interrupt.id := by
  rw [expireInterrupts, yields_bind] at h
  obtain ⟨d, c₀, hnow, h⟩ := h
  have hdb := db_of_nowOr hnow
  split_ifs at h with hd
  swap
  · exact absurd h not_yields_raise
  simp only [yields_bind, yields_query, yields_pure] at h
  obtain ⟨rows, _, ⟨rfl, rfl⟩, _, _, hloop, rfl, rfl⟩ := h
  refine ⟨d, c₀, hd, hnow, ?_, hdb ▸ hloop, by rw [hdb]⟩
  rw [← hdb]
  refine yields_forEach_invariant (fun pre t => Sweeps pre c₀.db t.db) (sweeps_nil _) ?_ hloop
  intro pre row post t t' hrows hI hrow
  refine hI.step ?_ hrow
  rw [hrows]
  exact List.mem_append_right _ List.mem_cons_self

/-- Every run is left alone by the sweep or timed out. -/
theorem step_expireInterrupts {givenNow : Option Datetime} {ids : List UUID}
    (h : (expireInterrupts givenNow).Yields c ids c') (i : UUID) :
    c'.db.view i = c.db.view i ∨ (c.db.view i).Step .expire (c'.db.view i) := by
  obtain ⟨d, c₀, hd, -, hsweeps, -⟩ := sweeps_expireInterrupts h
  by_cases hi : ∃ row ∈ expiredRows c.db d, row.interrupt.runId = i ∧ row.runStatus = .waiting
  · obtain ⟨row, hrow, rfl, hs⟩ := hi
    exact Or.inr (hsweeps.runs row hrow hs)
  · push Not at hi
    exact Or.inl (hsweeps.rest i hi)

theorem mem_expiredLeases {db : Database} {d : Datetime} {row : ExpiredLease} :
    row ∈ expiredLeases db d ↔ db.runLeases.find? row.lease.runId = some row.lease ∧
      row.lease.active = true ∧ row.lease.expiresAt.isoformat ≤ d.isoformat ∧
      ∃ r, db.runs.find? row.lease.runId = some r ∧ row.status = r.status ∧
        row.version = r.version := by
  rw [expiredLeases, List.mem_insertionSort, List.mem_filterMap]
  simp only [List.mem_filter, decide_eq_true_eq, Option.map_eq_some_iff]
  constructor
  · rintro ⟨l, ⟨hl, hactive, hexpired⟩, r, hr, rfl⟩
    exact ⟨Table.find?_of_mem hl, hactive, hexpired, r, hr, rfl, rfl⟩
  · rintro ⟨hl, hactive, hexpired, r, hr, hs, hv⟩
    refine ⟨row.lease, ⟨Table.mem_of_find? hl, hactive, hexpired⟩, r, hr, ?_⟩
    rw [← hs, ← hv]

/-- A run has at most one row among the expired leases. -/
theorem nodup_expiredLeases (db : Database) (d : Datetime) :
    ((expiredLeases db d).map fun row => row.lease.runId).Nodup := by
  have hperm := List.perm_insertionSort leaseExpiresBefore
    ((db.runLeases.rows.filter fun l => l.active = true ∧
      l.expiresAt.isoformat ≤ d.isoformat).filterMap fun l =>
        (db.runs.find? l.runId).map fun r => (⟨l, r.status, r.version⟩ : ExpiredLease))
  refine ((hperm.map _).nodup_iff).mpr ?_
  have hrows := List.pairwise_map.mp db.runLeases.nodup
  refine List.pairwise_map.mpr ((hrows.filter _).filterMap _ fun l l' hne => ?_)
  intro b hb b' hb'
  obtain ⟨r, -, rfl⟩ := Option.map_eq_some_iff.mp hb
  obtain ⟨r', -, rfl⟩ := Option.map_eq_some_iff.mp hb'
  exact hne

/-- No earlier row of the sweep over leases belongs to the run of a row. -/
theorem runId_ne_of_expiredLeases_eq {db : Database} {d : Datetime} {pre post : List ExpiredLease}
    {row : ExpiredLease} (h : expiredLeases db d = pre ++ row :: post) :
    ∀ row' ∈ pre, row'.lease.runId ≠ row.lease.runId := by
  have hnodup := nodup_expiredLeases db d
  rw [h, List.map_append, List.map_cons] at hnodup
  intro row' hrow' heq
  exact (List.nodup_append.mp hnodup).2.2 _ (List.mem_map_of_mem hrow') _
    List.mem_cons_self heq

/-- What the sweep over leases does to the run of a row: a running run is queued again, and the
lease of any other run is only released. -/
def sweepAction (row : ExpiredLease) : RunAction :=
  if row.status = .running then .requeue else .release

/-- An iteration of the sweep over leases, on a run that is still as it was read. -/
theorem takes_requeueLease {d : Datetime} {row : ExpiredLease} {u : Unit}
    (h : (requeueLease d row).Yields c u c')
    (hlease : c.db.runLeases.find? row.lease.runId = some row.lease)
    (hactive : row.lease.active = true) {r : RunRow}
    (hr : c.db.runs.find? row.lease.runId = some r) (hs : row.status = r.status)
    (hv : row.version = r.version) : Takes row.lease.runId (sweepAction row) c.db c'.db := by
  have hview : (c.db.view row.lease.runId).lease = some row.lease := hlease
  rw [sweepAction]
  rw [requeueLease] at h
  split_ifs at h with hrun
  · rw [if_neg hrun]
    have hrelease := actsOn_updateLease h
    rw [hview, Option.map_some] at hrelease
    exact hrelease.takes (.release hr (hs ▸ hrun) hlease hactive)
  · rw [not_not] at hrun
    rw [if_pos hrun]
    simp only [yields_bind, yields_pure] at h
    obtain ⟨n, c₁, hwrite, _, c₂, hfree, e, _, he, -, rfl⟩ := h
    have hupdate := actsOn_updateRuns hwrite (fun _ h => h.1) hr
      ⟨Table.key_of_find? hr, hv.symm⟩
    have hrelease := actsOn_updateLease hfree
    obtain ⟨hseq, -, hevent⟩ := actsOn_appendEvent he
    rw [hrelease.view_eq, hupdate.view_eq] at hseq hevent
    simp only [hview, Option.map_some] at hseq hevent
    exact ((hupdate.trans hrelease).trans hevent).takes
      (.requeue d hr (hs ▸ hrun) hlease hactive hseq)

/-- **Recovery of leases.** The run of every expired lease takes the step the sweep has for it,
and every other run is left alone. -/
theorem step_requeueExpiredLeases {givenNow : Option Datetime} {ids : List UUID}
    (h : (requeueExpiredLeases givenNow).Yields c ids c') : ∃ d c₀,
      (nowOr givenNow).Yields c d c₀ ∧
      (∀ row ∈ expiredLeases c.db d, (c.db.view row.lease.runId).Step (sweepAction row)
        (c'.db.view row.lease.runId)) ∧
      (∀ i, (∀ row ∈ expiredLeases c.db d, row.lease.runId ≠ i) → c'.db.view i = c.db.view i) ∧
      ids = ((expiredLeases c.db d).filter fun row => row.status = .running).map
        fun row => row.lease.runId := by
  simp only [requeueExpiredLeases, yields_bind, yields_query, yields_pure] at h
  obtain ⟨d, c₀, hnow, rows, _, ⟨rfl, rfl⟩, _, _, hloop, rfl, rfl⟩ := h
  refine ⟨d, c₀, hnow, ?_⟩
  rw [← db_of_nowOr hnow]
  have hloop := yields_forEach_invariant (fun pre t =>
    (∀ row ∈ pre, (c₀.db.view row.lease.runId).Step (sweepAction row)
      (t.db.view row.lease.runId)) ∧
    ∀ i, (∀ row ∈ pre, row.lease.runId ≠ i) → t.db.view i = c₀.db.view i)
    ⟨fun _ hrow => absurd hrow List.not_mem_nil, fun _ _ => rfl⟩ ?_ hloop
  · exact ⟨hloop.1, hloop.2, rfl⟩
  rintro pre row post t t' hrows ⟨hdone, hrest⟩ hstep
  have hmem : row ∈ expiredLeases c₀.db d := by
    rw [hrows]
    simp
  obtain ⟨hlease, hactive, -, r, hr, hs, hv⟩ := mem_expiredLeases.mp hmem
  -- The run of this row has not been written yet, as no earlier row belongs to it.
  have hfresh := runId_ne_of_expiredLeases_eq hrows
  have hsame := hrest row.lease.runId hfresh
  have htakes := takes_requeueLease hstep
    ((congrArg RunView.lease hsame).trans hlease) hactive
    ((congrArg RunView.row hsame).trans hr) hs hv
  refine ⟨fun row' hrow' => ?_, fun i hi => ?_⟩
  · rcases List.mem_append.mp hrow' with hpre | hlast
    · rw [htakes.view_of_ne _ (hfresh row' hpre)]
      exact hdone row' hpre
    · obtain rfl := List.mem_singleton.mp hlast
      rw [← hsame]
      exact htakes.step
  · have hne : i ≠ row.lease.runId := fun h =>
      hi row (List.mem_append_right _ (List.mem_singleton_self row)) h.symm
    rw [htakes.view_of_ne i hne]
    exact hrest i fun row' hrow' => hi row' (List.mem_append_left _ hrow')

end SQLite

end OpenRath
