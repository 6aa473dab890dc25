import OpenRath.Runtime.Postgres.EffectLedger
import OpenRath.Runtime.Postgres.Store
import OpenRath.Runtime.Sqlite.Histories

/-!
# What the sweeps select

Three sweeps select rows by the time: `requeue_expired_leases` and `expire_interrupts` of the run
store and `reconcile_stale` of the effect ledger. In SQLite the times are texts and are compared as
texts; in Postgres they are compared as times. A time that is given with another offset than the
stored one may be misread (`Datetime.Misread`): the clock shows that a lease has expired, and it has
not, or the other way round.

## Main definitions

* `LeasesDue`, `InterruptsDue`, `InvocationsDue`: the rows of a sweep are those whose time has come.
* `SelectsByInstant`: all sweeps of the SQLite stores select by instants.
* `Legible`: no row that is up for a sweep is misread.

## Main results

* `selectsByInstant_iff_legible`: when the sweeps of the SQLite stores select by instants.
* `Postgres.selects_by_instant`: those of the Postgres stores always do.
-/

namespace OpenRath

/-! ### The rows of a sweep -/

/-- The rows have the active leases that are to expire not after a time. -/
def LeasesDue (db : Database) (d : Datetime) (rows : List SQLite.ExpiredLease) : Prop :=
  ∀ l ∈ db.runLeases.rows, l.expiresAt.Aware → ((∃ row ∈ rows, row.lease = l) ↔
    l.active = true ∧ l.expiresAt.instant ≤ d.instant ∧ ∃ r, db.runs.find? l.runId = some r)

/-- The rows have the undecided interrupts that are to expire not after a time. -/
def InterruptsDue (db : Database) (d : Datetime) (rows : List SQLite.ExpiredRow) : Prop :=
  ∀ k ∈ db.interrupts.rows, ((∃ row ∈ rows, row.interrupt = k) ↔
    k.decision = none ∧ (∃ e ∈ k.expiresAt, e.instant ≤ d.instant) ∧
      ∃ r, db.runs.find? k.runId = some r)

/-- The rows are the dispatched invocations that were last changed not after a time. -/
def InvocationsDue (invocations rows : List ToolInvocation) (d : Datetime) : Prop :=
  ∀ r ∈ invocations, (r ∈ rows ↔ r.status = .dispatched ∧ r.updatedAt.instant ≤ d.instant)

/-- The sweeps of the SQLite stores select by instants. -/
structure SelectsByInstant (db : Database) (invocations : Table ToolInvocation.id) (d : Datetime) :
    Prop where
  leases : LeasesDue db d (SQLite.expiredLeases db d)
  interrupts : InterruptsDue db d (SQLite.expiredRows db d)
  invocations : InvocationsDue invocations.rows
    (Ledger.staleInvocations invocations.rows d) d

/-- No time of a row that is up for a sweep is misread. -/
structure Legible (db : Database) (invocations : Table ToolInvocation.id) (d : Datetime) :
    Prop where
  leases : ∀ l ∈ db.runLeases.rows, l.active = true → l.expiresAt.Aware →
    (∃ r, db.runs.find? l.runId = some r) → ¬ Datetime.Misread l.expiresAt d
  interrupts : ∀ k ∈ db.interrupts.rows, k.decision = none →
    (∃ r, db.runs.find? k.runId = some r) → ∀ e ∈ k.expiresAt, ¬ Datetime.Misread e d
  invocations : ∀ r ∈ invocations.rows, r.status = .dispatched → ¬ Datetime.Misread r.updatedAt d

namespace SQLite

variable {db : Database} {d : Datetime}

theorem mem_expiredLeases_iff {l : LeaseRow} (hl : l ∈ db.runLeases.rows) :
    (∃ row ∈ expiredLeases db d, row.lease = l) ↔
      l.active = true ∧ l.expiresAt.isoformat ≤ d.isoformat ∧
        ∃ r, db.runs.find? l.runId = some r := by
  simp only [mem_expiredLeases]
  constructor
  · rintro ⟨row, ⟨-, hactive, hle, r, hr, -⟩, rfl⟩
    exact ⟨hactive, hle, r, hr⟩
  · rintro ⟨hactive, hle, r, hr⟩
    exact ⟨⟨l, r.status, r.version⟩, ⟨Table.find?_of_mem hl, hactive, hle, r, hr, rfl, rfl⟩, rfl⟩

theorem mem_expiredRows_iff {k : Interrupt} (hk : k ∈ db.interrupts.rows) :
    (∃ row ∈ expiredRows db d, row.interrupt = k) ↔
      k.decision = none ∧ (∃ e ∈ k.expiresAt, e.isoformat ≤ d.isoformat) ∧
        ∃ r, db.runs.find? k.runId = some r := by
  simp only [mem_expiredRows]
  constructor
  · rintro ⟨row, ⟨-, hnone, hle, r, hr, -⟩, rfl⟩
    exact ⟨hnone, hle, r, hr⟩
  · rintro ⟨hnone, hle, r, hr⟩
    exact ⟨⟨k, r.version, r.status⟩, ⟨Table.find?_of_mem hk, hnone, hle, r, hr, rfl, rfl⟩, rfl⟩

/-- The leases of a sweep are those that are due, if and only if none of them is misread. -/
theorem leasesDue_iff (hd : d.Aware) : LeasesDue db d (expiredLeases db d) ↔
    ∀ l ∈ db.runLeases.rows, l.active = true → l.expiresAt.Aware →
      (∃ r, db.runs.find? l.runId = some r) → ¬ Datetime.Misread l.expiresAt d := by
  refine forall₂_congr fun l hl => ?_
  rw [mem_expiredLeases_iff hl]
  constructor
  · intro h hactive haware hr
    rw [← Datetime.isoformat_le_iff_instant_le_iff haware hd]
    simpa only [hactive, hr, true_and, and_true] using h haware
  · intro h haware
    refine and_congr_right fun hactive => and_congr_left fun hr => ?_
    exact (Datetime.isoformat_le_iff_instant_le_iff haware hd).mpr (h hactive haware hr)

theorem interruptsDue_iff (hd : d.Aware) : InterruptsDue db d (expiredRows db d) ↔
    ∀ k ∈ db.interrupts.rows, k.decision = none → (∃ r, db.runs.find? k.runId = some r) →
      ∀ e ∈ k.expiresAt, ¬ Datetime.Misread e d := by
  refine forall₂_congr fun k hk => ?_
  rw [mem_expiredRows_iff hk]
  have hexpires : ∀ e ∈ k.expiresAt, e.Aware := fun e he => (k.expiresAt_aware e he).1
  constructor
  · intro h hnone hr e he
    rw [← Datetime.isoformat_le_iff_instant_le_iff (hexpires e he) hd]
    rw [Option.mem_def] at he
    simpa only [hnone, hr, he, Option.mem_some_iff, exists_eq_left', true_and, and_true] using h
  · intro h
    refine and_congr_right fun hnone => and_congr_left fun hr => ?_
    refine exists_congr fun e => and_congr_right fun he => ?_
    exact (Datetime.isoformat_le_iff_instant_le_iff (hexpires e he) hd).mpr (h hnone hr e he)

theorem invocationsDue_iff {invocations : List ToolInvocation} (hd : d.Aware) :
    InvocationsDue invocations (Ledger.staleInvocations invocations d) d ↔
      ∀ r ∈ invocations, r.status = .dispatched → ¬ Datetime.Misread r.updatedAt d := by
  refine forall₂_congr fun r hr => ?_
  rw [Ledger.mem_staleInvocations, and_iff_right hr, Ledger.Stale]
  constructor
  · intro h hs
    rw [← Datetime.isoformat_le_iff_instant_le_iff r.updatedAt_aware hd]
    simpa only [hs, true_and] using h
  · intro h
    refine and_congr_right fun hs => ?_
    exact (Datetime.isoformat_le_iff_instant_le_iff r.updatedAt_aware hd).mpr (h hs)

end SQLite

/-- **Postgres.** The sweeps of the Postgres stores select by instants, whatever the offsets are. -/
theorem Postgres.selects_by_instant (db : Database) (invocations : List InvocationRow)
    (d : Datetime) : LeasesDue db d (Postgres.expiredLeases db d) ∧
      InterruptsDue db d (Postgres.expiredRows db d) ∧
      ∀ r, r ∈ PostgresLedger.staleRows invocations d ↔
        r ∈ invocations ∧ r.status = .dispatched ∧ r.updatedAt.instant ≤ d.instant := by
  refine ⟨fun l hl _ => ?_, fun k hk => ?_, fun r => ?_⟩
  · simp only [Postgres.expiredLeases, List.mem_insertionSort, List.mem_filterMap, List.mem_filter,
      decide_eq_true_eq, Option.map_eq_some_iff]
    constructor
    · rintro ⟨_, ⟨l', ⟨-, hactive, hle⟩, r, hr, rfl⟩, rfl⟩
      exact ⟨hactive, hle, r, hr⟩
    · rintro ⟨hactive, hle, r, hr⟩
      exact ⟨_, ⟨l, ⟨hl, hactive, hle⟩, r, hr, rfl⟩, rfl⟩
  · simp only [Postgres.expiredRows, List.mem_insertionSort, List.mem_filterMap, List.mem_filter,
      decide_eq_true_eq, Option.map_eq_some_iff]
    constructor
    · rintro ⟨_, ⟨k', ⟨-, hnone, hle⟩, r, hr, rfl⟩, rfl⟩
      exact ⟨hnone, hle, r, hr⟩
    · rintro ⟨hnone, hle, r, hr⟩
      exact ⟨_, ⟨k, ⟨hk, hnone, hle⟩, r, hr, rfl⟩, rfl⟩
  · simp only [PostgresLedger.staleRows, List.mem_insertionSort, List.mem_filter, decide_eq_true_eq]

/-- **Sweeps.** The sweeps of the SQLite stores at an aware time select by instants, as those of the
Postgres stores do, if and only if no time of a row that is up for a sweep is misread. -/
theorem selectsByInstant_iff_legible (db : Database) (invocations : Table ToolInvocation.id)
    {d : Datetime} (hd : d.Aware) :
    SelectsByInstant db invocations d ↔ Legible db invocations d := by
  constructor
  · intro h
    exact ⟨(SQLite.leasesDue_iff hd).mp h.leases, (SQLite.interruptsDue_iff hd).mp h.interrupts,
      (SQLite.invocationsDue_iff hd).mp h.invocations⟩
  · intro h
    exact ⟨(SQLite.leasesDue_iff hd).mpr h.leases, (SQLite.interruptsDue_iff hd).mpr h.interrupts,
      (SQLite.invocationsDue_iff hd).mpr h.invocations⟩

namespace Sample

/-- One hour ahead of UTC. -/
def east : Offset := ⟨3600000000, by decide, by decide⟩

/-- The time `s` seconds after the start of 2026 in UTC, as a clock one hour ahead shows it. -/
def abroad (s : Fin 1000) : Datetime :=
  ⟨⟨63902822400000000 + 3600000000 + s * 1000000, by
    have h : Calendar.maxDays * usPerDay = 315537897600000000 := rfl
    rw [h]
    omega⟩, some east⟩

end Sample

/-- A lease that was taken for thirty seconds one second ago is swept, by a worker that gives the
time as a clock in another zone shows it. -/
theorem swept_early :
    ¬ SelectsByInstant (SQLite.after Sample.sha Sample.claimed) .empty (Sample.abroad 2) := by
  intro h
  have hswept : ∃ l ∈ (SQLite.after Sample.sha Sample.claimed).runLeases.rows,
      l.expiresAt.Aware ∧ (Sample.abroad 2).instant < l.expiresAt.instant ∧
      ∃ row ∈ SQLite.expiredLeases (SQLite.after Sample.sha Sample.claimed) (Sample.abroad 2),
        row.lease = l := by
    decide +kernel
  obtain ⟨l, hl, haware, hlater, hrow⟩ := hswept
  exact absurd ((h.leases l hl haware).mp hrow).2.1 hlater.not_ge

/-- With times in UTC it is not. -/
theorem selectsByInstant_sample :
    SelectsByInstant (SQLite.after Sample.sha Sample.claimed) .empty (.utc (Sample.reading 2)) := by
  refine (selectsByInstant_iff_legible _ _ (Datetime.isUtc_utc _).aware).mpr ⟨?_, ?_, ?_⟩
  · intro l hl hactive haware hrun
    have hall : ∀ l ∈ (SQLite.after Sample.sha Sample.claimed).runLeases.rows,
        ¬ Datetime.Misread l.expiresAt (.utc (Sample.reading 2)) := by
      decide +kernel
    exact hall l hl
  · have hnone : (SQLite.after Sample.sha Sample.claimed).interrupts.rows = [] := by decide +kernel
    intro k hk
    rw [hnone] at hk
    cases hk
  · intro r hr
    cases hr

end OpenRath
