import Mathlib.Data.List.Perm.Basic
import Mathlib.Logic.Relation
import OpenRath.Library.Events

/-!
# Row locks

Transactions lock the rows of a database one after the other, and keep their locks until they end. A
transaction waits for a row that another one has locked, unless it skips locked rows. What it locks
next depends on what it has read. A deadlock is a cycle of transactions of which each waits for the
next one.

There is no deadlock if rows have ranks such that every transaction waits only for rows of a higher
rank than those that it has locked. There is one if two transactions cross: each of them waits for a
row that the other one has locked.

## Main definitions

* `LockProgram`: the locks of a transaction.
* `LockSystem`, `LockSystem.step`: transactions at work on a database.
* `LockSystem.Deadlocked`, `LockSystem.Crossed`.
* `LockProgram.Follows`: the order in which a transaction locks rows.

## Main results

* `LockSystem.not_deadlocked_of_rank`, `LockSystem.deadlocked_of_crossed`.
* `LockSystem.follows_step`: the transactions keep to the order.
-/

namespace OpenRath

/-- What is left of a transaction on a database `Db` with rows `R`. -/
inductive LockProgram (Db R : Type)
  /-- The transaction is over. -/
  | ended
  /-- The transaction commits what it has done. -/
  | commit (effect : Db → Db)
  /-- A row is locked, as soon as no other transaction has locked it. -/
  | lock (row : R) (next : Db → LockProgram Db R)
  /-- Some rows are locked that no other transaction has locked. -/
  | skipLocked (select : Db → (R → Bool) → List R) (next : Db → List R → LockProgram Db R)

namespace LockProgram

variable {Db R : Type}

/-- A statement that locks a row if it finds one. -/
def lockFound (row : Option R) (next : Db → LockProgram Db R) (db : Db) : LockProgram Db R :=
  match row with
  | some row => .lock row next
  | none => next db

/-- The row for which a transaction waits, or which it is about to lock. -/
def wants : LockProgram Db R → Option R
  | .lock row _ => some row
  | _ => none

/-- Every row that is waited for comes after those that have been locked, and only the statement
with which a transaction begins skips rows. -/
def Follows (After : R → R → Prop) : List R → LockProgram Db R → Prop
  | _, .ended | _, .commit _ => True
  | held, .lock row next =>
    (∀ r ∈ held, After r row) ∧ ∀ db, (next db).Follows After (row :: held)
  | held, .skipLocked select next =>
    held = [] ∧ ∀ db locked, (next db (select db locked)).Follows After (select db locked)

variable {After : R → R → Prop} {held : List R}

theorem Follows.of_wants {program : LockProgram Db R} (h : program.Follows After held) {row : R}
    (hrow : program.wants = some row) : ∀ r ∈ held, After r row := by
  rcases program with _ | _ | ⟨row', next⟩ | _ <;> try cases hrow
  exact h.1

theorem follows_lockFound {row : Option R} {next : Db → LockProgram Db R} {db : Db}
    (hrow : ∀ r ∈ row, (∀ r' ∈ held, After r' r) ∧ ∀ db, (next db).Follows After (r :: held))
    (hnext : row = none → (next db).Follows After held) :
    (lockFound row next db).Follows After held := by
  rcases row with _ | row
  · exact hnext rfl
  · exact hrow row rfl

end LockProgram

/-- A transaction, with the rows that it has locked. -/
structure LockTransaction (Db R : Type) where
  program : LockProgram Db R
  held : List R

/-- Transactions at work on a database. -/
structure LockSystem (Db R : Type) where
  db : Db
  transactions : List (LockTransaction Db R)

/-- A transaction begins, locks a row or commits, or is broken off. -/
inductive LockEvent (Op : Type)
  | begin (op : Op)
  | advance (i : ℕ)
  | abort (i : ℕ)

namespace LockSystem

variable {Db R Op : Type} [DecidableEq R]

/-- A row is locked by a transaction other than the one with a number. -/
def locked (s : LockSystem Db R) (i : ℕ) (row : R) : Bool :=
  (s.transactions.eraseIdx i).any fun t => decide (row ∈ t.held)

/-- A transaction after its next step, and the database, unless it waits. -/
def advance (s : LockSystem Db R) (i : ℕ) (t : LockTransaction Db R) :
    Option (LockTransaction Db R × Db) :=
  match t.program with
  | .ended => none
  | .commit effect => some (⟨.ended, []⟩, effect s.db)
  | .lock row next =>
    if s.locked i row then none else some (⟨next s.db, row :: t.held⟩, s.db)
  | .skipLocked select next =>
    some (⟨next s.db (select s.db (s.locked i)), select s.db (s.locked i) ++ t.held⟩, s.db)

/-- The rows that a transaction locks in its next step. -/
def takes (s : LockSystem Db R) (i : ℕ) (t : LockTransaction Db R) : List R :=
  match t.program with
  | .ended | .commit _ => []
  | .lock row _ => [row]
  | .skipLocked select _ => select s.db (s.locked i)

/-- What is left of a transaction after its next step. -/
def rest (s : LockSystem Db R) (i : ℕ) (t : LockTransaction Db R) : LockProgram Db R :=
  match t.program with
  | .ended | .commit _ => .ended
  | .lock _ next => next s.db
  | .skipLocked select next => next s.db (select s.db (s.locked i))

variable (program : Op → Db → LockProgram Db R)

/-- The steps of the transactions. -/
def step (s : LockSystem Db R) : LockEvent Op → Option (LockSystem Db R)
  | .begin op => some { s with transactions := s.transactions ++ [⟨program op s.db, []⟩] }
  | .advance i => do
    let t ← s.transactions[i]?
    let (t, db) ← s.advance i t
    some ⟨db, s.transactions.set i t⟩
  | .abort i => some { s with transactions := s.transactions.set i ⟨.ended, []⟩ }

omit [DecidableEq R] in
/-- A transaction waits for another one. -/
def WaitsFor (s : LockSystem Db R) (i j : ℕ) : Prop :=
  i ≠ j ∧ ∃ t t' row, s.transactions[i]? = some t ∧ s.transactions[j]? = some t' ∧
    t.program.wants = some row ∧ row ∈ t'.held

/-- Some transactions wait for each other in a circle. -/
def Deadlocked (s : LockSystem Db R) : Prop := ∃ i, Relation.TransGen s.WaitsFor i i

/-- Two transactions, each of which has a row that the other one wants. -/
def Crossed (s : LockSystem Db R) : Prop :=
  ∃ t ∈ s.transactions, ∃ t' ∈ s.transactions, ∃ row row', row ≠ row' ∧
    row ∈ t.held ∧ t.program.wants = some row' ∧ row' ∈ t'.held ∧ t'.program.wants = some row

variable {program} {s s' : LockSystem Db R}

omit [DecidableEq R] in
/-- Transactions that cross wait for each other. -/
theorem deadlocked_of_crossed (h : s.Crossed) : s.Deadlocked := by
  obtain ⟨t, ht, t', ht', row, row', hne, hheld, hwants, hheld', hwants'⟩ := h
  obtain ⟨i, hi⟩ := List.mem_iff_getElem?.mp ht
  obtain ⟨j, hj⟩ := List.mem_iff_getElem?.mp ht'
  have hij : i ≠ j := by
    rintro rfl
    cases hi.symm.trans hj
    exact hne (Option.some.inj (hwants'.symm.trans hwants))
  have hwaits : s.WaitsFor i j := ⟨hij, t, t', row', hi, hj, hwants, hheld'⟩
  have hwaits' : s.WaitsFor j i := ⟨hij.symm, t', t, row, hj, hi, hwants', hheld⟩
  exact ⟨i, .tail (.single hwaits) hwaits'⟩

omit [DecidableEq R] in
/-- Along the waits of the transactions, the rows that are waited for get no lower ranks. -/
theorem rank_le_of_transGen {rank : R → ℕ}
    (h : ∀ t ∈ s.transactions, ∀ r ∈ t.held, ∀ row, t.program.wants = some row →
      rank r < rank row) {i j : ℕ} (hij : Relation.TransGen s.WaitsFor i j) :
    ∃ t t' row r, s.transactions[i]? = some t ∧ s.transactions[j]? = some t' ∧
      t.program.wants = some row ∧ r ∈ t'.held ∧ rank row ≤ rank r := by
  induction hij with
  | single hwaits =>
    obtain ⟨-, t, t', row, ht, ht', hwants, hheld⟩ := hwaits
    exact ⟨t, t', row, row, ht, ht', hwants, hheld, Nat.le_refl _⟩
  | tail _ hwaits ih =>
    obtain ⟨t, t', row, r, ht, ht', hwants, hheld, hle⟩ := ih
    obtain ⟨-, u, u', row', hu, hu', hwants', hheld'⟩ := hwaits
    cases ht'.symm.trans hu
    have hlt := h t' (List.mem_of_getElem? ht') r hheld row' hwants'
    exact ⟨t, u', row, row', ht, hu', hwants, hheld', by omega⟩

omit [DecidableEq R] in
/-- **Ranks.** If transactions wait only for rows of a higher rank than those that they have locked,
there is no deadlock. -/
theorem not_deadlocked_of_rank (rank : R → ℕ)
    (h : ∀ t ∈ s.transactions, ∀ r ∈ t.held, ∀ row, t.program.wants = some row →
      rank r < rank row) : ¬ s.Deadlocked := by
  rintro ⟨i, hi⟩
  obtain ⟨t, t', row, r, ht, ht', hwants, hheld, hle⟩ := rank_le_of_transGen h hi
  cases ht.symm.trans ht'
  have hlt := h t (List.mem_of_getElem? ht) r hheld row hwants
  omega

/-- A step of a transaction. -/
theorem advance_cases {i : ℕ} (h : step program s (.advance i) = some s') :
    ∃ t t', s.transactions[i]? = some t ∧ s.advance i t = some (t', s'.db) ∧
      s'.transactions = s.transactions.set i t' := by
  obtain ⟨t, ht, hadvance⟩ := Option.bind_eq_some_iff.mp h
  obtain ⟨⟨t', db⟩, ht', hs'⟩ := Option.bind_eq_some_iff.mp hadvance
  cases hs'
  exact ⟨t, t', ht, ht', rfl⟩

omit [DecidableEq R] in
/-- The transactions after a step of one of them are that one and the others. -/
theorem mem_set_iff {i : ℕ} {t t' u : LockTransaction Db R} (ht : s.transactions[i]? = some t) :
    u ∈ s.transactions.set i t' ↔ u = t' ∨ u ∈ s.transactions.eraseIdx i := by
  obtain ⟨hi, -⟩ := List.getElem?_eq_some_iff.mp ht
  rw [(List.set_perm_cons_eraseIdx hi t').mem_iff, List.mem_cons]

theorem advance_program {i : ℕ} {t t' : LockTransaction Db R} {db : Db}
    (h : s.advance i t = some (t', db)) : t'.program = s.rest i t := by
  obtain ⟨program, held⟩ := t
  rcases program with _ | effect | ⟨row, next⟩ | ⟨select, next⟩
  · cases h
  · cases h
    rfl
  · obtain ⟨-, hpair⟩ := Option.ite_none_left_eq_some.mp h
    cases hpair
    rfl
  · cases h
    rfl

/-- A transaction that waits after its step has kept its locks. -/
theorem advance_held {i : ℕ} {t t' : LockTransaction Db R} {db : Db}
    (h : s.advance i t = some (t', db)) {row : R} (hrow : t'.program.wants = some row) :
    t'.held = s.takes i t ++ t.held := by
  obtain ⟨program, held⟩ := t
  rcases program with _ | effect | ⟨row', next⟩ | ⟨select, next⟩
  · cases h
  · cases h
    cases hrow
  · obtain ⟨-, hpair⟩ := Option.ite_none_left_eq_some.mp h
    cases hpair
    rfl
  · cases h
    rfl

/-- The transactions keep to an order. -/
def Follows (After : R → R → Prop) (s : LockSystem Db R) : Prop :=
  ∀ t ∈ s.transactions, t.program.Follows After t.held

theorem follows_advance {After : R → R → Prop} {i : ℕ} {t t' : LockTransaction Db R} {db : Db}
    (ht : t.program.Follows After t.held) (h : s.advance i t = some (t', db)) :
    t'.program.Follows After t'.held := by
  obtain ⟨program, held⟩ := t
  rcases program with _ | effect | ⟨row, next⟩ | ⟨select, next⟩
  · cases h
  · cases h
    trivial
  · obtain ⟨-, hpair⟩ := Option.ite_none_left_eq_some.mp h
    cases hpair
    exact ht.2 s.db
  · cases h
    obtain ⟨hheld, hnext⟩ := ht
    subst hheld
    rw [List.append_nil]
    exact hnext s.db (s.locked i)

/-- If no three rows are locked one after the other, a transaction that waits after its step has
begun with it. -/
theorem held_eq_nil_of_wants {After : R → R → Prop}
    (hAfter : ∀ a b c, After a b → After b c → ¬ After a c) {i : ℕ} {t : LockTransaction Db R}
    (ht : t.program.Follows After t.held) {row : R} (hrow : (s.rest i t).wants = some row) :
    t.held = [] := by
  obtain ⟨program, held⟩ := t
  rcases program with _ | effect | ⟨row', next⟩ | ⟨select, next⟩
  · cases hrow
  · cases hrow
  · refine List.eq_nil_iff_forall_not_mem.mpr fun a ha => ?_
    have hwants := (ht.2 s.db).of_wants hrow
    exact hAfter a row' row (ht.1 a ha) (hwants row' List.mem_cons_self)
      (hwants a (List.mem_cons_of_mem row' ha))
  · exact ht.1

/-- Transactions that keep to an order go on to do so. -/
theorem follows_step {After : R → R → Prop}
    (hprogram : ∀ op db, (program op db).Follows After []) (hs : s.Follows After)
    {e : LockEvent Op} (h : step program s e = some s') : s'.Follows After := by
  rcases e with op | i | i
  · cases h
    intro t ht
    rcases List.mem_append.mp ht with ht | hnew
    · exact hs t ht
    · rw [List.mem_singleton.mp hnew]
      exact hprogram op s.db
  · obtain ⟨t, t', ht, hadvance, htransactions⟩ := advance_cases h
    intro u hu
    rw [htransactions] at hu
    rcases List.mem_or_eq_of_mem_set hu with hu | rfl
    · exact hs u hu
    · exact follows_advance (hs t (List.mem_of_getElem? ht)) hadvance
  · cases h
    intro t ht
    rcases List.mem_or_eq_of_mem_set ht with ht | rfl
    · exact hs t ht
    · trivial

end LockSystem

end OpenRath
