import OpenRath.Library.Events
import OpenRath.Runtime.Effects
import OpenRath.Runtime.Sqlite.Histories

/-!
# The effect watermark

`SQLiteEffectLedger.watermark` (`src/rath/runtime/effects.py`) is the largest number of a succeeded
invocation of a run, or the count of the succeeded ones if none of them has a number. Invocations of
older databases have no numbers, and the first invocation that is made in such a database has the
number one, however many there are. So the watermark can go back when the first numbered invocation
succeeds.

## Main definitions

* `Ledger.watermarkOf`: the watermark of a table.
* `Ledger.settling`: the invocation that a call of `complete` lets succeed.
* `Ledger.Ahead`: the first numbered invocation to succeed has a number that is not too small.

## Main results

* `Ledger.watermarkOf_le_iff`: the calls after which the watermark has not gone back.
* `Ledger.watermark_mono_iff`: the sequences of calls along which it does not go back.
-/

namespace OpenRath

/-- A call of the ledger, with the readings of the clock, the UUID that it may draw and the runs
that are there. -/
structure LedgerInvocation where
  op : LedgerOp
  clock : ℕ → ClockReading
  uuid : UUID
  runs : Table RunRow.id

namespace Ledger

open Tx

/-- The succeeded invocations of a run. -/
def succeeded (runId : UUID) (invocations : Table ToolInvocation.id) : List ToolInvocation :=
  (invocationsOf runId invocations.rows).filter fun r => r.status = .succeeded

/-- The numbers of the succeeded invocations of a run. -/
def numbers (runId : UUID) (invocations : Table ToolInvocation.id) : List ℕ :=
  (succeeded runId invocations).filterMap ToolInvocation.invocationSequence

/-- The watermark of a run. -/
def watermarkOf (runId : UUID) (invocations : Table ToolInvocation.id) : ℕ :=
  (numbers runId invocations).max?.getD (succeeded runId invocations).length

/-- The invocations after a call, which may raise. -/
def call (invocations : Table ToolInvocation.id) (i : LedgerInvocation) :
    Option (Table ToolInvocation.id) :=
  some (perform i.op i.clock i.uuid i.runs invocations).2

/-- The invocation of a run that an operation lets succeed. -/
def settling (runId : UUID) (op : LedgerOp) (invocations : Table ToolInvocation.id) :
    Option ToolInvocation :=
  match op with
  | .complete id _ => (invocations.find? id).filter fun r =>
    r.runId = runId ∧ r.status ∈ [.prepared, .dispatched]
  | _ => none

/-- If the operation lets a numbered invocation of the run succeed, and it is the first one, then
its number is at least the count of those that have succeeded without a number. -/
def Ahead (runId : UUID) (op : LedgerOp) (invocations : Table ToolInvocation.id) : Prop :=
  ∀ row ∈ settling runId op invocations, ∀ n ∈ row.invocationSequence,
    numbers runId invocations = [] → (succeeded runId invocations).length ≤ n

theorem mem_succeeded {runId : UUID} {invocations : Table ToolInvocation.id}
    {row : ToolInvocation} : row ∈ succeeded runId invocations ↔
      invocations.find? row.id = some row ∧ row.runId = runId ∧ row.status = .succeeded := by
  rw [succeeded, List.mem_filter, invocationsOf, List.mem_filter, Table.find?_eq_some_iff]
  simp only [decide_eq_true_eq, and_assoc, and_true]

theorem nodup_succeeded (runId : UUID) (invocations : Table ToolInvocation.id) :
    (succeeded runId invocations).Nodup :=
  ((List.Nodup.of_map _ invocations.nodup).filter _).filter _

section Steps

variable {op : LedgerOp} {clock : ℕ → ClockReading} {uuid : UUID} {runs : Table RunRow.id}
  {invocations : Table ToolInvocation.id} {runId : UUID}

/-- What succeeds is completed, from one of the statuses before. -/
theorem completed_of_moves {row row' : ToolInvocation} (h : op.Moves row row')
    (hs : row.status ≠ .succeeded) (hs' : row'.status = .succeeded) :
    ∃ result, op = .complete row.id result ∧ row.status ∈ [.prepared, .dispatched] := by
  cases h with
  | stay => exact absurd hs' hs
  | dispatch | fail => cases hs'
  | complete _ result hstatus => exact ⟨result, rfl, hstatus⟩
  | reconcile =>
    rw [moved, staleTarget] at hs'
    split_ifs at hs'

/-- What has succeeded before an operation has succeeded after it. -/
theorem mem_succeeded_perform {row : ToolInvocation} (h : row ∈ succeeded runId invocations) :
    row ∈ succeeded runId (perform op clock uuid runs invocations).2 := by
  obtain ⟨hrow, hrun, hs⟩ := mem_succeeded.mp h
  obtain ⟨row', hrow', hmoves⟩ := exists_moves_perform op clock uuid runs hrow
  cases hmoves.eq_of_settled (by simp only [hs, List.mem_cons, true_or])
  exact mem_succeeded.mpr ⟨hrow', hrun, hs⟩

/-- What has succeeded after an operation has done so before, or the operation has let
it succeed. -/
theorem mem_succeeded_of_perform {row : ToolInvocation}
    (h : row ∈ succeeded runId (perform op clock uuid runs invocations).2) :
    row ∈ succeeded runId invocations ∨ ∃ r ∈ settling runId op invocations, r.id = row.id := by
  obtain ⟨hrow, hrun, hs⟩ := mem_succeeded.mp h
  rcases hold : invocations.find? row.id with _ | r
  · -- A new invocation is prepared.
    obtain ⟨_, _, _, _, _, _, _, -, hnew⟩ := exists_prepare_of_new hold hrow
    cases hs.symm.trans hnew.status_eq
  · obtain ⟨row', hrow', hmoves⟩ := exists_moves_perform op clock uuid runs hold
    cases hrow.symm.trans hrow'
    have hid : r.id = row.id := Table.key_of_find? hold
    by_cases hrs : r.status = .succeeded
    · cases hmoves.eq_of_settled (by simp only [hrs, List.mem_cons, true_or])
      exact .inl (mem_succeeded.mpr ⟨hold, hrun, hs⟩)
    · obtain ⟨result, rfl, hstatus⟩ := completed_of_moves hmoves hrs hs
      have hrunId : r.runId = runId := hmoves.kept.2.1.symm.trans hrun
      refine .inr ⟨r, ?_, hid⟩
      rw [settling, hid, hold, Option.mem_def, Option.filter_eq_some_iff]
      exact ⟨rfl, decide_eq_true ⟨hrunId, hstatus⟩⟩

variable (clock uuid runs) in
/-- The invocation that an operation lets succeed has its number afterwards. -/
theorem exists_of_settling {row : ToolInvocation} (h : settling runId op invocations = some row) :
    ∃ row' ∈ succeeded runId (perform op clock uuid runs invocations).2, row'.id = row.id ∧
      row'.invocationSequence = row.invocationSequence ∧
      ∀ r ∈ succeeded runId invocations, r.id ≠ row.id := by
  cases op with
  | complete id result =>
    obtain ⟨hrow, hsettles⟩ := Option.filter_eq_some_iff.mp h
    obtain ⟨hrun, hs⟩ := of_decide_eq_true hsettles
    have hid : row.id = id := Table.key_of_find? hrow
    have hyields : (transition id [.prepared, .dispatched] .succeeded result none).Yields
      ⟨runs, invocations, clock, uuid⟩ () _ := yields_transition hrow hs
    rw [@perform_of_yields (.complete id result) _ _ _ _ _ _ hyields]
    refine ⟨recorded row .succeeded result none (.utc (clock 0)) (Datetime.isUtc_utc _).aware, ?_,
      rfl, rfl, ?_⟩
    · refine mem_succeeded.mpr ⟨?_, hrun, rfl⟩
      rw [recorded_id, Table.find?_update, hid, hrow, Option.map_some, if_pos hid]
    · intro r hr heq
      obtain ⟨hfind, -, hsucceeded⟩ := mem_succeeded.mp hr
      rw [heq, hid, hrow] at hfind
      cases hfind
      rw [hsucceeded] at hs
      simp only [List.mem_cons, reduceCtorEq, List.not_mem_nil, or_self] at hs
  | prepare | markDispatched | fail | get | reconcileStale | watermark => cases h

variable (clock uuid runs) in
/-- What has succeeded after an operation: what had before, and the invocation that it settles. -/
theorem succeeded_perform_of_none (h : settling runId op invocations = none) :
    (succeeded runId (perform op clock uuid runs invocations).2).Perm
      (succeeded runId invocations) := by
  refine (List.perm_ext_iff_of_nodup (nodup_succeeded ..) (nodup_succeeded ..)).mpr fun row => ?_
  refine ⟨fun hrow => ?_, mem_succeeded_perform⟩
  rcases mem_succeeded_of_perform hrow with hold | ⟨r, hr, -⟩
  · exact hold
  · rw [h] at hr
    cases hr

variable (clock uuid runs) in
@[inherit_doc succeeded_perform_of_none]
theorem succeeded_perform_of_some {row : ToolInvocation}
    (h : settling runId op invocations = some row) :
    ∃ row', row'.invocationSequence = row.invocationSequence ∧
      (succeeded runId (perform op clock uuid runs invocations).2).Perm
        (row' :: succeeded runId invocations) := by
  obtain ⟨row', hrow', hid, hsequence, hnew⟩ :=
    exists_of_settling clock uuid runs h
  refine ⟨row', hsequence, ?_⟩
  have hnodup : (row' :: succeeded runId invocations).Nodup := by
    exact List.nodup_cons.mpr ⟨fun hold => hnew row' hold hid, nodup_succeeded ..⟩
  refine (List.perm_ext_iff_of_nodup (nodup_succeeded ..) hnodup).mpr fun r => ?_
  rw [List.mem_cons]
  constructor
  · intro hr
    rcases mem_succeeded_of_perform hr with hold | ⟨r', hr', hid'⟩
    · exact .inr hold
    · rw [h] at hr'
      cases hr'
      exact .inl (Table.eq_of_key_eq _ (Table.mem_of_find? (mem_succeeded.mp hr).1)
        (Table.mem_of_find? (mem_succeeded.mp hrow').1) (hid'.symm.trans hid.symm))
  · rintro (rfl | hr)
    · exact hrow'
    · exact mem_succeeded_perform hr

end Steps

theorem max?_eq_of_perm {l l' : List ℕ} (h : l.Perm l') : l.max? = l'.max? := by
  refine Option.ext fun n => ?_
  rw [List.max?_eq_some_iff, List.max?_eq_some_iff, h.mem_iff]
  simp only [h.mem_iff]

/-- **A call.** The watermark does not go back with an operation if and only if the first numbered
invocation to succeed has a number that is not too small. -/
theorem watermarkOf_le_iff (runId : UUID) (op : LedgerOp) (clock : ℕ → ClockReading) (uuid : UUID)
    (runs : Table RunRow.id) (invocations : Table ToolInvocation.id) :
    watermarkOf runId invocations ≤
        watermarkOf runId (perform op clock uuid runs invocations).2 ↔
      Ahead runId op invocations := by
  rcases hsettling : settling runId op invocations with _ | row
  · have hperm := succeeded_perform_of_none clock uuid runs hsettling
    have hnumbers := max?_eq_of_perm (hperm.filterMap ToolInvocation.invocationSequence)
    rw [Ahead, hsettling]
    refine iff_of_true ?_ fun _ h => ?_
    · rw [watermarkOf, watermarkOf, numbers, numbers, hnumbers, hperm.length_eq]
    · cases h
  · obtain ⟨row', hsequence, hperm⟩ := succeeded_perform_of_some clock uuid runs hsettling
    have hnumbers := max?_eq_of_perm (hperm.filterMap ToolInvocation.invocationSequence)
    have hlength := hperm.length_eq
    simp only [Ahead, hsettling, Option.mem_some_iff, forall_eq', watermarkOf, numbers, hnumbers,
      hlength, List.filterMap_cons, hsequence, List.length_cons]
    rcases row.invocationSequence with _ | n
    · -- One more invocation without a number has succeeded.
      refine iff_of_true ?_ fun n hn => ?_
      · rcases (List.filterMap _ _).max? with _ | m
        · exact Nat.le_succ _
        · exact Nat.le_refl m
      · cases hn
    · simp only [Option.mem_some_iff, forall_eq', List.max?_cons, Option.getD_some]
      rcases hnumbers' : (succeeded runId invocations).filterMap
        ToolInvocation.invocationSequence with _ | ⟨m, ms⟩
      · simp
      · simp

theorem call_le_iff {runId : UUID} {invocations invocations' : Table ToolInvocation.id}
    {i : LedgerInvocation} (h : call invocations i = some invocations') :
    watermarkOf runId invocations ≤ watermarkOf runId invocations' ↔
      Ahead runId i.op invocations := by
  cases h
  exact watermarkOf_le_iff runId i.op i.clock i.uuid i.runs invocations

theorem along_watermark_iff {runId : UUID} {invocations : Table ToolInvocation.id}
    {calls : List LedgerInvocation} :
    Events.Along call (fun t _ t' => watermarkOf runId t ≤ watermarkOf runId t') invocations calls ↔
      Events.Along call (fun t i _ => Ahead runId i.op t) invocations calls := by
  refine Events.along_iff_of_invariant (I := fun _ => True) (fun t i t' _ h hahead => ?_)
    (fun t i t' _ h hle => (call_le_iff h).mp hle) trivial
  exact ⟨trivial, (call_le_iff h).mpr hahead⟩

/-- Calls that do not set the watermark back leave one that is not smaller. -/
theorem watermarkOf_le_of_along {runId : UUID} {invocations invocations' : Table ToolInvocation.id}
    {calls : List LedgerInvocation}
    (h : Events.Along call (fun t _ t' => watermarkOf runId t ≤ watermarkOf runId t') invocations
      calls) (hcalls : Events.final? call invocations calls = some invocations') :
    watermarkOf runId invocations ≤ watermarkOf runId invocations' := by
  refine Events.invariant_of_along
    (I := fun t => watermarkOf runId invocations ≤ watermarkOf runId t) ?_ (Nat.le_refl _) h hcalls
  intro t i t' hle _ hstep
  exact hle.trans hstep

/-- **Monotonicity.** The watermark of a run does not go back along a sequence of calls, from any
table, if and only if no call lets a first numbered invocation succeed whose number is too small.
Then of two checkpoints, between which and before which any of the calls are made, the later one has
no smaller watermark. -/
theorem watermark_mono_iff (runId : UUID) (invocations : Table ToolInvocation.id)
    (calls : List LedgerInvocation) :
    (Events.Along call (fun t _ t' => watermarkOf runId t ≤ watermarkOf runId t') invocations
        calls ↔
      Events.Along call (fun t i _ => Ahead runId i.op t) invocations calls) ∧
    (Events.Along call (fun t i _ => Ahead runId i.op t) invocations calls →
      ∀ before between after t t', calls = before ++ between ++ after →
        Events.final? call invocations before = some t → Events.final? call t between = some t' →
        watermarkOf runId t ≤ watermarkOf runId t') := by
  refine ⟨along_watermark_iff, ?_⟩
  rintro hahead before between after t t' rfl ht ht'
  rw [← along_watermark_iff, List.append_assoc, Events.along_append] at hahead
  exact watermarkOf_le_of_along (Events.along_append.mp (hahead.2 t ht)).1 ht'

end Ledger

namespace Sample

theorem charge_ne_empty : "charge@1" ≠ "" := by decide

theorem aware_two : (Datetime.utc (reading 2)).Aware := (Datetime.isUtc_utc _).aware

/-- A succeeded invocation of the sample run, without a number. -/
def unnumbered (id : UUID) : ToolInvocation where
  id := id
  runId := run.id
  toolName := "charge@1"
  effectClass := .idempotent
  argumentsDigest := checkpoint.planHash
  status := .succeeded
  createdAt := .utc (reading 2)
  updatedAt := .utc (reading 2)
  nodeId := none
  checkpointSequence := none
  invocationSequence := none
  idempotencyKey := none
  result := .null
  error := none
  toolName_ne_empty := charge_ne_empty
  argumentsDigest_length := checkpoint.planHash_length
  createdAt_aware := aware_two
  updatedAt_aware := aware_two

theorem nodup_unnumbered : ([unnumbered ⟨5⟩, unnumbered ⟨6⟩].map ToolInvocation.id).Nodup := by
  decide

/-- A migrated table: two invocations have succeeded without a number. -/
def migrated : Table ToolInvocation.id := ⟨[unnumbered ⟨5⟩, unnumbered ⟨6⟩], nodup_unnumbered⟩

theorem nodup_run : ([RunRow.ofRun run ""].map RunRow.id).Nodup := List.nodup_singleton _

/-- An invocation is prepared, dispatched and completed. -/
def charged : List LedgerInvocation :=
  let runs : Table RunRow.id := ⟨[RunRow.ofRun run ""], nodup_run⟩
  [⟨.prepare run.id "charge@1" .idempotent checkpoint.planHash none none none, clock 3, ⟨7⟩, runs⟩,
    ⟨.markDispatched ⟨7⟩, clock 4, ⟨8⟩, runs⟩,
    ⟨.complete ⟨7⟩ .null, clock 5, ⟨8⟩, runs⟩]

end Sample

namespace Ledger

/-- After the first numbered invocation has succeeded, the watermark is one and no longer two. -/
theorem watermark_back :
    watermarkOf Sample.run.id Sample.migrated = 2 ∧
    (Events.final? call Sample.migrated Sample.charged).map (watermarkOf Sample.run.id) = some 1 ∧
    ¬ Events.Along call (fun t _ t' => watermarkOf Sample.run.id t ≤ watermarkOf Sample.run.id t')
      Sample.migrated Sample.charged := by
  have hbefore : watermarkOf Sample.run.id Sample.migrated = 2 := by decide +kernel
  have hafter : (Events.final? call Sample.migrated Sample.charged).map
      (watermarkOf Sample.run.id) = some 1 := by decide +kernel
  refine ⟨hbefore, hafter, fun h => ?_⟩
  obtain ⟨t, ht, hone⟩ := Option.map_eq_some_iff.mp hafter
  have hle := watermarkOf_le_of_along h ht
  omega

end Ledger

end OpenRath
