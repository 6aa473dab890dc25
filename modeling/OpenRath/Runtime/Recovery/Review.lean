import OpenRath.Library.Protocol
import OpenRath.Runtime.Footprint

/-!
# Runs in review

A run that the reconciliation has moved to `NEEDS_REVIEW` keeps its lease, so the worker whose
claim it was is not fenced off. Of the operations of `work_once`, one can still write the run: the
end of the claim by the handler of exceptions, which reads the run again and finishes it as
`FAILED` under the version it has just read. The loop of the worker itself raises a conflict when
it notices the review, and that conflict is such an exception.

The run stays in review exactly as long as no such end of the claim is issued in the version of the
review under a lease that is still held. A worker does so only if its handler of exceptions has
read the run in review.

## Main definitions

* `Cmd.OverridesReview`: the end of a claim that writes a run in review.
* `rereading`: the protocol of the ends of claims by an exception.

## Main results

* `World.inReview_exec_iff`: what a command of the runtime does to a run in review.
* `review_kept_iff`: a run stays in review along a schedule exactly if no step overrides it.
* `review_overridden`: a worker that overrides a review.
* `exists_reading_of_overrides`: an override follows a reading of the run in review.
-/

namespace OpenRath

open Process

/-! ### Reviews and commands -/

/-- A run that is in review. -/
def World.InReview (i : UUID) (w : World) : Prop :=
  ∃ row ∈ w.db.runs.find? i, row.status = .needsReview

/-- The end of a claim as `FAILED` that writes the run `i`: it is issued in the version that the
run is in, and the worker still holds the lease. -/
def Cmd.OverridesReview (i : UUID) (input : Input) (w : World) : Cmd → Prop
  | .store (.finishClaim k workerId token v target _ _) => k = i ∧ target = .failed ∧
    (∃ row ∈ w.db.runs.find? i, (row.version : ℤ) = v ∧ row.updatedAt.Aware) ∧
    ∃ lease ∈ w.db.runLeases.find? i,
      SQLite.Holds w.db (.utc (input.clock 0)) i workerId token lease
  | _ => False

instance (db : Database) (d : Datetime) (i : UUID) (workerId : String) (token : ℤ)
    (lease : LeaseRow) : Decidable (SQLite.Holds db d i workerId token lease) :=
  decidable_of_iff (db.runLeases.find? i = some lease ∧ lease.active = true ∧
    lease.holderWorkerId = workerId ∧ (lease.fencingToken : ℤ) = token ∧
    lease.expiresAt.Aware ∧ d.instant < lease.expiresAt.instant)
    ⟨fun ⟨h₁, h₂, h₃, h₄, h₅, h₆⟩ => ⟨h₁, h₂, h₃, h₄, h₅, h₆⟩,
      fun h => ⟨h.find_eq, h.active, h.holder_eq, h.token_eq, h.aware, h.not_expired⟩⟩

instance (i : UUID) : DecidablePred (World.InReview i) :=
  fun _ => inferInstanceAs (Decidable (∃ _ ∈ _, _))

instance (i : UUID) (input : Input) (w : World) (c : Cmd) :
    Decidable (c.OverridesReview i input w) := by
  unfold Cmd.OverridesReview
  split <;> infer_instance

/-- A step of a run in review leaves the status alone, or it is a decision, an end of a claim or a
transition along the machine of statuses. -/
theorem RunView.Step.status_of_needsReview {v v' : RunView} {a : RunAction} {row : RunRow}
    (h : v.Step a v') (hrow : v.row = some row) (hs : row.status = .needsReview) :
    (∃ row', v'.row = some row' ∧ row'.status = .needsReview) ∨ a = .decide ∨
      ∃ target ∈ RunStatus.needsReview.transitions,
        a = .finish target ∨ ∃ state nextNodes, a = .transition target state nextNodes := by
  have hsame : ∀ {row' : RunRow}, v.row = some row' → row'.status = .needsReview := by
    intro row' hrow'
    cases hrow.symm.trans hrow'
    exact hs
  cases h with
  | stay | logEvent | appendCheckpoint | renew | release => exact Or.inl ⟨row, hrow, hs⟩
  | create _ h => cases h.symm.trans hrow
  | transition _ h ht => exact Or.inr (Or.inr ⟨_, hsame h ▸ ht, Or.inr ⟨_, _, rfl⟩⟩)
  | claim _ h hq => cases (hsame h).symm.trans hq
  | commit h hr => cases (hsame h).symm.trans hr
  | finish _ _ h ht => exact Or.inr (Or.inr ⟨_, hsame h ▸ ht, Or.inl rfl⟩)
  | interrupt _ _ h ht => exact absurd (hsame h ▸ ht) (by decide)
  | decide => exact Or.inr (Or.inl rfl)
  | expire _ h hw => cases (hsame h).symm.trans hw
  | requeue _ h hr => cases (hsame h).symm.trans hr

namespace World

variable {sha : Sha256}

/-- An override takes the run out of review. -/
theorem not_inReview_of_overrides {c : Cmd} {i : UUID} {input : Input} {w : World}
    (h : w.InReview i) (hc : c.OverridesReview i input w) :
    ¬ (exec sha c input w).2.InReview i := by
  obtain ⟨row, hrow, hs⟩ := h
  cases c with
  | store op =>
    cases op with
    | finishClaim k workerId token v target type data =>
      obtain ⟨rfl, rfl, ⟨row', hrow', hv, haware⟩, lease, -, hlease⟩ := hc
      cases hrow.symm.trans hrow'
      obtain ⟨run, c', hy⟩ := SQLite.exists_yields_finishClaim (c := ⟨w.db, input.clock⟩) type
        data hlease hrow haware hv (by rw [hs]; decide : RunStatus.failed ∈ row.status.transitions)
      obtain ⟨-, hwrote⟩ := SQLite.wrote_finishClaim hy
      obtain ⟨row', hrow', hstatus⟩ := hwrote.takes.step.of_finish
      have hdb : (exec sha (.store (.finishClaim k workerId token v .failed type data)) input
          w).2.db = c'.db := congrArg Prod.snd (transaction_eq_ok_iff.mpr ⟨c', hy, rfl⟩)
      rintro ⟨row'', hrow'', hs''⟩
      rw [hdb] at hrow''
      cases hrow'.symm.trans hrow''
      rw [hstatus] at hs''
      cases hs''
    | _ => exact hc.elim
  | _ => exact hc.elim

/-- **A run in review.** A command of the runtime leaves the run in review exactly if it does not
override the review. -/
theorem inReview_exec_iff {c : Cmd} (hc : c.OfRuntime) {i : UUID} {input : Input} {w : World}
    (h : w.InReview i) :
    (exec sha c input w).2.InReview i ↔ ¬ c.OverridesReview i input w := by
  refine ⟨fun hkept hover => not_inReview_of_overrides h hover hkept, fun hnot => ?_⟩
  obtain ⟨row, hrow, hs⟩ := h
  cases c with
  | ledger | now | uuid4 | elapsed | startTool | observe | context => exact ⟨row, hrow, hs⟩
  | store op =>
    rcases hr : (SQLite.perform sha ⟨op, input.clock⟩ w.db).1 with e | r
    · rw [InReview, exec_store, SQLite.perform_of_error hr]
      exact ⟨row, hrow, hs⟩
    obtain ⟨a, ha, hstep⟩ := SQLite.step_perform hr i
    rcases hstep.status_of_needsReview hrow hs with hsame | rfl | ⟨target, ht, ⟨rfl⟩ | ⟨_, _, rfl⟩⟩
    · exact hsame
    · have hcauses := ha.causes
      cases hcauses
      exact hc.elim
    · have hcauses := ha.causes
      cases hcauses with
      | finishClaim k workerId token v =>
        obtain ⟨rfl, -⟩ := Op.eq_of_only_ne_stay ha (by simp)
        obtain ⟨c', hy, -⟩ := transaction_eq_ok_iff.mp (Prod.ext hr rfl :
          transaction _ input.clock w.db = (.ok r, _))
        obtain ⟨⟨lease, hlease⟩, -⟩ := SQLite.wrote_finishClaim hy
        obtain ⟨row', hrow', hv, haware, -⟩ := SQLite.exists_row_of_finishClaim hy
        refine absurd ⟨rfl, ?_, ⟨row', hrow', hv, haware⟩, lease, hlease.find_eq, hlease⟩ hnot
        -- The other ends of a claim are no transitions from `NEEDS_REVIEW`.
        have hends : target ∈ [RunStatus.succeeded, .failed, .timedOut] := hc
        revert ht hends
        cases target <;> decide
    · have hcauses := ha.causes
      cases hcauses
      have htarget : target = .needsReview := hc
      exact absurd ht (by rw [htarget]; decide)

end World

/-! ### Runs of a system -/

/-- The steps that leave the run `i` in review. -/
def StaysInReview (sha : Sha256) (i : UUID) (y : Pool Cmd Cmd.Answer Exn Outcome World)
    (l : ℕ × Input) : Prop :=
  (y.step (World.exec sha) l).state.InReview i

/-- The steps that override the review of the run `i`. -/
def Overrides (i : UUID) (y : Pool Cmd Cmd.Answer Exn Outcome World) (l : ℕ × Input) : Prop :=
  ∃ c ∈ y.command? l.1, c.OverridesReview i l.2 y.state

instance (sha : Sha256) (i : UUID) (y : Pool Cmd Cmd.Answer Exn Outcome World)
    (l : ℕ × Input) : Decidable (StaysInReview sha i y l) :=
  inferInstanceAs (Decidable (World.InReview _ _))

instance (i : UUID) (y : Pool Cmd Cmd.Answer Exn Outcome World) (l : ℕ × Input) :
    Decidable (Overrides i y l) := inferInstanceAs (Decidable (∃ _ ∈ _, _))

section Runs

variable {sha : Sha256} {i : UUID} {y : Pool Cmd Cmd.Answer Exn Outcome World}

theorem staysInReview_iff (hy : ∀ p ∈ y.procs, p.Issues Cmd.OfRuntime)
    (h : y.state.InReview i) (l : ℕ × Input) :
    StaysInReview sha i y l ↔ ¬ Overrides i y l := by
  rw [StaysInReview, Overrides, Pool.command?]
  rcases hp : y.procs[l.1]? with _ | p
  · rw [Pool.step_of_none hp]
    simpa using h
  have hissues := hy p (List.mem_of_getElem? hp)
  rw [Pool.step_of_getElem? hp]
  cases p with
  | ret | throw | stop => simpa [Proc.command?, Proc.next] using h
  | call c k => simpa [Proc.command?, Proc.next] using World.inReview_exec_iff hissues.1 h

/-- A run that is in review stays so along a schedule exactly if no step overrides the review. -/
theorem along_staysInReview_iff (hy : ∀ p ∈ y.procs, p.Issues Cmd.OfRuntime)
    (h : y.state.InReview i) (schedule : List (ℕ × Input)) :
    y.Along (World.exec sha) (StaysInReview sha i) schedule ↔
      y.Along (World.exec sha) (fun z l => ¬ Overrides i z l) schedule := by
  induction schedule generalizing y with
  | nil => exact Iff.rfl
  | cons l ls ih =>
    refine ⟨fun ⟨hl, hls⟩ => ?_, fun ⟨hl, hls⟩ => ?_⟩
    · exact ⟨(staysInReview_iff hy h l).mp hl, (ih (Pool.step_issues hy l) hl).mp hls⟩
    · have hstays : StaysInReview sha i y l := (staysInReview_iff hy h l).mpr hl
      exact ⟨hstays, (ih (Pool.step_issues hy l) hstays).mpr hls⟩

end Runs

/-- **Runs in review.** In a system of workers, heartbeats and reconciliations, a run that is in
review after some steps stays in review along the following ones exactly if none of these is the
end of a claim as `FAILED` in the version of the review by a worker that still holds the lease. -/
theorem review_kept_iff (sha : Sha256) {x : Pool Cmd Cmd.Answer Exn Outcome World}
    (hx : ∀ p ∈ x.procs, Participant p) {past future : List (ℕ × Input)} {i : UUID}
    (h : (x.run (World.exec sha) past).state.InReview i) :
    (x.run (World.exec sha) past).Along (World.exec sha) (StaysInReview sha i) future ↔
      (x.run (World.exec sha) past).Along (World.exec sha) (fun y l => ¬ Overrides i y l)
        future :=
  along_staysInReview_iff (Pool.run_issues (fun p hp => (hx p hp).issues) past) h future

namespace Sample

/-- A worker that is going to call the tool, and a reconciliation without patience; the run is
created. -/
def reviewers : Pool Cmd Cmd.Answer Exn Outcome World where
  state := ⟨SQLite.after sha [⟨.createRun run, clock 0⟩], .empty, [], .empty⟩
  procs := [
    do let r ← (runtime none).workOnce 1 "first" (.finite 30) none none; pure (.worked r),
    reconcile (.finite 5) none]

theorem reviewers_participants : ∀ p ∈ reviewers.procs, Participant p := by
  intro p hp
  rcases List.mem_cons.mp hp with rfl | hp
  · exact .work ..
  · obtain rfl := List.mem_singleton.mp hp
    exact .reconcile ..

/-- The worker starts the tool, and the reconciliation moves the run to `NEEDS_REVIEW`. -/
def parked : List (ℕ × Input) :=
  List.replicate 9 (0, input 1) ++ List.replicate 4 (0, input 2) ++
    List.replicate 4 (1, input 10)

end Sample

/-- The call of the tool that ends meanwhile cannot be recorded. -/
theorem review_kept_iff_sample :
    (Sample.reviewers.run (World.exec Sample.sha) Sample.parked).Along (World.exec Sample.sha)
      (StaysInReview Sample.sha Sample.run.id) [(0, Sample.input 11)] := by
  exact (review_kept_iff Sample.sha Sample.reviewers_participants (by decide +kernel)).mpr
    (by decide +kernel)

/-- **A review that is overridden.** The conflict in the recording ends the attempt, and the
handler of exceptions finishes the run as `FAILED`. -/
theorem review_overridden :
    (Sample.reviewers.run (World.exec Sample.sha) Sample.parked).state.InReview Sample.run.id ∧
    ¬ (Sample.reviewers.run (World.exec Sample.sha) Sample.parked).Along (World.exec Sample.sha)
      (StaysInReview Sample.sha Sample.run.id) (List.replicate 4 (0, Sample.input 11)) := by
  decide +kernel

/-! ### Readings -/

/-- The run that a command has read, with its version. -/
def Cmd.reading? : (c : Cmd) → c.Answer → Option (UUID × ℕ)
  | .store (.getRun i), r => match (r : Except StoreError Run) with
    | .ok run => some (i, run.version)
    | .error _ => none
  | _, _ => none

/-- The protocol of the ends of claims: a claim ends by an exception only in the version that the
last command has read. -/
def rereading : Protocol Cmd Cmd.Answer (Option (UUID × ℕ)) where
  allows read
    | .store (.finishClaim k _ _ v target _ _) =>
      target = .succeeded ∨ ∃ n : ℕ, read = some (k, n) ∧ v = n
    | _ => True
  answers _ _ := True
  advance _ c r := c.reading? r

theorem Cmd.Unfailing.allows {c : Cmd} (h : c.Unfailing) (read : Option (UUID × ℕ)) :
    rereading.allows read c := by
  cases c with
  | store op =>
    cases op with
    | finishClaim => exact Or.inl h
    | _ => trivial
  | _ => trivial

theorem closedOnRuntime_rereads :
    ClosedOnRuntime fun _ _ (p : Proc Cmd Cmd.Answer _ _) => p.Obeys rereading where
  toClosed := Proc.closed_obeys _
  command _ h _ _ read := ⟨h.allows read, fun _ _ => trivial⟩

/-- The handler of exceptions ends the claim in the version that it has just read. -/
theorem LocalRuntime.rereads_endClaim (rt : LocalRuntime) (claim : ClaimedRun) (workerId : String)
    (e : Exn) : (rt.endClaim claim workerId e).Obeys rereading := by
  have hG := closedOnRuntime_rereads
  have hforget : ∀ run, (rt.forgetContextIfTerminal run).Obeys rereading :=
    rt.closed_forgetContextIfTerminal hG.onSteps fun _ _ => ⟨trivial, fun _ _ => trivial⟩
  refine fun read => ⟨trivial, fun r _ => ?_⟩
  rcases r with e' | current
  · trivial
  refine Proc.follows_ite ((hG.bind (hforget current) fun _ => hG.ret _) _) ?_
  refine ⟨Or.inr ⟨current.version, rfl, rfl⟩, fun r _ => ?_⟩
  refine (hG.bind (hG.attempt (hG.ofExcept _)) fun result => ?_) _
  rcases result with e' | failed
  · exact hG.ite (hG.store (.getRun _) trivial) (hG.throw _)
  · exact hG.bind (hforget failed) fun _ => hG.ret _

theorem Participant.rereads {p : Process Outcome} (h : Participant p) : p.Obeys rereading := by
  have hG := closedOnRuntime_rereads
  cases h with
  | work rt =>
    have htool : ∀ call, (rt.steps.executor.execute call).Obeys rereading := fun call =>
      rt.steps.executor.closed_execute hG.onSteps call
        (fun _ _ => ⟨trivial, fun _ _ => trivial⟩) fun _ _ => ⟨trivial, fun _ _ => hG.ofExcept _ _⟩
    exact hG.bind (rt.closed_workOnce hG htool (fun _ _ => ⟨trivial, fun _ _ => trivial⟩)
      rt.rereads_endClaim _ _ _ _ _) fun _ => hG.ret _
  | renew => exact hG.bind (closed_heartbeat hG.onSteps _ _ _ _ _) fun _ => hG.ret _
  | reconcile => exact hG.bind (closed_reconcileStaleEffects hG.onSteps _ _) fun _ => hG.ret _

/-- A run that is there stays, its version does not fall, and a version has one status. -/
def World.Versioned (i : UUID) (w w' : World) : Prop :=
  ∀ row ∈ w.db.runs.find? i, ∃ row' ∈ w'.db.runs.find? i, row.version ≤ row'.version ∧
    (row.version = row'.version → row.status = row'.status)

namespace World

variable {i : UUID} {w w' w'' : World}

theorem Versioned.refl (i : UUID) (w : World) : w.Versioned i w :=
  fun row hrow => ⟨row, hrow, le_rfl, fun _ => rfl⟩

theorem Versioned.trans (h : w.Versioned i w') (h' : w'.Versioned i w'') : w.Versioned i w'' := by
  intro row hrow
  obtain ⟨row', hrow', hle, hsame⟩ := h row hrow
  obtain ⟨row'', hrow'', hle', hsame'⟩ := h' row' hrow'
  exact ⟨row'', hrow'', hle.trans hle', fun heq =>
    (hsame (by omega)).trans (hsame' (by omega))⟩

theorem versioned_exec (sha : Sha256) (i : UUID) (c : Cmd) (input : Input) (w : World) :
    w.Versioned i (exec sha c input w).2 := by
  cases c with
  | ledger | now | uuid4 | elapsed | startTool | observe | context => exact .refl i w
  | store op =>
    intro row hrow
    rw [exec_store]
    rcases hr : (SQLite.perform sha ⟨op, input.clock⟩ w.db).1 with e | r
    · rw [SQLite.perform_of_error hr]
      exact ⟨row, hrow, le_rfl, fun _ => rfl⟩
    · obtain ⟨a, -, hstep⟩ := SQLite.step_perform hr i
      rcases hstep.row_cases hrow with hsame | ⟨row', hwrites⟩
      · exact ⟨row, hsame, le_rfl, fun _ => rfl⟩
      · have hversion := hwrites.version_eq
        exact ⟨row', hwrites.row_eq, by omega, fun heq => by omega⟩

end World

/-- A command that has read a run. -/
theorem reading?_exec {sha : Sha256} {c : Cmd} {input : Input} {w : World} {i : UUID} {n : ℕ}
    (h : c.reading? (World.exec sha c input w).1 = some (i, n)) :
    c = .store (.getRun i) ∧ ∃ row ∈ w.db.runs.find? i, row.version = n := by
  cases c with
  | ledger | now | uuid4 | elapsed | startTool | observe | context => cases h
  | store op =>
    cases op with
    | getRun k =>
      change Cmd.reading? (.store (.getRun k))
        (SQLite.perform sha ⟨.getRun k, input.clock⟩ w.db).1 =
        some (i, n) at h
      rcases hr : (SQLite.perform sha ⟨.getRun k, input.clock⟩ w.db).1 with e | run
      · rw [hr] at h
        cases h
      · rw [hr] at h
        cases h
        obtain ⟨row, haware, hrow, hrun⟩ := SQLite.exists_row_of_getRun hr
        exact ⟨rfl, row, hrow, congrArg Run.version hrun⟩
    | _ => cases h

/-- **Overrides.** A worker that is about to override a review has read the run when it was in
review, and this is the last command of the worker. As no other program of a participant reads a
run and then ends its claim as `FAILED`, it is the reading of the handler of exceptions. -/
theorem exists_reading_of_overrides (sha : Sha256) {x : Pool Cmd Cmd.Answer Exn Outcome World}
    (hx : ∀ p ∈ x.procs, Participant p) {past : List (ℕ × Input)} {i : UUID} {l : ℕ × Input}
    (h : (x.run (World.exec sha) past).state.InReview i)
    (hl : Overrides i (x.run (World.exec sha) past) l) :
    ∃ before input after, past = before ++ (l.1, input) :: after ∧ (∀ m ∈ after, m.1 ≠ l.1) ∧
      (x.run (World.exec sha) before).command? l.1 = some (.store (.getRun i)) ∧
      (x.run (World.exec sha) before).state.InReview i := by
  obtain ⟨c, hc, hover⟩ := hl
  have hrereads : ∀ p ∈ x.procs, p.Follows rereading none := fun p hp => (hx p hp).rereads none
  cases c with
  | ledger | now | uuid4 | elapsed | startTool | observe | context => exact hover.elim
  | store op =>
    cases op with
    | finishClaim k workerId token v target type data =>
      obtain ⟨rfl, rfl, ⟨row, hrow, hv, -⟩, -⟩ := hover
      rcases Pool.exists_last_allowed (fun _ _ _ => trivial) hrereads hc with
        hnone | ⟨before, input, after, c', read, rfl, hafter, hc', hread⟩
      · rcases hnone with h | ⟨n, h, -⟩ <;> cases h
      · obtain h | ⟨n, hread, rfl⟩ := hread
        · cases h
        obtain ⟨rfl, row₀, hrow₀, hn⟩ := reading?_exec hread
        refine ⟨before, input, after, rfl, hafter, hc', row₀, hrow₀, ?_⟩
        -- Since the reading, the version of the run is the same.
        have hkept := Pool.run_rel (World.Versioned.refl k) (fun _ _ _ => World.Versioned.trans)
          (World.versioned_exec sha k) (x.run (World.exec sha) before)
          ((l.1, input) :: after)
        rw [← Pool.run_append] at hkept
        obtain ⟨row', hrow', -, hsame⟩ := hkept row₀ hrow₀
        obtain ⟨row'', hrow'', hs⟩ := h
        cases hrow.symm.trans hrow'
        cases hrow.symm.trans hrow''
        rw [hsame (by omega), hs]
    | _ => exact hover.elim

namespace Sample

/-- The recording of the call fails, and the handler of exceptions reads the run. -/
def raised : List (ℕ × Input) := parked ++ List.replicate 3 (0, input 11)

/-- The worker that is about to override the review has read the run in review. -/
theorem raised_read : ∃ before i after, raised = before ++ (0, i) :: after ∧
    (∀ m ∈ after, m.1 ≠ 0) ∧
    (reviewers.run (World.exec sha) before).command? 0 = some (.store (.getRun run.id)) ∧
    (reviewers.run (World.exec sha) before).state.InReview run.id := by
  have hreview : (reviewers.run (World.exec sha) raised).state.InReview run.id := by
    decide +kernel
  have hoverrides : Overrides run.id (reviewers.run (World.exec sha) raised) (0, input 11) := by
    decide +kernel
  exact exists_reading_of_overrides sha reviewers_participants hreview hoverrides

end Sample

end OpenRath
