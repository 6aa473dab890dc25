import OpenRath.Runtime.Sqlite.Histories

/-!
# The event log

The events of a run are numbered `1, 2, ..., n` in the order in which they were appended, the
first one records the creation of the run, and every write of the row of a run appends one of
them. As events are never removed and numbers never reused, a reader that asks for the events
above the last number it has received sees the log from its start, whatever is written between
its calls.

## Main definitions

* `SQLite.Received`: what a reader has received that calls `list_run_events` again and again.

## Main results

* `SQLite.numbered_events`: the log of every run is numbered.
* `SQLite.listRunEvents_eq`: a page of a numbered log.
* `SQLite.event_log_of_history`: the log after every history, what a call appends, and paging.
-/

namespace OpenRath

/-! ### One run -/

/-- The log of a run: it is numbered, it is empty as long as the run is not there, and it starts
with the creation of the run. -/
structure RunView.Logged (v : RunView) : Prop where
  numbered : Numbered RunEvent.sequence v.events
  events_of_none : v.row = none → v.events = []
  head_eq : ∀ row, v.row = some row → ∃ e rest, v.events = e :: rest ∧ e.type = "run.created"

/-- A step leaves the log of a run alone or appends the next event to it. -/
theorem RunView.Step.events_cases {v v' : RunView} {a : RunAction} (h : v.Step a v') :
    v'.events = v.events ∨ ∃ e, e.sequence = v.nextEvent ∧ v'.events = v.events ++ [e] := by
  cases h with
  | stay | renew | release => exact Or.inl rfl
  | create _ _ he => exact Or.inr ⟨_, he, rfl⟩
  | transition _ _ _ he => exact Or.inr ⟨_, he, rfl⟩
  | logEvent _ he => exact Or.inr ⟨_, he, rfl⟩
  | appendCheckpoint _ _ he => exact Or.inr ⟨_, he, rfl⟩
  | claim _ _ _ _ _ he => exact Or.inr ⟨_, he, rfl⟩
  | commit _ _ _ _ _ he => exact Or.inr ⟨_, he, rfl⟩
  | finish _ _ _ _ _ _ he => exact Or.inr ⟨_, he, rfl⟩
  | interrupt _ _ _ _ he => exact Or.inr ⟨_, he, rfl⟩
  | decide _ _ _ he => exact Or.inr ⟨_, he, rfl⟩
  | expire _ _ _ he => exact Or.inr ⟨_, he, rfl⟩
  | requeue _ _ _ _ _ he => exact Or.inr ⟨_, he, rfl⟩

theorem RunView.Logged.step {v v' : RunView} {a : RunAction} (h : v.Logged)
    (hstep : v.Step a v') : v'.Logged := by
  have hnumbered : Numbered RunEvent.sequence v'.events := by
    rcases hstep.events_cases with heq | ⟨e, he, heq⟩
    · rw [heq]
      exact h.numbered
    · rw [heq]
      exact h.numbered.concat he
  rcases hrow : v.row with _ | row
  · have hempty := h.events_of_none hrow
    cases hstep with
    | stay => exact h
    | create _ _ _ htype =>
      refine ⟨hnumbered, fun hnone => ?_, fun row _ => ⟨_, [], ?_, htype⟩⟩
      · cases hnone
      · change v.events ++ _ = _
        rw [hempty]
        rfl
    | renew => exact ⟨h.numbered, h.events_of_none, h.head_eq⟩
    | transition _ h | logEvent h | appendCheckpoint h | claim _ h | commit h | finish _ _ h
    | interrupt _ _ h | decide _ h | expire _ h | requeue _ h | release h => simp [hrow] at h
  · obtain ⟨row', hrow'⟩ := hstep.exists_row hrow
    obtain ⟨e, rest, hhead, htype⟩ := h.head_eq row hrow
    refine ⟨hnumbered, fun hnone => ?_, fun _ _ => ?_⟩
    · rw [hrow'] at hnone
      cases hnone
    · rcases hstep.events_cases with heq | ⟨e', -, heq⟩
      · exact ⟨e, rest, heq.trans hhead, htype⟩
      · exact ⟨e, rest ++ [e'], by rw [heq, hhead, List.cons_append], htype⟩

namespace SQLite

open Tx

variable {sha : Sha256}

/-- The log of every run is numbered and starts with the creation of the run. -/
theorem logged_after (sha : Sha256) (calls : List Call) (i : UUID) :
    ((after sha calls).view i).Logged :=
  after_induction (P := fun _ => True)
    ⟨numbered_nil, fun _ => rfl, fun _ h => nomatch h⟩
    (fun _ _ _ _ _ _ _ hstep h => h.step hstep) fun _ _ => trivial

/-! ### Pages -/

/-- A page of a numbered log: what follows the events already seen, up to the limit. -/
theorem listRunEvents_eq {db : Database} {i : UUID} {seen : ℕ} {limit : ℤ}
    (clock : ℕ → ClockReading) (hlog : Numbered RunEvent.sequence (db.eventsOf i))
    (hlimit : 1 ≤ limit) :
    (perform sha ⟨.listRunEvents i seen (some limit), clock⟩ db).1 =
      .ok (((db.eventsOf i).drop seen).take limit.toNat) := by
  have hall : ∀ n ∈ some limit, 1 ≤ n := by
    rintro n ⟨⟩
    exact hlimit
  have hrows : db.runEvents.rows.filter (fun e => e.runId = i ∧ (seen : ℤ) < (e.sequence : ℤ)) =
      (db.eventsOf i).drop seen := by
    rw [← hlog.filter_lt seen, Database.eventsOf, List.filter_filter]
    refine List.filter_congr fun e _ => ?_
    by_cases hid : e.runId = i <;> simp [hid]
  have hsorted : ((db.eventsOf i).drop seen).insertionSort
      (fun a b => a.sequence ≤ b.sequence) = (db.eventsOf i).drop seen :=
    List.Pairwise.insertionSort_eq ((hlog.pairwise_lt.drop).imp fun h => h.le)
  have hbody : (listRunEvents i seen (some limit)).Yields ⟨db, clock⟩
      (((db.eventsOf i).drop seen).take limit.toNat) ⟨db, clock⟩ := by
    simp only [listRunEvents, yields_bind, yields_raiseUnless, yields_query, yields_pure]
    refine ⟨(), _, ⟨by omega, rfl⟩, (), _, ⟨hall, rfl⟩, _, _, ⟨rfl, rfl⟩, ?_, rfl⟩
    rw [hrows, hsorted]
    rfl
  have hok := transaction_eq_ok_iff.mpr ⟨_, hbody, rfl⟩
  exact congrArg Prod.fst hok

/-- A page that is returned was asked for after a number that is not negative. -/
theorem nonneg_of_listRunEvents {db : Database} {i : UUID} {cursor limit : ℤ}
    {clock : ℕ → ClockReading} {page : List RunEvent}
    (h : (perform sha ⟨.listRunEvents i cursor (some limit), clock⟩ db).1 = .ok page) :
    0 ≤ cursor := by
  obtain ⟨c', hbody, -⟩ := transaction_eq_ok_iff.mp (Prod.ext h rfl :
    transaction (listRunEvents i cursor (some limit)) clock db =
      (.ok page, (perform sha ⟨.listRunEvents i cursor (some limit), clock⟩ db).2))
  simp only [listRunEvents, yields_bind, yields_raiseUnless] at hbody
  obtain ⟨-, -, ⟨hnonneg, -⟩, -⟩ := hbody
  exact hnonneg

/-- A page continues the number after which it was asked for. -/
theorem continues_of_listRunEvents {db : Database} {i : UUID} {cursor limit : ℤ}
    {clock : ℕ → ClockReading} {page : List RunEvent}
    (hlog : Numbered RunEvent.sequence (db.eventsOf i)) (hlimit : 1 ≤ limit)
    (h : (perform sha ⟨.listRunEvents i cursor (some limit), clock⟩ db).1 = .ok page) :
    Continues RunEvent.sequence cursor page ∧
      (page = [] ↔ (db.eventsOf i).length ≤ cursor) := by
  obtain ⟨seen, rfl⟩ := Int.eq_ofNat_of_zero_le (nonneg_of_listRunEvents h)
  obtain rfl := Except.ok.inj (h.symm.trans (listRunEvents_eq clock hlog hlimit))
  refine ⟨(hlog.continues_drop seen).take _, ?_⟩
  rw [List.take_eq_nil_iff, List.drop_eq_nil_iff]
  omega

/-- What a reader of the events of the run `i` has received in a history in which it calls
`list_run_events` from time to time, each time with a positive limit and with the number of the
last event it has received. -/
inductive Received (sha : Sha256) (i : UUID) : List Call → List RunEvent → Prop
  | start : Received sha i [] []
  | other {calls : List Call} {events : List RunEvent} (call : Call) :
      Received sha i calls events → Received sha i (calls ++ [call]) events
  | page {calls : List Call} {events page : List RunEvent} {limit : ℤ}
      (clock : ℕ → ClockReading) (hlimit : 1 ≤ limit)
      (hpage : (perform sha ⟨.listRunEvents i (lastNumber RunEvent.sequence events) (some limit),
        clock⟩ (after sha calls)).1 = .ok page) :
      Received sha i calls events →
      Received sha i (calls ++ [⟨.listRunEvents i (lastNumber RunEvent.sequence events)
        (some limit), clock⟩]) (events ++ page)

/-- The log of a run grows by at most one event in a call. -/
theorem events_perform (sha : Sha256) (call : Call) (db : Database) (i : UUID) :
    (perform sha call db).2.eventsOf i = db.eventsOf i ∨
      ∃ e, (perform sha call db).2.eventsOf i = db.eventsOf i ++ [e] := by
  obtain ⟨a, -, hstep⟩ := exists_step_perform sha call db i
  rcases hstep.events_cases with heq | ⟨e, -, heq⟩
  · exact Or.inl heq
  · exact Or.inr ⟨e, heq⟩

/-- The page a reader receives next continues what it has received, and it stops short of the
end of the log only at the limit. -/
theorem exists_page {calls : List Call} {i : UUID} {events : List RunEvent} {limit : ℤ}
    (clock : ℕ → ClockReading) (hlimit : 1 ≤ limit)
    (hevents : events <+: (after sha calls).eventsOf i) :
    ∃ page : List RunEvent, (perform sha ⟨.listRunEvents i
        (lastNumber RunEvent.sequence events) (some limit), clock⟩ (after sha calls)).1 =
          .ok page ∧
      events ++ page <+: (after sha calls).eventsOf i ∧
      ((page.length : ℤ) = limit ∨ events ++ page = (after sha calls).eventsOf i) := by
  have hlog : Numbered RunEvent.sequence ((after sha calls).eventsOf i) :=
    (logged_after sha calls i).numbered
  refine ⟨_, listRunEvents_eq clock hlog hlimit, ?_⟩
  rw [(hlog.of_prefix hevents).lastNumber_eq]
  obtain ⟨rest, hrest⟩ := hevents
  rw [← hrest, List.drop_left]
  refine ⟨(List.prefix_append_right_inj events).mpr (List.take_prefix _ _), ?_⟩
  rcases Nat.lt_or_ge rest.length limit.toNat with hlt | hge
  · exact Or.inr (by rw [List.take_of_length_le hlt.le])
  · refine Or.inl ?_
    rw [List.length_take, Nat.min_eq_left hge]
    omega

/-- What a reader has received is the log from its start. -/
theorem Received.isPrefix {calls : List Call} {i : UUID} {events : List RunEvent}
    (h : Received sha i calls events) : events <+: (after sha calls).eventsOf i := by
  induction h with
  | start => exact List.nil_prefix
  | other call _ ih =>
    rw [after_concat]
    rcases events_perform sha call _ i with heq | ⟨e, heq⟩
    · rw [heq]
      exact ih
    · rw [heq]
      exact ih.trans (List.prefix_append _ _)
  | page clock hlimit hpage _ ih =>
    obtain ⟨page, hok, hpre, -⟩ := exists_page clock hlimit ih
    obtain rfl := Except.ok.inj (hpage.symm.trans hok)
    obtain ⟨a, rfl, hstep⟩ := step_perform hpage i
    rw [after_concat, ← Database.view_events, hstep.eq_of_stay]
    exact hpre

/-- **Event log.** After every history, the events of a run carry the numbers `1, 2, ..., n` in
order and the first one is its creation; a call that changes the version of a run appends exactly
one event to its log, and a call that raises appends none; and a reader that pages through the log
with positive limits, whatever is called in between, has received the log from its start, and its
next page is returned, continues the log and stops short of its end only at the limit. -/
theorem event_log_of_history (sha : Sha256) (calls : List Call) (i : UUID) :
    ((after sha calls).eventsOf i).map RunEvent.sequence =
      List.range' 1 ((after sha calls).eventsOf i).length ∧
    (∀ row, (after sha calls).runs.find? i = some row →
      ∃ e rest, (after sha calls).eventsOf i = e :: rest ∧ e.type = "run.created") ∧
    (∀ call row row', (after sha calls).runs.find? i = some row →
      (perform sha call (after sha calls)).2.runs.find? i = some row' →
      row'.version ≠ row.version →
      ∃ e, (perform sha call (after sha calls)).2.eventsOf i =
        (after sha calls).eventsOf i ++ [e]) ∧
    (∀ call e, (perform sha call (after sha calls)).1 = .error e →
      (perform sha call (after sha calls)).2.eventsOf i = (after sha calls).eventsOf i) ∧
    (∀ events, Received sha i calls events → events <+: (after sha calls).eventsOf i ∧
      ∀ clock limit, 1 ≤ limit → ∃ page : List RunEvent,
        (perform sha ⟨.listRunEvents i (lastNumber RunEvent.sequence events) (some limit), clock⟩
          (after sha calls)).1 = .ok page ∧
        events ++ page <+: (after sha calls).eventsOf i ∧
        ((page.length : ℤ) = limit ∨ events ++ page = (after sha calls).eventsOf i)) := by
  have hlogged := logged_after sha calls i
  refine ⟨hlogged.numbered, hlogged.head_eq, fun call row row' hrow hrow' hne => ?_,
    fun call e he => by rw [perform_of_error he], fun events hevents =>
      ⟨hevents.isPrefix, fun clock limit hlimit => exists_page clock hlimit hevents.isPrefix⟩⟩
  obtain ⟨a, -, hstep⟩ := exists_step_perform sha call (after sha calls) i
  rcases hstep.row_cases hrow with hsame | ⟨row'', hw⟩
  · cases hsame.symm.trans hrow'
    exact absurd rfl hne
  · exact hw.events_eq

end SQLite

end OpenRath
