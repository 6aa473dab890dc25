import OpenRath.Adapters.Memory
import OpenRath.Adapters.Values
import OpenRath.Library.Events

/-!
# Logs of events

The log of a session is an immutable value (`src/rath/events.py`): to append an event to it gives
another log, and the log that was there stays. One log may be continued in several ways, so that the
logs of a session branch. Every log checks that its events are of its session and numbered from one.

## Main definitions

* `Event`, `SessionEventLog`: with what their constructors check as fields.
* `Event.create`, `SessionEventLog.make`, `SessionEventLog.append`.
* `SessionEventLog.step`: logs are started, and continued.
* `SessionEventLog.Chronicle`: what came before an event, for all logs.

## Main results

* `append_eq_ok_iff`: appending only fails where the payload is no JSON mapping.
* `shared_history`: of two logs with one event, all that precedes the event is the same.
-/

namespace OpenRath

/-! ### Events -/

/-- The kinds of events. -/
inductive EventKind
  | messageCreated
  | sessionForked
  | sessionMerged
  | runStateChanged
  | nodeStarted
  | nodeCompleted
  | outputDelta
  | interruptCreated
  | toolInvocationChanged
deriving DecidableEq

/-- Who made an event. -/
structure ProducerRef where
  kind : String
  id : String
  revisionId : Option UUID
  strip_kind : strip kind ≠ ""
  strip_id : strip id ≠ ""
deriving DecidableEq

/-- `ProducerRef`, with the checks of `__post_init__`. -/
def ProducerRef.make (kind id : String) (revisionId : Option UUID) : Except Exn ProducerRef :=
  if hkind : strip kind ≠ "" then
    if hid : strip id ≠ "" then .ok ⟨kind, id, revisionId, hkind, hid⟩
    else .error (.store (.valueError "producer id must not be empty"))
  else .error (.store (.valueError "producer kind must not be empty"))

/-- Where the content of an event comes from. -/
structure Provenance where
  sourceType : Required
  sourceId : Required
  producer : Option String
  metadata : JsonObject

/-- `freeze_mapping`. -/
def freezeMapping (o : Objects) (value : List (Value × Value)) (field : String) :
    Except Exn JsonObject :=
  (Value.freezeEntries o field [] value).mapError (.other "TypeError")

/-- `Provenance`, with the checks of `__post_init__`. -/
def Provenance.make (o : Objects) (sourceType sourceId : String) (producer : Option String)
    (metadata : List (Value × Value)) : Except Exn Provenance := do
  let sourceType ← (Required.ofString sourceType "source_type").mapError .store
  let sourceId ← (Required.ofString sourceId "source_id").mapError .store
  let metadata ← freezeMapping o metadata "provenance.metadata"
  .ok ⟨sourceType, sourceId, producer, metadata⟩

/-- An event. -/
structure Event where
  id : UUID
  sessionId : UUID
  sequence : ℤ
  kind : EventKind
  payload : JsonObject
  producer : ProducerRef
  trust : TrustLevel
  provenance : Provenance
  createdAt : Datetime
  traceContext : Option TraceContext
  schemaVersion : ℤ
  one_le_sequence : 1 ≤ sequence
  one_le_schemaVersion : 1 ≤ schemaVersion
  aware : createdAt.Aware

/-- What is given for an event. -/
structure EventDraft where
  kind : EventKind
  payload : List (Value × Value)
  producer : ProducerRef
  trust : TrustLevel
  provenance : Provenance
  traceContext : Option TraceContext

namespace Event

/-- The checks of `__post_init__`; the payload is frozen after them. -/
def make (id sessionId : UUID) (sequence : ℤ) (draft : EventDraft)
    (payload : Except Exn JsonObject) (createdAt : Datetime) (schemaVersion : ℤ) :
    Except Exn Event :=
  if hsequence : 1 ≤ sequence then
    if hversion : 1 ≤ schemaVersion then
      if haware : createdAt.Aware then
        payload.map fun payload =>
          ⟨id, sessionId, sequence, draft.kind, payload, draft.producer, draft.trust,
            draft.provenance, createdAt, draft.traceContext, schemaVersion, hsequence, hversion,
            haware⟩
      else .error (.store (.valueError "event created_at must be timezone-aware"))
    else .error (.store (.valueError "event schema_version must be greater than zero"))
  else .error (.store (.valueError "event sequence must be greater than zero"))

/-- `Event.create`, with the identifier that it draws and the time that it reads. The payload is
frozen before the other checks, and a frozen payload once more, which gives it back. -/
def create (o : Objects) (id : UUID) (createdAt : Datetime) (sessionId : UUID) (sequence : ℤ)
    (draft : EventDraft) : Except Exn Event := do
  let payload ← freezeMapping o draft.payload "event.payload"
  make id sessionId sequence draft (.ok payload) createdAt 1

/-- The event is made of a draft. -/
structure IsOf (e : Event) (id sessionId : UUID) (sequence : ℤ) (draft : EventDraft)
    (payload : JsonObject) (createdAt : Datetime) : Prop where
  id_eq : e.id = id
  sessionId_eq : e.sessionId = sessionId
  sequence_eq : e.sequence = sequence
  kind_eq : e.kind = draft.kind
  payload_eq : e.payload = payload
  producer_eq : e.producer = draft.producer
  trust_eq : e.trust = draft.trust
  provenance_eq : e.provenance = draft.provenance
  createdAt_eq : e.createdAt = createdAt
  traceContext_eq : e.traceContext = draft.traceContext
  schemaVersion_eq : e.schemaVersion = 1

variable {o : Objects} {id sessionId : UUID} {sequence : ℤ} {draft : EventDraft}
  {createdAt : Datetime}

/-- What is created for a number from one on. -/
theorem create_eq_ok_iff (hsequence : 1 ≤ sequence) (haware : createdAt.Aware) {e : Event} :
    create o id createdAt sessionId sequence draft = .ok e ↔
      ∃ payload, freezeMapping o draft.payload "event.payload" = .ok payload ∧
        e.IsOf id sessionId sequence draft payload createdAt := by
  rw [create, bind_eq_ok_iff]
  refine exists_congr fun payload => and_congr_right fun _ => ?_
  rw [make, dif_pos hsequence, dif_pos (le_refl 1), dif_pos haware]
  constructor
  · intro h
    cases h
    exact ⟨rfl, rfl, rfl, rfl, rfl, rfl, rfl, rfl, rfl, rfl, rfl⟩
  · rintro ⟨rfl, rfl, rfl, hkind, rfl, hproducer, htrust, hprovenance, rfl, htrace, hversion⟩
    cases e
    cases hkind
    cases hproducer
    cases htrust
    cases hprovenance
    cases htrace
    cases hversion
    rfl

end Event

/-! ### Logs -/

/-- The log of a session. -/
structure SessionEventLog where
  id : UUID
  events : List Event
  parentSessionIds : List UUID
  sessionId_eq : ∀ e ∈ events, e.sessionId = id
  sequence_eq : ∀ (i : ℕ) e, events[i]? = some e → e.sequence = i + 1
  id_not_mem : id ∉ parentSessionIds

namespace SessionEventLog

/-- The loop of `__post_init__`. -/
def checkEvents (id : UUID) : ℤ → List Event → Except Exn Unit
  | _, [] => .ok ()
  | expected, e :: events =>
    if e.sessionId ≠ id then
      .error (.store (.valueError "event session_id does not match event log id"))
    else if e.sequence ≠ expected then
      .error (.store (.valueError "event sequence must be contiguous and start at 1"))
    else checkEvents id (expected + 1) events

theorem checkEvents_eq_ok_iff {id : UUID} {expected : ℤ} {events : List Event} :
    checkEvents id expected events = .ok () ↔ (∀ e ∈ events, e.sessionId = id) ∧
      ∀ (i : ℕ) e, events[i]? = some e → e.sequence = expected + i := by
  induction events generalizing expected with
  | nil => simp [checkEvents]
  | cons e events ih =>
    rw [checkEvents]
    by_cases hsession : e.sessionId = id
    · by_cases hsequence : e.sequence = expected
      · rw [if_neg (not_not.mpr hsession), if_neg (not_not.mpr hsequence), ih]
        constructor
        · rintro ⟨hsessions, hsequences⟩
          refine ⟨List.forall_mem_cons.mpr ⟨hsession, hsessions⟩, fun i e' he' => ?_⟩
          cases i with
          | zero =>
            cases he'
            simpa using hsequence
          | succ i =>
            rw [hsequences i e' he']
            push_cast
            ring
        · rintro ⟨hsessions, hsequences⟩
          refine ⟨(List.forall_mem_cons.mp hsessions).2, fun i e' he' => ?_⟩
          rw [hsequences (i + 1) e' he']
          push_cast
          ring
      · rw [if_neg (not_not.mpr hsession), if_pos hsequence]
        refine iff_of_false (by simp) fun h => hsequence ?_
        simpa using h.2 0 e rfl
    · rw [if_pos hsession]
      exact iff_of_false (by simp) fun h => hsession (h.1 e List.mem_cons_self)

/-- `SessionEventLog`, with the checks of `__post_init__`. -/
def make (id : UUID) (events : List Event) (parentSessionIds : List UUID) :
    Except Exn SessionEventLog :=
  match hevents : checkEvents id 1 events with
  | .error e => .error e
  | .ok () =>
    if hid : id ∉ parentSessionIds then
      .ok ⟨id, events, parentSessionIds, (checkEvents_eq_ok_iff.mp hevents).1,
        fun i e he => ((checkEvents_eq_ok_iff.mp hevents).2 i e he).trans (add_comm _ _), hid⟩
    else .error (.store (.valueError "session cannot be its own lineage parent"))

/-- Every log is what its constructor makes of its parts. -/
theorem make_self (log : SessionEventLog) :
    make log.id log.events log.parentSessionIds = .ok log := by
  have hevents : checkEvents log.id 1 log.events = .ok () :=
    checkEvents_eq_ok_iff.mpr ⟨log.sessionId_eq, fun i e he =>
      (log.sequence_eq i e he).trans (add_comm _ _)⟩
  rw [make]
  split
  · next h => cases hevents.symm.trans h
  · rw [dif_pos log.id_not_mem]

/-- `append`, with the identifier that it draws and the time that it reads. -/
def append (o : Objects) (log : SessionEventLog) (id : UUID) (createdAt : Datetime)
    (draft : EventDraft) : Except Exn SessionEventLog := do
  let event ← Event.create o id createdAt log.id (log.events.length + 1) draft
  make log.id (log.events ++ [event]) log.parentSessionIds

variable {o : Objects} {log log' : SessionEventLog} {id : UUID} {createdAt : Datetime}
  {draft : EventDraft}

theorem make_eq_ok_iff {events : List Event} {parents : List UUID} :
    make id events parents = .ok log ↔
      log.id = id ∧ log.events = events ∧ log.parentSessionIds = parents := by
  constructor
  · intro h
    rw [make] at h
    split at h
    · cases h
    · split_ifs at h
      cases h
      exact ⟨rfl, rfl, rfl⟩
  · rintro ⟨rfl, rfl, rfl⟩
    exact log.make_self

/-- Appending succeeds if and only if the payload is a mapping of JSON values. The new log has the
events of the old one, and the event of the draft after them. -/
theorem append_eq_ok_iff (haware : createdAt.Aware) :
    log.append o id createdAt draft = .ok log' ↔
      ∃ payload, freezeMapping o draft.payload "event.payload" = .ok payload ∧
        ∃ e : Event, e.IsOf id log.id (log.events.length + 1) draft payload createdAt ∧
          log'.id = log.id ∧ log'.events = log.events ++ [e] ∧
          log'.parentSessionIds = log.parentSessionIds := by
  have hsequence : (1 : ℤ) ≤ log.events.length + 1 := by omega
  rw [append, bind_eq_ok_iff]
  constructor
  · rintro ⟨e, he, h⟩
    obtain ⟨payload, hpayload, hof⟩ := (Event.create_eq_ok_iff hsequence haware).mp he
    exact ⟨payload, hpayload, e, hof, make_eq_ok_iff.mp h⟩
  · rintro ⟨payload, hpayload, e, hof, h⟩
    exact ⟨e, (Event.create_eq_ok_iff hsequence haware).mpr ⟨payload, hpayload, hof⟩,
      make_eq_ok_iff.mpr h⟩

/-! ### Runs -/

/-- What is done to the logs that there are. -/
inductive LogOp
  /-- A log without events. -/
  | start (id : UUID) (parentSessionIds : List UUID)
  /-- The continuation of one of the logs. -/
  | append (j : ℕ) (id : UUID) (createdAt : Fin (Calendar.maxDays * usPerDay)) (draft : EventDraft)

/-- The identifier that is drawn. -/
def LogOp.drawn? : LogOp → Option UUID
  | start _ _ => none
  | append _ id _ _ => some id

/-- A log that was made, if none was refused. -/
def made (result : Except Exn SessionEventLog) (logs : List SessionEventLog) :
    List SessionEventLog :=
  match result with
  | .ok log => logs ++ [log]
  | .error _ => logs

/-- One step, in which a log is started or continued, or refused. -/
def step (o : Objects) (logs : List SessionEventLog) : LogOp → Option (List SessionEventLog)
  | .start id parents => some (made (make id [] parents) logs)
  | .append j id createdAt draft =>
    logs[j]?.map fun log => made (log.append o id (.utc createdAt) draft) logs

/-- Every event has one history, which is that of all logs with the event. -/
def Chronicle (history : UUID → Option (UUID × List Event)) (logs : List SessionEventLog) : Prop :=
  ∀ log ∈ logs, ∀ (i : ℕ) e, log.events[i]? = some e →
    history e.id = some (log.id, log.events.take (i + 1))

variable {history : UUID → Option (UUID × List Event)} {logs logs' : List SessionEventLog}
  {op : LogOp}

theorem prefix_made (result : Except Exn SessionEventLog) (logs : List SessionEventLog) :
    logs <+: made result logs := by
  cases result with
  | ok log => exact List.prefix_append _ _
  | error => exact List.prefix_rfl

/-- The logs stay. -/
theorem prefix_of_step (h : step o logs op = some logs') : logs <+: logs' := by
  cases op with
  | start id parents =>
    cases h
    exact prefix_made _ _
  | append j id createdAt draft =>
    obtain ⟨log, -, rfl⟩ := Option.map_eq_some_iff.mp h
    exact prefix_made _ _

/-- A log with no new event keeps the histories. -/
theorem Chronicle.concat (h : Chronicle history logs)
    (hlog : ∀ (i : ℕ) e, log.events[i]? = some e →
      history e.id = some (log.id, log.events.take (i + 1))) :
    Chronicle history (logs ++ [log]) := by
  intro log' hlog'
  rcases List.mem_append.mp hlog' with hold | hnew
  · exact h log' hold
  · cases List.mem_singleton.mp hnew
    exact hlog

/-- The histories with that of a new event. -/
def extended (history : UUID → Option (UUID × List Event)) (log : SessionEventLog) (e : Event) :
    UUID → Option (UUID × List Event) :=
  Function.update history e.id (some (log.id, log.events ++ [e]))

/-- A new event is not in any history. -/
theorem Chronicle.extended (h : Chronicle history logs) {e : Event} (hnew : history e.id = none) :
    Chronicle (extended history log e) logs := by
  intro log' hlog' i e' he'
  have hhistory := h log' hlog' i e' he'
  have hne : e'.id ≠ e.id := by
    intro heq
    rw [heq, hnew] at hhistory
    cases hhistory
  rw [SessionEventLog.extended, Function.update_of_ne hne, hhistory]

/-- A step keeps the histories, and adds at most that of the event whose identifier is drawn. -/
theorem Chronicle.step (h : Chronicle history logs)
    (hdrawn : ∀ id ∈ op.drawn?, history id = none) (hstep : step o logs op = some logs') :
    ∃ history', Chronicle history' logs' ∧
      ∀ id, op.drawn? ≠ some id → history' id = history id := by
  cases op with
  | start id parents =>
    cases hstep
    refine ⟨history, ?_, fun _ _ => rfl⟩
    rcases hmake : make id [] parents with e | log
    · exact h
    · refine h.concat fun i e he => ?_
      rw [(make_eq_ok_iff.mp hmake).2.1] at he
      cases he
  | append j id createdAt draft =>
    obtain ⟨log, hlog, rfl⟩ := Option.map_eq_some_iff.mp hstep
    rcases happend : log.append o id (.utc createdAt) draft with e | log'
    · exact ⟨history, h, fun _ _ => rfl⟩
    obtain ⟨payload, -, e, hof, hid, hevents, -⟩ :=
      (append_eq_ok_iff (Datetime.isUtc_utc _).aware).mp happend
    have hnew : history e.id = none := hdrawn e.id (congrArg some hof.id_eq.symm)
    refine ⟨SessionEventLog.extended history log e, (h.extended hnew).concat fun i e' he' => ?_,
      fun id' hid' => ?_⟩
    · rw [hevents] at he' ⊢
      rcases Nat.lt_or_ge i log.events.length with hlt | hge
      · -- The event was in the old log.
        rw [List.getElem?_append_left hlt] at he'
        rw [h.extended hnew log (List.mem_of_getElem? hlog) i e' he', hid,
          List.take_append_of_le_length hlt]
      · obtain rfl : i = log.events.length := by
          have hlength := (List.getElem?_eq_some_iff.mp he').1
          rw [List.length_append, List.length_singleton] at hlength
          omega
        rw [List.getElem?_concat_length] at he'
        cases he'
        rw [SessionEventLog.extended, Function.update_self, hid,
          List.take_of_length_le (by simp)]
    · refine Function.update_of_ne (fun heq => hid' ?_) _ _
      rw [heq, hof.id_eq, LogOp.drawn?]

/-- A run whose identifiers are new and different keeps the histories. -/
theorem Chronicle.final {ops : List LogOp} (h : Chronicle history logs)
    (hnew : ∀ id ∈ ops.filterMap LogOp.drawn?, history id = none)
    (hnodup : (ops.filterMap LogOp.drawn?).Nodup)
    (hfinal : Events.final? (SessionEventLog.step o) logs ops = some logs') :
    ∃ history', Chronicle history' logs' := by
  induction ops generalizing history logs with
  | nil =>
    cases hfinal
    exact ⟨history, h⟩
  | cons op ops ih =>
    obtain ⟨logs₁, hstep, hrest⟩ := Option.bind_eq_some_iff.mp hfinal
    rcases hdrawn : op.drawn? with _ | id
    · rw [List.filterMap_cons_none hdrawn] at hnew hnodup
      obtain ⟨history₁, h₁, hsame⟩ := h.step (by simp [hdrawn]) hstep
      refine ih h₁ (fun id hid => ?_) hnodup hrest
      rw [hsame id (by simp [hdrawn]), hnew id hid]
    · rw [List.filterMap_cons_some hdrawn] at hnew hnodup
      obtain ⟨hid, hnodup⟩ := List.nodup_cons.mp hnodup
      obtain ⟨history₁, h₁, hsame⟩ := h.step
        (fun id' hid' => by
          cases hdrawn.symm.trans hid'
          exact hnew id List.mem_cons_self) hstep
      refine ih h₁ (fun id' hid' => ?_) hnodup hrest
      have hne : op.drawn? ≠ some id' := by
        rw [hdrawn]
        rintro ⟨⟩
        exact hid hid'
      rw [hsame id' hne, hnew id' (List.mem_cons_of_mem _ hid')]

/-- A run keeps the logs. -/
theorem prefix_of_final {ops : List LogOp}
    (h : Events.final? (step o) logs ops = some logs') : logs <+: logs' :=
  Events.invariant_of_step (fun _ _ _ hprefix hstep => hprefix.trans (prefix_of_step hstep))
    List.prefix_rfl h

/-- **Histories.** Whoever continues which log, the logs that there are stay as they are, and an
event has one history: two logs with the event are of the same session and have the same events up
to it. -/
theorem shared_history {past future : List LogOp}
    (hpast : Events.final? (step o) [] past = some logs)
    (hfuture : Events.final? (step o) logs future = some logs')
    (hnodup : ((past ++ future).filterMap LogOp.drawn?).Nodup) :
    logs <+: logs' ∧ ∀ log ∈ logs', ∀ log' ∈ logs', ∀ e ∈ log.events, ∀ e' ∈ log'.events,
      e'.id = e.id → e' = e ∧ log'.id = log.id ∧
        log'.events.take e.sequence.toNat = log.events.take e.sequence.toNat := by
  refine ⟨prefix_of_final hfuture, fun log hlog log' hlog' e he e' he' hid => ?_⟩
  have hfinal : Events.final? (step o) [] (past ++ future) = some logs' := by
    rw [Events.final?_append, hpast]
    exact hfuture
  have hstart : Chronicle (fun _ => none) [] := fun _ h => absurd h List.not_mem_nil
  obtain ⟨history, h⟩ := hstart.final (fun _ _ => rfl) hnodup hfinal
  obtain ⟨i, hi⟩ := List.getElem?_of_mem he
  obtain ⟨i', hi'⟩ := List.getElem?_of_mem he'
  have hsame := (h log' hlog' i' e' hi').symm.trans
    ((congrArg history hid).trans (h log hlog i e hi))
  obtain ⟨hlogs, htake⟩ := Prod.mk.inj (Option.some.inj hsame)
  have hlt := (List.getElem?_eq_some_iff.mp hi).1
  have hlt' := (List.getElem?_eq_some_iff.mp hi').1
  obtain rfl : i' = i := by
    have hlength := congrArg List.length htake
    rw [List.length_take_of_le hlt', List.length_take_of_le hlt] at hlength
    omega
  have heq : e' = e := by
    have hget := congrArg (fun events => events[i']?) htake
    simp only [List.getElem?_take_of_lt (Nat.lt_succ_self i'), hi, hi'] at hget
    exact Option.some.inj hget
  refine ⟨heq, hlogs, ?_⟩
  rw [log.sequence_eq i' e hi]
  exact htake

end SessionEventLog

/-! ### A sample -/

namespace Sample

/-- A sample of what is shown of objects of other classes. -/
def noObjects : Objects where
  typeName _ := "object"
  text _ := ""
  equal _ _ := false

/-- A message of a user. -/
def userMessage : EventDraft where
  kind := .messageCreated
  payload := [(.str "text", .str "hello")]
  producer := ⟨"user", "ada", none, by decide +kernel, by decide +kernel⟩
  trust := .untrusted
  provenance := ⟨⟨"user", by decide +kernel, by decide +kernel⟩,
    ⟨"ada", by decide +kernel, by decide +kernel⟩, none, []⟩
  traceContext := none

/-- A log is started and continued by one event and then by another one. -/
def oneBranch : List SessionEventLog.LogOp :=
  [.start ⟨1⟩ [], .append 0 ⟨2⟩ (reading 0) userMessage, .append 1 ⟨3⟩ (reading 1) userMessage]

/-- The log with one event is continued in another way. -/
def otherBranch : List SessionEventLog.LogOp := [.append 1 ⟨4⟩ (reading 2) userMessage]

/-- The logs after some steps. -/
def logsAfter (logs : List SessionEventLog) (ops : List SessionEventLog.LogOp) :
    List SessionEventLog :=
  (Events.final? (SessionEventLog.step noObjects) logs ops).getD []

/-- The two continuations have the first event in common. -/
theorem branches_share :
    (logsAfter (logsAfter [] oneBranch) otherBranch).map
        (fun log => log.events.map fun e => e.id) = [[], [⟨2⟩], [⟨2⟩, ⟨3⟩], [⟨2⟩, ⟨4⟩]] ∧
      logsAfter [] oneBranch <+: logsAfter (logsAfter [] oneBranch) otherBranch ∧
      ∀ log ∈ logsAfter (logsAfter [] oneBranch) otherBranch,
        ∀ log' ∈ logsAfter (logsAfter [] oneBranch) otherBranch,
        ∀ e ∈ log.events, ∀ e' ∈ log'.events, e'.id = e.id → e' = e ∧ log'.id = log.id ∧
          log'.events.take e.sequence.toNat = log.events.take e.sequence.toNat := by
  have hpast : Events.final? (SessionEventLog.step noObjects) [] oneBranch =
      some (logsAfter [] oneBranch) := rfl
  have hfuture : Events.final? (SessionEventLog.step noObjects) (logsAfter [] oneBranch)
      otherBranch = some (logsAfter (logsAfter [] oneBranch) otherBranch) := rfl
  exact ⟨rfl, SessionEventLog.shared_history hpast hfuture (by decide)⟩

end Sample

end OpenRath
