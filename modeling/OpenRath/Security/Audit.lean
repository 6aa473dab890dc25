import OpenRath.Adapters.Context
import OpenRath.Adapters.Values
import OpenRath.Library.JsonLines
import OpenRath.Library.Redaction
import OpenRath.Runtime.ContextColumn

/-!
# The audit trail

`StructuredAuditSink` writes a line of JSON for every security event (`src/rath/security/audit.py`).
What stands under a key that has one of six words in it is redacted, at any depth. The lines go to
the standard output, from where a collector takes them: what it reads of a line is the redacted
record, whatever the texts of the event are, and the whole of what it gets tells nothing of two
sequences of events apart but what they have off the sensitive keys.

## Main definitions

* `AuditEvent`, `AuditEvent.make`, `AuditEvent.record`.
* `isSensitive`, `redactAudit`.
* `StructuredAuditSink.emit`, `StructuredAuditSink.emitAll`: the standard output.

## Main results

* `StructuredAuditSink.loads_readLines_emitAll`: what is read from the lines.
* `StructuredAuditSink.emitAll_eq_iff`: when two sequences of events leave the same output.
-/

namespace OpenRath

/-! ### Events -/

/-- The kind of an entry of the audit trail. -/
inductive AuditKind
  | authentication
  | policyDecision
  | secretResolution
  | toolAccess
  | sandboxAccess
  | memoryAccess
  | runControl
  | operatorOverride
deriving DecidableEq

/-- The text of a kind. -/
def AuditKind.value : AuditKind → String
  | authentication => "authentication"
  | policyDecision => "policy_decision"
  | secretResolution => "secret_resolution"
  | toolAccess => "tool_access"
  | sandboxAccess => "sandbox_access"
  | memoryAccess => "memory_access"
  | runControl => "run_control"
  | operatorOverride => "operator_override"

/-- A security event. The attributes are frozen. -/
structure AuditEvent where
  id : UUID
  kind : AuditKind
  occurredAt : Datetime
  aware : occurredAt.Aware
  tenantId : String
  principalId : String
  requestId : UUID
  traceId : String
  action : String
  resourceKind : String
  resourceId : String
  outcome : String
  reason : String
  policyId : Option String
  attributes : JsonObject

namespace AuditEvent

/-- The constructor, which freezes the attributes. -/
def make (o : Objects) (id : UUID) (kind : AuditKind) (occurredAt : Datetime)
    (tenantId principalId : String) (requestId : UUID) (traceId action resourceKind resourceId
    outcome reason : String) (policyId : Option String) (attributes : List (Value × Value)) :
    Except Exn AuditEvent :=
  if haware : occurredAt.Aware then do
    let attributes ← (Value.freezeEntries o "audit.attributes" [] attributes).mapError
      (.other "TypeError")
    .ok { id, kind, occurredAt, aware := haware, tenantId, principalId, requestId, traceId, action,
          resourceKind, resourceId, outcome, reason, policyId, attributes }
  else .error (.store (.valueError "audit occurred_at must be timezone-aware"))

/-- The record of an event. -/
def record (event : AuditEvent) : JsonObject :=
  [("schema", .str "openrath.security-audit/1"),
    ("id", .str event.id.str),
    ("kind", .str event.kind.value),
    ("occurred_at", .str (String.ofList event.occurredAt.isoformat)),
    ("tenant_id", .str event.tenantId),
    ("principal_id", .str event.principalId),
    ("request_id", .str event.requestId.str),
    ("trace_id", .str event.traceId),
    ("action", .str event.action),
    ("resource_kind", .str event.resourceKind),
    ("resource_id", .str event.resourceId),
    ("outcome", .str event.outcome),
    ("reason", .str event.reason),
    ("policy_id", .ofText? event.policyId),
    ("attributes", .obj event.attributes)]

theorem finite_ofText? (text : Option String) : (Json.ofText? text).Finite := by
  cases text <;> trivial

/-- A record has finite numbers and no key twice if the attributes do. -/
theorem finite_record {event : AuditEvent} (h : (Json.obj event.attributes).Finite) :
    (Json.obj event.record).Finite := by
  refine ⟨by simp [record], ?_⟩
  simp only [record, FiniteFields, and_true]
  exact ⟨trivial, trivial, trivial, trivial, trivial, trivial, trivial, trivial, trivial, trivial,
    trivial, trivial, trivial, finite_ofText? event.policyId, h⟩

end AuditEvent

/-! ### Redaction -/

/-- `_SENSITIVE_AUDIT_FIELDS`. -/
def sensitiveAuditFields : List String :=
  ["api_key", "authorization", "cookie", "password", "secret", "token"]

/-- One of the words is in the key, in lower case. -/
def isSensitive (l : Lower) (key : String) : Bool :=
  sensitiveAuditFields.any fun part => part.toList <:+: (l.lower key).toList

/-- `_redact_audit`, which is `redact` of the logs as well. -/
def redactAudit (l : Lower) (value : Json) : Json :=
  .redact (isSensitive l) (.str "<redacted>") value

/-! ### The sink -/

namespace StructuredAuditSink

section Sink

variable (fl : FloatText) (l : Lower)

/-- What is dumped of an event. -/
def line (event : AuditEvent) : Except Exn (List Char) :=
  dumpColumn fl (redactAudit l (.obj event.record))

/-- `emit` with `_write_stdout`, on what the standard output has got. -/
def emit (event : AuditEvent) (out : List Char) : Except Exn Unit × List Char :=
  match line fl l event with
  | .ok t => (.ok (), out ++ (t ++ ['\n']))
  | .error e => (.error e, out)

/-- The output of a sequence of events, of which some may have raised. -/
def emitAll (events : List AuditEvent) : List Char :=
  events.foldl (fun out event => (emit fl l event out).2) []

/-- The event does not raise. -/
def written (event : AuditEvent) : Bool := (line fl l event).isOk

variable {fl l}

theorem line_eq_ok_iff {event : AuditEvent} {t : List Char} :
    line fl l event = .ok t ↔ dumpsSorted fl [] (redactAudit l (.obj event.record)) = some t := by
  rw [line, dumpColumn]
  cases dumpsSorted fl [] (redactAudit l (.obj event.record)) <;> simp

/-- The text of an event that does not raise. -/
def text (fl : FloatText) (l : Lower) (event : AuditEvent) : List Char :=
  dumpsSpaced fl [] (redactAudit l (.obj event.record)).sortKeys

theorem line_of_written {event : AuditEvent} (h : written fl l event = true) :
    line fl l event = .ok (text fl l event) := by
  cases hline : line fl l event with
  | ok t =>
    have htext := line_eq_ok_iff.mp hline
    rw [dumpsSorted] at htext
    split_ifs at htext
    cases htext
    rfl
  | error e =>
    rw [written, hline] at h
    cases h

/-- The lines of the output are the texts of the events that did not raise. -/
theorem emitAll_eq (events : List AuditEvent) : emitAll fl l events =
    writeLines ((events.filter (written fl l)).map (text fl l)) := by
  induction events using List.reverseRecOn with
  | nil => rfl
  | append_singleton events event ih =>
    rw [emitAll, List.foldl_concat, ← emitAll, ih, emit, List.filter_append, List.map_append,
      writeLines_append]
    cases hwritten : written fl l event with
    | true => simp [writeLines, line_of_written hwritten, hwritten]
    | false =>
      cases hline : line fl l event with
      | ok t => simp [written, hline, Except.isOk, Except.toBool] at hwritten
      | error e => simp [writeLines, hwritten]

/-- No line has a line feed in it. -/
theorem readLines_emitAll (events : List AuditEvent) : readLines (emitAll fl l events) =
    (events.filter (written fl l)).map (text fl l) := by
  rw [emitAll_eq]
  refine readLines_writeLines fun t ht => ?_
  obtain ⟨event, hevent, rfl⟩ := List.mem_map.mp ht
  exact newline_not_mem_dumpsSorted fl List.not_mem_nil
    (line_eq_ok_iff.mp (line_of_written (List.mem_filter.mp hevent).2))

/-- What is read from the line of an event is its redacted record. -/
theorem loads_text (hfl : ∀ bits, (doubleValue bits).isSome = true → fl.Survives bits)
    {event : AuditEvent} (h : (Json.obj event.attributes).Finite)
    (hwritten : written fl l event = true) :
    loads fl (text fl l event) = .ok (redactAudit l (.obj event.record)).sortKeys :=
  loads_dumpsSorted (by simp) hfl
    (@Json.Finite.redact _ (.str "<redacted>") trivial _ (event.finite_record h))
    (line_eq_ok_iff.mp (line_of_written hwritten))

/-- **Audit trail.** The lines of the output, one for each event that did not raise, are read as the
redacted records of these events, with their keys in order. -/
theorem loads_readLines_emitAll
    (hfl : ∀ bits, (doubleValue bits).isSome = true → fl.Survives bits) {events : List AuditEvent}
    (hfinite : ∀ event ∈ events, (Json.obj event.attributes).Finite) :
    (readLines (emitAll fl l events)).map (loads fl) = (events.filter (written fl l)).map
      fun event => .ok (redactAudit l (.obj event.record)).sortKeys := by
  rw [readLines_emitAll, List.map_map]
  refine List.map_congr_left fun event hevent => ?_
  obtain ⟨hmem, hwritten⟩ := List.mem_filter.mp hevent
  exact loads_text hfl (hfinite event hmem) hwritten

/-! ### What the output tells -/

/-- The line of an event is that of another one if and only if they agree off the sensitive keys. -/
theorem text_eq_iff (hfl : ∀ bits, (doubleValue bits).isSome = true → fl.Survives bits)
    {event event' : AuditEvent} (h : (Json.obj event.attributes).Finite)
    (h' : (Json.obj event'.attributes).Finite) (hwritten : written fl l event = true)
    (hwritten' : written fl l event' = true) :
    text fl l event = text fl l event' ↔
      (Json.obj event.record).AgreesOff (isSensitive l) (.obj event'.record) := by
  rw [← @Json.sortKeys_redact_eq_iff (isSensitive l) (.str "<redacted>") _ _
    (event.finite_record h) (event'.finite_record h')]
  constructor
  · intro htext
    have hloads := loads_text hfl h hwritten
    rw [htext] at hloads
    exact Except.ok.inj (hloads.symm.trans (loads_text hfl h' hwritten'))
  · exact congrArg (dumpsSpaced fl [])

theorem map_eq_map_iff {α β : Type} {f : α → β} {R : α → α → Prop} {as as' : List α}
    (h : ∀ a ∈ as, ∀ a' ∈ as', f a = f a' ↔ R a a') :
    as.map f = as'.map f ↔ List.Forall₂ R as as' := by
  induction as generalizing as' with
  | nil => cases as' <;> simp
  | cons a as ih =>
    cases as' with
    | nil => simp
    | cons a' as' =>
      obtain ⟨hfirst, hrest⟩ := List.forall_mem_cons.mp h
      rw [List.map_cons, List.map_cons, List.cons.injEq, List.forall₂_cons,
        hfirst a' List.mem_cons_self,
        ih fun b hb b' hb' => hrest b hb b' (List.mem_cons_of_mem _ hb')]

/-- **Secrets.** Two sequences of events leave the same output if and only if those that did not
raise agree, one by one, off the sensitive keys. -/
theorem emitAll_eq_iff (hfl : ∀ bits, (doubleValue bits).isSome = true → fl.Survives bits)
    {events events' : List AuditEvent}
    (hfinite : ∀ event ∈ events, (Json.obj event.attributes).Finite)
    (hfinite' : ∀ event ∈ events', (Json.obj event.attributes).Finite) :
    emitAll fl l events = emitAll fl l events' ↔ List.Forall₂ (fun event event' =>
      (Json.obj event.record).AgreesOff (isSensitive l) (.obj event'.record))
      (events.filter (written fl l)) (events'.filter (written fl l)) := by
  have hlines : emitAll fl l events = emitAll fl l events' ↔
      (events.filter (written fl l)).map (text fl l) =
        (events'.filter (written fl l)).map (text fl l) := by
    constructor
    · intro h
      rw [← readLines_emitAll, h, readLines_emitAll]
    · intro h
      rw [emitAll_eq, h, emitAll_eq]
  rw [hlines]
  refine map_eq_map_iff fun event hevent event' hevent' => ?_
  obtain ⟨hmem, hwritten⟩ := List.mem_filter.mp hevent
  obtain ⟨hmem', hwritten'⟩ := List.mem_filter.mp hevent'
  exact text_eq_iff hfl (hfinite event hmem) (hfinite' event' hmem') hwritten hwritten'

end Sink

end StructuredAuditSink

/-! ### A sample -/

namespace Sample

/-- A request with a token, which was denied. -/
def auditEvent (token : String) : AuditEvent where
  id := ⟨1⟩
  kind := .policyDecision
  occurredAt := .utc (reading 0)
  aware := rfl
  tenantId := "acme"
  principalId := "alice"
  requestId := ⟨2⟩
  traceId := "0af7651916cd43dd8448eb211c80319c"
  action := "provider.invoke"
  resourceKind := "provider"
  resourceId := "openai-main"
  outcome := "deny"
  reason := "two\nlines"
  policyId := none
  attributes := [("headers", .obj [("Authorization", .str token)])]

theorem finite_auditEvent (token : String) :
    ∀ event ∈ [auditEvent token], (Json.obj event.attributes).Finite := by
  intro event hevent
  rw [List.mem_singleton.mp hevent]
  simp [auditEvent, Json.Finite, FiniteFields]

/-- The line of the event is read as its record without the token. -/
theorem auditEvent_read : (readLines (StructuredAuditSink.emitAll bits lower
      [auditEvent "Bearer 1"])).map (loads bits) =
    ([auditEvent "Bearer 1"].filter (StructuredAuditSink.written bits lower)).map
      fun event => .ok (redactAudit lower (.obj event.record)).sortKeys :=
  StructuredAuditSink.loads_readLines_emitAll (fun b _ => survives_bits b)
    (finite_auditEvent "Bearer 1")

/-- The output with another token is the same. -/
theorem auditEvent_secret : StructuredAuditSink.emitAll bits lower [auditEvent "Bearer 1"] =
    StructuredAuditSink.emitAll bits lower [auditEvent "Bearer 2"] := by
  refine (StructuredAuditSink.emitAll_eq_iff (fun b _ => survives_bits b)
    (finite_auditEvent "Bearer 1") (finite_auditEvent "Bearer 2")).mpr ?_
  have hwritten : ∀ token ∈ ["Bearer 1", "Bearer 2"],
      StructuredAuditSink.written bits lower (auditEvent token) = true := by decide +kernel
  have h₁ := hwritten "Bearer 1" (by simp)
  have h₂ := hwritten "Bearer 2" (by simp)
  rw [List.filter_cons_of_pos h₁, List.filter_cons_of_pos h₂]
  refine .cons ?_ .nil
  exact (@Json.sortKeys_redact_eq_iff (isSensitive lower) .null _ _
    ((auditEvent "Bearer 1").finite_record (finite_auditEvent "Bearer 1" _ (by simp)))
    ((auditEvent "Bearer 2").finite_record (finite_auditEvent "Bearer 2" _ (by simp)))).mp
    (by decide +kernel)

end Sample

end OpenRath
