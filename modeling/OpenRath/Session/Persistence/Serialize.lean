import OpenRath.Library.JsonObject
import OpenRath.Runtime.Restoration
import OpenRath.Session.Models

/-!
# The records of a session file

The header, chunk and trailer records of a session file and what is read in them
(`src/rath/session/persistence/_serialize.py`, `src/rath/backend/persistence/spec_json.py`,
`src/rath/session/graph/export.py`). The conversions of Python between texts, numbers and
durations that the readers make are a parameter (`Host`).

A list of pairs in place of the environment of a sandbox, of which Python makes a mapping, is
rejected by the reader here; no writer writes one.

## Main definitions

* `Host`, `Host.toInt`, `Host.toFloat`.
* `buildHeader`, `buildChunkRecord`, `buildTrailer`.
* `specToJsonable`, `specFromJsonable`, `usageFromJsonable`, `lineageExtrasFromJsonable`,
  `coerceLineageKind`, `parseUuidList`.
-/

namespace OpenRath

/-! ### Conversions -/

/-- The time of a number of seconds. -/
def Seconds.ofDouble (bits : BitVec 64) : Seconds :=
  match doubleValue bits with
  | some q => .finite q
  | none =>
    if bits = 0x7FF0000000000000 then .inf
    else if bits = 0xFFF0000000000000 then .negInf else .nan

/-- The conversions that Python makes. -/
structure Host where
  floats : FloatText
  texts : Texts
  readings : Readings
  /-- `str` of an exception. -/
  exceptionText : Exn → String
  /-- The text of the exception for bytes that are not UTF-8. -/
  decodeError : List UInt8 → String
  /-- `int` of a text. -/
  intOfText : String → Except Exn ℤ
  /-- `float` of a value that is not a floating-point number. -/
  floatOf : Json → Except Exn Seconds
  /-- `timedelta.total_seconds`, of a number of microseconds. -/
  totalSeconds : ℤ → BitVec 64

namespace Host

variable (host : Host)

/-- `int` of a value. -/
def toInt : Json → Except Exn ℤ
  | .int n => .ok n
  | .bool b => .ok (if b then 1 else 0)
  | .float bits =>
    match Seconds.ofDouble bits with
    | .finite q => .ok (q.num.tdiv q.den)
    | .inf | .negInf => .error (.store .overflowError)
    | .nan => .error (.store (.valueError "cannot convert float NaN to integer"))
  | .str s => host.intOfText s
  | v => .error (.other "TypeError" ("int() argument must be a string, a bytes-like object or " ++
      s!"a real number, not '{v.typeName}'"))

/-- `float` of a value. -/
def toFloat : Json → Except Exn Seconds
  | .float bits => .ok (.ofDouble bits)
  | v => host.floatOf v

end Host

/-- `timedelta(seconds=...)`. -/
def timedelta (s : Seconds) : Except Exn ℤ :=
  s.timedelta.mapError fun
    | .notANumber => .store (.valueError "cannot convert float NaN to integer")
    | .overflow => .store .overflowError

/-- The value as a mapping, of which `get` is called. -/
def asMapping (v : Json) : Except Exn JsonObject :=
  match v with
  | .obj fields => .ok fields
  | v => .error (.other "AttributeError" s!"'{v.typeName}' object has no attribute 'get'")

/-! ### Sandboxes -/

section Spec

variable (host : Host)

/-- `spec_to_jsonable`. -/
def specToJsonable : Option BackendSandboxSpec → Json
  | none => .null
  | some spec => .obj [("image", spec.image),
      ("entrypoint", (spec.entrypoint.map Json.arr).getD .null),
      ("env", (spec.env.map Json.obj).getD .null),
      ("timeout_seconds", (spec.timeout.map fun us => .float (host.totalSeconds us)).getD .null),
      ("working_dir", spec.workingDir)]

/-- `tuple(entrypoint)`. -/
def entrypointFromJsonable : Json → Except Exn (Option (List Json))
  | .null => .ok none
  | v => (iterate v).map some

/-- `dict(env)`. -/
def envFromJsonable : Json → Except Exn (Option JsonObject)
  | .null => .ok none
  | .obj fields => .ok (some fields)
  | v => .error (.other "TypeError" s!"'{v.typeName}' object is not iterable")

/-- `timedelta(seconds=float(timeout_s))`. -/
def timeoutFromJsonable : Json → Except Exn (Option ℤ)
  | .null => .ok none
  | v => do
    let s ← host.toFloat v
    let us ← timedelta s
    .ok (some us)

/-- `spec_from_jsonable`. -/
def specFromJsonable : Json → Except Exn (Option BackendSandboxSpec)
  | .null => .ok none
  | v => do
    let raw ← asMapping v
    let entrypoint ← entrypointFromJsonable (raw.getD "entrypoint")
    let env ← envFromJsonable (raw.getD "env")
    let timeout ← timeoutFromJsonable host (raw.getD "timeout_seconds")
    .ok (some ⟨raw.getD "image", entrypoint, env, timeout, raw.getD "working_dir"⟩)

end Spec

/-! ### Lineage and usage -/

/-- What is written for a value among the extras. -/
def ExtraValue.jsonable : ExtraValue → Json
  | json v => v
  | other v => v

/-- `lineage_extras_to_jsonable`. -/
def lineageExtrasToJsonable (extras : List (String × ExtraValue)) : Json :=
  .arr (extras.map fun e => .arr [.str e.1, e.2.jsonable])

/-- `lineage_extras_from_jsonable`. -/
def lineageExtrasFromJsonable (raw : Json) : Except Exn (List (String × Json)) :=
  if !raw.truthy then .ok []
  else do
    let entries ← iterate raw
    .ok (entries.filterMap fun
      | .arr [.str key, v] => some (key, v)
      | _ => none)

/-- `coerce_lineage_kind`. -/
def coerceLineageKind : Json → LineageKind
  | .str s => (LineageKind.ofValue? s).getD .unknown
  | _ => .unknown

/-- `cumulative_usage_to_jsonable`. -/
def cumulativeUsageToJsonable : Option RathLLMTokenUsage → Json
  | none => .null
  | some usage => .obj [("prompt_tokens", .int usage.promptTokens),
      ("completion_tokens", .int usage.completionTokens),
      ("total_tokens", .int usage.totalTokens)]

section Readers

variable (host : Host)

/-- `int(raw.get(key, 0) or 0)`. -/
def countFromJsonable (raw : JsonObject) (key : String) : Except Exn ℤ :=
  let v := (raw.get? key).getD (.int 0)
  host.toInt (if v.truthy then v else .int 0)

/-- `usage_from_jsonable`. -/
def usageFromJsonable : Json → Except Exn (Option RathLLMTokenUsage)
  | .null => .ok none
  | v => do
    let raw ← asMapping v
    let promptTokens ← countFromJsonable host raw "prompt_tokens"
    let completionTokens ← countFromJsonable host raw "completion_tokens"
    let totalTokens ← countFromJsonable host raw "total_tokens"
    .ok (some ⟨promptTokens, completionTokens, totalTokens, none, none⟩)

/-- `parse_uuid_list`. -/
def parseUuidList (raw : Json) : Except Exn (List UUID) :=
  if !raw.truthy then .ok []
  else do
    let entries ← iterate raw
    .ok (entries.filterMap fun entry => (host.readings.uuid (host.texts.text entry)).toOption)

end Readers

/-! ### Records -/

/-- `SCHEMA_VERSION`. -/
def schemaVersion : ℤ := 1

/-- `_isoformat_utc`. -/
def isoformatUtc (d : Datetime) : String :=
  String.ofList (if d.Aware then d else { d with offset := some Offset.zero }).isoformat

/-- `build_header`. -/
def buildHeader (host : Host) (session : Session) (sandboxHandleId : Option String)
    (createdAt : Datetime) : JsonObject :=
  [("record_type", .str "header"),
    ("schema_version", .int schemaVersion),
    ("id", .str session.id.str),
    ("created_at", .str (isoformatUtc createdAt)),
    ("parent_session_ids", .arr (session.parentSessionIds.map fun i => .str i.str)),
    ("lineage_operator", .str session.lineageOperator),
    ("lineage_kind", .str session.lineageKind.value),
    ("lineage_extras", lineageExtrasToJsonable session.lineageExtras),
    ("sandbox_backend", .ofText? session.sandboxBackend),
    ("sandbox_spec", specToJsonable host session.sandboxOpenSpec),
    ("sandbox_handle_id", .ofText? sandboxHandleId)]

/-- `build_chunk_record`. -/
def buildChunkRecord (index : ℤ) (row : ChunkRow) : JsonObject :=
  [("record_type", .str "chunk"), ("index", .int index), ("kind", .str row.kind.value),
    ("payload", .obj row.payload)]

/-- `build_trailer`. -/
def buildTrailer (session : Session) (finalChunkCount : ℕ) (closedAt : Datetime) : JsonObject :=
  [("record_type", .str "trailer"),
    ("closed_at", .str (isoformatUtc closedAt)),
    ("final_chunk_count", .int finalChunkCount),
    ("cumulative_usage", cumulativeUsageToJsonable session.cumulativeUsage)]

/-! ### Reading what was written -/

section RoundTrip

variable (host : Host)

/-- Extras that are JSON values are read as they were written. -/
theorem lineageExtrasFromJsonable_lineageExtrasToJsonable (extras : List (String × ExtraValue)) :
    lineageExtrasFromJsonable (lineageExtrasToJsonable extras) =
      .ok (extras.map fun e => (e.1, e.2.jsonable)) := by
  cases extras with
  | nil => rfl
  | cons e extras =>
    have hfilter : ∀ es : List (String × ExtraValue),
        (es.map fun e => Json.arr [.str e.1, e.2.jsonable]).filterMap (fun
          | .arr [.str key, v] => some (key, v)
          | _ => none) = es.map fun e => (e.1, e.2.jsonable) := by
      intro es
      induction es with
      | nil => rfl
      | cons e es ih => simp [ih]
    simp only [lineageExtrasFromJsonable, lineageExtrasToJsonable, Json.truthy, List.map_cons,
      List.isEmpty_cons, Bool.not_false, Bool.not_true, Bool.false_eq_true, if_false, iterate]
    exact congrArg Except.ok (hfilter (e :: extras))

@[simp] theorem coerceLineageKind_value (kind : LineageKind) :
    coerceLineageKind (.str kind.value) = kind := by
  simp [coerceLineageKind]

/-- The counts of tokens are read as they were written, without the details. -/
theorem usageFromJsonable_cumulativeUsageToJsonable (usage : Option RathLLMTokenUsage) :
    usageFromJsonable host (cumulativeUsageToJsonable usage) =
      .ok (usage.map fun u => ⟨u.promptTokens, u.completionTokens, u.totalTokens, none, none⟩) := by
  have hcount : ∀ n : ℤ, host.toInt (if (Json.int n).truthy then .int n else .int 0) = .ok n := by
    intro n
    by_cases hn : n = 0 <;> simp [Json.truthy, hn, Host.toInt]
  cases usage with
  | none => rfl
  | some u =>
    simp [cumulativeUsageToJsonable, usageFromJsonable, asMapping, countFromJsonable,
      JsonObject.get?, hcount, bind, Except.bind]

/-- Identifiers that Python reads are read as they were written. -/
theorem parseUuidList_map_str {ids : List UUID}
    (h : ∀ i ∈ ids, host.readings.uuid i.str = .ok i) :
    parseUuidList host (.arr (ids.map fun i => .str i.str)) = .ok ids := by
  have hfilter : ∀ is : List UUID, (∀ i ∈ is, host.readings.uuid i.str = .ok i) →
      (is.map fun i => Json.str i.str).filterMap (fun entry =>
        (host.readings.uuid (host.texts.text entry)).toOption) = is := by
    intro is his
    induction is with
    | nil => rfl
    | cons i is ih =>
      obtain ⟨hi, his⟩ := List.forall_mem_cons.mp his
      rw [List.map_cons, List.filterMap_cons, Texts.text_str, hi, ih his]
      rfl
  cases ids with
  | nil => rfl
  | cons i ids =>
    simp only [parseUuidList, Json.truthy, List.map_cons, List.isEmpty_cons, Bool.not_false,
      Bool.not_true, Bool.false_eq_true, if_false, iterate]
    exact congrArg Except.ok (hfilter (i :: ids) h)

/-- What is read of the timeout of a sandbox. -/
def readTimeout (timeout : Option ℤ) : Except Exn (Option ℤ) :=
  match timeout with
  | none => .ok none
  | some us => (timedelta (.ofDouble (host.totalSeconds us))).map some

/-- The description of a sandbox is read as it was written, if its timeout is. -/
theorem specFromJsonable_specToJsonable (spec : Option BackendSandboxSpec) :
    specFromJsonable host (specToJsonable host spec) =
      match spec with
      | none => .ok none
      | some s => (readTimeout host s.timeout).map fun timeout => some { s with timeout } := by
  cases spec with
  | none => rfl
  | some s =>
    have hentrypoint : entrypointFromJsonable ((s.entrypoint.map Json.arr).getD .null) =
        .ok s.entrypoint := by
      cases s.entrypoint <;> rfl
    have henv : envFromJsonable ((s.env.map Json.obj).getD .null) = .ok s.env := by
      cases s.env <;> rfl
    have htimeout : timeoutFromJsonable host ((s.timeout.map fun us =>
        .float (host.totalSeconds us)).getD .null) = readTimeout host s.timeout := by
      cases s.timeout with
      | none => rfl
      | some us =>
        simp only [Option.map_some, Option.getD_some, timeoutFromJsonable, Host.toFloat,
          readTimeout, bind, Except.bind]
        cases timedelta (.ofDouble (host.totalSeconds us)) <;> rfl
    simp only [specToJsonable, specFromJsonable, asMapping, JsonObject.getD, JsonObject.get?,
      bind, Except.bind]
    simp [hentrypoint, henv, htimeout]
    cases readTimeout host s.timeout <;> rfl

end RoundTrip

end OpenRath
