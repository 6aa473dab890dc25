import OpenRath.Session.Persistence.Writer

/-!
# The readers of session files

`load_session` and `list_persisted_sessions` (`src/rath/session/persistence/loader.py`). The first
takes the text of a file apart with `splitlines`, the second one goes through the lines of the
file. No migration of records is registered (`src/rath/session/persistence/_migrations.py`).

## Main definitions

* `PersistedSessionHeader`, `PersistedSession`, `PersistedSessionMeta`.
* `headerFromRecord`, `chunkFromRecord`, `foldLines`.
* `loadRecord`, `loadLine`, `loadFile`, `loadSession`.
* `metaRecord`, `metaLine`, `metaFromFile`, `listPersistedSessions`.
-/

namespace OpenRath

open TextFile

/-! ### What is read -/

/-- The header of a session file. -/
structure PersistedSessionHeader where
  schemaVersion : ℤ
  id : UUID
  createdAt : Datetime
  parentSessionIds : List UUID
  lineageOperator : String
  lineageKind : LineageKind
  lineageExtras : List (String × Json)
  sandboxBackend : Json
  sandboxSpec : Option BackendSandboxSpec
  sandboxHandleId : Json
deriving DecidableEq

/-- A session that was read. -/
structure PersistedSession where
  header : PersistedSessionHeader
  rows : List ChunkRow
  cumulativeUsage : Option RathLLMTokenUsage
  closed : Bool
  path : String
  trailerRaw : Option JsonObject
deriving DecidableEq

/-- The summary of a session file. -/
structure PersistedSessionMeta where
  id : UUID
  path : String
  createdAt : Datetime
  lineageOperator : String
  lineageKind : LineageKind
  chunkCount : ℕ
  closed : Bool
deriving DecidableEq

/-- The use of lines or records one after the other, which are numbered from `lineno` on. -/
def foldLines {σ α : Type} (f : ℕ → σ → α → Except Exn σ) : ℕ → σ → List α → Except Exn σ
  | _, s, [] => .ok s
  | lineno, s, line :: lines => do
    let s ← f lineno s line
    foldLines f (lineno + 1) s lines

/-- A `PersistenceError`. -/
def persistenceError (message : String) : Exn := .other "PersistenceError" message

/-- The instances of `PersistenceError`. -/
def Exn.isPersistenceError : Exn → Bool
  | .other type _ => type = "PersistenceError"
  | _ => false

/-- The instances of `KeyError`, `ValueError` and `TypeError`. -/
def Exn.isMalformed (e : Exn) : Bool :=
  e.typeName ∈ ["KeyError", "ValueError", "TypeError"]

section Loader

variable (host : Host) (path : String)

/-! ### Records -/

/-- The place of a line in a message. -/
def place (lineno : ℕ) : String := s!"{path}:{lineno}"

/-- `upgrade_header`, where no migration is registered. -/
def upgradeHeader (record : JsonObject) : Except Exn JsonObject := do
  let current ← host.toInt ((record.get? "schema_version").getD (.int 0))
  if current < schemaVersion then
    .error (.store (.valueError (s!"no header migrator registered for schema_version={current}; " ++
      "file may be from a newer OpenRath release")))
  else if schemaVersion < current then
    .error (.store (.valueError (s!"persisted file declares schema_version={current} which is " ++
      s!"newer than CURRENT_SCHEMA_VERSION={schemaVersion}; refusing to downgrade")))
  else .ok record

/-- The fields of a header record. -/
def headerFields (record : JsonObject) : Except Exn PersistedSessionHeader := do
  let schemaVersion ← host.toInt ((record.get? "schema_version").getD (.int 0))
  let id ← record.require "id"
  let id ← host.readings.uuid (host.texts.text id)
  let createdAt ← record.require "created_at"
  let createdAt ← host.readings.datetime (host.texts.text createdAt)
  let parentSessionIds ← parseUuidList host (record.getD "parent_session_ids")
  let lineageOperator :=
    host.texts.text ((record.get? "lineage_operator").getD (.str "implicit"))
  let lineageKind := coerceLineageKind (record.getD "lineage_kind")
  let lineageExtras ← lineageExtrasFromJsonable (record.getD "lineage_extras")
  let sandboxSpec ← specFromJsonable host (record.getD "sandbox_spec")
  .ok { schemaVersion, id, createdAt, parentSessionIds, lineageOperator, lineageKind,
        lineageExtras, sandboxBackend := record.getD "sandbox_backend", sandboxSpec,
        sandboxHandleId := record.getD "sandbox_handle_id" }

/-- `_header_from_record`. -/
def headerFromRecord (record : JsonObject) (lineno : ℕ) : Except Exn PersistedSessionHeader :=
  (headerFields host record).mapError fun e =>
    if e.isMalformed then
      persistenceError s!"{place path lineno}: malformed header record: {host.exceptionText e}"
    else e

/-- `upgrade_header` and `_header_from_record`. -/
def readHeader (record : JsonObject) (lineno : ℕ) : Except Exn PersistedSessionHeader := do
  let record ← (upgradeHeader host record).mapError fun e =>
    if e.typeName = "ValueError" then
      persistenceError s!"{place path lineno}: {host.exceptionText e}"
    else e
  headerFromRecord host path record lineno

/-- `_chunk_from_record`. -/
def chunkFromRecord (record : JsonObject) (lineno : ℕ) : Except Exn ChunkRow := do
  let kind ← match record.get? "kind" with
    | some (.str text) =>
      match ChunkKind.ofValue? text with
      | some kind => .ok kind
      | none => .error (persistenceError (s!"{place path lineno}: invalid chunk kind: " ++
          s!"{host.texts.repr (.str text)} is not a valid ChunkKind"))
    | some v => .error (persistenceError (s!"{place path lineno}: invalid chunk kind: " ++
        s!"{host.texts.repr v} is not a valid ChunkKind"))
    | none => .error (persistenceError s!"{place path lineno}: invalid chunk kind: 'kind'")
  match record.get? "payload" with
  | some (.obj payload) => .ok ⟨kind, payload⟩
  | _ => .error (persistenceError
      s!"{place path lineno}: chunk payload must be a JSON object")

/-- The text of a line without the white space at its ends. -/
def stripLine (line : List Char) : List Char :=
  ((line.rdropWhile (· = '\n')).dropWhile isSpace).rdropWhile isSpace

/-- `json.loads` of a line. A text that is not JSON is a `PersistenceError`. -/
def readRecord (line : List Char) (message : ℕ → String → String) : Except Exn Json :=
  (loads host.floats line).mapError fun
    | .decode text rest => persistenceError (message (line.length - rest.length + 1) text)
    | .tooManyDigits count => .store (.valueError ("Exceeds the limit (4300 digits) for integer " ++
        s!"string conversion: value has {count} digits; use sys.set_int_max_str_digits() to " ++
        "increase the limit"))
    | .surrogate => .other "UnicodeError" "surrogates not allowed"

/-! ### `load_session` -/

/-- What `load_session` has read. -/
structure Loading where
  header : Option PersistedSessionHeader
  rows : List ChunkRow
  trailer : Option JsonObject
  cumulativeUsage : Option RathLLMTokenUsage
deriving DecidableEq

/-- The state of `load_session` before the first line. -/
def Loading.start : Loading := ⟨none, [], none, none⟩

/-- The use of a record. -/
def loadRecord (lineno : ℕ) (s : Loading) (record : JsonObject) : Except Exn Loading :=
  let rt := record.getD "record_type"
  if rt = .str "header" then
    if s.header.isSome then
      .error (persistenceError s!"{place path lineno}: duplicate header record")
    else do
      let _ ← host.toInt ((record.get? "schema_version").getD (.int 0))
      let header ← readHeader host path record lineno
      .ok { s with header := some header }
  else if rt = .str "chunk" then
    if s.header.isNone then
      .error (persistenceError s!"{place path lineno}: chunk record before header")
    else do
      let row ← chunkFromRecord host path record lineno
      .ok { s with rows := s.rows ++ [row] }
  else if rt = .str "trailer" then do
    let usage ← usageFromJsonable host (record.getD "cumulative_usage")
    .ok { s with trailer := some record, cumulativeUsage := usage }
  else
    .error (persistenceError
      s!"{place path lineno}: unknown record_type={host.texts.repr rt}")

/-- The use of a line. -/
def loadLine (lineno : ℕ) (s : Loading) (rawLine : List Char) : Except Exn Loading :=
  -- A line without line feed is one that a crash has cut off.
  if rawLine.getLast? ≠ some '\n' then .ok s
  else
    let line := stripLine rawLine
    if line = [] then .ok s
    else do
      let record ← readRecord host line fun col text =>
        s!"{place path lineno}: invalid JSON (col {col}): {text}"
      match record with
      | .obj record => loadRecord host path lineno s record
      | v => .error (persistenceError
          s!"{place path lineno}: record must be a JSON object, got {v.typeName}")

/-- What is made of the lines of a file. -/
def Loading.result (s : Loading) : Except Exn PersistedSession :=
  match s.header with
  | none => .error (persistenceError s!"{path}: no header record found")
  | some header => .ok ⟨header, s.rows, s.cumulativeUsage, s.trailer.isSome, path, s.trailer⟩

/-- `load_session` of the bytes of a file. -/
def loadFile (bytes : List UInt8) : Except Exn PersistedSession :=
  match readText bytes with
  | none => .error (.other "UnicodeDecodeError" (host.decodeError bytes))
  | some text => do
    let s ← foldLines (loadLine host path) 1 .start (splitlines text)
    s.result path

/-! ### `list_persisted_sessions` -/

/-- What `_meta_from_file` has read. -/
structure MetaLoading where
  header : Option PersistedSessionHeader
  chunkCount : ℕ
  closed : Bool
deriving DecidableEq

/-- The state of `_meta_from_file` before the first line. -/
def MetaLoading.start : MetaLoading := ⟨none, 0, false⟩

/-- The use of a record. -/
def metaRecord (lineno : ℕ) (s : MetaLoading) (record : JsonObject) : Except Exn MetaLoading :=
  let rt := record.getD "record_type"
  if rt = .str "header" ∧ s.header.isNone then do
    let header ← readHeader host path record lineno
    .ok { s with header := some header }
  else if rt = .str "chunk" then .ok { s with chunkCount := s.chunkCount + 1 }
  else if rt = .str "trailer" then .ok { s with closed := true }
  else .ok s

/-- The use of a line. -/
def metaLine (lineno : ℕ) (s : MetaLoading) (rawLine : List Char) : Except Exn MetaLoading :=
  if rawLine.getLast? ≠ some '\n' then .ok s
  else
    let line := stripLine rawLine
    if line = [] then .ok s
    else do
      let record ← readRecord host line fun _ text =>
        s!"{place path lineno}: invalid JSON: {text}"
      let record ← asMapping record
      metaRecord host path lineno s record

/-- What is made of the lines of a file. -/
def MetaLoading.result (s : MetaLoading) : Except Exn PersistedSessionMeta :=
  match s.header with
  | none => .error (persistenceError s!"{path}: no header record found")
  | some header => .ok ⟨header.id, path, header.createdAt, header.lineageOperator,
      header.lineageKind, s.chunkCount, s.closed⟩

/-- `_meta_from_file`. A file that is not UTF-8 is rejected before its lines are read, where Python
decodes it block by block and may come across a malformed line of an earlier block. -/
def metaFromFile (bytes : List UInt8) : Except Exn PersistedSessionMeta :=
  match readText bytes with
  | none => .error (.other "UnicodeDecodeError" (host.decodeError bytes))
  | some text => do
    let s ← foldLines (metaLine host path) 1 .start (fileLines text)
    s.result path

end Loader

/-! ### Directories -/

section Directory

variable (host : Host) (dir : Directory)

/-- `load_session`, of a session or of an explicit file of the directory. -/
def loadSession (sessionId : UUID) (path : Option String) : Except Exn PersistedSession :=
  let target := path.getD (sessionFile sessionId)
  match dir.read target with
  | some bytes => loadFile host target bytes
  | none =>
    let partialFile := sessionPartialFile sessionId
    match path, dir.read partialFile with
    | none, some bytes => loadFile host partialFile bytes
    | _, _ => .error (persistenceError s!"persisted session file not found: {target}")

/-- The files of sessions. -/
def isSessionFile (name : String) : Bool :=
  sessionFileSuffix.toList.isSuffixOf name.toList ||
    sessionPartialSuffix.toList.isSuffixOf name.toList

/-- The summaries of files, of which the unreadable ones are skipped. -/
def metasOfFiles : List File → Except Exn (List PersistedSessionMeta)
  | [] => .ok []
  | f :: files =>
    if isSessionFile f.1 then
      match metaFromFile host f.1 f.2 with
      | .ok m => do
        let metas ← metasOfFiles files
        .ok (m :: metas)
      | .error e => if e.isPersistenceError then metasOfFiles files else .error e
    else metasOfFiles files

/-- `metas.sort(key=lambda m: m.created_at)`. Datetimes with and without an offset cannot be
compared, and sorting compares some pair of them if there are both. -/
def sortMetas (metas : List PersistedSessionMeta) : Except Exn (List PersistedSessionMeta) :=
  if (∀ m ∈ metas, m.createdAt.Aware) ∨ ∀ m ∈ metas, ¬ m.createdAt.Aware then
    .ok (metas.mergeSort fun m m' => m.createdAt.instant ≤ m'.createdAt.instant)
  else .error (.other "TypeError" "can't compare offset-naive and offset-aware datetimes")

/-- `list_persisted_sessions`. -/
def listPersistedSessions : Except Exn (List PersistedSessionMeta) := do
  let metas ← metasOfFiles host (dir.rows.mergeSort fun f f' => f.1 ≤ f'.1)
  sortMetas metas

end Directory

end OpenRath
