import OpenRath.Library.Values

/-!
# Sessions

The parts of a session that its file keeps (`src/rath/session/session.py`): the chunk rows, the
lineage, the description of the sandbox and the counts of tokens.

Other data of a session (its transcript, sandbox, provider and locks) is left out.

## Main definitions

* `ChunkKind`, `ChunkRow`, `LineageKind`, `BackendSandboxSpec`, `RathLLMTokenUsage`, `Session`.
-/

namespace OpenRath

/-- The kind of a chunk row. -/
inductive ChunkKind
  | system
  | user
  | assistant
  | toolResult
deriving DecidableEq

namespace ChunkKind

/-- The text a kind is stored as. -/
def value : ChunkKind → String
  | system => "system"
  | user => "user"
  | assistant => "assistant"
  | toolResult => "tool_result"

/-- The kind that is stored as a text. -/
def ofValue? (text : String) : Option ChunkKind :=
  [system, user, assistant, toolResult].find? fun kind => kind.value = text

@[simp] theorem ofValue?_value (kind : ChunkKind) : ofValue? kind.value = some kind := by
  cases kind <;> decide

end ChunkKind

/-- A chunk row. -/
structure ChunkRow where
  kind : ChunkKind
  payload : JsonObject
deriving DecidableEq

/-- How a session entered the lineage. -/
inductive LineageKind
  | unknown
  | leafUser
  | leafSystem
  | opCreate
  | opSessionLoop
  | opFork
  | opDetach
  | opMerge
  | opSessionCompress
deriving DecidableEq

namespace LineageKind

/-- The text a kind is stored as. -/
def value : LineageKind → String
  | unknown => "unknown"
  | leafUser => "leaf_user"
  | leafSystem => "leaf_system"
  | opCreate => "op_create"
  | opSessionLoop => "op_session_loop"
  | opFork => "op_fork"
  | opDetach => "op_detach"
  | opMerge => "op_merge"
  | opSessionCompress => "op_session_compress"

/-- The kind that is stored as a text. -/
def ofValue? (text : String) : Option LineageKind :=
  [unknown, leafUser, leafSystem, opCreate, opSessionLoop, opFork, opDetach, opMerge,
    opSessionCompress].find? fun kind => kind.value = text

@[simp] theorem ofValue?_value (kind : LineageKind) : ofValue? kind.value = some kind := by
  cases kind <;> decide

end LineageKind

/-- The description of a sandbox. The texts in it are not checked when it is read, so that they
are arbitrary values; the timeout is in microseconds. -/
structure BackendSandboxSpec where
  image : Json
  entrypoint : Option (List Json)
  env : Option JsonObject
  timeout : Option ℤ
  workingDir : Json
deriving DecidableEq

/-- Counts of tokens. -/
structure RathLLMTokenUsage where
  promptTokens : ℤ
  completionTokens : ℤ
  totalTokens : ℤ
  completionTokensDetails : Option JsonObject
  promptTokensDetails : Option JsonObject
deriving DecidableEq

/-- A value among the extras of a lineage. -/
inductive ExtraValue
  | json (value : Json)
  /-- A value that is not a JSON value, with the one that is written in its place: its projection
  if it can be dumped, and its text otherwise. -/
  | other (written : Json)
deriving DecidableEq

/-- A session. -/
structure Session where
  id : UUID
  parentSessionIds : List UUID
  lineageOperator : String
  lineageKind : LineageKind
  lineageExtras : List (String × ExtraValue)
  sandboxBackend : Option String
  sandboxOpenSpec : Option BackendSandboxSpec
  cumulativeUsage : Option RathLLMTokenUsage
deriving DecidableEq

end OpenRath
