import OpenRath.Backend.Local
import OpenRath.Session.ToolRound

/-!
# The built-in tools

The tools of `src/rath/flow/tool/system_tool.py`, with the keys by which the session loop keeps them
apart, and what they do in a workspace (`src/rath/backend/local.py`). The sandbox is open.

## Main definitions

* `BuiltinTool`, `BuiltinTool.resourceKey`, `BuiltinTool.call`.
* `systemTools`, `systemExecutor`.
-/

namespace OpenRath

open TextFile

/-- The built-in tools. -/
inductive BuiltinTool
  | commandRun
  | filesRead
  | filesWrite
  | filesList
  | filesExists
  | codeRun
deriving DecidableEq

namespace BuiltinTool

/-- The built-in tools, in the order of their registration. -/
def all : List BuiltinTool :=
  [commandRun, filesRead, filesWrite, filesList, filesExists, codeRun]

/-- The name of a tool. -/
def name : BuiltinTool → String
  | commandRun => "run_shell_command"
  | filesRead => "read_workspace_file"
  | filesWrite => "write_workspace_file"
  | filesList => "list_workspace_files"
  | filesExists => "workspace_path_exists"
  | codeRun => "run_code"

section Calls

variable (backend : LocalHost)

/-- `str(arguments[key])`. -/
def argument (args : JsonObject) (key : String) : Except Exn String :=
  match JsonObject.get? args key with
  | some v => .ok (backend.host.texts.text v)
  | none => .error (.store (.keyError key))

/-- `_path_resource_key`. -/
def pathResourceKey (args : JsonObject) : List String :=
  ["fs", match JsonObject.get? args "path" with
    | some v => backend.host.texts.text v
    | none => "<unknown>"]

/-- `resource_key`. -/
def resourceKey (args : JsonObject) : BuiltinTool → List String
  | commandRun => ["exec"]
  | filesRead | filesWrite | filesList | filesExists => pathResourceKey backend args
  | codeRun => ["code"]

/-- The operation on a path, or the failure for one that is outside. -/
def atPath (args : JsonObject) (ws : Workspace)
    (f : WorkspacePath → Workspace × Except Exn ToolResult) : Workspace × Except Exn ToolResult :=
  match argument backend args "path" >>= backend.resolve with
  | .error e => (ws, .error e)
  | .ok (.error failure) => (ws, .ok failure)
  | .ok (.ok p) => f p

/-- The command of `run_shell_command`. -/
def command (args : JsonObject) : Except Exn String := do
  let cmd ← argument backend args "cmd"
  if '\n' ∈ cmd.toList ∨ '\r' ∈ cmd.toList then
    .error (.store (.valueError "multiline commands are rejected"))
  else if 2048 < cmd.length then .error (.store (.valueError "command too long"))
  else .ok cmd

/-- The run of `run_code`. -/
def codeArguments (args : JsonObject) : Except Exn CodeRun := do
  let code ← argument backend args "code"
  let language := ((JsonObject.get? args "language").map backend.host.texts.text).getD "python"
  let timeout ← match JsonObject.getD args "timeout" with
    | .null => .ok none
    | v => (backend.host.toFloat v).map some
  .ok ⟨code, language, timeout⟩

/-- The encoding of `read_workspace_file`. -/
def encodingArgument (args : JsonObject) : Option String :=
  match JsonObject.get? args "encoding" with
  | none => some "utf-8"
  | some .null => none
  | some v => some (backend.host.texts.text v)

/-- The contents of `write_workspace_file`. -/
def contentArgument (args : JsonObject) : Except Exn String :=
  match JsonObject.get? args "content" with
  | some (.str text) => .ok text
  | some _ => .error (.other "TypeError" "content must be text for write_workspace_file")
  | none => .error (.store (.keyError "content"))

/-- A call of a tool. -/
def call (args : JsonObject) (ws : Workspace) : BuiltinTool → Workspace × Except Exn ToolResult
  | commandRun =>
    match command backend args with
    | .ok cmd => backend.shell cmd ws
    | .error e => (ws, .error e)
  | filesRead => atPath backend args ws fun p =>
      (ws, backend.readAt ws p (encodingArgument backend args))
  | filesWrite =>
    -- The path is looked up first, and the contents before the path is resolved.
    match argument backend args "path" >>= fun _ => contentArgument args with
    | .ok text => atPath backend args ws fun p =>
        ((backend.writeAt ws p (encode text.toList)).1,
          .ok (backend.writeAt ws p (encode text.toList)).2)
    | .error e => (ws, .error e)
  | filesList => atPath backend args ws fun p => (ws, .ok (backend.listAt ws p))
  | filesExists =>
    match argument backend args "path" >>= backend.resolve with
    | .error e => (ws, .error e)
    | .ok (.error _) => (ws, .ok (.exists false))
    | .ok (.ok p) => (ws, .ok (LocalHost.existsAt ws p))
  | codeRun =>
    match codeArguments backend args with
    | .ok run =>
      if run.language = "python" then backend.codeRun run ws
      else (ws, .ok (.failure "unsupported_tool"
        (s!"backend {backend.host.texts.repr (.str backend.name)} does not support backend tool " ++
          "payload 'BackendToolCodeRun'") run.language))
    | .error e => (ws, .error e)

/-- A built-in tool as a tool of the session loop. -/
def flowTool (tool : BuiltinTool) : FlowToolCall :=
  ⟨tool.name, fun args => .ok (tool.resourceKey backend args)⟩

end Calls

/-- The tool of a name. -/
def ofName? (name : String) : Option BuiltinTool := all.find? fun tool => tool.name = name

end BuiltinTool

section Executor

variable (backend : LocalHost)

/-- `global_system_tools`. -/
def systemTools (name : String) : Option FlowToolCall :=
  (BuiltinTool.ofName? name).map (BuiltinTool.flowTool backend)

/-- An executor that runs the built-in tools in a workspace. -/
def systemExecutor (acomplete : Workspace → List RathLLMMessage → RathLLMChatResponse → Workspace →
    Prop) (summarize : FlowToolCall → ToolResult → Except Exn String) :
    Executor Workspace ToolResult where
  acomplete := acomplete
  adispatchTool ws tool args answer ws' :=
    ∃ builtin, BuiltinTool.ofName? tool.name = some builtin ∧
      builtin.call backend args ws = (ws', answer)
  summarize := summarize

end Executor

end OpenRath
