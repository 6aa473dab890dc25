import OpenRath.Library.Table
import OpenRath.Session.Persistence.Serialize

/-!
# Responses of models

What a completion returns and how the deltas of a streamed completion are put together
(`src/rath/llm/chat_response.py`, `src/rath/llm/tool_args.py`, `_accumulate_stream_to_response` of
`src/rath/session/loop.py`).

Fields of a response that no function sets (the refusal, the annotations, the log
probabilities and the like) are left out, and so are the callbacks that see each delta. Python reads
the escape of a lone surrogate as a character that texts do not have here; arguments with one count
as unreadable.

## Main definitions

* `RathLLMChatResponse` and its parts, `RathLLMStreamDelta`.
* `parseToolArguments`, `accumulateStreamToResponse`.
-/

namespace OpenRath

/-! ### Responses -/

/-- Why a completion has ended. -/
inductive RathLLMFinishReason
  | stop
  | length
  | toolCalls
  | contentFilter
  | functionCall
deriving DecidableEq

/-- The function of a tool call. -/
structure RathLLMToolCallFunction where
  name : String
  arguments : String
  argumentsParsed : Option JsonObject
  argumentsParseError : Bool
deriving DecidableEq

/-- A tool call. -/
structure RathLLMToolCallPart where
  id : String
  type : String
  function : RathLLMToolCallFunction
deriving DecidableEq

/-- The message of an assistant. -/
structure RathLLMAssistantMessage where
  content : Option String
  toolCalls : Option (List RathLLMToolCallPart)
deriving DecidableEq

/-- A choice of a response. -/
structure RathLLMChatChoice where
  index : ℤ
  finishReason : RathLLMFinishReason
  message : RathLLMAssistantMessage
deriving DecidableEq

/-- A response. -/
structure RathLLMChatResponse where
  id : String
  choices : List RathLLMChatChoice
  created : ℤ
  model : String
  usage : Option RathLLMTokenUsage
  raw : Option JsonObject
deriving DecidableEq

/-- A piece of a streamed response. -/
structure RathLLMStreamDelta where
  contentDelta : Option String := none
  toolCallIndex : Option ℤ := none
  toolCallId : Option String := none
  toolCallNameDelta : Option String := none
  toolCallArgsDelta : Option String := none
  finishReason : Option RathLLMFinishReason := none
  usage : Option RathLLMTokenUsage := none
deriving DecidableEq

/-! ### Arguments of tools -/

/-- `parse_tool_arguments`: the object that a text is, and whether the text is no object. -/
def parseToolArguments (fl : FloatText) (argStr : String) : Option JsonObject × Bool :=
  if argStr = "" then (none, false)
  else
    match loads fl argStr.toList with
    | .ok (.obj fields) => (some fields, false)
    | .ok _ => (none, true)
    | .error _ => (none, true)

/-! ### Streams -/

/-- What has arrived of a tool call. -/
structure ToolBucket where
  id : String
  name : String
  arguments : String
deriving DecidableEq

/-- The tool calls of a stream by their indices. -/
abbrev ToolBuckets : Type := Table fun b : ℤ × ToolBucket => b.1

/-- What `_accumulate_stream_to_response` has put together. -/
structure Accumulated where
  textParts : List String
  toolBuckets : ToolBuckets
  finish : Option RathLLMFinishReason
  usage : Option RathLLMTokenUsage

namespace Accumulated

/-- The state before the first delta. -/
def start : Accumulated := ⟨[], .empty, none, none⟩

/-- What a text is extended by. -/
def given (text : Option String) : String := text.getD ""

/-- The tool calls after a delta. -/
def addToolCall (buckets : ToolBuckets) (d : RathLLMStreamDelta) : ToolBuckets :=
  if d.toolCallIndex.isSome ∨ d.toolCallId.isSome then
    let idx := d.toolCallIndex.getD 0
    let bucket := ((buckets.find? idx).map Prod.snd).getD ⟨"", "", ""⟩
    let bucket :=
      if given d.toolCallId = "" then bucket else { bucket with id := given d.toolCallId }
    buckets.put (idx, { bucket with
      name := bucket.name ++ given d.toolCallNameDelta
      arguments := bucket.arguments ++ given d.toolCallArgsDelta })
  else buckets

/-- The use of a delta. -/
def add (s : Accumulated) (d : RathLLMStreamDelta) : Accumulated where
  textParts :=
    if given d.contentDelta = "" then s.textParts else s.textParts ++ [given d.contentDelta]
  toolBuckets := addToolCall s.toolBuckets d
  finish := if d.finishReason.isSome then d.finishReason else s.finish
  usage := if d.usage.isSome then d.usage else s.usage

/-- The tool call of a bucket. -/
def toolCallPart (fl : FloatText) (bucket : ToolBucket) : RathLLMToolCallPart :=
  let parsed := parseToolArguments fl bucket.arguments
  { id := bucket.id
    type := "function"
    function :=
      { name := bucket.name
        arguments := bucket.arguments
        argumentsParsed := parsed.1
        argumentsParseError := parsed.2 } }

/-- The tool calls in the order of their indices. -/
def toolCalls (fl : FloatText) (s : Accumulated) : Option (List RathLLMToolCallPart) :=
  if s.toolBuckets.rows = [] then none
  else some ((s.toolBuckets.rows.mergeSort fun b b' => b.1 ≤ b'.1).map fun b =>
    toolCallPart fl b.2)

/-- The response that the deltas amount to. -/
def response (fl : FloatText) (model : String) (s : Accumulated) : RathLLMChatResponse where
  id := ""
  choices := [
    { index := 0
      finishReason := s.finish.getD (if (s.toolCalls fl).isSome then .toolCalls else .stop)
      message :=
        { content := if s.textParts = [] then none else some (String.join s.textParts)
          toolCalls := s.toolCalls fl } }]
  created := 0
  model := model
  usage := s.usage
  raw := none

end Accumulated

/-- `_accumulate_stream_to_response`. -/
def accumulateStreamToResponse (fl : FloatText) (model : String)
    (deltas : List RathLLMStreamDelta) : RathLLMChatResponse :=
  (deltas.foldl Accumulated.add .start).response fl model

end OpenRath
