import OpenRath.Llm.Chat

/-!
# Messages of the Anthropic API

How a message of the Messages API becomes a response, as a whole
(`src/rath/llm/anthropic/normalize.py`) and from the events of its stream
(`src/rath/llm/anthropic/stream_deltas.py`). Messages and events are JSON objects, as the client
library dumps them.

## Main definitions

* `contentToMessage`, `normalizeAnthropicResponse`.
* `anthropicEventToDeltas`, `streamToDeltas`.
-/

namespace OpenRath

/-- `value or other`. -/
def Json.orElse (v other : Json) : Json := if v.truthy then v else other

/-- The value of a key for which `get` is called, or the other value if it is missing or counts as
false. -/
def JsonObject.getOr (o : JsonObject) (key : String) (other : Json) : Json :=
  (o.getD key).orElse other

/-- `_STOP_REASON_MAP`. -/
def stopReasonMap : String → Option RathLLMFinishReason
  | "end_turn" => some .stop
  | "max_tokens" => some .length
  | "tool_use" => some .toolCalls
  | "stop_sequence" => some .stop
  | _ => none

section Messages

variable (host : Host)

/-- `_stop_reason_to_finish`. A value that is not a text is looked up as well: a missing one and one
that counts as false as the empty text, and a list or an object cannot be looked up. -/
def stopReasonToFinish (value : Json) : Except Exn RathLLMFinishReason :=
  match value.orElse (.str "") with
  | .str s => .ok ((stopReasonMap s).getD .stop)
  | .arr _ => .error (.other "TypeError" "unhashable type: 'list'")
  | .obj _ => .error (.other "TypeError" "unhashable type: 'dict'")
  | _ => .ok .stop

/-- The token counts of a `usage` field, if there are any. -/
def anthropicUsage (usage : Json) : Except Exn (Option RathLLMTokenUsage) :=
  match usage.orElse (.obj []) with
  | .obj usage => do
    let prompt ← countFromJsonable host usage "input_tokens"
    let completion ← countFromJsonable host usage "output_tokens"
    .ok (if prompt ≠ 0 ∨ completion ≠ 0 then
      some ⟨prompt, completion, prompt + completion, none, none⟩ else none)
  | _ => .ok none

/-! ### Whole messages -/

/-- What `_content_to_message` has collected. -/
structure Collected where
  textParts : List String
  toolCalls : List RathLLMToolCallPart

/-- The use of a content block. -/
def addBlock (s : Collected) (block : Json) : Except Exn Collected := do
  let block ← asMapping block
  let btype := block.getD "type"
  if btype = .str "text" then
    match block.getD "text" with
    | .str text => .ok { s with textParts := s.textParts ++ [text] }
    | _ => .ok s
  else if btype = .str "tool_use" then
    let inp := block.getOr "input" (.obj [])
    .ok { s with toolCalls := s.toolCalls ++ [
      { id := host.texts.text (block.getOr "id" (.str ""))
        type := "function"
        function :=
          { name := host.texts.text (block.getOr "name" (.str ""))
            -- A JSON value can always be dumped.
            arguments := String.ofList (dumps host.floats inp)
            argumentsParsed := match inp with
              | .obj fields => some fields
              | _ => none
            argumentsParseError := false } }] }
  else .ok s

/-- `_content_to_message`. -/
def contentToMessage (content : List Json) :
    Except Exn (Option String × Option (List RathLLMToolCallPart)) := do
  let s ← content.foldlM (addBlock host) ⟨[], []⟩
  .ok (if s.textParts = [] then none else some ("\n".intercalate s.textParts),
    if s.toolCalls = [] then none else some s.toolCalls)

/-- `normalize_anthropic_response`. -/
def normalizeAnthropicResponse (payload : JsonObject) : Except Exn RathLLMChatResponse := do
  let rawContent := match payload.getOr "content" (.arr []) with
    | .arr items => items
    | _ => []
  let (text, toolCalls) ← contentToMessage host rawContent
  let finish ← stopReasonToFinish (payload.getD "stop_reason")
  let usage ← anthropicUsage host (payload.getD "usage")
  .ok
    { id := host.texts.text (payload.getOr "id" (.str ""))
      choices := [
        { index := 0
          finishReason := finish
          message := { content := text, toolCalls := toolCalls } }]
      created := 0
      model := host.texts.text (payload.getOr "model" (.str ""))
      usage := usage
      raw := some payload }

/-! ### Events of a stream -/

/-- The index that an event gives. -/
def eventIndex (payload : JsonObject) : ℤ :=
  match payload.getD "index" with
  | .int n => n
  | .bool b => if b then 1 else 0
  | _ => 0

/-- The text of a field, if it is one that is not empty. -/
def JsonObject.nonemptyText (o : JsonObject) (key : String) : Option String :=
  match o.getD key with
  | .str s => if s = "" then none else some s
  | _ => none

/-- `anthropic_event_to_deltas`. -/
def anthropicEventToDeltas (payload : JsonObject) : Except Exn (List RathLLMStreamDelta) := do
  let etype := payload.getD "type"
  if etype = .str "content_block_delta" then
    let delta ← asMapping (payload.getOr "delta" (.obj []))
    if delta.getD "type" = .str "text_delta" then
      .ok ((delta.nonemptyText "text").toList.map fun text => { contentDelta := some text })
    else if delta.getD "type" = .str "input_json_delta" then
      .ok ((delta.nonemptyText "partial_json").toList.map fun part =>
        { toolCallIndex := some (eventIndex payload), toolCallArgsDelta := some part })
    else .ok []
  else if etype = .str "content_block_start" then
    let block ← asMapping (payload.getOr "content_block" (.obj []))
    if block.getD "type" = .str "tool_use" then
      .ok [{ toolCallIndex := some (eventIndex payload)
             toolCallId := some (host.texts.text (block.getOr "id" (.str "")))
             toolCallNameDelta := some (host.texts.text (block.getOr "name" (.str ""))) }]
    else .ok []
  else if etype = .str "message_delta" then
    let mdelta ← asMapping (payload.getOr "delta" (.obj []))
    let finish ← match mdelta.getD "stop_reason" with
      | .str stop => do
        let finish ← stopReasonToFinish (.str stop)
        .ok [{ finishReason := some finish }]
      | _ => .ok []
    -- The usage is looked for inside of the delta.
    let usage ← anthropicUsage host (mdelta.getD "usage")
    .ok (finish ++ usage.toList.map fun usage => { usage := some usage })
  else .ok []

/-- The deltas of the events of a stream. -/
def streamToDeltas (events : List JsonObject) : Except Exn (List RathLLMStreamDelta) := do
  let deltas ← events.mapM (anthropicEventToDeltas host)
  .ok deltas.flatten

end Messages

end OpenRath
