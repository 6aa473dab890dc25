import OpenRath.Llm.Anthropic
import OpenRath.Session.Persistence.RoundTrip

/-!
# Streamed messages and whole messages

A message of the Messages API arrives as a whole or as the events of a stream, in which the text of
a block and the text of the arguments of a tool are cut into pieces. Both ways lead to a response.
They lead to the same one in a special case only.

## Main definitions

* `AnthropicMessage`, `AnthropicMessage.payload`: messages, and how they arrive as a whole.
* `StreamEvent`, `Fragmentation`, `Fragmentation.events`: how they arrive as a stream.
* `RathLLMChatResponse.Agree`: what two responses have in common.
* `Fragmentation.Plain`: no tokens, at most one text block, which is not empty, and the arguments of
  every tool spelled out.

## Main results

* `Fragmentation.streamed_agree_iff`: both ways lead to the same response exactly in the plain case.
-/

namespace OpenRath

/-! ### Messages -/

/-- A content block of a message. -/
inductive ContentBlock
  | text (s : String)
  | toolUse (id name : String) (input : JsonObject)
deriving DecidableEq

/-- A message of the Messages API. -/
structure AnthropicMessage where
  id : String
  model : String
  content : List ContentBlock
  stopReason : Option String
  inputTokens : ℕ
  outputTokens : ℕ
deriving DecidableEq

/-- The text of a text block. -/
def ContentBlock.text? : ContentBlock → Option String
  | text s => some s
  | toolUse .. => none

/-- A block of a message that arrives as a whole. -/
def ContentBlock.payload : ContentBlock → Json
  | text s => .obj [("type", .str "text"), ("text", .str s)]
  | toolUse id name input =>
    .obj [("type", .str "tool_use"), ("id", .str id), ("name", .str name), ("input", .obj input)]

namespace AnthropicMessage

/-- A message that arrives as a whole. -/
def payload (m : AnthropicMessage) : JsonObject :=
  [("id", .str m.id), ("type", .str "message"), ("role", .str "assistant"),
    ("model", .str m.model), ("content", .arr (m.content.map ContentBlock.payload)),
    ("stop_reason", .ofText? m.stopReason),
    ("usage", .obj [("input_tokens", .int m.inputTokens), ("output_tokens", .int m.outputTokens)])]

/-- The texts of the blocks. -/
def texts (m : AnthropicMessage) : List String := m.content.filterMap ContentBlock.text?

end AnthropicMessage

/-! ### Events -/

/-- An event of the stream of a message. -/
inductive StreamEvent
  | messageStart (id model : String) (inputTokens outputTokens : ℕ)
  | contentBlockStart (index : ℕ) (block : ContentBlock)
  | textDelta (index : ℕ) (text : String)
  | inputJsonDelta (index : ℕ) (partialJson : String)
  | contentBlockStop (index : ℕ)
  | messageDelta (stopReason : Option String) (outputTokens : ℕ) (counts : JsonObject)
  | messageStop

namespace StreamEvent

/-- An event as the client library dumps it. A block starts without its text and its input; the
counts of tokens are beside the delta of a message. -/
def payload : StreamEvent → JsonObject
  | messageStart id model inputTokens outputTokens =>
    [("type", .str "message_start"), ("message", .obj [("id", .str id), ("type", .str "message"),
      ("role", .str "assistant"), ("model", .str model), ("content", .arr []),
      ("stop_reason", .null), ("usage", .obj [("input_tokens", .int inputTokens),
        ("output_tokens", .int outputTokens)])])]
  | contentBlockStart index (.text _) =>
    [("type", .str "content_block_start"), ("index", .int index),
      ("content_block", (ContentBlock.text "").payload)]
  | contentBlockStart index (.toolUse id name _) =>
    [("type", .str "content_block_start"), ("index", .int index),
      ("content_block", (ContentBlock.toolUse id name []).payload)]
  | textDelta index text =>
    [("type", .str "content_block_delta"), ("index", .int index),
      ("delta", .obj [("type", .str "text_delta"), ("text", .str text)])]
  | inputJsonDelta index partialJson =>
    [("type", .str "content_block_delta"), ("index", .int index),
      ("delta", .obj [("type", .str "input_json_delta"), ("partial_json", .str partialJson)])]
  | contentBlockStop index => [("type", .str "content_block_stop"), ("index", .int index)]
  | messageDelta stopReason outputTokens counts =>
    [("type", .str "message_delta"), ("delta", .obj [("stop_reason", .ofText? stopReason)]),
      ("usage", .obj (("output_tokens", .int outputTokens) :: counts))]
  | messageStop => [("type", .str "message_stop")]

/-- The text as a list, which is empty for the empty text. -/
def pieceOf (text : String) : List String := if text = "" then [] else [text]

/-- What is made of an event. -/
def deltas : StreamEvent → List RathLLMStreamDelta
  | contentBlockStart index (.toolUse id name _) =>
    [{ toolCallIndex := some index, toolCallId := some id, toolCallNameDelta := some name }]
  | textDelta _ text => (pieceOf text).map fun text => { contentDelta := some text }
  | inputJsonDelta index partialJson => (pieceOf partialJson).map fun part =>
    { toolCallIndex := some index, toolCallArgsDelta := some part }
  | messageDelta (some stop) _ _ => [{ finishReason := some ((stopReasonMap stop).getD .stop) }]
  | _ => []

end StreamEvent

/-! ### Fragmentations -/

/-- Pieces of a block: of its text, or of a text of its input. An empty input may come without a
text. -/
def ContentBlock.Pieces (fl : FloatText) : ContentBlock → List String → Prop
  | text s, pieces => String.join pieces = s
  | toolUse _ _ input, pieces =>
    (String.join pieces = "" ∧ input = []) ∨
      loads fl (String.join pieces).toList = .ok (.obj input)

/-- A message in pieces: those of each block, and what the stream reports of the tokens besides. -/
structure Fragmentation (fl : FloatText) (m : AnthropicMessage) where
  pieces : List (List String)
  outputTokens : ℕ
  counts : JsonObject
  cut : List.Forall₂ (ContentBlock.Pieces fl) m.content pieces

/-- The event of a piece of a block. -/
def ContentBlock.pieceEvent (index : ℕ) : ContentBlock → String → StreamEvent
  | text _, piece => .textDelta index piece
  | toolUse .., piece => .inputJsonDelta index piece

/-- The events of a block. -/
def ContentBlock.events (index : ℕ) (block : ContentBlock) (pieces : List String) :
    List StreamEvent :=
  .contentBlockStart index block :: (pieces.map (block.pieceEvent index) ++
    [.contentBlockStop index])

/-- The events of blocks, which are numbered from `index` on. -/
def blockEvents : ℕ → List (ContentBlock × List String) → List StreamEvent
  | _, [] => []
  | index, (block, pieces) :: blocks => block.events index pieces ++ blockEvents (index + 1) blocks

namespace Fragmentation

variable {fl : FloatText} {m : AnthropicMessage} (f : Fragmentation fl m)

/-- The blocks with their pieces. -/
def blocks : List (ContentBlock × List String) := m.content.zip f.pieces

/-- The events of the stream. -/
def events : List StreamEvent :=
  .messageStart m.id m.model m.inputTokens f.outputTokens :: (blockEvents 0 f.blocks ++
    [.messageDelta m.stopReason m.outputTokens f.counts, .messageStop])

/-- No tokens are counted, there is at most one text block and it is not empty, the text of the
input of every tool is there, and a message with a tool has a reason for its end. -/
structure Plain : Prop where
  tokens : m.inputTokens = 0 ∧ m.outputTokens = 0
  texts : m.texts = [] ∨ ∃ text, text ≠ "" ∧ m.texts = [text]
  inputs : ∀ b ∈ f.blocks, ∀ id name input, b.1 = .toolUse id name input →
    String.join b.2 ≠ ""
  stopReason : m.stopReason = none → ∀ id name input, .toolUse id name input ∉ m.content

end Fragmentation

/-! ### Responses in common -/

/-- What is compared of a tool call: the identifier, the name and what the arguments are. -/
def RathLLMToolCallPart.call (part : RathLLMToolCallPart) :
    String × String × Option JsonObject × Bool :=
  (part.id, part.function.name, part.function.argumentsParsed, part.function.argumentsParseError)

/-- Two responses have the same texts, tool calls, reasons for their ends and tokens. -/
structure RathLLMChatResponse.Agree (r r' : RathLLMChatResponse) : Prop where
  content : r.choices.map (·.message.content) = r'.choices.map (·.message.content)
  toolCalls : r.choices.map (·.message.toolCalls.map (List.map RathLLMToolCallPart.call)) =
    r'.choices.map (·.message.toolCalls.map (List.map RathLLMToolCallPart.call))
  finishReason : r.choices.map (·.finishReason) = r'.choices.map (·.finishReason)
  usage : r.usage.map RathLLMTokenUsage.totalTokens =
    r'.usage.map RathLLMTokenUsage.totalTokens

/-! ### What is made of a whole message -/

section Whole

variable (host : Host)

@[simp] theorem orElse_str_empty (s : String) : (Json.str s).orElse (.str "") = .str s := by
  rw [Json.orElse]
  split_ifs with h
  · rfl
  · simp_all [Json.truthy]

theorem orElse_obj_nil (fields : JsonObject) :
    (Json.obj fields).orElse (.obj []) = .obj fields := by
  cases fields <;> rfl

theorem stopReasonToFinish_ofText? (stop : Option String) : stopReasonToFinish (.ofText? stop) =
    .ok ((stop.bind stopReasonMap).getD .stop) := by
  cases stop with
  | none => rfl
  | some stop =>
    rw [stopReasonToFinish, Json.ofText?, orElse_str_empty]
    rfl

/-- The tool call of a block of a whole message. -/
def ContentBlock.wholeCall : ContentBlock → Option RathLLMToolCallPart
  | text _ => none
  | toolUse id name input =>
    some ⟨id, "function", ⟨name, String.ofList (dumps host.floats (.obj input)), some input, false⟩⟩

theorem addBlock_payload (s : Collected) (block : ContentBlock) :
    addBlock host s block.payload = .ok
      ⟨s.textParts ++ block.text?.toList,
        s.toolCalls ++ (block.wholeCall host).toList⟩ := by
  cases block with
  | text t =>
    have hblock : addBlock host s (ContentBlock.text t).payload =
      .ok { s with textParts := s.textParts ++ [t] } := rfl
    rw [hblock]
    simp [ContentBlock.wholeCall, ContentBlock.text?]
  | toolUse id name input =>
    obtain ⟨fields, hfields⟩ : ∃ fields : JsonObject,
        (ContentBlock.toolUse id name input).payload = .obj fields :=
      ⟨_, rfl⟩
    have htype : fields.getD "type" = .str "tool_use" := by
      cases hfields
      rfl
    have hid : fields.getOr "id" (.str "") = .str id := by
      cases hfields
      exact orElse_str_empty id
    have hname : fields.getOr "name" (.str "") = .str name := by
      cases hfields
      exact orElse_str_empty name
    have hinput : fields.getOr "input" (.obj []) = .obj input := by
      cases hfields
      exact orElse_obj_nil input
    simp [addBlock, hfields, asMapping, Bind.bind, Except.bind, htype, hid, hname, hinput,
      ContentBlock.wholeCall, ContentBlock.text?]

theorem foldlM_addBlock (content : List ContentBlock) (s : Collected) :
    (content.map ContentBlock.payload).foldlM (addBlock host) s = .ok
      ⟨s.textParts ++ content.filterMap ContentBlock.text?,
        s.toolCalls ++ content.filterMap (ContentBlock.wholeCall host)⟩ := by
  induction content generalizing s with
  | nil => simp [pure, Except.pure]
  | cons block content ih =>
    rw [List.map_cons, List.foldlM_cons, addBlock_payload]
    refine (ih _).trans ?_
    cases block <;> simp [ContentBlock.wholeCall, ContentBlock.text?, List.filterMap_cons]

theorem anthropicUsage_counts (prompt completion : ℤ) :
    anthropicUsage host
        (.obj [("input_tokens", .int prompt), ("output_tokens", .int completion)]) =
      .ok (if prompt ≠ 0 ∨ completion ≠ 0 then
        some ⟨prompt, completion, prompt + completion, none, none⟩ else none) := by
  have hint : ∀ n : ℤ, host.toInt (if (Json.int n).truthy then .int n else .int 0) = .ok n := by
    intro n
    by_cases hn : n = 0 <;> simp [Json.truthy, hn, Host.toInt]
  have hprompt : countFromJsonable host
      [("input_tokens", .int prompt), ("output_tokens", .int completion)] "input_tokens" =
      .ok prompt := hint prompt
  have hcompletion : countFromJsonable host
      [("input_tokens", .int prompt), ("output_tokens", .int completion)] "output_tokens" =
      .ok completion := hint completion
  rw [anthropicUsage, orElse_obj_nil]
  dsimp only
  rw [hprompt, hcompletion]
  rfl

/-- The response to a message that arrives as a whole. -/
theorem normalizeAnthropicResponse_payload (m : AnthropicMessage) :
    normalizeAnthropicResponse host m.payload = .ok
      { id := m.id
        choices := [
          { index := 0
            finishReason := (m.stopReason.bind stopReasonMap).getD .stop
            message :=
              { content := if m.texts = [] then none else some ("\n".intercalate m.texts)
                toolCalls :=
                  if m.content.filterMap (ContentBlock.wholeCall host) = [] then none
                  else some (m.content.filterMap (ContentBlock.wholeCall host)) } }]
        created := 0
        model := m.model
        usage := if (m.inputTokens : ℤ) ≠ 0 ∨ (m.outputTokens : ℤ) ≠ 0 then
          some ⟨m.inputTokens, m.outputTokens, m.inputTokens + m.outputTokens, none, none⟩ else none
        raw := some m.payload } := by
  have hcontent : m.payload.getOr "content" (.arr []) =
      .arr (m.content.map ContentBlock.payload) := by
    rcases hblocks : m.content with _ | ⟨block, blocks⟩
    · simp only [JsonObject.getOr, JsonObject.getD, AnthropicMessage.payload, hblocks]
      rfl
    · simp only [JsonObject.getOr, JsonObject.getD, AnthropicMessage.payload, hblocks]
      rfl
  have hparts : contentToMessage host (m.content.map ContentBlock.payload) = .ok
      (if m.texts = [] then none else some ("\n".intercalate m.texts),
        if m.content.filterMap (ContentBlock.wholeCall host) = [] then none
        else some (m.content.filterMap (ContentBlock.wholeCall host))) := by
    rw [contentToMessage, foldlM_addBlock]
    rfl
  have hstop : m.payload.getD "stop_reason" = .ofText? m.stopReason := rfl
  have husage : m.payload.getD "usage" = .obj
      [("input_tokens", .int m.inputTokens), ("output_tokens", .int m.outputTokens)] := rfl
  have hid : m.payload.getOr "id" (.str "") = .str m.id := orElse_str_empty m.id
  have hmodel : m.payload.getOr "model" (.str "") = .str m.model := orElse_str_empty m.model
  rw [normalizeAnthropicResponse, hcontent, hstop, stopReasonToFinish_ofText?, husage,
    anthropicUsage_counts, hid, hmodel]
  dsimp only
  rw [hparts]
  rfl

end Whole

/-! ### What is made of the events -/

section Events

variable (host : Host)

theorem nonemptyText_eq {o : JsonObject} {key s : String} (h : o.getD key = .str s) :
    (o.nonemptyText key).toList = StreamEvent.pieceOf s := by
  rw [JsonObject.nonemptyText, h, StreamEvent.pieceOf]
  dsimp only
  split_ifs <;> rfl

/-- The deltas of an event. -/
theorem anthropicEventToDeltas_payload (e : StreamEvent) :
    anthropicEventToDeltas host e.payload = .ok e.deltas := by
  cases e with
  | contentBlockStart index block =>
    cases block with
    | text s => rfl
    | toolUse id name input =>
      have hdeltas : anthropicEventToDeltas host
          (StreamEvent.contentBlockStart index (.toolUse id name input)).payload =
          .ok [{ toolCallIndex := some index
                 toolCallId := some (host.texts.text ((Json.str id).orElse (.str "")))
                 toolCallNameDelta :=
                   some (host.texts.text ((Json.str name).orElse (.str ""))) }] := rfl
      rw [hdeltas, orElse_str_empty, orElse_str_empty]
      rfl
  | textDelta index s =>
    exact congrArg (fun texts : List String => Except.ok (texts.map fun text =>
      ({ contentDelta := some text } : RathLLMStreamDelta)))
      (nonemptyText_eq (rfl : JsonObject.getD [("type", .str "text_delta"), ("text", .str s)]
        "text" = .str s))
  | inputJsonDelta index s =>
    exact congrArg (fun texts : List String => Except.ok (texts.map fun part =>
      ({ toolCallIndex := some index, toolCallArgsDelta := some part } : RathLLMStreamDelta)))
      (nonemptyText_eq (rfl : JsonObject.getD
        [("type", .str "input_json_delta"), ("partial_json", .str s)] "partial_json" = .str s))
  | messageDelta stop tokens counts =>
    cases stop with
    | none => rfl
    | some stop =>
      have hdeltas : anthropicEventToDeltas host
          (StreamEvent.messageDelta (some stop) tokens counts).payload =
          (stopReasonToFinish (.ofText? (some stop)) >>= fun finish =>
            .ok [{ finishReason := some finish }]) := rfl
      rw [hdeltas, stopReasonToFinish_ofText?]
      rfl
  | messageStart | contentBlockStop | messageStop => rfl

theorem streamToDeltas_payload (events : List StreamEvent) :
    streamToDeltas host (events.map StreamEvent.payload) =
      .ok (events.flatMap StreamEvent.deltas) := by
  have hmap : (events.map StreamEvent.payload).mapM (anthropicEventToDeltas host) =
      .ok (events.map StreamEvent.deltas) := by
    induction events with
    | nil => rfl
    | cons e events ih =>
      rw [List.map_cons, List.mapM_cons, ih, anthropicEventToDeltas_payload]
      rfl
  rw [streamToDeltas, hmap]
  rfl

end Events

/-! ### Putting the events together -/

section Accumulation

open Accumulated

/-- A text from which the empty pieces are left out is the same text. -/
theorem join_flatMap_pieceOf (pieces : List String) :
    String.join (pieces.flatMap StreamEvent.pieceOf) = String.join pieces := by
  induction pieces with
  | nil => rfl
  | cons piece pieces ih =>
    rw [List.flatMap_cons, String.join_append, ih, String.join_cons, StreamEvent.pieceOf]
    split_ifs with hpiece <;> simp [hpiece]

theorem flatMap_pieceOf_eq_nil_iff (pieces : List String) :
    pieces.flatMap StreamEvent.pieceOf = [] ↔ String.join pieces = "" := by
  induction pieces with
  | nil => simp
  | cons piece pieces ih =>
    rw [List.flatMap_cons, List.append_eq_nil_iff, ih, String.join_cons, StreamEvent.pieceOf]
    split_ifs with hpiece <;> simp [hpiece]

theorem foldl_textDelta (index : ℕ) (pieces : List String) (s : Accumulated) :
    (pieces.flatMap fun piece => (StreamEvent.textDelta index piece).deltas).foldl add s =
      { s with textParts := s.textParts ++ pieces.flatMap StreamEvent.pieceOf } := by
  induction pieces generalizing s with
  | nil => simp
  | cons piece pieces ih =>
    have hpiece : (StreamEvent.textDelta index piece).deltas.foldl add s =
        { s with textParts := s.textParts ++ StreamEvent.pieceOf piece } := by
      rw [StreamEvent.deltas, StreamEvent.pieceOf]
      split_ifs with hempty
      · simp
      · simp [add, addToolCall, given, hempty]
    rw [List.flatMap_cons, List.foldl_append, hpiece, ih, List.flatMap_cons, List.append_assoc]

theorem foldl_inputJsonDelta (index : ℕ) (id name : String) (pieces : List String)
    (s : Accumulated) (buckets : ToolBuckets) (arguments : String) :
    (pieces.flatMap fun piece => (StreamEvent.inputJsonDelta index piece).deltas).foldl add
        { s with toolBuckets := buckets.put ((index : ℤ), ⟨id, name, arguments⟩) } =
      { s with toolBuckets :=
          buckets.put ((index : ℤ), ⟨id, name, arguments ++ String.join pieces⟩) } := by
  induction pieces generalizing arguments with
  | nil => simp
  | cons piece pieces ih =>
    have hpiece : (StreamEvent.inputJsonDelta index piece).deltas.foldl add
        { s with toolBuckets := buckets.put ((index : ℤ), ⟨id, name, arguments⟩) } =
        { s with toolBuckets := buckets.put ((index : ℤ), ⟨id, name, arguments ++ piece⟩) } := by
      have hfind := buckets.find?_put_self ((index : ℤ), (⟨id, name, arguments⟩ : ToolBucket))
      have hput := buckets.put_put
        (show ((index : ℤ), (⟨id, name, arguments⟩ : ToolBucket)).1 =
          ((index : ℤ), (⟨id, name, arguments ++ piece⟩ : ToolBucket)).1 from rfl)
      rw [StreamEvent.deltas, StreamEvent.pieceOf]
      split_ifs with hempty
      · simp [hempty]
      · simp [add, addToolCall, given, hfind, hput]
    rw [List.flatMap_cons, List.foldl_append, hpiece, ih, String.join_cons, String.append_assoc]

/-- The state after the events of a block. -/
def ContentBlock.arrive (index : ℕ) (pieces : List String) (s : Accumulated) :
    ContentBlock → Accumulated
  | text _ => { s with textParts := s.textParts ++ pieces.flatMap StreamEvent.pieceOf }
  | toolUse id name _ =>
    { s with toolBuckets := s.toolBuckets.put ((index : ℤ), ⟨id, name, String.join pieces⟩) }

theorem foldl_events (index : ℕ) (block : ContentBlock) (pieces : List String)
    (s : Accumulated) (hnew : s.toolBuckets.find? (index : ℤ) = none) :
    ((block.events index pieces).flatMap StreamEvent.deltas).foldl add s =
      block.arrive index pieces s := by
  have hevents : (block.events index pieces).flatMap StreamEvent.deltas =
      (StreamEvent.contentBlockStart index block).deltas ++
        pieces.flatMap fun piece => (block.pieceEvent index piece).deltas := by
    simp [ContentBlock.events, List.flatMap_map, StreamEvent.deltas]
  rw [hevents, List.foldl_append]
  cases block with
  | text t => exact foldl_textDelta index pieces s
  | toolUse id name input =>
    have hstart :
        (StreamEvent.contentBlockStart index (.toolUse id name input)).deltas.foldl add s =
        { s with toolBuckets := s.toolBuckets.put ((index : ℤ), ⟨id, name, ""⟩) } := by
      by_cases hid : id = "" <;> simp [StreamEvent.deltas, add, addToolCall, given, hnew, hid]
    rw [hstart]
    refine (foldl_inputJsonDelta index id name pieces s s.toolBuckets "").trans ?_
    rw [String.empty_append, ContentBlock.arrive]

/-- The tool calls of blocks that are numbered from `index` on. -/
def bucketsOf : ℕ → List (ContentBlock × List String) → List (ℤ × ToolBucket)
  | _, [] => []
  | index, (.text _, _) :: blocks => bucketsOf (index + 1) blocks
  | index, (.toolUse id name _, pieces) :: blocks =>
    ((index : ℤ), ⟨id, name, String.join pieces⟩) :: bucketsOf (index + 1) blocks

/-- The pieces of the texts of blocks. -/
def textPieces : List (ContentBlock × List String) → List String
  | [] => []
  | (.text _, pieces) :: blocks => pieces ++ textPieces blocks
  | (.toolUse .., _) :: blocks => textPieces blocks

theorem put_rows_of_lt {buckets : ToolBuckets} {index : ℕ} {bucket : ToolBucket}
    (h : ∀ b ∈ buckets.rows, b.1 < (index : ℤ)) :
    (buckets.put ((index : ℤ), bucket)).rows = buckets.rows ++ [((index : ℤ), bucket)] := by
  have herase : (buckets.erase (index : ℤ)).rows = buckets.rows :=
    List.filter_eq_self.mpr fun b hb => by simpa using (h b hb).ne
  exact congrArg (· ++ [((index : ℤ), bucket)]) herase

/-- The state after the events of all blocks. -/
theorem foldl_blockEvents (blocks : List (ContentBlock × List String)) (index : ℕ)
    (s : Accumulated) (hlt : ∀ b ∈ s.toolBuckets.rows, b.1 < (index : ℤ)) :
    ∃ s', ((blockEvents index blocks).flatMap StreamEvent.deltas).foldl add s = s' ∧
      s'.textParts = s.textParts ++ (textPieces blocks).flatMap StreamEvent.pieceOf ∧
      s'.toolBuckets.rows = s.toolBuckets.rows ++ bucketsOf index blocks ∧
      s'.finish = s.finish ∧ s'.usage = s.usage := by
  induction blocks generalizing index s with
  | nil => exact ⟨s, rfl, by simp [textPieces], by simp [bucketsOf], rfl, rfl⟩
  | cons b blocks ih =>
    obtain ⟨block, pieces⟩ := b
    have hnew : s.toolBuckets.find? (index : ℤ) = none := by
      rw [Table.find?_eq_none_iff]
      intro hmem
      obtain ⟨b, hb, hindex⟩ := List.mem_map.mp hmem
      exact (hlt b hb).ne hindex
    rw [blockEvents, List.flatMap_append, List.foldl_append, foldl_events index block pieces s hnew]
    cases block with
    | text t =>
      obtain ⟨s', hs', htext, hrows, hfinish, husage⟩ := ih (index + 1)
        (ContentBlock.arrive index pieces s (.text t)) fun b hb => (hlt b hb).trans (by simp)
      refine ⟨s', hs', ?_, hrows, hfinish, husage⟩
      rw [htext, ContentBlock.arrive, textPieces, List.flatMap_append, List.append_assoc]
    | toolUse id name input =>
      have hput := @put_rows_of_lt _ _ (⟨id, name, String.join pieces⟩ : ToolBucket) hlt
      obtain ⟨s', hs', htext, hrows, hfinish, husage⟩ := ih (index + 1)
        (ContentBlock.arrive index pieces s (.toolUse id name input)) fun b hb => by
          rw [ContentBlock.arrive, hput, List.mem_append, List.mem_singleton] at hb
          rcases hb with hb | rfl
          · exact (hlt b hb).trans (by simp)
          · simp
      refine ⟨s', hs', htext, ?_, hfinish, husage⟩
      rw [hrows, ContentBlock.arrive, hput, bucketsOf, List.append_assoc, List.singleton_append]

/-- The indices of the tool calls increase. -/
theorem bucketsOf_pairwise (blocks : List (ContentBlock × List String)) (index : ℕ) :
    (∀ b ∈ bucketsOf index blocks, (index : ℤ) ≤ b.1) ∧
      (bucketsOf index blocks).Pairwise fun b b' => b.1 ≤ b'.1 := by
  induction blocks generalizing index with
  | nil => simp [bucketsOf]
  | cons b blocks ih =>
    obtain ⟨hle, hsorted⟩ := ih (index + 1)
    have hle' : ∀ b ∈ bucketsOf (index + 1) blocks, (index : ℤ) ≤ b.1 := fun b hb =>
      (Int.ofNat_le.mpr (Nat.le_succ index)).trans (hle b hb)
    obtain ⟨block, pieces⟩ := b
    cases block with
    | text t => exact ⟨hle', hsorted⟩
    | toolUse id name input =>
      exact ⟨List.forall_mem_cons.mpr ⟨le_rfl, hle'⟩, List.pairwise_cons.mpr ⟨hle', hsorted⟩⟩

end Accumulation

/-! ### Both ways -/

theorem length_join_le (t : String) (texts : List String) :
    (String.join (t :: texts)).length ≤ ("\n".intercalate (t :: texts)).length := by
  induction texts generalizing t with
  | nil => simp
  | cons u texts ih =>
    have hu := ih u
    rw [String.join_cons, String.intercalate_cons_cons, String.length_append, String.length_append,
      String.length_append]
    omega

/-- The text of all blocks in one is the text of the blocks in lines in a special case only. -/
theorem join_eq_intercalate_iff (texts : List String) :
    (if String.join texts = "" then none else some (String.join texts)) =
      (if texts = [] then none else some ("\n".intercalate texts)) ↔
      texts = [] ∨ ∃ text, text ≠ "" ∧ texts = [text] := by
  rcases texts with _ | ⟨t, _ | ⟨u, texts⟩⟩
  · simp
  · by_cases ht : t = "" <;> simp [ht]
  · have hlt : (String.join (t :: u :: texts)).length <
        ("\n".intercalate (t :: u :: texts)).length := by
      have hu := length_join_le u texts
      have hline : "\n".length = 1 := rfl
      rw [String.join_cons, String.intercalate_cons_cons, String.length_append,
        String.length_append, String.length_append]
      omega
    have hne : String.join (t :: u :: texts) ≠ "\n".intercalate (t :: u :: texts) := fun h =>
      hlt.ne (congrArg String.length h)
    rw [if_neg (List.cons_ne_nil _ _)]
    constructor
    · intro h
      split_ifs at h
      exact absurd (Option.some.inj h) hne
    · rintro (h | ⟨_, -, h⟩) <;> simp at h

/-- A list that is missing if it is empty. -/
theorem map_missing_eq_iff {α β : Type} (g : α → β) [DecidableEq α] (l l' : List α) :
    (if l = [] then none else some l).map (List.map g) =
      (if l' = [] then none else some l').map (List.map g) ↔ l.map g = l'.map g := by
  rcases l with _ | ⟨a, l⟩ <;> rcases l' with _ | ⟨a', l'⟩ <;> simp

/-- The tool call of a block of a stream. -/
def ContentBlock.streamCall (fl : FloatText) :
    ContentBlock × List String → Option RathLLMToolCallPart
  | (text _, _) => none
  | (toolUse id name _, pieces) =>
    some (Accumulated.toolCallPart fl ⟨id, name, String.join pieces⟩)

theorem map_bucketsOf (fl : FloatText) (blocks : List (ContentBlock × List String)) (index : ℕ) :
    (bucketsOf index blocks).map (fun b => Accumulated.toolCallPart fl b.2) =
      blocks.filterMap (ContentBlock.streamCall fl) := by
  induction blocks generalizing index with
  | nil => rfl
  | cons b blocks ih =>
    obtain ⟨block, pieces⟩ := b
    cases block with
    | text t => exact ih (index + 1)
    | toolUse id name input =>
      rw [bucketsOf, List.map_cons, ih, List.filterMap_cons]
      rfl

section Calls

variable (host : Host)

/-- The call of a tool in a stream is the one of the whole message if the text of its input is
there. -/
theorem call_eq_iff {id name : String} {input : JsonObject} {pieces : List String}
    (h : (ContentBlock.toolUse id name input).Pieces host.floats pieces) :
    (Accumulated.toolCallPart host.floats ⟨id, name, String.join pieces⟩).call =
      (id, name, some input, false) ↔ String.join pieces ≠ "" := by
  rw [RathLLMToolCallPart.call, Accumulated.toolCallPart]
  dsimp only
  rw [parseToolArguments]
  by_cases hempty : String.join pieces = ""
  · simp [hempty]
  · have hloads := h.resolve_left fun hnone => hempty hnone.1
    rw [if_neg hempty, hloads]
    simp [hempty]

theorem calls_eq_iff {content : List ContentBlock} {pieces : List (List String)}
    (h : List.Forall₂ (ContentBlock.Pieces host.floats) content pieces) :
    ((content.zip pieces).filterMap (ContentBlock.streamCall host.floats)).map
        RathLLMToolCallPart.call =
      (content.filterMap (ContentBlock.wholeCall host)).map RathLLMToolCallPart.call ↔
    ∀ b ∈ content.zip pieces, ∀ id name input, b.1 = .toolUse id name input →
      String.join b.2 ≠ "" := by
  induction h with
  | nil => simp
  | @cons block parts content pieces hblock hrest ih =>
    rw [List.zip_cons_cons, List.forall_mem_cons, List.filterMap_cons, List.filterMap_cons]
    cases block with
    | text t => simpa [ContentBlock.streamCall, ContentBlock.wholeCall] using ih
    | toolUse id name input =>
      have hcall := call_eq_iff host hblock
      have hwhole : (ContentBlock.toolUse id name input).wholeCall host = some ⟨id, "function",
        ⟨name, String.ofList (dumps host.floats (.obj input)), some input, false⟩⟩ := rfl
      simp only [ContentBlock.streamCall, hwhole, List.map_cons, List.cons.injEq]
      refine and_congr ?_ ih
      refine hcall.trans ⟨?_, fun h => h id name input rfl⟩
      rintro h id' name' input' heq
      exact h

theorem filterMap_streamCall_eq_nil_iff {content : List ContentBlock}
    {pieces : List (List String)}
    (h : List.Forall₂ (ContentBlock.Pieces host.floats) content pieces) :
    (content.zip pieces).filterMap (ContentBlock.streamCall host.floats) = [] ↔
      ∀ id name input, .toolUse id name input ∉ content := by
  induction h with
  | nil => simp
  | @cons block parts content pieces hblock hrest ih =>
    rw [List.zip_cons_cons, List.filterMap_cons]
    cases block with
    | text t => simpa [ContentBlock.streamCall] using ih
    | toolUse id name input =>
      simp only [ContentBlock.streamCall, List.cons_ne_nil, false_iff]
      exact fun hnone => hnone id name input List.mem_cons_self

/-- The pieces of the text blocks make up their texts. -/
theorem join_textPieces {content : List ContentBlock} {pieces : List (List String)}
    (h : List.Forall₂ (ContentBlock.Pieces host.floats) content pieces) :
    String.join (textPieces (content.zip pieces)) =
      String.join (content.filterMap ContentBlock.text?) := by
  induction h with
  | nil => rfl
  | @cons block parts content pieces hblock hrest ih =>
    rw [List.zip_cons_cons, List.filterMap_cons]
    cases block with
    | text t =>
      have hjoin : String.join parts = t := hblock
      rw [textPieces, String.join_append, ih, hjoin, ContentBlock.text?, String.join_cons]
    | toolUse id name input => exact ih

end Calls

namespace Fragmentation

variable (host : Host) {m : AnthropicMessage} (f : Fragmentation host.floats m) (model : String)

/-- The tool calls of the stream. -/
def calls : List RathLLMToolCallPart :=
  f.blocks.filterMap (ContentBlock.streamCall host.floats)

/-- The response to a message that arrives as a stream. -/
theorem accumulate_events :
    accumulateStreamToResponse host.floats model (f.events.flatMap StreamEvent.deltas) =
      { id := ""
        choices := [
          { index := 0
            finishReason :=
              (m.stopReason.map fun stop => (stopReasonMap stop).getD .stop).getD
                (if f.calls = [] then .stop else .toolCalls)
            message :=
              { content :=
                  if String.join m.texts = "" then none else some (String.join m.texts)
                toolCalls := if f.calls = [] then none else some f.calls } }]
        created := 0
        model := model
        usage := none
        raw := none } := by
  obtain ⟨s, hs, htext, hrows, hfinish, husage⟩ :=
    foldl_blockEvents f.blocks 0 Accumulated.start (by simp [Accumulated.start])
  have hend : (f.events.flatMap StreamEvent.deltas).foldl Accumulated.add .start =
      { s with finish := m.stopReason.map fun stop => (stopReasonMap stop).getD .stop } := by
    have hstart :
        (StreamEvent.messageStart m.id m.model m.inputTokens f.outputTokens).deltas = [] :=
      rfl
    rw [events, List.flatMap_cons, hstart, List.nil_append, List.flatMap_append, List.foldl_append,
      hs]
    cases hstop : m.stopReason with
    | none =>
      have hnone : s.finish = none := hfinish
      simp [StreamEvent.deltas, ← hnone]
    | some stop => simp [StreamEvent.deltas, Accumulated.add, Accumulated.addToolCall,
        Accumulated.given]
  have hcalls : ({ s with finish := m.stopReason.map fun stop =>
      (stopReasonMap stop).getD .stop } : Accumulated).toolCalls host.floats =
      if f.calls = [] then none else some f.calls := by
    have hsorted : (s.toolBuckets.rows.mergeSort fun b b' => b.1 ≤ b'.1) = s.toolBuckets.rows := by
      rw [hrows]
      refine List.mergeSort_of_pairwise ?_
      simpa [Accumulated.start] using (bucketsOf_pairwise f.blocks 0).2
    have hmap : (s.toolBuckets.rows.map fun b => Accumulated.toolCallPart host.floats b.2) =
        f.calls := by
      rw [hrows]
      exact map_bucketsOf host.floats f.blocks 0
    rw [Accumulated.toolCalls]
    dsimp only
    have hnil : s.toolBuckets.rows = [] ↔ f.calls = [] := by rw [← hmap, List.map_eq_nil_iff]
    simp only [hsorted, hmap, hnil]
  have hjoin := join_textPieces host f.cut
  have htextParts : s.textParts = (textPieces f.blocks).flatMap StreamEvent.pieceOf := htext
  have hcontent : (if s.textParts = [] then none else some (String.join s.textParts)) =
      if String.join m.texts = "" then none else some (String.join m.texts) := by
    have hnil : s.textParts = [] ↔ String.join m.texts = "" := by
      rw [htextParts, flatMap_pieceOf_eq_nil_iff, blocks, hjoin, AnthropicMessage.texts]
    have hsame : String.join s.textParts = String.join m.texts := by
      rw [htextParts, join_flatMap_pieceOf, blocks, hjoin, AnthropicMessage.texts]
    simp only [hnil, hsame]
  rw [accumulateStreamToResponse, hend, Accumulated.response, hcalls]
  dsimp only
  rw [hcontent, husage]
  by_cases hnone : f.calls = [] <;> simp [hnone, Accumulated.start]

/-- **Streams and whole messages.** However a message is cut into pieces, it can be read both as a
whole and as a stream. Both ways lead to the same texts, tool calls, reason for the end and number
of tokens exactly in the plain case. -/
theorem streamed_agree_iff : ∃ deltas whole,
    streamToDeltas host (f.events.map StreamEvent.payload) = .ok deltas ∧
      normalizeAnthropicResponse host m.payload = .ok whole ∧
      ((accumulateStreamToResponse host.floats model deltas).Agree whole ↔ f.Plain) := by
  refine ⟨_, _, streamToDeltas_payload host f.events, normalizeAnthropicResponse_payload host m, ?_⟩
  rw [accumulate_events host f model]
  have hcalls := calls_eq_iff host f.cut
  have htools := filterMap_streamCall_eq_nil_iff host f.cut
  change f.calls = [] ↔ _ at htools
  change f.calls.map _ = _ ↔ _ at hcalls
  have htokens : (none : Option ℤ) = (if (m.inputTokens : ℤ) ≠ 0 ∨ (m.outputTokens : ℤ) ≠ 0 then
      some (⟨m.inputTokens, m.outputTokens, m.inputTokens + m.outputTokens, none, none⟩ :
        RathLLMTokenUsage) else none).map RathLLMTokenUsage.totalTokens ↔
      m.inputTokens = 0 ∧ m.outputTokens = 0 := by
    by_cases hzero : m.inputTokens = 0 ∧ m.outputTokens = 0
    · simp [hzero]
    · simp [hzero]
  constructor
  · intro h
    have hcontent := List.cons.inj h.content |>.1
    have htoolCalls := List.cons.inj h.toolCalls |>.1
    have hfinish := List.cons.inj h.finishReason |>.1
    refine ⟨htokens.mp h.usage, (join_eq_intercalate_iff m.texts).mp hcontent,
      hcalls.mp ((map_missing_eq_iff _ _ _).mp htoolCalls), fun hstop => htools.mp ?_⟩
    rw [hstop] at hfinish
    by_contra hsome
    simp [hsome] at hfinish
  · intro h
    refine ⟨?_, ?_, ?_, htokens.mpr h.tokens⟩
    · exact congrArg (fun content => [content]) ((join_eq_intercalate_iff m.texts).mpr h.texts)
    · exact congrArg (fun calls => [calls])
        ((map_missing_eq_iff _ _ _).mpr (hcalls.mpr h.inputs))
    · cases hstop : m.stopReason with
      | none => simp [htools.mpr (h.stopReason hstop)]
      | some stop => simp

end Fragmentation

section Sample

/-- A message of one text. -/
def sampleMessage : AnthropicMessage := ⟨"msg", "model", [.text "Hi"], some "end_turn", 3, 2⟩

/-- Its text in two pieces. -/
def samplePieces : Fragmentation sampleHost.floats sampleMessage where
  pieces := [["H", "i"]]
  outputTokens := 1
  counts := []
  cut := List.Forall₂.cons rfl .nil

/-- The tokens that a stream reports beside the delta are lost. -/
theorem streamed_tokens_lost : ∃ deltas whole,
    streamToDeltas sampleHost (samplePieces.events.map StreamEvent.payload) = .ok deltas ∧
      normalizeAnthropicResponse sampleHost sampleMessage.payload = .ok whole ∧
      ¬ (accumulateStreamToResponse sampleHost.floats "model" deltas).Agree whole := by
  refine ⟨_, _, streamToDeltas_payload sampleHost samplePieces.events,
    normalizeAnthropicResponse_payload sampleHost sampleMessage, fun h => ?_⟩
  have husage := h.usage
  rw [samplePieces.accumulate_events sampleHost "model"] at husage
  exact absurd husage (by decide)

end Sample

end OpenRath
