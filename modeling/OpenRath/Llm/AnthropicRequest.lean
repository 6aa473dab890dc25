import OpenRath.Llm.Streaming
import OpenRath.Session.Transcript

/-!
# Requests to the Anthropic API

How a request becomes the keyword arguments of `messages.create`
(`src/rath/llm/anthropic/create_kwargs.py`). What the model has said before is sent again with every
request: its message became a response, the response a row of the session with one more row for the
result of each tool call, and the rows become messages again.

Fields of a request that this API does not know are left out, and so are contents that are lists.

## Main definitions

* `RathLLMChatRequest`, `AnthropicParts.add`, `buildAnthropicKwargs`.
* `AnthropicRound`, `AnthropicRound.turn`, `AnthropicRound.replay`: a message of the model with the
  results of its tool calls, its rows, and what is sent again of it.

## Main results

* `AnthropicRound.foldlM_add`: what is sent again of a round is what there was.
* `buildAnthropicKwargs_append`: messages that add nothing but entries change nothing else.
-/

namespace OpenRath

/-! ### Requests -/

/-- A tool that a model may call. -/
structure RathLLMFunctionTool where
  name : String
  parameters : JsonObject
  description : Option String
deriving DecidableEq

/-- A request. -/
structure RathLLMChatRequest where
  messages : List RathLLMMessage
  model : Option String := none
  tools : Option (List RathLLMFunctionTool) := none
  toolChoice : Option Json := none
  temperature : Option (BitVec 64) := none
  topP : Option (BitVec 64) := none
  maxCompletionTokens : Option ℤ := none
  maxTokens : Option ℤ := none
  /-- A text, or texts. -/
  stop : Option (String ⊕ List String) := none
  metadata : Option (List (String × String)) := none
  extraCreateArgs : JsonObject := []

/-- `_coerce_text`. -/
def coerceText (content : Option String) : String := content.getD ""

/-- `_tool_choice_for_anthropic`. -/
def toolChoiceForAnthropic : Option Json → Except Exn (Option Json)
  | some (.str "none") => .ok (some (.obj [("type", .str "none")]))
  | some (.str "required") => .ok (some (.obj [("type", .str "any")]))
  | some (.obj tc) =>
    if JsonObject.getD tc "type" = .str "function" then
      match (JsonObject.get? tc "function").getD (.obj []) with
      | .obj fn =>
        let name := JsonObject.getD fn "name"
        .ok (some (if name.truthy then .obj [("type", .str "tool"), ("name", name)] else .obj tc))
      | v => .error (.other "AttributeError" s!"'{v.typeName}' object has no attribute 'get'")
    else .ok (some (.obj tc))
  -- The choices "auto" and "", and what is no choice at all.
  | _ => .ok none

/-- A tool in the form of this API. -/
def toolForAnthropic (t : RathLLMFunctionTool) : Json :=
  let params : JsonObject :=
    if t.parameters = [] then [("type", .str "object"), ("properties", .obj [])] else t.parameters
  .obj ([("name", .str t.name), ("input_schema", .obj params)] ++
    (t.description.map fun text => ("description", Json.str text)).toList)

/-- `_tools_for_anthropic`. -/
def toolsForAnthropic : Option (List RathLLMFunctionTool) → Option Json
  | none | some [] => none
  | some tools => some (.arr (tools.map toolForAnthropic))

/-! ### Messages of a request -/

/-- The entry of a text. -/
def textEntry (role text : String) : Json := .obj [("role", .str role), ("content", .str text)]

/-- The entry of the result of a tool call. -/
def toolResultEntry (toolUseId content : String) : Json :=
  .obj [("role", .str "user"), ("content", .arr [.obj [("type", .str "tool_result"),
    ("tool_use_id", .str toolUseId), ("content", .str content)]])]

/-- The text block of a message with tool calls, which has none if there is no text. -/
def textBlock (text : String) : List Json :=
  if text = "" then [] else [(ContentBlock.text text).payload]

/-- What is made of the messages of a request: system prompts and entries. -/
structure AnthropicParts where
  systemParts : List String
  messages : List Json
deriving DecidableEq

section Parts

variable (fl : FloatText)

/-- The block of a tool call. -/
def toolUseBlock (tc : JsonObject) : Except Exn Json :=
  match tc.getOr "function" (.obj []) with
  | .obj fn =>
    let parsed := match JsonObject.getOr fn "arguments" (.str "") with
      | .str argStr => (parseToolArguments fl argStr).1
      -- `json.loads` takes texts only, and its `TypeError` is caught.
      | _ => none
    .ok (.obj [("type", .str "tool_use"), ("id", (tc.get? "id").getD (.str "")),
      ("name", (JsonObject.get? fn "name").getD (.str "")), ("input", .obj (parsed.getD []))])
  | v => .error (.other "AttributeError" s!"'{v.typeName}' object has no attribute 'get'")

namespace AnthropicParts

/-- An entry more. -/
def entry (s : AnthropicParts) (v : Json) : AnthropicParts :=
    { s with messages := s.messages ++ [v] }

/-- The use of a message. -/
def add (s : AnthropicParts) (m : RathLLMMessage) : Except Exn AnthropicParts :=
  match m.role with
  | .system | .developer => .ok { s with systemParts := s.systemParts ++ [coerceText m.content] }
  | .tool => .ok (s.entry (toolResultEntry (m.toolCallId.getD "") (coerceText m.content)))
  | .user => .ok (s.entry (textEntry "user" (coerceText m.content)))
  | .assistant =>
    if m.toolCalls.getD [] = [] then .ok (s.entry (textEntry "assistant" (coerceText m.content)))
    else do
      let blocks ← (m.toolCalls.getD []).mapM (toolUseBlock fl)
      .ok (s.entry (.obj [("role", .str "assistant"),
        ("content", .arr (textBlock (coerceText m.content) ++ blocks))]))

/-- The parts of the messages of a request. -/
def ofMessages (messages : List RathLLMMessage) : Except Exn AnthropicParts :=
  messages.foldlM (add fl) ⟨[], []⟩

/-- The field of the system prompts. -/
def system (s : AnthropicParts) : JsonObject :=
  if s.systemParts = [] then []
  else [("system", .str ("\n\n".intercalate (s.systemParts.filter (· ≠ ""))))]

end AnthropicParts

/-! ### Keyword arguments -/

/-- `dict.update`. -/
def JsonObject.update (o extra : JsonObject) : JsonObject :=
  extra.foldl (fun o f => o.insert f.1 f.2) o

/-- `first or second`, of numbers. -/
def countOr (first second : Option ℤ) : Option ℤ := if first.getD 0 = 0 then second else first

/-- `DEFAULT_MAX_TOKENS`. -/
def defaultMaxTokens : ℤ := 4096

namespace RathLLMChatRequest

variable (req : RathLLMChatRequest)

/-- The model of a request. -/
def modelOr (defaultModel : Option String) : String :=
  if req.model.getD "" = "" then defaultModel.getD "" else req.model.getD ""

/-- `max_tokens`. -/
def tokenLimit : ℤ :=
  (countOr (countOr req.maxTokens req.maxCompletionTokens) (some defaultMaxTokens)).getD 0

/-- `stop_sequences`. -/
def stopSequences : Option Json :=
  req.stop.map fun
    | .inl text => .arr [.str text]
    | .inr texts => .arr (texts.map .str)

/-- The fields that are set if they are given. -/
def optional (toolChoice : Option Json) : JsonObject :=
  [("temperature", req.temperature.map .float), ("top_p", req.topP.map .float),
    ("stop_sequences", req.stopSequences),
    ("metadata", req.metadata.map fun fields => .obj (fields.map fun f => (f.1, .str f.2))),
    ("tools", toolsForAnthropic req.tools), ("tool_choice", toolChoice)].filterMap
      fun f : String × Option Json => f.2.map fun v => (f.1, v)

/-- The keyword arguments, of the parts of the messages. -/
def kwargs (model : String) (parts : AnthropicParts) (toolChoice : Option Json) : JsonObject :=
  JsonObject.update
    (("model", .str model) :: ("messages", .arr parts.messages) ::
      ("max_tokens", .int req.tokenLimit) :: (parts.system ++ req.optional toolChoice))
    (req.extraCreateArgs.erase "stream")

end RathLLMChatRequest

/-- `build_anthropic_kwargs`, which is `build_anthropic_stream_kwargs` as well. -/
def buildAnthropicKwargs (req : RathLLMChatRequest) (defaultModel : Option String) :
    Except Exn JsonObject :=
  let model := req.modelOr defaultModel
  if model = "" then
    .error (.store
      (.valueError "model is required: set RathLLMChatRequest.model or Provider.model"))
  else do
    let parts ← AnthropicParts.ofMessages fl req.messages
    let toolChoice ← toolChoiceForAnthropic req.toolChoice
    .ok (req.kwargs model parts toolChoice)

end Parts

/-! ### Entries behind other entries -/

namespace JsonObject

variable {o extra : JsonObject} {k l : String}

theorem insert_of_mem (v : Json) (h : k ∈ o.map Prod.fst) :
    o.insert k v = o.map fun f => if f.1 = k then (k, v) else f := if_pos h

theorem mem_keys_insert {v : Json} (h : k ∈ o.map Prod.fst) : k ∈ (o.insert l v).map Prod.fst := by
  rw [JsonObject.insert]
  split_ifs
  · obtain ⟨f, hf, rfl⟩ := List.mem_map.mp h
    rw [List.map_map]
    refine List.mem_map.mpr ⟨f, hf, ?_⟩
    by_cases hl : f.1 = l <;> simp [hl]
  · rw [List.map_append]
    exact List.mem_append_left _ h

/-- A field that is there is set before another one or behind it. -/
theorem insert_insert_comm {v w : Json} (h : k ∈ o.map Prod.fst) (hkl : k ≠ l) :
    (o.insert l v).insert k w = (o.insert k w).insert l v := by
  rw [insert_of_mem w (mem_keys_insert h)]
  by_cases hl : l ∈ o.map Prod.fst
  · rw [insert_of_mem v hl, insert_of_mem v (mem_keys_insert hl), insert_of_mem w h, List.map_map,
      List.map_map]
    refine List.map_congr_left fun f _ => ?_
    by_cases hk : f.1 = k
    · simp [hk, hkl]
    · by_cases hf : f.1 = l <;> simp [hk, hf, hkl.symm]
  · have hl' : l ∉ (o.insert k w).map Prod.fst := by
      rw [insert_of_mem w h, List.map_map]
      intro hmem
      obtain ⟨f, hf, heq⟩ := List.mem_map.mp hmem
      by_cases hk : f.1 = k
      · exact hkl (by simpa [hk] using heq)
      · exact hl (List.mem_map.mpr ⟨f, hf, by simpa [hk] using heq⟩)
    rw [insert_of_not_mem hl, insert_of_not_mem hl', List.map_append, insert_of_mem w h]
    simp [hkl.symm]

/-- A field that is there and is not updated may be set before the update or behind it. -/
theorem update_insert {v : Json} (h : k ∈ o.map Prod.fst) (hextra : k ∉ extra.map Prod.fst) :
    (o.insert k v).update extra = (o.update extra).insert k v := by
  induction extra generalizing o with
  | nil => rfl
  | cons f extra ih =>
    rw [List.map_cons, List.mem_cons, not_or] at hextra
    show ((o.insert k v).insert f.1 f.2).update extra = ((o.insert f.1 f.2).update extra).insert k v
    rw [← ih (mem_keys_insert h) hextra.2, insert_insert_comm h hextra.1]

end JsonObject

section Append

variable {fl : FloatText} {req : RathLLMChatRequest} {defaultModel : Option String}
  {kwargs : JsonObject} {more : List RathLLMMessage} {entries : List Json}

namespace RathLLMChatRequest

/-- No other keyword argument depends on the entries. -/
theorem kwargs_messages (hextra : "messages" ∉ req.extraCreateArgs.map Prod.fst) (model : String)
    (systemParts : List String) (messages messages' : List Json) (toolChoice : Option Json) :
    req.kwargs model ⟨systemParts, messages'⟩ toolChoice =
      (req.kwargs model ⟨systemParts, messages⟩ toolChoice).insert "messages" (.arr messages') := by
  have hextra' : "messages" ∉ (req.extraCreateArgs.erase "stream").map Prod.fst := fun h =>
    hextra ((List.filter_sublist.map Prod.fst).subset h)
  have hoptional : ∀ f ∈ (AnthropicParts.mk systemParts messages).system ++ req.optional toolChoice,
      f.1 ≠ "messages" := by
    intro f hf hkey
    rcases List.mem_append.mp hf with hf | hf
    · rw [AnthropicParts.system] at hf
      split_ifs at hf
      · cases hf
      · cases List.mem_singleton.mp hf
        simp at hkey
    · obtain ⟨g, hg, hgf⟩ := List.mem_filterMap.mp hf
      obtain ⟨v, -, rfl⟩ := Option.map_eq_some_iff.mp hgf
      have hkeys : g.1 ∈ ["temperature", "top_p", "stop_sequences", "metadata", "tools",
          "tool_choice"] := List.mem_map_of_mem hg
      exact absurd (hkey ▸ hkeys) (by decide)
  rw [RathLLMChatRequest.kwargs, RathLLMChatRequest.kwargs, ← JsonObject.update_insert _ hextra',
    JsonObject.insert_of_mem]
  · congr 1
    rw [List.map_cons, List.map_cons, List.map_cons]
    congr 3
    exact ((List.map_congr_left fun f hf => if_neg (hoptional f hf)).trans (List.map_id _)).symm
  all_goals simp

end RathLLMChatRequest

/-- Messages that add nothing but entries behind those that are there change nothing else of the
keyword arguments. -/
theorem buildAnthropicKwargs_append (hextra : "messages" ∉ req.extraCreateArgs.map Prod.fst)
    (h : buildAnthropicKwargs fl req defaultModel = .ok kwargs)
    (hmore : ∀ s : AnthropicParts, more.foldlM (AnthropicParts.add fl) s =
      .ok { s with messages := s.messages ++ entries }) :
    ∃ old, kwargs.get? "messages" = some (.arr old) ∧
      buildAnthropicKwargs fl { req with messages := req.messages ++ more } defaultModel =
        .ok (kwargs.insert "messages" (.arr (old ++ entries))) := by
  rw [buildAnthropicKwargs] at h
  split_ifs at h with hmodel
  obtain ⟨parts, hparts, h⟩ := exists_of_bind_eq_ok h
  obtain ⟨toolChoice, hchoice, h⟩ := exists_of_bind_eq_ok h
  cases h
  refine ⟨parts.messages, ?_, ?_⟩
  · rw [req.kwargs_messages hextra _ parts.systemParts [] parts.messages]
    exact JsonObject.get?_insert_self ..
  · have hmodel' : ¬ ({ req with messages := req.messages ++ more } : RathLLMChatRequest).modelOr
        defaultModel = "" := hmodel
    have hparts' : AnthropicParts.ofMessages fl (req.messages ++ more) =
        .ok { parts with messages := parts.messages ++ entries } := by
      rw [AnthropicParts.ofMessages] at hparts ⊢
      rw [List.foldlM_append, hparts]
      exact hmore parts
    rw [buildAnthropicKwargs, if_neg hmodel']
    dsimp only
    rw [hparts', hchoice]
    exact congrArg Except.ok (req.kwargs_messages hextra _ parts.systemParts parts.messages _ _)

end Append

/-! ### Rounds -/

/-- The identifier, the name and the input of a tool call. -/
def ContentBlock.toolUse? : ContentBlock → Option (String × String × JsonObject)
  | text _ => none
  | toolUse id name input => some (id, name, input)

namespace AnthropicMessage

variable (m : AnthropicMessage)

/-- The tool calls of a message. -/
def toolUses : List (String × String × JsonObject) := m.content.filterMap ContentBlock.toolUse?

/-- The text of a message. -/
def joined : String := "\n".intercalate m.texts

/-- The text of a response to the message. -/
def text? : Option String := if m.texts = [] then none else some m.joined

/-- The tool calls of a response to the message. -/
def calls (host : Host) : List RathLLMToolCallPart :=
  m.content.filterMap (ContentBlock.wholeCall host)

/-- The inputs of its tools are read as they were written. -/
def Loadable (fl : FloatText) : Prop := ∀ u ∈ m.toolUses, (Json.obj u.2.2).Loadable fl

/-- What is sent again of a message: its text and behind it the blocks of its tool calls. -/
def replay : Json :=
  if m.toolUses = [] then textEntry "assistant" m.joined
  else .obj [("role", .str "assistant"), ("content", .arr (textBlock m.joined ++
    m.toolUses.map fun u => (ContentBlock.toolUse u.1 u.2.1 u.2.2).payload))]

end AnthropicMessage

/-- A message of the model with the results of its tool calls. -/
structure AnthropicRound where
  message : AnthropicMessage
  bodies : List String
  length_bodies : bodies.length = message.toolUses.length

/-- The part of a response that a tool call becomes. -/
def wholePart (fl : FloatText) (u : String × String × JsonObject) : RathLLMToolCallPart :=
  ⟨u.1, "function", ⟨u.2.1, String.ofList (dumps fl (.obj u.2.2)), some u.2.2, false⟩⟩

section Rounds

variable (host : Host)

namespace AnthropicMessage

variable (m : AnthropicMessage)

theorem calls_eq : m.calls host = m.toolUses.map (wholePart host.floats) := by
  rw [calls, toolUses, List.map_filterMap]
  refine List.filterMap_congr fun b _ => ?_
  cases b <;> rfl

/-- What a response to a message says. -/
theorem choice_of_normalize {resp : RathLLMChatResponse} {choice : RathLLMChatChoice}
    (h : normalizeAnthropicResponse host m.payload = .ok resp)
    (hchoice : resp.choices.head? = some choice) :
    choice.message.content = m.text? ∧ choice.message.toolCalls.getD [] = m.calls host := by
  rw [normalizeAnthropicResponse_payload] at h
  cases h
  cases hchoice
  refine ⟨rfl, ?_⟩
  dsimp only [calls]
  split_ifs with hnil
  · exact hnil.symm
  · rfl

end AnthropicMessage

namespace AnthropicRound

variable (r : AnthropicRound)

theorem length_calls : r.bodies.length = (r.message.calls host).length := by
  rw [r.message.calls_eq, List.length_map]
  exact r.length_bodies

/-- What a message becomes in a session, with the results of the tools. -/
def turn : Turn where
  content := r.message.text?
  calls := r.message.calls host
  bodies := r.bodies
  length_bodies := r.length_calls host

/-- What is sent again of a round: the message and an entry for each result. -/
def replay : List Json :=
  r.message.replay :: List.zipWith (fun u body => toolResultEntry u.1 body) r.message.toolUses
    r.bodies

end AnthropicRound

/-- The arguments of a tool call are what they were. -/
theorem toolUseBlock_toolCallWire {fl : FloatText} {u : String × String × JsonObject}
    (hu : (Json.obj u.2.2).Loadable fl) :
    toolUseBlock fl (toolCallWire (wholePart fl u)) =
      .ok (ContentBlock.toolUse u.1 u.2.1 u.2.2).payload := by
  have hload := loads_dumps fl hu
  have hne : String.ofList (dumps fl (.obj u.2.2)) ≠ "" := by
    intro hempty
    rw [String.ofList_eq_empty_iff.mp hempty] at hload
    cases hload
  have hparsed : parseToolArguments fl (String.ofList (dumps fl (.obj u.2.2))) =
      (some u.2.2, false) := by
    rw [parseToolArguments, if_neg hne, String.toList_ofList, hload]
  have hfunction : (toolCallWire (wholePart fl u)).getOr "function" (.obj []) =
      .obj [("name", .str u.2.1),
        ("arguments", .str (String.ofList (dumps fl (.obj u.2.2))))] := rfl
  have harguments : JsonObject.getOr
      [("name", .str u.2.1), ("arguments", .str (String.ofList (dumps fl (.obj u.2.2))))]
      "arguments" (.str "") = .str (String.ofList (dumps fl (.obj u.2.2))) := orElse_str_empty _
  rw [toolUseBlock, hfunction]
  dsimp only
  rw [harguments]
  dsimp only
  rw [hparsed]
  rfl

theorem mapM_toolUseBlock {fl : FloatText} {uses : List (String × String × JsonObject)}
    (huses : ∀ u ∈ uses, (Json.obj u.2.2).Loadable fl) :
    ((uses.map (wholePart fl)).map toolCallWire).mapM (toolUseBlock fl) =
      .ok (uses.map fun u => (ContentBlock.toolUse u.1 u.2.1 u.2.2).payload) := by
  induction uses with
  | nil => rfl
  | cons u uses ih =>
    obtain ⟨hu, huses⟩ := List.forall_mem_cons.mp huses
    rw [List.map_cons, List.map_cons, List.mapM_cons, toolUseBlock_toolCallWire hu, ih huses]
    rfl

theorem coerceText_text? (m : AnthropicMessage) : coerceText m.text? = m.joined := by
  rw [AnthropicMessage.text?, AnthropicMessage.joined]
  split_ifs with hnil
  · rw [hnil]
    rfl
  · rfl

namespace AnthropicRound

open AnthropicParts

variable {r : AnthropicRound}

/-- The entry of a message. -/
theorem add_message (hr : r.message.Loadable host.floats) (s : AnthropicParts) :
    add host.floats s (r.turn host).message = .ok (s.entry r.message.replay) := by
  have hrole : (r.turn host).message.role = .assistant := rfl
  have hcontent : coerceText (r.turn host).message.content = r.message.joined :=
    coerceText_text? r.message
  have hcalls : (r.turn host).message.toolCalls.getD [] =
      (r.message.toolUses.map (wholePart host.floats)).map toolCallWire := by
    rw [← r.message.calls_eq host]
    dsimp only [Turn.message, turn]
    split_ifs with hnil
    · rw [hnil]
      rfl
    · rfl
  rw [add, hrole]
  dsimp only
  rw [hcontent, hcalls, AnthropicMessage.replay]
  by_cases hnil : r.message.toolUses = []
  · rw [if_pos (by rw [hnil]; rfl), if_pos hnil]
  · rw [if_neg (by simpa using hnil), if_neg hnil, mapM_toolUseBlock hr]
    rfl

/-- The entries of results. -/
theorem foldlM_feedback (fl : FloatText) (uses : List (String × String × JsonObject))
    (bodies : List String) (s : AnthropicParts) :
    (Turn.feedback (uses.map (wholePart fl)) bodies).foldlM (add fl) s =
      .ok { s with messages := s.messages ++
        List.zipWith (fun u body => toolResultEntry u.1 body) uses bodies } := by
  induction uses generalizing bodies s with
  | nil => simp [Turn.feedback, pure, Except.pure]
  | cons u uses ih =>
    cases bodies with
    | nil => simp [Turn.feedback, pure, Except.pure]
    | cons body bodies =>
      have hrest := ih bodies (s.entry (toolResultEntry u.1 body))
      rw [List.map_cons, Turn.feedback, List.zipWith_cons_cons, List.foldlM_cons]
      refine hrest.trans ?_
      rw [AnthropicParts.entry, List.zipWith_cons_cons, List.append_assoc]
      rfl

/-- What is sent again of a round is what there was: the text, the tool calls with their
identifiers, names and inputs, and the result of each, and there are no entries besides. -/
theorem foldlM_add (hr : r.message.Loadable host.floats) (s : AnthropicParts) :
    ((r.turn host).message :: Turn.feedback (r.turn host).calls (r.turn host).bodies).foldlM
      (add host.floats) s = .ok { s with messages := s.messages ++ r.replay } := by
  have hcalls : (r.turn host).calls = r.message.toolUses.map (wholePart host.floats) :=
    r.message.calls_eq host
  rw [List.foldlM_cons, add_message host hr, hcalls]
  refine (foldlM_feedback host.floats _ _ _).trans ?_
  rw [AnthropicParts.entry, replay, List.append_assoc]
  rfl

/-- The messages of rounds. -/
def messages (rounds : List AnthropicRound) : List RathLLMMessage :=
  rounds.flatMap fun r => (r.turn host).message ::
    Turn.feedback (r.turn host).calls (r.turn host).bodies

theorem foldlM_messages {rounds : List AnthropicRound}
    (hrounds : ∀ r ∈ rounds, r.message.Loadable host.floats) (s : AnthropicParts) :
    (messages host rounds).foldlM (add host.floats) s =
      .ok { s with messages := s.messages ++ rounds.flatMap replay } := by
  induction rounds generalizing s with
  | nil => simp [messages, pure, Except.pure]
  | cons r rounds ih =>
    obtain ⟨hr, hrounds⟩ := List.forall_mem_cons.mp hrounds
    rw [messages, List.flatMap_cons, List.foldlM_append, foldlM_add host hr]
    refine (ih hrounds _).trans ?_
    rw [List.flatMap_cons, List.append_assoc]

/-- The rows of rounds become their messages. -/
theorem chunkTableToMessages_rounds (rounds : List AnthropicRound) :
    chunkTableToMessages host.texts (rounds.flatMap fun r => (r.turn host).rows) =
      .ok (messages host rounds) := by
  induction rounds with
  | nil => rfl
  | cons r rounds ih =>
    rw [messages, List.flatMap_cons, List.flatMap_cons]
    exact chunkTableToMessages_append_eq_ok host.texts
      ((r.turn host).chunkTableToMessages_rows host.texts) ih

end AnthropicRound

end Rounds

end OpenRath
