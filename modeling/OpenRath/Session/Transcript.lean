import OpenRath.Library.JsonLexical
import OpenRath.Llm.Chat

/-!
# Rows as messages

The rows of a session and the messages that they are sent as (`src/rath/session/chunk.py`,
`RathLLMMessage` of `src/rath/llm/chat_request.py`).

Models of providers take a transcript only if each message with tool calls is followed by the
results of its calls. A transcript that ends within a round of tool calls is an interrupted one.

## Main definitions

* `assistantTurnChunk`, `toolFeedbackChunk`, `chunkTableToMessages`.
* `ToolTranscript`: a transcript of which every round of tool calls is complete.
* `OpenRound`: a message with tool calls and the results of some of them, but not of all.

## Main results

* `ToolTranscript.take`: what is left of a transcript that is cut off.
* `not_toolTranscript_of_openRound`.
-/

namespace OpenRath

/-! ### Rows -/

/-- `user_text_chunk`. -/
def userTextChunk (text : String) : ChunkRow := ⟨.user, [("content", .str text)]⟩

/-- `system_text_chunk`. -/
def systemTextChunk (text : String) : ChunkRow := ⟨.system, [("content", .str text)]⟩

/-- A tool call in the form of the wire. -/
def toolCallWire (p : RathLLMToolCallPart) : JsonObject :=
  [("id", .str p.id), ("type", .str p.type),
    ("function", .obj [("name", .str p.function.name), ("arguments", .str p.function.arguments)])]

/-- `assistant_turn_chunk`. -/
def assistantTurnChunk (toolCalls : List RathLLMToolCallPart) (content : Option String) :
    ChunkRow :=
  ⟨.assistant, [("content", Json.ofText? content),
    ("tool_calls", if toolCalls = [] then .null
      else .arr (toolCalls.map fun p => .obj (toolCallWire p)))]⟩

/-- `tool_feedback_chunk`. -/
def toolFeedbackChunk (toolCallId name body : String) : ChunkRow :=
  ⟨.toolResult, [("tool_call_id", .str toolCallId), ("name", .str name), ("content", .str body)]⟩

/-! ### Messages -/

/-- Who speaks in a message. -/
inductive RathLLMRole
  | system
  | user
  | assistant
  | tool
  | developer
deriving DecidableEq

/-- A message. Its name is set nowhere. -/
structure RathLLMMessage where
  role : RathLLMRole
  content : Option String := none
  toolCallId : Option String := none
  toolCalls : Option (List JsonObject) := none
deriving DecidableEq

section Messages

variable (texts : Texts)

/-- `str(payload[key])`. -/
def textOf (payload : JsonObject) (key : String) : Except Exn String :=
  match payload.get? key with
  | some v => .ok (texts.text v)
  | none => .error (.store (.keyError key))

/-- `dict(item)` of the items. A list of pairs is rejected, of which Python makes a dictionary. -/
def dictsOf : List Json → Except Exn (List JsonObject)
  | [] => .ok []
  | .obj fields :: items => do
    let rest ← dictsOf items
    .ok (fields :: rest)
  | v :: _ => .error (.other "TypeError" s!"'{v.typeName}' object is not iterable")

/-- The tool calls of a payload. -/
def toolCallsOf (payload : JsonObject) : Except Exn (Option (List JsonObject)) :=
  let raw := payload.getD "tool_calls"
  if raw.truthy then
    match raw with
    | .arr items => (dictsOf items).map some
    | v => .error (.other "TypeError" s!"'{v.typeName}' object is not iterable")
  else .ok none

/-- The message of a row. -/
def messageOf (row : ChunkRow) : Except Exn RathLLMMessage :=
  match row.kind with
  | .system => do
    let content ← textOf texts row.payload "content"
    .ok { role := .system, content := some content }
  | .user => do
    let content ← textOf texts row.payload "content"
    .ok { role := .user, content := some content }
  | .assistant => do
    let content := match row.payload.getD "content" with
      | .null => none
      | v => some (texts.text v)
    let toolCalls ← toolCallsOf row.payload
    .ok { role := .assistant, content, toolCalls }
  | .toolResult => do
    let content ← textOf texts row.payload "content"
    let toolCallId ← textOf texts row.payload "tool_call_id"
    .ok { role := .tool, content := some content, toolCallId := some toolCallId }

/-- `chunk_table_to_messages`. -/
def chunkTableToMessages : List ChunkRow → Except Exn (List RathLLMMessage)
  | [] => .ok []
  | row :: rows => do
    let message ← messageOf texts row
    let messages ← chunkTableToMessages rows
    .ok (message :: messages)

theorem chunkTableToMessages_append (rows rows' : List ChunkRow) :
    chunkTableToMessages texts (rows ++ rows') = (do
      let messages ← chunkTableToMessages texts rows
      let messages' ← chunkTableToMessages texts rows'
      .ok (messages ++ messages')) := by
  induction rows with
  | nil =>
    rw [List.nil_append, chunkTableToMessages]
    cases chunkTableToMessages texts rows' <;> rfl
  | cons row rows ih =>
    rw [List.cons_append, chunkTableToMessages, chunkTableToMessages, ih]
    cases messageOf texts row with
    | error e => rfl
    | ok message =>
      cases chunkTableToMessages texts rows with
      | error e => rfl
      | ok messages => cases chunkTableToMessages texts rows' <;> rfl

theorem chunkTableToMessages_append_eq_ok {rows rows' : List ChunkRow}
    {messages messages' : List RathLLMMessage} (h : chunkTableToMessages texts rows = .ok messages)
    (h' : chunkTableToMessages texts rows' = .ok messages') :
    chunkTableToMessages texts (rows ++ rows') = .ok (messages ++ messages') := by
  rw [chunkTableToMessages_append, h, h']
  rfl

/-- The first rows are the first messages. -/
theorem exists_of_isPrefix {rows rows' : List ChunkRow} {messages : List RathLLMMessage}
    (hrows : rows' <+: rows) (h : chunkTableToMessages texts rows = .ok messages) :
    ∃ messages', messages' <+: messages ∧ chunkTableToMessages texts rows' = .ok messages' := by
  obtain ⟨rest, rfl⟩ := hrows
  rw [chunkTableToMessages_append] at h
  obtain ⟨first, hfirst, h⟩ := exists_of_bind_eq_ok h
  obtain ⟨second, -, h⟩ := exists_of_bind_eq_ok h
  cases h
  exact ⟨first, List.prefix_append _ _, hfirst⟩

end Messages

/-! ### Turns -/

/-- A completion with the results of its tool calls. -/
structure Turn where
  content : Option String
  calls : List RathLLMToolCallPart
  bodies : List String
  length_bodies : bodies.length = calls.length

/-- The rows of the results, in the order of the calls. -/
def feedbackRows (calls : List RathLLMToolCallPart) (bodies : List String) : List ChunkRow :=
  List.zipWith (fun tc body => toolFeedbackChunk tc.id tc.function.name body) calls bodies

/-- The rows of a turn. -/
def Turn.rows (t : Turn) : List ChunkRow :=
  assistantTurnChunk t.calls t.content :: feedbackRows t.calls t.bodies

/-! ### Transcripts -/

namespace RathLLMMessage

/-- The tool calls of a message of the assistant. -/
def calls (m : RathLLMMessage) : List JsonObject :=
  if m.role = .assistant then m.toolCalls.getD [] else []

/-- The identifiers of the tool calls. -/
def callIds (m : RathLLMMessage) : List (Option String) :=
  m.calls.map fun call =>
    match call.getD "id" with
    | .str id => some id
    | _ => none

end RathLLMMessage

/-- A transcript in which each message with tool calls is followed by one result for each of its
calls, and in which there are no other results. -/
inductive ToolTranscript : List RathLLMMessage → Prop
  | nil : ToolTranscript []
  | turn {m : RathLLMMessage} {tools messages : List RathLLMMessage} (hm : m.role ≠ .tool)
      (htools : ∀ t ∈ tools, t.role = .tool)
      (hids : (tools.map RathLLMMessage.toolCallId).Perm m.callIds) (h : ToolTranscript messages) :
      ToolTranscript (m :: (tools ++ messages))

/-- A message with tool calls, of which some have no result. -/
def OpenRound (messages : List RathLLMMessage) : Prop :=
  ∃ m tools missing, messages = m :: tools ∧ m.role ≠ .tool ∧ (∀ t ∈ tools, t.role = .tool) ∧
    missing ≠ [] ∧ (tools.map RathLLMMessage.toolCallId ++ missing).Perm m.callIds

namespace ToolTranscript

variable {messages : List RathLLMMessage}

theorem append {messages' : List RathLLMMessage} (h : ToolTranscript messages)
    (h' : ToolTranscript messages') : ToolTranscript (messages ++ messages') := by
  induction h with
  | nil => exact h'
  | turn hm htools hids _ ih =>
    rw [List.cons_append, List.append_assoc]
    exact turn hm htools hids ih

/-- What is left of a transcript that is cut off is a transcript, which may be followed by a round
that was interrupted. -/
theorem of_isPrefix {messages' : List RathLLMMessage} (h : ToolTranscript messages)
    (hpre : messages' <+: messages) : ∃ done rest, messages' = done ++ rest ∧
      ToolTranscript done ∧ (rest = [] ∨ OpenRound rest) := by
  induction h generalizing messages' with
  | nil => exact ⟨[], [], by rw [List.prefix_nil.mp hpre, List.append_nil], nil, Or.inl rfl⟩
  | @turn m tools messages hm htools hids _ ih =>
    cases messages' with
    | nil => exact ⟨[], [], rfl, nil, Or.inl rfl⟩
    | cons m' q =>
      obtain ⟨rfl, hq⟩ := List.cons_prefix_cons.mp hpre
      rcases List.prefix_or_prefix_of_prefix hq (List.prefix_append tools messages) with
        hshort | ⟨q', rfl⟩
      · obtain ⟨missing, rfl⟩ := hshort
        have hq' : ∀ t ∈ q, t.role = .tool := fun t ht => htools t (List.mem_append_left _ ht)
        rw [List.map_append] at hids
        by_cases hmissing : missing = []
        · subst hmissing
          rw [List.map_nil, List.append_nil] at hids
          refine ⟨m' :: (q ++ []), [], by simp, turn hm hq' hids nil, Or.inl rfl⟩
        · exact ⟨[], m' :: q, rfl, nil, Or.inr
            ⟨m', q, missing.map RathLLMMessage.toolCallId, rfl, hm,
            hq', by simpa using hmissing, hids⟩⟩
      · have hrest := (List.prefix_append_right_inj tools).mp hq
        obtain ⟨done, rest, hsplit, hdone, hopen⟩ := ih hrest
        refine ⟨m' :: (tools ++ done), rest, ?_, turn hm htools hids hdone, hopen⟩
        rw [hsplit, List.cons_append, List.append_assoc]

/-- The results behind a message are those of its calls. -/
theorem split {m : RathLLMMessage} (h : ToolTranscript (m :: messages)) :
    ((messages.takeWhile (·.role = .tool)).map RathLLMMessage.toolCallId).Perm m.callIds ∧
      ToolTranscript (messages.dropWhile (·.role = .tool)) := by
  generalize hall : m :: messages = all at h
  cases h with
  | nil => cases hall
  | @turn m' tools rest hm htools hids hrest =>
    obtain ⟨rfl, rfl⟩ := List.cons.inj hall
    have hstop : rest.takeWhile (·.role = .tool) = [] ∧ rest.dropWhile (·.role = .tool) = rest := by
      cases hrest with
      | nil => exact ⟨rfl, rfl⟩
      | turn hm' => exact ⟨List.takeWhile_cons_of_neg (by simpa using hm'),
          List.dropWhile_cons_of_neg (by simpa using hm')⟩
    rw [List.takeWhile_append_of_pos (by simpa using htools),
      List.dropWhile_append_of_pos (by simpa using htools), hstop.1, hstop.2, List.append_nil]
    exact ⟨hids, hrest⟩

/-- A transcript that ends with a round that was interrupted is not well-formed. -/
theorem not_append_openRound {rest : List RathLLMMessage} (h : ToolTranscript messages)
    (hopen : OpenRound rest) : ¬ ToolTranscript (messages ++ rest) := by
  obtain ⟨m, tools, missing, rfl, hm, htools, hmissing, hids⟩ := hopen
  induction h with
  | nil =>
    intro hall
    have hperm := hall.split.1
    rw [List.takeWhile_eq_self_iff.mpr (by simpa using htools)] at hperm
    have hlength := (hids.trans hperm.symm).length_eq
    rw [List.length_append, Nat.add_eq_left, List.length_eq_zero_iff] at hlength
    exact hmissing hlength
  | @turn m' tools' messages hm' htools' _ hmessages ih =>
    intro hall
    refine ih ?_
    rw [List.cons_append, List.append_assoc] at hall
    have hrest := hall.split.2
    rw [List.dropWhile_append_of_pos (by simpa using htools')] at hrest
    have hstop : (messages ++ m :: tools).dropWhile (·.role = .tool) = messages ++ m :: tools := by
      cases hmessages with
      | nil => exact List.dropWhile_cons_of_neg (by simpa using hm)
      | turn hm'' => exact List.dropWhile_cons_of_neg (by simpa using hm'')
    rwa [hstop] at hrest

end ToolTranscript

namespace Turn

variable (texts : Texts)

/-- The message of a completion. -/
def message (t : Turn) : RathLLMMessage where
  role := .assistant
  content := t.content
  toolCalls := if t.calls = [] then none else some (t.calls.map toolCallWire)

/-- The messages of results. -/
def feedback (calls : List RathLLMToolCallPart) (bodies : List String) : List RathLLMMessage :=
  List.zipWith (fun tc body => { role := .tool, content := some body, toolCallId := some tc.id })
    calls bodies

theorem dictsOf_map_obj (items : List JsonObject) :
    dictsOf (items.map fun fields => .obj fields) = .ok items := by
  induction items with
  | nil => rfl
  | cons fields items ih =>
    rw [List.map_cons, dictsOf, ih]
    rfl

theorem messageOf_assistantTurnChunk (t : Turn) :
    messageOf texts (assistantTurnChunk t.calls t.content) = .ok t.message := by
  have hcontent : (match Json.ofText? t.content with
      | .null => none
      | v => some (texts.text v)) = t.content := by
    cases t.content <;> rfl
  have hcalls : toolCallsOf (assistantTurnChunk t.calls t.content).payload =
      .ok (if t.calls = [] then none else some (t.calls.map toolCallWire)) := by
    rw [toolCallsOf]
    by_cases hnil : t.calls = []
    · rw [if_pos hnil, assistantTurnChunk, if_pos hnil]
      rfl
    · rw [if_neg hnil, assistantTurnChunk, if_neg hnil]
      have htruthy : (Json.arr (t.calls.map fun p => .obj (toolCallWire p))).truthy = true := by
        simpa [Json.truthy] using hnil
      have hdicts := dictsOf_map_obj (t.calls.map toolCallWire)
      rw [List.map_map] at hdicts
      exact (if_pos htruthy).trans (congrArg (Except.map some) hdicts)
  rw [messageOf, hcalls]
  exact congrArg (fun content => Except.ok { t.message with content := content }) hcontent

theorem chunkTableToMessages_feedbackRows (calls : List RathLLMToolCallPart)
    (bodies : List String) :
    chunkTableToMessages texts (feedbackRows calls bodies) = .ok (feedback calls bodies) := by
  induction calls generalizing bodies with
  | nil => rfl
  | cons tc calls ih =>
    cases bodies with
    | nil => rfl
    | cons body bodies =>
      have hrest := ih bodies
      rw [feedbackRows] at hrest
      rw [feedbackRows, List.zipWith_cons_cons, chunkTableToMessages, hrest]
      rfl

theorem role_of_mem_feedback {calls : List RathLLMToolCallPart} {bodies : List String}
    {m : RathLLMMessage} (h : m ∈ feedback calls bodies) : m.role = .tool := by
  induction calls generalizing bodies with
  | nil => cases h
  | cons tc calls ih =>
    cases bodies with
    | nil => cases h
    | cons body bodies =>
      rcases List.mem_cons.mp h with rfl | h
      · rfl
      · exact ih h

theorem map_toolCallId_feedback {calls : List RathLLMToolCallPart} {bodies : List String}
    (h : bodies.length = calls.length) :
    (feedback calls bodies).map RathLLMMessage.toolCallId = calls.map fun tc => some tc.id := by
  induction calls generalizing bodies with
  | nil => rfl
  | cons tc calls ih =>
    cases bodies with
    | nil => cases h
    | cons body bodies => exact congrArg (some tc.id :: ·) (ih (Nat.succ_injective h))

/-- The messages of a turn. -/
theorem chunkTableToMessages_rows (t : Turn) :
    chunkTableToMessages texts t.rows = .ok (t.message :: feedback t.calls t.bodies) := by
  rw [rows, chunkTableToMessages, messageOf_assistantTurnChunk, chunkTableToMessages_feedbackRows]
  rfl

theorem callIds_message (t : Turn) : t.message.callIds = t.calls.map fun tc => some tc.id := by
  rw [RathLLMMessage.callIds, RathLLMMessage.calls,
    if_pos (show t.message.role = .assistant from rfl),
    message]
  dsimp only
  split_ifs with hnil
  · rw [hnil]
    rfl
  · rw [Option.getD_some, List.map_map]
    rfl

/-- The messages of a turn are a transcript. -/
theorem toolTranscript (t : Turn) : ToolTranscript (t.message :: feedback t.calls t.bodies) := by
  rw [← List.append_nil (feedback t.calls t.bodies)]
  refine .turn (by simp [message]) (fun m hm => role_of_mem_feedback hm) ?_ .nil
  rw [map_toolCallId_feedback t.length_bodies, callIds_message]

/-- The messages of turns are a transcript. -/
theorem toolTranscript_turns (turns : List Turn) : ∃ messages,
    chunkTableToMessages texts (turns.flatMap rows) = .ok messages ∧ ToolTranscript messages := by
  induction turns with
  | nil => exact ⟨[], rfl, .nil⟩
  | cons t turns ih =>
    obtain ⟨messages, hmessages, htranscript⟩ := ih
    refine ⟨_, ?_, t.toolTranscript.append htranscript⟩
    rw [List.flatMap_cons]
    exact chunkTableToMessages_append_eq_ok texts (chunkTableToMessages_rows texts t) hmessages

end Turn

end OpenRath
