import OpenRath.Library.Buckets
import OpenRath.Llm.Streaming

/-!
# Messages of the chat completions API

How a whole message becomes one of ours (`src/rath/llm/openai/normalize.py`), and how the same
message is put together when it arrives in fragments: its text is cut into pieces, and so are the
name and the arguments of every tool call, and what belongs to different calls may be shuffled.

## Main definitions

* `normalizeToolCalls`, `normalizeAssistantMessage`: whole messages.
* `accumulateStreaming`: `_accumulate_stream_to_response` with its callback.
* `WholeMessage`, `Cut`, `Interleaves`: a message, its fragments, and the streams they make.

## Main results

* `accumulateStreaming_eq`: the callback sees every delta once and in order.
* `Interleaves.accumulated`: every stream of every cut amounts to the whole message.
-/

namespace OpenRath

/-! ### Whole messages -/

section Normalize

variable (host : Host)

/-- The tool call of an entry of `tool_calls`. -/
def normalizeToolCall (raw : Json) : Except Exn RathLLMToolCallPart := do
  let raw ← asMapping raw
  let fnRaw : JsonObject := match raw.getD "function" with
    | .obj fields => fields
    | _ => []
  let argStr := host.texts.text (fnRaw.getOr "arguments" (.str ""))
  let parsed := parseToolArguments host.floats argStr
  .ok
    { id := host.texts.text (raw.getOr "id" (.str ""))
      type := host.texts.text (raw.getOr "type" (.str "function"))
      function :=
        { name := host.texts.text (fnRaw.getOr "name" (.str ""))
          arguments := argStr
          argumentsParsed := parsed.1
          argumentsParseError := parsed.2 } }

/-- `_normalize_tool_calls`. -/
def normalizeToolCalls (rawList : List Json) : Except Exn (Option (List RathLLMToolCallPart)) :=
  if rawList = [] then .ok none else some <$> rawList.mapM (normalizeToolCall host)

/-- `_str_or_none`. -/
def strOrNone : Json → Option String
  | .str s => some s
  | _ => none

/-- A message with what only this API gives. -/
structure OpenAIMessage extends RathLLMAssistantMessage where
  refusal : Option String
  reasoningContent : Option String
  functionCall : Option JsonObject
  annotations : Option (List JsonObject)

/-- `_normalize_assistant_message`. -/
def normalizeAssistantMessage (msg : JsonObject) : Except Exn OpenAIMessage := do
  let toolCalls ← match msg.getD "tool_calls" with
    | .arr items => normalizeToolCalls host items
    | _ => normalizeToolCalls host []
  .ok
    { content := strOrNone (msg.getD "content")
      toolCalls := toolCalls
      refusal := strOrNone (msg.getD "refusal")
      reasoningContent := strOrNone (msg.getD "reasoning_content")
      functionCall := match msg.getD "function_call" with
        | .obj fields => some fields
        | _ => none
      annotations := match msg.getD "annotations" with
        | .arr items => some (items.filterMap fun
          | .obj fields => some fields
          | _ => none)
        | _ => none }

end Normalize

/-! ### Streams with a callback -/

section Callback

variable {m : Type → Type} [Monad m] (onEvent : RathLLMStreamDelta → m Unit)

/-- `_accumulate_stream_to_response`, with the callback that each delta is given to. -/
def accumulateStreaming (fl : FloatText) (model : String) (deltas : List RathLLMStreamDelta) :
    m RathLLMChatResponse := do
  let s ← deltas.foldlM (fun s d => do
    onEvent d
    pure (Accumulated.add s d)) .start
  pure (s.response fl model)

/-- The callback is given every delta once and in order, and makes no difference to the response. -/
theorem accumulateStreaming_eq [LawfulMonad m] (fl : FloatText) (model : String)
    (deltas : List RathLLMStreamDelta) :
    accumulateStreaming onEvent fl model deltas =
      deltas.forM onEvent >>= fun _ => pure (accumulateStreamToResponse fl model deltas) := by
  have hfold : ∀ s : Accumulated,
      deltas.foldlM (fun s d => onEvent d >>= fun _ => pure (Accumulated.add s d)) s =
        deltas.forM onEvent >>= fun _ => pure (deltas.foldl Accumulated.add s) := by
    induction deltas with
    | nil => simp
    | cons d deltas ih =>
      intro s
      rw [List.foldlM_cons, List.foldl_cons, bind_assoc]
      simp only [pure_bind, ih]
      exact (bind_assoc (onEvent d) (fun _ => deltas.forM onEvent) _).symm
  rw [accumulateStreaming, hfold]
  simp [accumulateStreamToResponse]

/-- The callback that notes the deltas it is given. -/
def noteDelta (d : RathLLMStreamDelta) : StateM (List RathLLMStreamDelta) Unit :=
  modify fun seen => seen ++ [d]

theorem run_forM_noteDelta (deltas seen : List RathLLMStreamDelta) :
    (deltas.forM noteDelta).run seen = ((), seen ++ deltas) := by
  induction deltas generalizing seen with
  | nil => exact congrArg (Prod.mk ()) (List.append_nil seen).symm
  | cons d deltas ih =>
    have hcons : ((d :: deltas).forM noteDelta).run seen =
        (deltas.forM noteDelta).run (seen ++ [d]) := rfl
    rw [hcons, ih, List.append_assoc, List.singleton_append]

end Callback

/-! ### Fragments -/

/-- A tool call of a whole message, with its place among the calls. -/
structure WholeCall where
  index : ℤ
  id : String
  name : String
  arguments : String

/-- A whole message. Its text is absent or not empty, and its calls have different indices. -/
structure WholeMessage where
  content : Option String
  calls : Table WholeCall.index
  content_ne_empty : content ≠ some ""

/-- A fragment of a tool call. -/
structure ToolFragment where
  id : Option String := none
  name : Option String := none
  arguments : Option String := none

/-- The fragments of a tool call: the name and the arguments are cut into pieces, and the id comes
with at least one fragment. -/
structure WholeCall.Cut (call : WholeCall) (fragments : List ToolFragment) : Prop where
  id : ∀ f ∈ fragments, f.id = none ∨ f.id = some call.id
  has_id : ∃ f ∈ fragments, f.id = some call.id
  name : String.join (fragments.map fun f => f.name.getD "") = call.name
  arguments : String.join (fragments.map fun f => f.arguments.getD "") = call.arguments

/-- The fragments of a message: the pieces of its text and the fragments of its calls. -/
structure Cut (m : WholeMessage) where
  text : List String
  fragments : ℤ → List ToolFragment
  text_join : String.join text = m.content.getD ""
  calls : ∀ call ∈ m.calls.rows, call.Cut (fragments call.index)

namespace RathLLMStreamDelta

/-- The delta has to do with a tool call. -/
def HasTool (d : RathLLMStreamDelta) : Prop :=
  d.toolCallIndex.isSome ∨ d.toolCallId.isSome ∨ d.toolCallNameDelta.isSome ∨
    d.toolCallArgsDelta.isSome

/-- What a delta has of the tool call with an index. -/
def fragment? (index : ℤ) (d : RathLLMStreamDelta) : Option ToolFragment :=
  if d.toolCallIndex = some index then
    some ⟨d.toolCallId, d.toolCallNameDelta, d.toolCallArgsDelta⟩
  else none

end RathLLMStreamDelta

/-- A stream of the fragments of a message: the pieces of the text are in order, and so are the
fragments of each call, all of which carry its index. A delta may have both, or neither. -/
structure Interleaves {m : WholeMessage} (c : Cut m) (deltas : List RathLLMStreamDelta) : Prop where
  text : deltas.filterMap RathLLMStreamDelta.contentDelta = c.text
  fragments : ∀ call ∈ m.calls.rows,
    deltas.filterMap (RathLLMStreamDelta.fragment? call.index) = c.fragments call.index
  index : ∀ d ∈ deltas, d.HasTool → ∃ call ∈ m.calls.rows, d.toolCallIndex = some call.index

/-- A tool call as the API gives it in a whole message. -/
def WholeCall.raw (call : WholeCall) : Json :=
  .obj [("function", .obj [("arguments", .str call.arguments), ("name", .str call.name)]),
    ("id", .str call.id), ("type", .str "function")]

namespace WholeMessage

/-- The calls of a message in the order of their indices. -/
def ordered (m : WholeMessage) : List WholeCall :=
  m.calls.rows.mergeSort fun call call' => call.index ≤ call'.index

/-- A message as the API gives it as a whole. -/
def raw (m : WholeMessage) : JsonObject :=
  [("content", .ofText? m.content), ("role", .str "assistant"),
    ("tool_calls", .arr (m.ordered.map WholeCall.raw))]

end WholeMessage

/-- The call that a whole call becomes. -/
def WholeCall.part (fl : FloatText) (call : WholeCall) : RathLLMToolCallPart :=
  Accumulated.toolCallPart fl ⟨call.id, call.name, call.arguments⟩

section Whole

variable (host : Host)

theorem normalizeToolCall_raw (call : WholeCall) :
    normalizeToolCall host call.raw = .ok (call.part host.floats) := by
  obtain ⟨fields, hfields⟩ : ∃ fields : JsonObject, call.raw = .obj fields := ⟨_, rfl⟩
  have hfunction : fields.getD "function" =
      .obj [("arguments", .str call.arguments), ("name", .str call.name)] := by
    cases hfields
    rfl
  have hid : fields.getOr "id" (.str "") = .str call.id := by
    cases hfields
    exact orElse_str_empty call.id
  have htype : fields.getOr "type" (.str "function") = .str "function" := by
    cases hfields
    rfl
  have harguments : JsonObject.getOr
      [("arguments", .str call.arguments), ("name", .str call.name)] "arguments" (.str "") =
        .str call.arguments := orElse_str_empty call.arguments
  have hname : JsonObject.getOr
      [("arguments", .str call.arguments), ("name", .str call.name)] "name" (.str "") =
        .str call.name := orElse_str_empty call.name
  simp [normalizeToolCall, hfields, asMapping, Bind.bind, Except.bind, hfunction, hid, htype,
    harguments, hname, WholeCall.part, Accumulated.toolCallPart]

/-- What becomes of a whole message. -/
theorem normalizeAssistantMessage_raw (m : WholeMessage) :
    normalizeAssistantMessage host m.raw =
      .ok ⟨⟨m.content, if m.ordered = [] then none
        else some (m.ordered.map (WholeCall.part host.floats))⟩, none, none, none, none⟩ := by
  have hcalls : normalizeToolCalls host (m.ordered.map WholeCall.raw) =
      .ok (if m.ordered = [] then none
        else some (m.ordered.map (WholeCall.part host.floats))) := by
    rw [normalizeToolCalls]
    by_cases hnil : m.ordered = []
    · simp [hnil]
    · have hparts : ∀ calls : List WholeCall,
          (calls.map WholeCall.raw).mapM (normalizeToolCall host) =
            .ok (calls.map (WholeCall.part host.floats)) := by
        intro calls
        induction calls with
        | nil => rfl
        | cons call calls ih =>
          rw [List.map_cons, List.mapM_cons, normalizeToolCall_raw, ih]
          rfl
      rw [hparts, if_neg (by simpa using hnil), if_neg hnil]
      rfl
  have hlist : m.raw.getD "tool_calls" = .arr (m.ordered.map WholeCall.raw) := rfl
  have hcontent : strOrNone (m.raw.getD "content") = m.content := by
    have hget : m.raw.getD "content" = .ofText? m.content := rfl
    rw [hget]
    rcases m.content with _ | content <;> rfl
  rw [normalizeAssistantMessage, hlist, hcontent]
  dsimp only
  rw [hcalls]
  rfl

end Whole

/-! ### What fragments amount to -/

section Accumulation

open Accumulated

/-- What a delta adds to the bucket of its call. -/
def ToolBucket.add (bucket : ToolBucket) (d : RathLLMStreamDelta) : ToolBucket where
  id := if given d.toolCallId = "" then bucket.id else given d.toolCallId
  name := bucket.name ++ given d.toolCallNameDelta
  arguments := bucket.arguments ++ given d.toolCallArgsDelta

/-- How deltas are added to the buckets of the tool calls. -/
def toolBucketing : Bucketing ℤ ToolBucket RathLLMStreamDelta where
  key d :=
    if d.toolCallIndex.isSome ∨ d.toolCallId.isSome then some (d.toolCallIndex.getD 0) else none
  init := ⟨"", "", ""⟩
  add := ToolBucket.add

theorem addToolCall_eq_step (buckets : ToolBuckets) (d : RathLLMStreamDelta) :
    addToolCall buckets d = toolBucketing.step buckets d := by
  rw [addToolCall, Bucketing.step, toolBucketing]
  dsimp only
  split_ifs with hkey hid
  · simp only [ToolBucket.add, hid, if_true]
  · simp only [ToolBucket.add, hid, if_false]
  · rfl

/-- The state after deltas. -/
theorem foldl_add (deltas : List RathLLMStreamDelta) (s : Accumulated) :
    (deltas.foldl add s).textParts = s.textParts ++
        (deltas.filterMap RathLLMStreamDelta.contentDelta).flatMap StreamEvent.pieceOf ∧
      (deltas.foldl add s).toolBuckets = deltas.foldl toolBucketing.step s.toolBuckets := by
  induction deltas generalizing s with
  | nil => exact ⟨by simp, rfl⟩
  | cons d deltas ih =>
    obtain ⟨htext, hbuckets⟩ := ih (add s d)
    refine ⟨?_, ?_⟩
    · rw [List.foldl_cons, htext]
      rcases hcontent : d.contentDelta with _ | text
      · simp [add, given, hcontent]
      · by_cases hempty : text = "" <;> simp [add, given, hcontent, StreamEvent.pieceOf, hempty]
    · rw [List.foldl_cons, hbuckets, List.foldl_cons, ← addToolCall_eq_step]
      rfl

theorem foldl_toolBucket_add (deltas : List RathLLMStreamDelta) (bucket : ToolBucket) :
    (deltas.foldl ToolBucket.add bucket).name =
        bucket.name ++ String.join (deltas.map fun d => given d.toolCallNameDelta) ∧
      (deltas.foldl ToolBucket.add bucket).arguments =
        bucket.arguments ++ String.join (deltas.map fun d => given d.toolCallArgsDelta) := by
  induction deltas generalizing bucket with
  | nil => simp
  | cons d deltas ih =>
    obtain ⟨hname, harguments⟩ := ih (bucket.add d)
    rw [List.foldl_cons, hname, harguments, List.map_cons, List.map_cons, String.join_cons,
      String.join_cons, ← String.append_assoc, ← String.append_assoc]
    exact ⟨rfl, rfl⟩

/-- An id that comes at least once, and no other, is that of the bucket. -/
theorem id_foldl_toolBucket_add {deltas : List RathLLMStreamDelta} {id : String}
    (hid : ∀ d ∈ deltas, d.toolCallId = none ∨ d.toolCallId = some id) {bucket : ToolBucket}
    (hbucket : bucket.id = "" ∨ bucket.id = id)
    (hsome : bucket.id = id ∨ ∃ d ∈ deltas, d.toolCallId = some id) :
    (deltas.foldl ToolBucket.add bucket).id = id := by
  induction deltas generalizing bucket with
  | nil => simpa using hsome
  | cons d deltas ih =>
    have hrest : ∀ d ∈ deltas, d.toolCallId = none ∨ d.toolCallId = some id :=
      fun d hd => hid d (List.mem_cons_of_mem _ hd)
    rw [List.foldl_cons]
    rcases hid d List.mem_cons_self with hnone | hd
    · have hsame : (bucket.add d).id = bucket.id := by simp [ToolBucket.add, given, hnone]
      refine ih hrest (by rwa [hsame]) ?_
      rw [hsame]
      exact hsome.imp_right fun h => by simpa [hnone] using h
    · have hset : (bucket.add d).id = id := by
        by_cases hempty : id = ""
        · rw [hempty, or_self] at hbucket
          simp [ToolBucket.add, given, hd, hempty, hbucket]
        · simp [ToolBucket.add, given, hd, hempty]
      exact ih hrest (Or.inr hset) (Or.inl hset)

/-- The fragments of a call amount to the call. -/
theorem WholeCall.Cut.foldl {call : WholeCall} {deltas : List RathLLMStreamDelta}
    (h : call.Cut (deltas.filterMap (RathLLMStreamDelta.fragment? call.index)))
    (hindex : ∀ d ∈ deltas, d.toolCallIndex = some call.index) :
    deltas.foldl ToolBucket.add ⟨"", "", ""⟩ = ⟨call.id, call.name, call.arguments⟩ := by
  have hfragments : deltas.filterMap (RathLLMStreamDelta.fragment? call.index) =
      deltas.map fun d => ⟨d.toolCallId, d.toolCallNameDelta, d.toolCallArgsDelta⟩ := by
    rw [← List.filterMap_eq_map]
    refine List.filterMap_congr fun d hd => ?_
    rw [RathLLMStreamDelta.fragment?, if_pos (hindex d hd)]
    rfl
  rw [hfragments] at h
  obtain ⟨hname, harguments⟩ := foldl_toolBucket_add deltas ⟨"", "", ""⟩
  have hid : (deltas.foldl ToolBucket.add ⟨"", "", ""⟩).id = call.id :=
    id_foldl_toolBucket_add (fun d hd => h.id _ (List.mem_map_of_mem hd)) (Or.inl rfl)
      (Or.inr (by simpa using h.has_id))
  have hname' : (deltas.foldl ToolBucket.add ⟨"", "", ""⟩).name = call.name := by
    rw [hname, String.empty_append, ← h.name, List.map_map]
    rfl
  have harguments' : (deltas.foldl ToolBucket.add ⟨"", "", ""⟩).arguments = call.arguments := by
    rw [harguments, String.empty_append, ← h.arguments, List.map_map]
    rfl
  rw [← hid, ← hname', ← harguments']

/-- The calls of a message are in the order of their indices. -/
theorem WholeMessage.ordered_pairwise (m : WholeMessage) :
    (m.ordered.map WholeCall.index).Pairwise (· < ·) := by
  have hperm : m.ordered.Perm m.calls.rows := List.mergeSort_perm _ _
  have hnodup : (m.ordered.map WholeCall.index).Nodup :=
    ((hperm.map WholeCall.index).nodup_iff).mpr m.calls.nodup
  have hsorted : m.ordered.Pairwise fun call call' => call.index ≤ call'.index := by
    simpa [ordered] using @List.pairwise_mergeSort _
      (fun call call' : WholeCall => decide (call.index ≤ call'.index))
      (fun a b c => by simpa using le_trans) (fun a b => by simpa using le_total a.index b.index)
      m.calls.rows
  exact ((List.pairwise_map.mpr hsorted).and hnodup).imp fun h => lt_of_le_of_ne h.1 h.2

theorem WholeMessage.mem_ordered {m : WholeMessage} {call : WholeCall} :
    call ∈ m.ordered ↔ call ∈ m.calls.rows := (List.mergeSort_perm _ _).mem_iff

namespace Interleaves

variable {m : WholeMessage} {c : Cut m} {deltas : List RathLLMStreamDelta}

/-- The key of a delta of a stream is its index. -/
theorem key_eq (h : Interleaves c deltas) {d : RathLLMStreamDelta} (hd : d ∈ deltas) :
    toolBucketing.key d = d.toolCallIndex := by
  rw [toolBucketing]
  dsimp only
  by_cases htool : d.HasTool
  · obtain ⟨call, -, hindex⟩ := h.index d hd htool
    simp [hindex]
  · have hindex : d.toolCallIndex = none := by simpa using fun h => htool (Or.inl h)
    have hid : d.toolCallId = none := by simpa using fun h => htool (Or.inr (Or.inl h))
    simp [hindex, hid]

/-- The items of the bucket of a call are the deltas with its index. -/
theorem items_eq (h : Interleaves c deltas) (k : ℤ) :
    toolBucketing.items deltas k = deltas.filter fun d => d.toolCallIndex = some k :=
  List.filter_congr fun d hd => by rw [h.key_eq hd]

/-- The deltas of a call amount to it. -/
theorem foldl_items (h : Interleaves c deltas) {call : WholeCall} (hcall : call ∈ m.calls.rows) :
    (toolBucketing.items deltas call.index).foldl ToolBucket.add ⟨"", "", ""⟩ =
      ⟨call.id, call.name, call.arguments⟩ := by
  rw [h.items_eq]
  refine WholeCall.Cut.foldl ?_ fun d hd => by simpa using (List.mem_filter.mp hd).2
  have hcut := c.calls call hcall
  rw [← h.fragments call hcall] at hcut
  convert hcut using 1
  rw [List.filterMap_filter]
  refine List.filterMap_congr fun d _ => ?_
  by_cases hindex : d.toolCallIndex = some call.index <;>
    simp [RathLLMStreamDelta.fragment?, hindex]

/-- There are buckets for the calls of the message, and no others. -/
theorem mem_ordered_iff (h : Interleaves c deltas) (k : ℤ) :
    k ∈ m.ordered.map WholeCall.index ↔ toolBucketing.items deltas k ≠ [] := by
  rw [h.items_eq, List.mem_map]
  constructor
  · rintro ⟨call, hcall, rfl⟩ hnil
    obtain ⟨f, hf, -⟩ := (c.calls call (WholeMessage.mem_ordered.mp hcall)).has_id
    rw [← h.fragments call (WholeMessage.mem_ordered.mp hcall), List.mem_filterMap] at hf
    obtain ⟨d, hd, hfragment⟩ := hf
    have hindex : d.toolCallIndex = some call.index := by
      by_contra hne
      rw [RathLLMStreamDelta.fragment?, if_neg hne] at hfragment
      exact nomatch hfragment
    exact List.not_mem_nil (hnil ▸ List.mem_filter.mpr ⟨hd, by simpa using hindex⟩)
  · intro hitems
    obtain ⟨d, hd⟩ := List.exists_mem_of_ne_nil _ hitems
    obtain ⟨hmem, hindex⟩ := List.mem_filter.mp hd
    have hindex : d.toolCallIndex = some k := by simpa using hindex
    obtain ⟨call, hcall, hcallIndex⟩ := h.index d hmem (Or.inl (by simp [hindex]))
    exact ⟨call, WholeMessage.mem_ordered.mpr hcall, Option.some.inj (hcallIndex.symm.trans hindex)⟩

/-- The tool calls of the response are those of the whole message. -/
theorem toolCalls_eq (h : Interleaves c deltas) (fl : FloatText) :
    (deltas.foldl add .start).toolCalls fl =
      if m.ordered = [] then none else some (m.ordered.map (WholeCall.part fl)) := by
  have hbuckets := (foldl_add deltas .start).2
  have hsorted := toolBucketing.mergeSort_foldl m.ordered_pairwise h.mem_ordered_iff
  have hparts : ((deltas.foldl add .start).toolBuckets.rows.mergeSort fun b b' => b.1 ≤ b'.1).map
      (fun b => toolCallPart fl b.2) = m.ordered.map (WholeCall.part fl) := by
    rw [hbuckets]
    refine (congrArg (List.map fun b => toolCallPart fl b.2) hsorted).trans ?_
    rw [List.map_map, List.map_map]
    refine List.map_congr_left fun call hcall => ?_
    exact congrArg (toolCallPart fl) (h.foldl_items (WholeMessage.mem_ordered.mp hcall))
  have hnil : (deltas.foldl add .start).toolBuckets.rows = [] ↔ m.ordered = [] := by
    rw [← List.map_eq_nil_iff (f := WholeCall.part fl), ← hparts, List.map_eq_nil_iff]
    refine ⟨fun hrows => by rw [hrows, List.mergeSort_nil], fun hrows => ?_⟩
    have hperm := List.mergeSort_perm (deltas.foldl add .start).toolBuckets.rows
      fun b b' => b.1 ≤ b'.1
    exact (hrows ▸ hperm).symm.eq_nil
  simp only [toolCalls, hparts, hnil]

/-- The text of the response is that of the whole message. -/
theorem content_eq (h : Interleaves c deltas) :
    (if (deltas.foldl add .start).textParts = [] then none
      else some (String.join (deltas.foldl add .start).textParts)) = m.content := by
  have htext : (deltas.foldl add .start).textParts = c.text.flatMap StreamEvent.pieceOf := by
    rw [(foldl_add deltas .start).1, h.text]
    rfl
  have hnil := flatMap_pieceOf_eq_nil_iff c.text
  have hjoin := join_flatMap_pieceOf c.text
  rw [htext, hjoin, c.text_join]
  rw [c.text_join] at hnil
  rcases hcontent : m.content with _ | content
  · rw [if_pos (hnil.mpr (by rw [hcontent]; rfl))]
  · rw [if_neg fun h => m.content_ne_empty (by rw [hcontent]; simpa [hcontent] using hnil.mp h)]
    rfl

/-- **Fragmentation makes no difference.** Every stream of the fragments of a message, however the
message is cut and the fragments are shuffled, amounts to the message that the API gives as a whole:
the same text, and the same calls in the order of their indices, with what is read from their
arguments. The callback is given every delta once and in order. -/
theorem accumulated (h : Interleaves c deltas) (host : Host) (model : String)
    (seen : List RathLLMStreamDelta) :
    ∃ (whole : OpenAIMessage) (response : RathLLMChatResponse),
      normalizeAssistantMessage host m.raw = .ok whole ∧
      (accumulateStreaming noteDelta host.floats model deltas).run seen =
        (response, seen ++ deltas) ∧
      response.choices.map RathLLMChatChoice.message = [whole.toRathLLMAssistantMessage] ∧
      whole.content = m.content ∧
      (whole.toolCalls.getD []).map (fun part =>
          (part.id, part.function.name, part.function.arguments)) =
        m.ordered.map fun call => (call.id, call.name, call.arguments) := by
  refine ⟨_, accumulateStreamToResponse host.floats model deltas,
    normalizeAssistantMessage_raw host m, ?_, ?_, rfl, ?_⟩
  · rw [accumulateStreaming_eq, StateT.run_bind, run_forM_noteDelta]
    rfl
  · rw [accumulateStreamToResponse, response, List.map_singleton, h.content_eq,
      h.toolCalls_eq host.floats]
  · split_ifs with hnil
    · simp [hnil]
    · rw [Option.getD_some, List.map_map]
      rfl

end Interleaves

end Accumulation

namespace Sample

/-- The calls of the sample. -/
def wholeCalls : List WholeCall := [⟨1, "b", "list", ""⟩, ⟨0, "a", "read", "\x7b\"n\":1\x7d"⟩]

theorem nodup_wholeCalls : (wholeCalls.map WholeCall.index).Nodup := by simp [wholeCalls]

theorem greeting_ne_empty : some "Hello" ≠ some "" := by simp

/-- A message with a text and two calls. -/
def wholeMessage : WholeMessage := ⟨some "Hello", ⟨wholeCalls, nodup_wholeCalls⟩, greeting_ne_empty⟩

/-- The fragments of the calls of the sample. -/
def toolFragments (index : ℤ) : List ToolFragment :=
  if index = 0 then [⟨none, some "re", some "\x7b\"n"⟩, ⟨some "a", some "ad", some "\":1\x7d"⟩]
  else [⟨some "b", some "list", none⟩]

theorem cut_toolFragments :
    ∀ call ∈ wholeMessage.calls.rows, call.Cut (toolFragments call.index) := by
  intro call hcall
  obtain rfl | rfl : call = ⟨1, "b", "list", ""⟩ ∨ call = ⟨0, "a", "read", "\x7b\"n\":1\x7d"⟩ := by
    simpa [wholeMessage, wholeCalls] using hcall
  · exact ⟨by simp [toolFragments], by simp [toolFragments], rfl, rfl⟩
  · exact ⟨by simp [toolFragments], by simp [toolFragments], rfl, rfl⟩

/-- The sample cut into fragments. -/
def messageCut : Cut wholeMessage := ⟨["Hel", "lo"], toolFragments, rfl, cut_toolFragments⟩

/-- The fragments of the sample, shuffled. -/
def shuffled : List RathLLMStreamDelta :=
  [{ toolCallIndex := some 0, toolCallNameDelta := some "re", toolCallArgsDelta := some "\x7b\"n" },
    { contentDelta := some "Hel" },
    { toolCallIndex := some 1, toolCallId := some "b", toolCallNameDelta := some "list" },
    { contentDelta := some "lo", toolCallIndex := some 0, toolCallId := some "a",
      toolCallNameDelta := some "ad", toolCallArgsDelta := some "\":1\x7d" },
    { finishReason := some .toolCalls }]

theorem interleaves_shuffled : Interleaves messageCut shuffled where
  text := rfl
  fragments := by
    intro call hcall
    obtain rfl | rfl : call = ⟨1, "b", "list", ""⟩ ∨
        call = ⟨0, "a", "read", "\x7b\"n\":1\x7d"⟩ := by
      simpa [wholeMessage, wholeCalls] using hcall
    · rfl
    · rfl
  index := by
    simp [shuffled, RathLLMStreamDelta.HasTool, wholeMessage, wholeCalls]

/-- What the shuffled fragments amount to. -/
theorem shuffled_accumulated :
    ∃ (whole : OpenAIMessage) (response : RathLLMChatResponse),
      normalizeAssistantMessage sampleHost wholeMessage.raw = .ok whole ∧
      (accumulateStreaming noteDelta sampleHost.floats "model" shuffled).run [] =
        (response, shuffled) ∧
      response.choices.map RathLLMChatChoice.message = [whole.toRathLLMAssistantMessage] ∧
      whole.content = some "Hello" ∧
      (whole.toolCalls.getD []).map (fun part =>
          (part.id, part.function.name, part.function.arguments)) =
        wholeMessage.ordered.map fun call => (call.id, call.name, call.arguments) :=
  interleaves_shuffled.accumulated sampleHost "model" []

end Sample

end OpenRath
