import OpenRath.Session.Loop

/-!
# Resuming a session

`PersistedSession.to_resumable_pair` (`src/rath/session/persistence/loader.py`) makes of a file that
was read the session of a user and that of an agent. The rows of the user are those of the file, as
they are. A crash may fall between the results of a round of tool calls, and then the transcript
ends with a round that was interrupted.

## Main definitions

* `ResumedSession`, `PersistedSession.toResumablePair`.

## Main results

* `resumed_transcript`.
-/

namespace OpenRath

open TextFile

/-- A session that is to be continued. -/
structure ResumedSession (Sandbox : Type) where
  rows : List ChunkRow
  sandboxBackend : Json
  sandboxOpenSpec : Option BackendSandboxSpec
  sandbox : Option Sandbox

/-- `Session.from_agent_prompt`. -/
def ResumedSession.fromAgentPrompt {Sandbox : Type} (prompt : String) : ResumedSession Sandbox :=
  ⟨[systemTextChunk prompt], .null, none, none⟩

section Resume

variable (host : Host)

/-- `_extract_system_prompt`. -/
def extractSystemPrompt (rows : List ChunkRow) : Option String :=
  match rows.find? (·.kind = .system) with
  | none => none
  | some row =>
    match row.payload.getD "content" with
    | .null => none
    | content => some (host.texts.text content)

namespace PersistedSession

variable {Sandbox : Type} (reattachRemote : UUID → Except Exn Sandbox)

/-- The sandbox to which the session of the user is bound. -/
def reattached (header : PersistedSessionHeader) : Except Exn (Option Sandbox) :=
  if header.sandboxBackend = .str "opensandbox" ∧ header.sandboxHandleId.truthy then
    match header.sandboxHandleId with
    | .str text =>
      match host.readings.uuid text with
      | .ok handle => (reattachRemote handle).map some
      | .error (.store (.valueError _)) => .ok none
      | .error e => .error e
    | v => .error (.other "AttributeError" s!"'{v.typeName}' object has no attribute 'replace'")
  else .ok none

/-- `to_resumable_pair`. -/
def toResumablePair (p : PersistedSession) (agentPrompt : Option String) :
    Except Exn (ResumedSession Sandbox × ResumedSession Sandbox) := do
  let sandbox ← reattached host reattachRemote p.header
  let user : ResumedSession Sandbox :=
    ⟨p.rows, p.header.sandboxBackend, p.header.sandboxSpec, sandbox⟩
  let agent : ResumedSession Sandbox :=
    match agentPrompt.or (extractSystemPrompt host p.rows) with
    | some prompt => .fromAgentPrompt prompt
    | none => ⟨[], .null, none, none⟩
  .ok (user, agent)

end PersistedSession

variable {host} {Sandbox W R : Type} {reattachRemote : UUID → Except Exn Sandbox}
  {table : String → Option FlowToolCall} {ex : Executor W R} {head : List RathLLMMessage}
  {maxToolRounds : ℕ} {world : W} {userRows : List ChunkRow} {s : LoopState W}
  {session : Session} {sandboxHandleId : Option String} {createdAt closedAt : Clock}
  {bytes : List UInt8} {path : String} {p : PersistedSession} {agentPrompt : Option String}
  {user agent : ResumedSession Sandbox}

theorem rows_of_toResumablePair
    (h : p.toResumablePair host reattachRemote agentPrompt = .ok (user, agent)) :
    user.rows = p.rows := by
  obtain ⟨sandbox, -, h⟩ := exists_of_bind_eq_ok h
  cases h
  rfl

/-- A session that is resumed from any prefix of the file of a loop has the first rows of the loop.
Its messages are a transcript, behind which there may be a round of which some results are missing:
then they are no transcript. -/
theorem resumed_transcript
    (hreached : LoopState.Reached host table ex head maxToolRounds world userRows s)
    (huser : ∃ messages, chunkTableToMessages host.texts userRows = .ok messages ∧
      ToolTranscript messages)
    (hback : host.ReadsBack session createdAt)
    (hloadable : ∀ record ∈ writtenRecords host session sandboxHandleId s.written s.written.length
      createdAt closedAt true, (Json.obj record).Loadable host.floats)
    (hpre : bytes <+: fileBytes host session sandboxHandleId createdAt s.written closedAt true)
    (hload : loadFile host path bytes = .ok p)
    (hpair : p.toResumablePair host reattachRemote agentPrompt = .ok (user, agent)) :
    user.rows <+: s.rows ∧ ∃ done rest,
      chunkTableToMessages host.texts user.rows = .ok (done ++ rest) ∧ ToolTranscript done ∧
        (rest = [] ∨ OpenRound rest) ∧ (ToolTranscript (done ++ rest) ↔ rest = []) := by
  have hinv := LoopState.inv_of_reached hreached
  have hrows : user.rows <+: s.rows := by
    have hwritten := rows_of_loadFile hback hloadable hpre hload
    rw [hinv.written, map_snd_positioned] at hwritten
    rwa [rows_of_toResumablePair hpair]
  obtain ⟨turns, hturns⟩ := hinv.exists_turns
  obtain ⟨userMessages, huserMessages, huserTranscript⟩ := huser
  obtain ⟨messages, hmessages, htranscript⟩ := Turn.toolTranscript_turns host.texts turns
  obtain ⟨cut, hcut, hcutMessages⟩ := exists_of_isPrefix host.texts (hrows.trans hturns)
    (chunkTableToMessages_append_eq_ok host.texts huserMessages hmessages)
  obtain ⟨done, rest, rfl, hdone, hopen⟩ := (huserTranscript.append htranscript).of_isPrefix hcut
  refine ⟨hrows, done, rest, hcutMessages, hdone, hopen, fun hall => ?_, fun hnil => ?_⟩
  · exact hopen.resolve_right fun hopen => hdone.not_append_openRound hopen hall
  · rw [hnil, List.append_nil]
    exact hdone

end Resume

/-! ### A loop -/

section Sample

open LoopState

/-- The rows of a loop that is waiting for a result. -/
def sampleInterrupted : List ChunkRow :=
  [userTextChunk "hi", assistantTurnChunk [sampleCall] (some "text")]

theorem reached_sampleInterrupted : ∃ s, SampleReached s ∧ s.rows = sampleInterrupted ∧
    s.written = positioned sampleInterrupted := by
  have h₁ : SampleReached _ := .refl
  exact ⟨_, h₁.tail (.toolCalls rfl (by decide) rfl (w := ()) rfl rfl rfl (by decide)), rfl, rfl⟩

theorem sampleInterrupted_loadable (closed : Bool) :
    ∀ record ∈ writtenRecords sampleHost sampleSession none (positioned sampleInterrupted) 2
      ⟨0, by decide⟩ ⟨0, by decide⟩ closed, (Json.obj record).Loadable sampleHost.floats := by
  have hdigits : ∀ n ∈ [0, 1, 2, 3, 4, 7], (dumpsInt n).countP Char.isDigit ≤ 4300 := by decide
  cases closed <;>
    simp [writtenRecords, trailers, buildHeader, buildChunkRecord, buildTrailer, chunkRecords,
      positioned, sampleInterrupted, userTextChunk, assistantTurnChunk, toolCallWire, sampleCall,
      sampleSession, lineageExtrasToJsonable, ExtraValue.jsonable, Json.ofText?, specToJsonable,
      cumulativeUsageToJsonable, schemaVersion, Json.Loadable, LoadableFields, LoadableItems,
      hdigits]

/-- The file of the rows, and the session that is resumed from it. -/
theorem resumed_sampleInterrupted : ∃ bytes p, ∃ user agent : ResumedSession Unit,
    bytes <+: fileBytes sampleHost sampleSession none ⟨0, by decide⟩ (positioned sampleInterrupted)
      ⟨0, by decide⟩ true ∧ loadFile sampleHost "" bytes = .ok p ∧
    p.toResumablePair sampleHost (fun _ => .ok ()) none = .ok (user, agent) ∧
    user.rows = sampleInterrupted := by
  have hone : ∀ record ∈ writtenRecords sampleHost sampleSession none
      (positioned sampleInterrupted) 2 ⟨0, by decide⟩ ⟨0, by decide⟩ false,
      (Json.obj record).OneLine := by decide +kernel
  refine ⟨_, _, _, _, ?_, loadFile_fileBytes sampleHost_readsBack (sampleInterrupted_loadable false)
    hone (show readSpec sampleHost sampleSession = .ok none from rfl), rfl, rfl⟩
  rw [fileBytes_closed]
  exact List.prefix_append _ _

theorem toolTranscript_user : ToolTranscript [{ role := .user, content := some "hi" }] :=
  @ToolTranscript.turn _ [] [] (by decide) (by simp) (.refl _) .nil

/-- A session that was interrupted while a tool was running. -/
theorem resumed_transcript_sample :
    ∃ (user : ResumedSession Unit) (done rest : List RathLLMMessage),
    user.rows = sampleInterrupted ∧
      chunkTableToMessages sampleHost.texts user.rows = .ok (done ++ rest) ∧
      ToolTranscript done ∧ (rest = [] ∨ OpenRound rest) := by
  obtain ⟨s, hreached, -, hwritten⟩ := reached_sampleInterrupted
  obtain ⟨bytes, p, user, agent, hpre, hload, hpair, huser⟩ := resumed_sampleInterrupted
  rw [← hwritten] at hpre
  have hloadable := sampleInterrupted_loadable true
  rw [show 2 = (positioned sampleInterrupted).length from rfl, ← hwritten] at hloadable
  obtain ⟨-, done, rest, hmessages, hdone, hopen, -⟩ := resumed_transcript hreached
    ⟨_, rfl, toolTranscript_user⟩ sampleHost_readsBack hloadable hpre hload hpair
  exact ⟨user, done, rest, huser, hmessages, hdone, hopen⟩

/-- The messages of the session are not those of a transcript. -/
theorem not_resumed_transcript : ∃ s, SampleReached s ∧ ∃ bytes p,
    ∃ user agent : ResumedSession Unit,
    bytes <+: fileBytes sampleHost sampleSession none ⟨0, by decide⟩ s.written ⟨0, by decide⟩ true ∧
    loadFile sampleHost "" bytes = .ok p ∧
    p.toResumablePair sampleHost (fun _ => .ok ()) none = .ok (user, agent) ∧
    ∃ messages, chunkTableToMessages sampleHost.texts user.rows = .ok messages ∧
      ¬ ToolTranscript messages := by
  obtain ⟨s, hreached, -, hwritten⟩ := reached_sampleInterrupted
  obtain ⟨bytes, p, user, agent, hpre, hload, hpair, huser⟩ := resumed_sampleInterrupted
  rw [← hwritten] at hpre
  refine ⟨s, hreached, bytes, p, user, agent, hpre, hload, hpair, _, by rw [huser]; rfl, ?_⟩
  exact toolTranscript_user.not_append_openRound
    ⟨_, [], [some "tc0"], rfl, by decide, by simp, by simp, .refl _⟩

end Sample

end OpenRath
