import OpenRath.Session.ToolRound
import OpenRath.Session.Persistence.AsyncWriter

/-!
# The session loop

`_arun_session_loop` (`src/rath/_async/aloop.py`) sends the rows of a session to a model and appends
the answer, until an answer has no tool calls and comes to a proper end. Its messages are rendered
piece by piece: those of the rows that have come since the last request are appended.

The counting of tokens, which may end the loop with an exception, is left out, as are the registry
of sessions and the marks of the lineage.

## Main definitions

* `LoopState`, `LoopState.Step`, `LoopState.Reached`, `LoopState.Returned`.
* `LoopState.Inv`: what is appended in the phases of a turn.

## Main results

* `LoopState.transcript_of_returned`.
-/

namespace OpenRath

/-- Where the loop stands. -/
inductive LoopPhase
  /-- Between two turns. -/
  | idle
  | dispatching (calls : List RathLLMToolCallPart) (round : RoundState)
  /-- The rows are still to be appended. -/
  | appending (rows : List ChunkRow)
  | finished
deriving DecidableEq

/-- The state of the session loop. -/
structure LoopState (W : Type) where
  world : W
  rows : List ChunkRow
  /-- The messages of the first rows, and how many these are. -/
  tailMessages : List RathLLMMessage
  tailRenderedUpTo : ℕ
  roundsUsed : ℕ
  phase : LoopPhase
  /-- The messages that were sent, each with the rows at this time. -/
  requests : List (List ChunkRow × List RathLLMMessage)
  /-- The calls of `awrite_chunk`, if there is a writer. -/
  written : List (ℤ × ChunkRow)

/-- Rows with their positions. -/
def positioned (rows : List ChunkRow) : List (ℤ × ChunkRow) :=
  rows.zipIdx.map fun r => ((r.2 : ℤ), r.1)

@[simp] theorem positioned_append_singleton (rows : List ChunkRow) (row : ChunkRow) :
    positioned (rows ++ [row]) = positioned rows ++ [((rows.length : ℤ), row)] := by
  simp [positioned, List.zipIdx_append]

@[simp] theorem map_snd_positioned (rows : List ChunkRow) :
    (positioned rows).map Prod.snd = rows := by
  rw [positioned, List.map_map]
  exact List.zipIdx_map_fst 0 rows

/-- The completions behind which the loop ends. -/
def RathLLMFinishReason.isFinal : RathLLMFinishReason → Bool
  | .stop | .length | .contentFilter => true
  | .toolCalls | .functionCall => false

/-- `primary_choice`. -/
def RathLLMChatResponse.primaryChoice? (resp : RathLLMChatResponse) : Option RathLLMChatChoice :=
  resp.choices.head?

namespace LoopState

section Steps

variable {W R : Type} (host : Host) (table : String → Option FlowToolCall) (ex : Executor W R)
  (head : List RathLLMMessage) (maxToolRounds : ℕ)

/-- The loop before its first turn. -/
def start (world : W) (userRows : List ChunkRow) : LoopState W where
  world := world
  rows := userRows
  tailMessages := []
  tailRenderedUpTo := 0
  roundsUsed := 0
  phase := .idle
  requests := []
  written := positioned userRows

/-- The messages of the rows that have come are appended. -/
def render (s : LoopState W) : Except Exn (LoopState W) :=
  if s.tailRenderedUpTo < s.rows.length then do
    let new ← chunkTableToMessages host.texts (s.rows.drop s.tailRenderedUpTo)
    .ok { s with tailMessages := s.tailMessages ++ new, tailRenderedUpTo := s.rows.length }
  else .ok s

/-- `_append_row`. -/
def appendRow (s : LoopState W) (row : ChunkRow) : LoopState W :=
  { s with rows := s.rows ++ [row], written := s.written ++ [((s.rows.length : ℤ), row)] }

/-- A step of the loop. -/
inductive Step : LoopState W → LoopState W → Prop
  /-- A completion with tool calls. -/
  | toolCalls {s s₁ : LoopState W} {resp : RathLLMChatResponse} {w : W}
      {choice : RathLLMChatChoice} {calls : List RathLLMToolCallPart} (hphase : s.phase = .idle)
      (hrounds : s.roundsUsed < maxToolRounds) (hrender : render host s = .ok s₁)
      (hresp : ex.acomplete s.world (head ++ s₁.tailMessages) resp w)
      (hchoice : resp.primaryChoice? = some choice)
      (hcalls : choice.message.toolCalls = some calls) (hne : calls ≠ []) :
      Step s { s₁.appendRow (assistantTurnChunk calls choice.message.content) with
        world := w
        roundsUsed := s.roundsUsed + 1
        phase := .dispatching calls (.start host table calls)
        requests := s.requests ++ [(s.rows, head ++ s₁.tailMessages)] }
  /-- A completion without tool calls. -/
  | answer {s s₁ : LoopState W} {resp : RathLLMChatResponse} {w : W} {choice : RathLLMChatChoice}
      (hphase : s.phase = .idle) (hrounds : s.roundsUsed < maxToolRounds)
      (hrender : render host s = .ok s₁)
      (hresp : ex.acomplete s.world (head ++ s₁.tailMessages) resp w)
      (hchoice : resp.primaryChoice? = some choice)
      (hcalls : choice.message.toolCalls.getD [] = []) :
      Step s { s₁.appendRow (assistantTurnChunk [] choice.message.content) with
        world := w
        roundsUsed := s.roundsUsed + 1
        phase := if choice.finishReason.isFinal then .finished else .idle
        requests := s.requests ++ [(s.rows, head ++ s₁.tailMessages)] }
  /-- A tool call comes to its end. -/
  | dispatch {s : LoopState W} {calls : List RathLLMToolCallPart} {round round' : RoundState}
      {w : W} (hphase : s.phase = .dispatching calls round)
      (hstep : RoundState.Step host table ex calls (s.world, round) (w, round')) :
      Step s { s with world := w, phase := .dispatching calls round' }
  /-- All tool calls have come to their end. -/
  | collect {s : LoopState W} {calls : List RathLLMToolCallPart} {round : RoundState}
      (hphase : s.phase = .dispatching calls round) (hended : round.Ended) :
      Step s { s with phase := .appending (feedbackRows calls (round.finalBodies host)) }
  | append {s : LoopState W} {row : ChunkRow} {rows : List ChunkRow}
      (hphase : s.phase = .appending (row :: rows)) :
      Step s { s.appendRow row with phase := .appending rows }
  | next {s : LoopState W} (hphase : s.phase = .appending []) : Step s { s with phase := .idle }

/-- The states that the loop comes to. -/
def Reached (world : W) (userRows : List ChunkRow) (s : LoopState W) : Prop :=
  Relation.ReflTransGen (Step host table ex head maxToolRounds) (start world userRows) s

/-- The loop has come to its end. -/
def Returned (s : LoopState W) : Prop :=
  s.phase = .finished ∨ s.phase = .idle ∧ maxToolRounds ≤ s.roundsUsed

end Steps

/-! ### The rows and the messages -/

section Invariant

variable {W : Type} (userRows : List ChunkRow)

/-- The rows behind those of the user: turns, and in the phases of a turn what there is of it. -/
def Shape (s : LoopState W) : LoopPhase → Prop
  | .idle | .finished => ∃ turns : List Turn, s.rows = userRows ++ turns.flatMap Turn.rows
  | .dispatching calls round => round.Waiting calls ∧
      ∃ (turns : List Turn) (content : Option String),
      s.rows = userRows ++ turns.flatMap Turn.rows ++ [assistantTurnChunk calls content]
  | .appending rest => ∃ (turns : List Turn) (t : Turn) (done : List ChunkRow),
      s.rows = userRows ++ turns.flatMap Turn.rows ++ done ∧ done ++ rest = t.rows

/-- What holds of the loop at any time. -/
structure Inv (texts : Texts) (head : List RathLLMMessage) (s : LoopState W) : Prop where
  shape : Shape userRows s s.phase
  rendered : s.tailRenderedUpTo ≤ s.rows.length ∧
    chunkTableToMessages texts (s.rows.take s.tailRenderedUpTo) = .ok s.tailMessages
  length_requests : s.requests.length = s.roundsUsed
  requests : ∀ r ∈ s.requests, r.1 <+: s.rows ∧ ∃ messages,
    chunkTableToMessages texts r.1 = .ok messages ∧ r.2 = head ++ messages
  written : s.written = positioned s.rows

variable {userRows} {host : Host} {table : String → Option FlowToolCall} {R : Type}
  {ex : Executor W R} {head : List RathLLMMessage} {maxToolRounds : ℕ} {s s' : LoopState W}

/-- Rendering has the messages of all rows as its result. -/
theorem render_eq (hle : s.tailRenderedUpTo ≤ s.rows.length)
    (hrendered : chunkTableToMessages host.texts (s.rows.take s.tailRenderedUpTo) =
      .ok s.tailMessages) {s₁ : LoopState W} (h : render host s = .ok s₁) :
    chunkTableToMessages host.texts s.rows = .ok s₁.tailMessages ∧
      s₁ = { s with tailMessages := s₁.tailMessages, tailRenderedUpTo := s.rows.length } := by
  rw [render] at h
  split_ifs at h with hlt
  · obtain ⟨new, hnew, h⟩ := exists_of_bind_eq_ok h
    cases h
    refine ⟨?_, rfl⟩
    have hall := chunkTableToMessages_append_eq_ok host.texts hrendered hnew
    rwa [List.take_append_drop] at hall
  · cases h
    obtain heq : s.tailRenderedUpTo = s.rows.length := by omega
    rw [heq, List.take_length] at hrendered
    refine ⟨hrendered, ?_⟩
    rw [← heq]

/-- The requests of a further round. -/
theorem requests_append (hinv : Inv userRows host.texts head s) {messages : List RathLLMMessage}
    (hmessages : chunkTableToMessages host.texts s.rows = .ok messages) (row : ChunkRow) :
    ∀ r ∈ s.requests ++ [(s.rows, head ++ messages)], r.1 <+: s.rows ++ [row] ∧ ∃ messages,
      chunkTableToMessages host.texts r.1 = .ok messages ∧ r.2 = head ++ messages := by
  intro r hr
  rcases List.mem_append.mp hr with hr | hr
  · obtain ⟨hpre, hmessages⟩ := hinv.requests r hr
    exact ⟨hpre.trans (List.prefix_append _ _), hmessages⟩
  · rw [List.mem_singleton.mp hr]
    exact ⟨List.prefix_append _ _, messages, hmessages, rfl⟩

theorem inv_start (world : W) : Inv userRows host.texts head (start world userRows) where
  shape := ⟨[], (List.append_nil userRows).symm⟩
  rendered := ⟨Nat.zero_le _, rfl⟩
  length_requests := rfl
  requests := by simp [start]
  written := rfl

theorem Inv.step (hinv : Inv userRows host.texts head s)
    (hs : Step host table ex head maxToolRounds s s') : Inv userRows host.texts head s' := by
  have hshape := hinv.shape
  cases hs with
  | @toolCalls s₁ resp w choice calls hphase hrounds hrender hresp hchoice hcalls hne =>
    obtain ⟨hmessages, heq⟩ := render_eq hinv.rendered.1 hinv.rendered.2 hrender
    rw [hphase] at hshape
    obtain ⟨turns, hrows⟩ := hshape
    rw [heq]
    refine ⟨⟨RoundState.waiting_start host table calls, turns, choice.message.content, ?_⟩,
      ⟨?_, ?_⟩, ?_, requests_append hinv hmessages _, ?_⟩
    · exact congrArg (· ++ [_]) hrows
    · simp [appendRow]
    · simpa [appendRow] using hmessages
    · simp [hinv.length_requests]
    · simp [appendRow, hinv.written]
  | @answer s₁ resp w choice hphase hrounds hrender hresp hchoice hcalls =>
    obtain ⟨hmessages, heq⟩ := render_eq hinv.rendered.1 hinv.rendered.2 hrender
    rw [hphase] at hshape
    obtain ⟨turns, hrows⟩ := hshape
    have hturns : s.rows ++ [assistantTurnChunk [] choice.message.content] = userRows ++
        (turns ++ [(⟨choice.message.content, [], [], rfl⟩ : Turn)]).flatMap Turn.rows := by
      rw [hrows]
      simp [Turn.rows, feedbackRows]
    rw [heq]
    refine ⟨?_, ⟨?_, ?_⟩, ?_, requests_append hinv hmessages _, ?_⟩
    · dsimp only
      split_ifs
      · exact ⟨_, hturns⟩
      · exact ⟨_, hturns⟩
    · simp [appendRow]
    · simpa [appendRow] using hmessages
    · simp [hinv.length_requests]
    · simp [appendRow, hinv.written]
  | @dispatch calls round round' w hphase hstep =>
    rw [hphase] at hshape
    obtain ⟨hwaiting, hrows⟩ := hshape
    exact ⟨⟨hwaiting.step hstep, hrows⟩, hinv.rendered, hinv.length_requests, hinv.requests,
      hinv.written⟩
  | @collect calls round hphase hended =>
    rw [hphase] at hshape
    obtain ⟨hwaiting, turns, content, hrows⟩ := hshape
    obtain ⟨bodies, -, hbodies, hlength⟩ := @RoundState.Waiting.exists_bodies host _ _
      hwaiting hended
    refine ⟨⟨turns, ⟨content, calls, bodies, hlength⟩, [_], hrows, ?_⟩, hinv.rendered,
      hinv.length_requests, hinv.requests, hinv.written⟩
    rw [hbodies]
    rfl
  | @append row rows hphase =>
    rw [hphase] at hshape
    obtain ⟨turns, t, done, hrows, hdone⟩ := hshape
    refine ⟨⟨turns, t, done ++ [row], ?_, ?_⟩, ⟨?_, ?_⟩, hinv.length_requests, ?_, ?_⟩
    · simp [appendRow, hrows]
    · simpa using hdone
    · exact hinv.rendered.1.trans (by simp [appendRow])
    · dsimp only [appendRow]
      rw [List.take_append_of_le_length hinv.rendered.1]
      exact hinv.rendered.2
    · intro r hr
      obtain ⟨hpre, hmessages⟩ := hinv.requests r hr
      exact ⟨hpre.trans (List.prefix_append _ _), hmessages⟩
    · simp [appendRow, hinv.written]
  | next hphase =>
    rw [hphase] at hshape
    obtain ⟨turns, t, done, hrows, hdone⟩ := hshape
    rw [List.append_nil] at hdone
    refine ⟨⟨turns ++ [t], ?_⟩, hinv.rendered, hinv.length_requests, hinv.requests, hinv.written⟩
    rw [hrows, hdone]
    simp

theorem inv_of_reached {world : W}
    (h : Reached host table ex head maxToolRounds world userRows s) :
    Inv userRows host.texts head s := by
  induction h with
  | refl => exact inv_start world
  | tail _ hs ih => exact ih.step hs

/-- The rows at any time are the first ones of a transcript. -/
theorem Inv.exists_turns (hinv : Inv userRows host.texts head s) :
    ∃ turns : List Turn, s.rows <+: userRows ++ turns.flatMap Turn.rows := by
  have hshape := hinv.shape
  cases hphase : s.phase with
  | idle | finished =>
    rw [hphase] at hshape
    obtain ⟨turns, hrows⟩ := hshape
    exact ⟨turns, hrows ▸ List.prefix_refl _⟩
  | dispatching calls round =>
    rw [hphase] at hshape
    obtain ⟨-, turns, content, hrows⟩ := hshape
    let t : Turn := ⟨content, calls, List.replicate calls.length "", List.length_replicate⟩
    refine ⟨turns ++ [t], feedbackRows t.calls t.bodies, ?_⟩
    rw [hrows]
    simp [Turn.rows, t]
  | appending rest =>
    rw [hphase] at hshape
    obtain ⟨turns, t, done, hrows, hdone⟩ := hshape
    refine ⟨turns ++ [t], rest, ?_⟩
    rw [hrows, List.append_assoc, hdone]
    simp

/-- What the loop returns: the rows are those of the user and turns, every request was the head with
the messages of all rows so far, and the file of a writer without failures has the rows in their
order. -/
theorem transcript_of_returned {agentRows : List ChunkRow} {world : W}
    (hhead : chunkTableToMessages host.texts agentRows = .ok head)
    (hreached : Reached host table ex head maxToolRounds world userRows s)
    (hreturned : Returned maxToolRounds s) :
    (∃ turns : List Turn, s.rows = userRows ++ turns.flatMap Turn.rows) ∧
    s.requests.length = s.roundsUsed ∧
    (∀ r ∈ s.requests, r.1 <+: s.rows ∧
      chunkTableToMessages host.texts (agentRows ++ r.1) = .ok r.2) ∧
    ∀ (session : Session) (sandboxHandleId : Option String) (createdAt : Clock) (queueMaxsize : ℕ)
      (dir : Directory) (a : AsyncState), dir.read (sessionFile session.id) = none →
      dir.read (sessionPartialFile session.id) = none →
      AsyncState.Served host
        (AsyncState.start host session sandboxHandleId createdAt queueMaxsize dir) a →
      a.enqueued = s.written → a.w.stage = .renamed → ∃ closedAt,
        a.dir.read (sessionFile session.id) = some (fileBytes host session sandboxHandleId createdAt
          (positioned s.rows) closedAt true) := by
  have hinv := inv_of_reached hreached
  refine ⟨?_, hinv.length_requests, fun r hr => ?_, ?_⟩
  · have hshape := hinv.shape
    rcases hreturned with hphase | ⟨hphase, -⟩
    · rwa [hphase] at hshape
    · rwa [hphase] at hshape
  · obtain ⟨hpre, messages, hmessages, heq⟩ := hinv.requests r hr
    rw [heq]
    exact ⟨hpre, chunkTableToMessages_append_eq_ok host.texts hhead hmessages⟩
  · intro session sandboxHandleId createdAt queueMaxsize dir a hfinal hinFlight hserved henqueued
      hstage
    have hfile := hserved.read_renamed hfinal hinFlight hstage
    rwa [henqueued, hinv.written] at hfile

end Invariant

/-! ### A loop -/

section Sample

/-- A completion with a call of a tool, or with an answer. -/
def sampleResponse (toolCalls : Option (List RathLLMToolCallPart)) : RathLLMChatResponse where
  id := "r"
  choices := [⟨0, if toolCalls.isSome then .toolCalls else .stop, some "text", toolCalls⟩]
  created := 0
  model := "m"
  usage := none
  raw := none

/-- A tool call. -/
def sampleCall : RathLLMToolCallPart := ⟨"tc0", "function", "lookup", "\x7b\x7d", some [], false⟩

/-- A model that calls a tool first. -/
def sampleExecutor : Executor Unit Unit where
  acomplete _ messages resp _ :=
    resp = sampleResponse (if messages.length ≤ 2 then some [sampleCall] else none)
  adispatchTool _ _ _ _ _ := True
  summarize _ _ := .ok "done"

/-- The states of a loop with the model, and without any tool. -/
def SampleReached : LoopState Unit → Prop :=
  Reached sampleHost (fun _ => none) sampleExecutor
    [{ role := .system, content := some "Be brief." }] 2 () [userTextChunk "hi"]

/-- A loop whose model calls a tool that is not there, and then answers. -/
theorem transcript_of_returned_sample : ∃ s : LoopState Unit,
    s.requests.length = 2 ∧ s.rows.length = 4 ∧
    ∃ turns : List Turn, s.rows = [userTextChunk "hi"] ++ turns.flatMap Turn.rows := by
  have h₁ : SampleReached _ := .refl
  have h₂ := h₁.tail (.toolCalls rfl (by decide) rfl (w := ()) rfl rfl rfl (by decide))
  have h₃ := h₂.tail (.collect rfl fun _ hqueue => nomatch hqueue)
  have h₄ := h₃.tail (.append rfl)
  have h₅ := h₄.tail (.next rfl)
  have h := h₅.tail (.answer rfl (by decide) rfl (w := ()) rfl rfl rfl)
  have hhead : chunkTableToMessages sampleHost.texts [systemTextChunk "Be brief."] = .ok _ := rfl
  obtain ⟨hturns, hlength, -⟩ := transcript_of_returned hhead h (Or.inl rfl)
  exact ⟨_, hlength, rfl, hturns⟩

end Sample

end LoopState

end OpenRath
