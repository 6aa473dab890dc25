import OpenRath.Llm.AnthropicRequest
import OpenRath.Session.Loop

/-!
# What a session loop sends again

A session loop whose completions are messages of the Anthropic API. Each request has the head, the
rows of the user and all that was said since: these are rounds, of messages of the model and the
results of their tool calls.

## Main definitions

* `LoopState.Answers`: the completions are messages of the API.
* `LoopState.RoundShape`: the rows in a phase of the loop, as rounds.

## Main results

* `LoopState.replayed`: with every request the rounds so far are sent again as they were, and
  nothing else of the first request changes.
-/

namespace OpenRath

namespace LoopState

section Rounds

variable {W R : Type} (host : Host) (P : AnthropicMessage → Prop) (userRows : List ChunkRow)

/-- Every completion is the response to a message of a kind. -/
def Answers (ex : Executor W R) : Prop :=
  ∀ w messages resp w', ex.acomplete w messages resp w' →
    ∃ m, P m ∧ normalizeAnthropicResponse host m.payload = .ok resp

/-- Rows behind those of the user that are rounds. -/
def Rounds (rows : List ChunkRow) (rounds : List AnthropicRound) : Prop :=
  (∀ r ∈ rounds, P r.message) ∧ rows = userRows ++ rounds.flatMap fun r => (r.turn host).rows

/-- The rows behind those of the user: rounds, and in the phases of a round what there is of it. -/
def RoundShape (s : LoopState W) : LoopPhase → Prop
  | .idle | .finished => ∃ rounds, Rounds host P userRows s.rows rounds
  | .dispatching calls round => round.Waiting calls ∧ ∃ (rows : List ChunkRow)
      (rounds : List AnthropicRound) (m : AnthropicMessage),
        Rounds host P userRows rows rounds ∧ P m ∧ calls = m.calls host ∧
          s.rows = rows ++ [assistantTurnChunk calls m.text?]
  | .appending rest => ∃ (rows : List ChunkRow) (rounds : List AnthropicRound) (r : AnthropicRound)
      (done : List ChunkRow), Rounds host P userRows rows rounds ∧ P r.message ∧
        s.rows = rows ++ done ∧ done ++ rest = (r.turn host).rows

/-- The rows of every request are those of the user and rounds. -/
def RequestRounds (s : LoopState W) : Prop :=
  ∀ r ∈ s.requests, ∃ rounds, Rounds host P userRows r.1 rounds

variable {host} {P} {userRows} {table : String → Option FlowToolCall} {ex : Executor W R}
  {head : List RathLLMMessage} {maxToolRounds : ℕ} {s s' : LoopState W}

theorem Rounds.concat {rows : List ChunkRow} {rounds : List AnthropicRound}
    (h : Rounds host P userRows rows rounds) {r : AnthropicRound} (hr : P r.message) :
    Rounds host P userRows (rows ++ (r.turn host).rows) (rounds ++ [r]) := by
  refine ⟨fun r' hr' => ?_, ?_⟩
  · rcases List.mem_append.mp hr' with hr' | hr'
    · exact h.1 r' hr'
    · exact List.mem_singleton.mp hr' ▸ hr
  · rw [h.2, List.flatMap_append, List.append_assoc, List.flatMap_singleton]

theorem rows_of_render {s₁ : LoopState W} (h : render host s = .ok s₁) : s₁.rows = s.rows := by
  rw [render] at h
  split_ifs at h
  · obtain ⟨new, -, h⟩ := exists_of_bind_eq_ok h
    cases h
    rfl
  · cases h
    rfl

/-- The rows stay rounds. -/
theorem RoundShape.step (hanswers : Answers host P ex) (h : RoundShape host P userRows s s.phase)
    (hs : Step host table ex head maxToolRounds s s') : RoundShape host P userRows s' s'.phase := by
  cases hs with
  | @toolCalls s₁ resp w choice calls hphase hrounds hrender hresp hchoice hcalls hne =>
    rw [hphase] at h
    obtain ⟨rounds, hrows⟩ := h
    obtain ⟨m, hm, hnormalize⟩ := hanswers _ _ _ _ hresp
    obtain ⟨hcontent, hparts⟩ := m.choice_of_normalize host hnormalize hchoice
    rw [hcalls, Option.getD_some] at hparts
    refine ⟨RoundState.waiting_start host table calls, s.rows, rounds, m, hrows, hm, hparts, ?_⟩
    rw [← hcontent]
    exact congrArg (· ++ [_]) (rows_of_render hrender)
  | @answer s₁ resp w choice hphase hrounds hrender hresp hchoice hcalls =>
    rw [hphase] at h
    obtain ⟨rounds, hrows⟩ := h
    obtain ⟨m, hm, hnormalize⟩ := hanswers _ _ _ _ hresp
    obtain ⟨hcontent, hparts⟩ := m.choice_of_normalize host hnormalize hchoice
    rw [hcalls] at hparts
    have huses : m.toolUses = [] := by
      rw [m.calls_eq host] at hparts
      exact List.map_eq_nil_iff.mp hparts.symm
    let r : AnthropicRound := ⟨m, [], by rw [huses]; rfl⟩
    have hturn : (r.turn host).rows = [assistantTurnChunk [] choice.message.content] := by
      rw [Turn.rows, hcontent]
      show assistantTurnChunk (m.calls host) m.text? :: feedbackRows (m.calls host) [] = _
      rw [← hparts]
      rfl
    have hround : Rounds host P userRows (s₁.rows ++ [assistantTurnChunk [] choice.message.content])
        (rounds ++ [r]) := by
      rw [← hturn, rows_of_render hrender]
      exact hrows.concat hm
    dsimp only
    split_ifs
    · exact ⟨_, hround⟩
    · exact ⟨_, hround⟩
  | @dispatch calls round round' w hphase hstep =>
    rw [hphase] at h
    obtain ⟨hwaiting, hrows⟩ := h
    exact ⟨hwaiting.step hstep, hrows⟩
  | @collect calls round hphase hended =>
    rw [hphase] at h
    obtain ⟨hwaiting, rows, rounds, m, hrows, hm, hcalls, hlast⟩ := h
    obtain ⟨bodies, -, hbodies, hlength⟩ := @RoundState.Waiting.exists_bodies host _ _
      hwaiting hended
    have hlength' : bodies.length = m.toolUses.length := by
      rw [hlength, hcalls, m.calls_eq host, List.length_map]
    refine ⟨rows, rounds, ⟨m, bodies, hlength'⟩, [_], hrows, hm, hlast, ?_⟩
    rw [hbodies, hcalls]
    rfl
  | @append row rows hphase =>
    rw [hphase] at h
    obtain ⟨before, rounds, r, done, hrows, hr, hlast, hdone⟩ := h
    refine ⟨before, rounds, r, done ++ [row], hrows, hr, ?_, by simpa using hdone⟩
    simp [appendRow, hlast]
  | next hphase =>
    rw [hphase] at h
    obtain ⟨before, rounds, r, done, hrows, hr, hlast, hdone⟩ := h
    rw [List.append_nil] at hdone
    refine ⟨rounds ++ [r], ?_⟩
    show Rounds host P userRows s.rows _
    rw [hlast, hdone]
    exact hrows.concat hr

theorem RequestRounds.concat (h : RequestRounds host P userRows s)
    (hshape : ∃ rounds, Rounds host P userRows s.rows rounds) (messages : List RathLLMMessage) :
    ∀ r ∈ s.requests ++ [(s.rows, messages)], ∃ rounds, Rounds host P userRows r.1 rounds := by
  intro r hr
  rcases List.mem_append.mp hr with hr | hr
  · exact h r hr
  · exact List.mem_singleton.mp hr ▸ hshape

/-- A request is made between two rounds. -/
theorem RequestRounds.step (h : RequestRounds host P userRows s)
    (hshape : RoundShape host P userRows s s.phase)
    (hs : Step host table ex head maxToolRounds s s') : RequestRounds host P userRows s' := by
  cases hs with
  | toolCalls hphase =>
    rw [hphase] at hshape
    exact h.concat hshape _
  | answer hphase =>
    rw [hphase] at hshape
    exact h.concat hshape _
  | dispatch | collect | append | next => exact h

theorem rounds_of_reached (hanswers : Answers host P ex) {world : W}
    (h : Reached host table ex head maxToolRounds world userRows s) :
    RoundShape host P userRows s s.phase ∧ RequestRounds host P userRows s := by
  induction h with
  | refl =>
    refine ⟨⟨[], ?_, (List.append_nil userRows).symm⟩, ?_⟩
    · simp
    · simp [RequestRounds, start]
  | tail _ hs ih => exact ⟨ih.1.step hanswers hs, ih.2.step ih.1 hs⟩

/-- **Replay.** Whatever messages the model answers with and in whichever order tools end, every
request repeats the first one, and behind the entries of it the rounds so far: of each message its
text and its tool calls as they were, and the result of every call. No other keyword argument
changes. -/
theorem replayed (hanswers : Answers host P ex) (hload : ∀ m, P m → m.Loadable host.floats)
    {messages : List RathLLMMessage}
    (huser : chunkTableToMessages host.texts userRows = .ok messages) {world : W}
    (hreached : Reached host table ex head maxToolRounds world userRows s)
    {r : List ChunkRow × List RathLLMMessage} (hr : r ∈ s.requests)
    (req : RathLLMChatRequest) (defaultModel : Option String) {kwargs : JsonObject}
    (hextra : "messages" ∉ req.extraCreateArgs.map Prod.fst)
    (hfirst : buildAnthropicKwargs host.floats { req with messages := head ++ messages }
      defaultModel = .ok kwargs) :
    ∃ (rounds : List AnthropicRound) (first : List Json), (∀ round ∈ rounds, P round.message) ∧
      (r.1 = userRows ++ rounds.flatMap fun round => (round.turn host).rows) ∧
      kwargs.get? "messages" = some (.arr first) ∧
      buildAnthropicKwargs host.floats { req with messages := r.2 } defaultModel =
        .ok (kwargs.insert "messages" (.arr (first ++ rounds.flatMap AnthropicRound.replay))) := by
  obtain ⟨rounds, hP, hrows⟩ := (rounds_of_reached hanswers hreached).2 r hr
  obtain ⟨-, sent, hsent, hmessages⟩ := (inv_of_reached hreached).requests r hr
  have hall := chunkTableToMessages_append_eq_ok host.texts huser
    (AnthropicRound.chunkTableToMessages_rounds host rounds)
  rw [← hrows, hsent, Except.ok.injEq] at hall
  obtain ⟨first, hget, hbuild⟩ := @buildAnthropicKwargs_append _
    { req with messages := head ++ messages } _ _ _ _ hextra hfirst
    (AnthropicRound.foldlM_messages host fun round hround => hload _ (hP round hround))
  refine ⟨rounds, first, hP, hrows, hget, ?_⟩
  rw [hmessages, hall, ← List.append_assoc]
  exact hbuild

end Rounds

end LoopState

/-! ### A loop with a tool -/

namespace Sample

open LoopState

/-- A message with a tool call. -/
def asking : AnthropicMessage where
  id := "msg_1"
  model := "model"
  content := [.text "Let me look.", .toolUse "toolu_1" "weather" [("city", .str "Oslo")]]
  stopReason := some "tool_use"
  inputTokens := 3
  outputTokens := 2

/-- A message with an answer. -/
def answering : AnthropicMessage := ⟨"msg_2", "model", [.text "No tool."], some "end_turn", 5, 2⟩

/-- What the model says. -/
def Said (m : AnthropicMessage) : Prop := m = asking ∨ m = answering

theorem loadable_of_said {m : AnthropicMessage} (h : Said m) : m.Loadable sampleHost.floats := by
  obtain rfl | rfl := h
  · simp [AnthropicMessage.Loadable, AnthropicMessage.toolUses, asking, ContentBlock.toolUse?,
      Json.Loadable, LoadableFields]
  · simp [AnthropicMessage.Loadable, AnthropicMessage.toolUses, answering, ContentBlock.toolUse?]

/-- A model that asks for a tool first. -/
def weatherExecutor : Executor Unit Unit where
  acomplete _ messages resp _ := ∃ m, Said m ∧ (m = asking ↔ messages.length = 1) ∧
    normalizeAnthropicResponse sampleHost m.payload = .ok resp
  adispatchTool _ _ _ _ _ := True
  summarize _ _ := .ok "rain"

theorem answers_weatherExecutor : Answers sampleHost Said weatherExecutor := by
  rintro _ messages resp _ ⟨m, hm, -, hnormalize⟩
  exact ⟨m, hm, hnormalize⟩

/-- The states of a loop with the model, and without any tool. -/
def WeatherReached : LoopState Unit → Prop :=
  Reached sampleHost (fun _ => none) weatherExecutor [] 2 () [userTextChunk "Weather?"]

/-- The second request of a loop whose model asks for a tool that is not there. -/
theorem weather_replayed : ∃ s : LoopState Unit, s.requests.length = 2 ∧ ∀ r ∈ s.requests,
    ∃ (rounds : List AnthropicRound) (kwargs : JsonObject),
      (r.1 = [userTextChunk "Weather?"] ++ rounds.flatMap fun round =>
        (round.turn sampleHost).rows) ∧
      buildAnthropicKwargs sampleHost.floats { messages := r.2 } (some "model") = .ok kwargs ∧
      kwargs.get? "messages" = some (.arr (textEntry "user" "Weather?" ::
        rounds.flatMap AnthropicRound.replay)) := by
  have h₁ : WeatherReached _ := .refl
  have h₂ := h₁.tail (.toolCalls rfl (by decide) rfl (w := ())
    ⟨asking, Or.inl rfl, iff_of_true rfl rfl, normalizeAnthropicResponse_payload _ _⟩ rfl rfl
    (List.cons_ne_nil _ _))
  have h₃ := h₂.tail (.collect rfl fun _ hqueue => nomatch hqueue)
  have h₄ := h₃.tail (.append rfl)
  have h₅ := h₄.tail (.next rfl)
  have h := h₅.tail (.answer rfl (by decide) rfl (w := ())
    ⟨answering, Or.inr rfl, iff_of_false (by decide) (by decide),
      normalizeAnthropicResponse_payload _ _⟩ rfl rfl)
  have hlength := (inv_of_reached h).length_requests
  have hreplayed := fun r hr => replayed answers_weatherExecutor (fun _ => loadable_of_said) rfl h
    (r := r) hr { messages := [] } (some "model") List.not_mem_nil rfl
  refine ⟨_, hlength, fun r hr => ?_⟩
  obtain ⟨rounds, first, -, hrows, hget, hbuild⟩ := hreplayed r hr
  cases hget
  exact ⟨rounds, _, hrows, hbuild, JsonObject.get?_insert_self ..⟩

end Sample

end OpenRath
