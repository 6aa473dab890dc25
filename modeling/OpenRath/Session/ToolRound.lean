import OpenRath.Session.Transcript

/-!
# Rounds of tool calls

`_adispatch_round` (`src/rath/_async/aloop.py`) runs the tool calls of a completion. Calls with the
same resource key wait for each other in a queue, and the queues run side by side. Calls that cannot
be made (arguments that are no JSON object, a name that no tool has, a resource key that raises) are
answered at once.

The results end up at the places of their calls, in whatever order the calls come to their end. An
exception that is not an `Exception` ends the round, and is the end of the run here.

## Main definitions

* `FlowToolCall`, `Executor`.
* `RoundState`, `RoundState.start`, `RoundState.Step`.

## Main results

* `RoundState.Waiting`: the queues have the calls without a result, each one once.
* `exists_bodies_of_ended`.
-/

namespace OpenRath

/-! ### Tools -/

/-- The escape sequences of a character in a text that is ASCII only. -/
def asciiEscape (c : Char) : List Char :=
  let code (n : ℕ) : List Char :=
    ['\\', 'u', Nat.digitChar (n / 4096 % 16), Nat.digitChar (n / 256 % 16),
      Nat.digitChar (n / 16 % 16), Nat.digitChar (n % 16)]
  let n := c.toNat
  if n ≤ 0x7e then [c]
  else if n < 0x10000 then code n
  else code (0xd800 + (n - 0x10000) / 1024) ++ code (0xdc00 + (n - 0x10000) % 1024)

/-- `json.dumps(value)`. -/
def asciiDumps (fl : FloatText) (v : Json) : String :=
  String.ofList ((dumps fl v).flatMap asciiEscape)

/-- The beginning `text[:count]` of a text. -/
def beginning (text : String) (count : ℕ) : String := String.ofList (text.toList.take count)

/-- A tool of the session loop. -/
structure FlowToolCall where
  name : String
  resourceKey : JsonObject → Except Exn (List String)

/-- The executor of a session loop, which runs in a world: completions and tool calls may have any
of some outcomes. -/
structure Executor (W R : Type) where
  acomplete : W → List RathLLMMessage → RathLLMChatResponse → W → Prop
  adispatchTool : W → FlowToolCall → JsonObject → Except Exn R → W → Prop
  /-- `_summarize_dispatch_result`. -/
  summarize : FlowToolCall → R → Except Exn String

section Round

variable (host : Host)

/-- `_loop_tool_error_payload`. -/
def loopToolErrorPayload (kind message detail : String) : String :=
  asciiDumps host.floats (.obj ([("ok", .bool false), ("error_kind", .str kind),
    ("message", .str message)] ++
      if detail = "" then [] else [("detail", .str (beginning detail 4000))]))

/-- The body for an exception. -/
def exceptionBody (e : Exn) : String :=
  loopToolErrorPayload host "tool_execution_exception" s!"{e.typeName}: {host.exceptionText e}"
    e.typeName

/-- The body for a call without a result. -/
def missingBody : String :=
  asciiDumps host.floats (.obj [("ok", .bool false), ("error_kind", .str "internal_missing_result"),
    ("message", .str "tool result missing after dispatch")])

variable (table : String → Option FlowToolCall)

/-- The resource key of a call, or the body for a call that cannot be made. -/
def resourceKeyOf (tc : RathLLMToolCallPart) : Except String (List String) :=
  match tc.function.argumentsParsed, tc.function.argumentsParseError with
  | some args, false =>
    match table tc.function.name with
    | none => .error (loopToolErrorPayload host "unknown_tool"
        s!"unknown tool {host.texts.repr (.str tc.function.name)}" "")
    | some tool => (tool.resourceKey args).mapError (exceptionBody host)
  | _, _ =>
    let rawDump := tc.function.arguments
    let rawDump := if 2000 < rawDump.length then beginning rawDump 2000 ++ "...(truncated)"
      else rawDump
    .error (loopToolErrorPayload host "invalid_tool_arguments" (s!"tool " ++
      s!"{host.texts.repr (.str tc.function.name)} returned non-JSON or unparseable arguments")
      rawDump)

/-- `queues.setdefault(key, []).append(idx)`. -/
def enqueue (key : List String) (idx : ℕ) :
    List (List String × List ℕ) → List (List String × List ℕ)
  | [] => [(key, [idx])]
  | (key', queue) :: queues =>
    if key' = key then (key', queue ++ [idx]) :: queues
    else (key', queue) :: enqueue key idx queues

/-- The queues with the calls from an index on. -/
def queuesOf : ℕ → List RathLLMToolCallPart → List (List String × List ℕ) →
    List (List String × List ℕ)
  | _, [], queues => queues
  | idx, tc :: calls, queues =>
    queuesOf (idx + 1) calls (match resourceKeyOf host table tc with
      | .ok key => enqueue key idx queues
      | .error _ => queues)

/-- A round of tool calls. -/
structure RoundState where
  /-- What is left of the queues. -/
  queues : List (List ℕ)
  bodies : List (Option String)
deriving DecidableEq

namespace RoundState

/-- The beginning of a round. -/
def start (calls : List RathLLMToolCallPart) : RoundState where
  queues := (queuesOf host table 0 calls []).map Prod.snd
  bodies := calls.map fun tc =>
    match resourceKeyOf host table tc with
    | .ok _ => none
    | .error body => some body

/-- The body that a tool call ends with. -/
def toolBody {R : Type} (summarize : FlowToolCall → R → Except Exn String) (tool : FlowToolCall)
    (answer : Except Exn R) : String :=
  match answer >>= summarize tool with
  | .ok body => body
  | .error e => exceptionBody host e

variable {W R : Type} (ex : Executor W R) (calls : List RathLLMToolCallPart)

/-- The first call of a queue comes to its end. -/
inductive Step : W × RoundState → W × RoundState → Prop
  | run {w w' : W} {s : RoundState} {i idx : ℕ} {queue : List ℕ} {tc : RathLLMToolCallPart}
      {tool : FlowToolCall} {answer : Except Exn R} (hqueue : s.queues[i]? = some (idx :: queue))
      (htc : calls[idx]? = some tc) (htool : table tc.function.name = some tool)
      (hanswer : ex.adispatchTool w tool (tc.function.argumentsParsed.getD []) answer w') :
      Step (w, s) (w', ⟨s.queues.set i queue,
        s.bodies.set idx (some (toolBody host ex.summarize tool answer))⟩)

/-- All queues have come to their end. -/
def Ended (s : RoundState) : Prop := ∀ queue ∈ s.queues, queue = []

/-- The bodies that become rows. -/
def finalBodies (s : RoundState) : List String := s.bodies.map (·.getD (missingBody host))

/-! ### The calls that wait -/

/-- The queues have the calls without a result, each one once. -/
structure Waiting (s : RoundState) : Prop where
  length_bodies : s.bodies.length = calls.length
  nodup : s.queues.flatten.Nodup
  mem_iff : ∀ idx, idx ∈ s.queues.flatten ↔ s.bodies[idx]? = some none

end RoundState

/-- A list of queues of which one has lost its first item. -/
theorem flatten_set {α : Type} {queues : List (List α)} {i : ℕ} {a : α} {queue : List α}
    (h : queues[i]? = some (a :: queue)) :
    queues.flatten.Perm (a :: (queues.set i queue).flatten) := by
  induction queues generalizing i with
  | nil => cases h
  | cons queue' queues ih =>
    cases i with
    | zero =>
      obtain rfl : queue' = a :: queue := Option.some_inj.mp h
      exact List.Perm.refl _
    | succ i =>
      rw [List.set_cons_succ, List.flatten_cons, List.flatten_cons]
      exact ((ih h).append_left queue').trans List.perm_middle

theorem flatten_enqueue (key : List String) (idx : ℕ) (queues : List (List String × List ℕ)) :
    ((enqueue key idx queues).map Prod.snd).flatten.Perm
      ((queues.map Prod.snd).flatten ++ [idx]) := by
  induction queues with
  | nil => exact List.Perm.refl _
  | cons entry queues ih =>
    obtain ⟨key', queue⟩ := entry
    rw [enqueue]
    split_ifs with hkey
    · simp only [List.map_cons, List.flatten_cons, List.append_assoc]
      exact List.Perm.append_left queue List.perm_append_comm
    · simp only [List.map_cons, List.flatten_cons, List.append_assoc]
      exact ih.append_left queue

/-- The calls in the queues are those that can be made. -/
theorem mem_queuesOf {idx n : ℕ} {calls : List RathLLMToolCallPart}
    {queues : List (List String × List ℕ)} :
    idx ∈ ((queuesOf host table n calls queues).map Prod.snd).flatten ↔
      idx ∈ (queues.map Prod.snd).flatten ∨ n ≤ idx ∧ ∃ tc, calls[idx - n]? = some tc ∧
        ∃ key, resourceKeyOf host table tc = .ok key := by
  induction calls generalizing n queues with
  | nil => simp [queuesOf]
  | cons tc calls ih =>
    have hsplit : (n ≤ idx ∧ ∃ tc', (tc :: calls)[idx - n]? = some tc' ∧
          ∃ key, resourceKeyOf host table tc' = .ok key) ↔
        idx = n ∧ (∃ key, resourceKeyOf host table tc = .ok key) ∨
          n + 1 ≤ idx ∧ ∃ tc', calls[idx - (n + 1)]? = some tc' ∧
            ∃ key, resourceKeyOf host table tc' = .ok key := by
      rcases Nat.lt_trichotomy idx n with hlt | rfl | hlt
      · constructor
        · rintro ⟨hle, -⟩
          omega
        · rintro (⟨heq, -⟩ | ⟨hle, -⟩) <;> omega
      · rw [Nat.sub_self, List.getElem?_cons_zero]
        simp
      · rw [show idx - n = idx - (n + 1) + 1 by omega, List.getElem?_cons_succ]
        constructor
        · rintro ⟨-, h⟩
          exact Or.inr ⟨hlt, h⟩
        · rintro (⟨heq, -⟩ | ⟨-, h⟩)
          · omega
          · exact ⟨Nat.le_of_lt hlt, h⟩
    rw [queuesOf, ih, hsplit]
    cases hkey : resourceKeyOf host table tc with
    | ok key =>
      rw [(flatten_enqueue key n queues).mem_iff, List.mem_append, List.mem_singleton, or_assoc]
      simp
    | error body => simp

theorem nodup_queuesOf {n : ℕ} {calls : List RathLLMToolCallPart}
    {queues : List (List String × List ℕ)} (hnodup : (queues.map Prod.snd).flatten.Nodup)
    (hlt : ∀ idx ∈ (queues.map Prod.snd).flatten, idx < n) :
    ((queuesOf host table n calls queues).map Prod.snd).flatten.Nodup := by
  induction calls generalizing n queues with
  | nil => exact hnodup
  | cons tc calls ih =>
    rw [queuesOf]
    cases hkey : resourceKeyOf host table tc with
    | ok key =>
      have hperm := flatten_enqueue key n queues
      refine ih (hperm.nodup_iff.mpr ?_) fun idx hidx => ?_
      · rw [List.nodup_append]
        refine ⟨hnodup, List.nodup_singleton n, fun idx hidx m hm heq => ?_⟩
        have := hlt idx hidx
        rw [List.mem_singleton.mp hm] at heq
        omega
      · rcases List.mem_append.mp (hperm.mem_iff.mp hidx) with hidx | hidx
        · exact Nat.lt_succ_of_lt (hlt idx hidx)
        · rw [List.mem_singleton.mp hidx]
          exact Nat.lt_succ_self n
    | error body => exact ih hnodup fun idx hidx => Nat.lt_succ_of_lt (hlt idx hidx)

namespace RoundState

theorem waiting_start (calls : List RathLLMToolCallPart) :
    Waiting calls (start host table calls) := by
  refine ⟨by simp [start], nodup_queuesOf host table List.nodup_nil (by simp), fun idx => ?_⟩
  rw [start, mem_queuesOf host table, List.getElem?_map]
  cases htc : calls[idx]? with
  | none => simp
  | some tc => cases hkey : resourceKeyOf host table tc <;> simp [hkey]

variable {host table}

theorem Waiting.step {W R : Type} {ex : Executor W R} {calls : List RathLLMToolCallPart} {w w' : W}
    {s s' : RoundState} (h : Waiting calls s) (hs : Step host table ex calls (w, s) (w', s')) :
    Waiting calls s' := by
  cases hs with
  | @run _ _ _ i idx queue tc tool answer hqueue htc htool hanswer =>
    have hperm := flatten_set hqueue
    obtain ⟨hidx, hnodup⟩ := List.nodup_cons.mp (hperm.nodup_iff.mp h.nodup)
    refine ⟨by rw [List.length_set, h.length_bodies], hnodup, fun j => ?_⟩
    rw [List.getElem?_set]
    split_ifs with heq hlt
    · subst heq
      simp [hidx]
    · subst heq
      simp [hidx]
    · rw [← h.mem_iff j, hperm.mem_iff, List.mem_cons, or_iff_right (Ne.symm heq)]

/-- A round that has come to its end has a body for each call. -/
theorem Waiting.exists_bodies {calls : List RathLLMToolCallPart} {s : RoundState}
    (h : Waiting calls s) (hended : Ended s) :
    ∃ bodies, s.bodies = bodies.map some ∧ s.finalBodies host = bodies ∧
      bodies.length = calls.length := by
  have hsome : ∀ body ∈ s.bodies, some (body.getD (missingBody host)) = body := by
    intro body hbody
    obtain ⟨idx, hidx⟩ := List.mem_iff_getElem?.mp hbody
    cases body with
    | some body => rfl
    | none =>
      obtain ⟨queue, hqueue, hmem⟩ := List.mem_flatten.mp ((h.mem_iff idx).mpr hidx)
      rw [hended queue hqueue] at hmem
      cases hmem
  refine ⟨s.finalBodies host, ?_, rfl, by rw [finalBodies, List.length_map, h.length_bodies]⟩
  rw [finalBodies, List.map_map]
  exact ((List.map_congr_left hsome).trans (List.map_id s.bodies)).symm

end RoundState

end Round

end OpenRath
