import OpenRath.Library.Transaction
import OpenRath.Session.Graph.Traverse
import OpenRath.Session.Transcript

/-!
# The lineage of sessions

Sessions are made from texts, from one another, by the session loop and by compression
(`src/rath/session/session.py`, `primitives.py`, `loop.py`, `compress.py`, and the injection of
memories in `src/rath/flow/agent.py`). In graph mode a new session is stamped with its parents and
with how it was made, and its id goes into the journal (`src/rath/session/graph/recording.py`). The
transcript of the session loop grows until its coroutine is over. Whoever reads it waits for that,
but not in a tool, which would wait for itself: there the rows are read that are there so far.

Any threads call these functions, with any values of the context variables, in tools and outside.
What a call in a tool reads it may have read at any time, the rows of one session and those of
another one at different times. The sandboxes are not part of the model but for what binding one
comes to.

## Main definitions

* `LineageSession`, `LineageState`, `LineageCall`, `LineageState.step`, `LineageState.run`.
* `LineageState.graph`: what the functions in `traverse.py` are given.
* `LineageState.read`: what is read in a tool and outside of tools.
* `LineageState.Provenance`, `LineageState.Traced`: the invariant.
* `LineageState.Carries`: a transcript goes into that of a child.

## Main results

* `LineageState.traced_of_run`: the invariant holds after every run.
* `LineageState.validateAcyclic_of_run`: the lineage has no cycles, and the journals are in order.
* `LineageState.rows_of_carries`: a transcript that was finished when it was used is contained in
  those of the descendants, although they may have been made in tools.
-/

namespace OpenRath

/-- `add_usage`. -/
def addUsage : Option RathLLMTokenUsage → Option RathLLMTokenUsage → Option RathLLMTokenUsage
  | none, b => b
  | some a, none => some a
  | some a, some b => some ⟨a.promptTokens + b.promptTokens,
      a.completionTokens + b.completionTokens, a.totalTokens + b.totalTokens, none, none⟩

/-- What has become of the coroutine that fills a transcript. -/
inductive Filling
  /-- There is none, or its result has been taken. -/
  | settled
  | running
  | returned
  | failed (e : Exn)

/-- A session, with its transcript. -/
structure LineageSession where
  session : Session
  rows : List ChunkRow
  filling : Filling
  /-- The sessions that it was made of while their coroutines were running. -/
  unfinished : List UUID

namespace LineageSession

/-- The session, if its coroutine is running. -/
def inFlight (x : LineageSession) : List UUID :=
  match x.filling with
  | .running => [x.session.id]
  | _ => []

end LineageSession

/-- The values of the context variables where a function is called. In a tool the accesses of the
call are numbered, and each has a place among what was read in tools. -/
structure LineageContext where
  sessionGraphMode : Bool
  journal : Option ℕ
  toolReads : Option (ℕ → ℕ)

/-- What binding the sandbox of a session to a new one comes to: its backend and what it was opened
with. -/
abbrev Bound : Type := Except Exn (Option String × Option BackendSandboxSpec)

/-- What is called. Sessions are given by their places. -/
inductive LineageCall
  /-- `Session(…)`, also in `from_user_message` and `from_agent_prompt`. -/
  | construct (rows : List ChunkRow)
  /-- `Session.create`. -/
  | create (kind text : String)
  | createUserSession (message : String)
  | createSystemSession (prompt : String)
  | fork (j : ℕ) (bound : Bound)
  /-- `Agent._inject_memory_into`, with the rows that are put before the transcript. -/
  | injectMemoryInto (j : ℕ) (extras : List ChunkRow) (bound : Bound)
  | detach (j : ℕ) (bound : Bound)
  /-- `merge`, of sessions that have no sandboxes if `unbound`. -/
  | merge (j k : ℕ) (unbound : Bool) (bound : Bound)
  | runSessionLoop (j k : ℕ) (provided : Bool) (bound : Bound)
  /-- `run_session_compress`, with the completion and its usage. -/
  | runSessionCompress (j k : ℕ) (provided : Bool)
      (completion : Except Exn (Option String × Option RathLLMTokenUsage)) (bound : Bound)
  /-- `synchronize`, also where a transcript is read outside of tools. -/
  | synchronize (j : ℕ)

/-- What happens. -/
inductive LineageEvent
  /-- A call, with the id that is drawn for a new session. -/
  | call (c : LineageContext) (id : UUID) (f : LineageCall)
  /-- A session is read in a tool, as it is. -/
  | readInTool (j : ℕ)
  /-- The coroutine of a session appends a row. -/
  | appendRow (j : ℕ) (row : ChunkRow)
  /-- The coroutine of a session counts the tokens of a completion. -/
  | countUsage (j : ℕ) (usage : RathLLMTokenUsage)
  /-- The coroutine of a session returns, after too many rounds if `truncated`. -/
  | complete (j : ℕ) (truncated : Bool)
  | fail (j : ℕ) (e : Exn)

/-- The sessions in the order in which they were made, the journals, and what was read in tools,
with the places of the sessions. -/
structure LineageState where
  sessions : List LineageSession
  journals : ℕ → List UUID
  toolReads : List (ℕ × LineageSession)

namespace LineageState

/-- No sessions. -/
def start : LineageState := ⟨[], fun _ => [], []⟩

/-- The ids of the sessions. -/
def ids (s : LineageState) : List UUID := s.sessions.map fun x => x.session.id

/-- A session is replaced by what becomes of it. -/
def set (s : LineageState) (j : ℕ) (x : LineageSession) : LineageState :=
  { s with sessions := s.sessions.set j x }

/-! ### Calls -/

/-- A call raises an exception, or it waits, which is the error `none`. -/
abbrev Calling : Type → Type := Tx LineageState (Option Exn)

/-- `synchronize`: the session at a place, when its transcript is there. -/
def synchronize (j : ℕ) : Calling LineageSession := fun s =>
  match s.sessions[j]? with
  | none => (.error none, s)
  | some x =>
    match x.filling with
    | .settled => (.ok x, s)
    | .running => (.error none, s)
    | .returned => (.ok { x with filling := .settled }, s.set j { x with filling := .settled })
    | .failed e => (.error (some e), s.set j { x with filling := .settled })

/-- The session at a place, as an access to `chunk_table` or `cumulative_usage` finds it. -/
def read (c : LineageContext) (access j : ℕ) : Calling LineageSession :=
  match c.toolReads with
  | none => synchronize j
  | some place => fun s =>
    match s.toolReads[place access]? with
    | some (k, x) => if k = j then (.ok x, s) else (.error none, s)
    | none => (.error none, s)

/-- What may raise. -/
def orRaise {α : Type} (x : Except Exn α) : Calling α := Tx.ofExcept (x.mapError some)

/-- A session with nothing but its id and what binding the sandbox comes to. -/
def fresh (id : UUID) (bound : Option String × Option BackendSandboxSpec)
    (usage : Option RathLLMTokenUsage) : Session where
  id := id
  parentSessionIds := []
  lineageOperator := "implicit"
  lineageKind := .unknown
  lineageExtras := []
  sandboxBackend := bound.1
  sandboxOpenSpec := bound.2
  cumulativeUsage := usage

/-- A new session. -/
def add (x : LineageSession) : Calling Unit :=
  Tx.execute fun s => { s with sessions := s.sessions ++ [x] }

/-- `stamp_new_session` of a new session. -/
def stampNewSession (c : LineageContext) (x : LineageSession) (parents : List UUID)
    (operator : String) (kind : LineageKind) (extras : List (String × ExtraValue)) : Calling Unit :=
  if c.sessionGraphMode then
    Tx.execute fun s =>
      { s with
        sessions := s.sessions ++ [{ x with session := { x.session with
          parentSessionIds := parents
          lineageOperator := operator
          lineageKind := kind
          lineageExtras := extras } }]
        journals := match c.journal with
          | none => s.journals
          | some n => Function.update s.journals n (s.journals n ++ [x.session.id]) }
  else add x

/-- A session with one row, which has no parents. -/
def leaf (c : LineageContext) (id : UUID) (row : ChunkRow) (operator : String)
    (kind : LineageKind) : Calling Unit :=
  stampNewSession c ⟨fresh id (none, none) none, [row], .settled, []⟩ [] operator kind
    [("source", .json (.str operator))]

/-- `Session.create`. -/
def create (texts : Texts) (c : LineageContext) (id : UUID) (kind text : String) : Calling Unit :=
  if kind = "user" then leaf c id (userTextChunk text) "Session.create" .leafUser
  else if kind = "system" then leaf c id (systemTextChunk text) "Session.create" .leafSystem
  else if kind = "empty" then add ⟨fresh id (none, none) none, [], .settled, []⟩
  else Tx.raise (some (.store (.valueError (s!"Session.create: unknown kind " ++
    texts.repr (.str kind) ++ "; expected one of 'user', 'system', 'empty'"))))

/-- `fork`, with rows before the transcript. -/
def forkWith (c : LineageContext) (id : UUID) (j : ℕ) (extras : List ChunkRow) (bound : Bound) :
    Calling Unit := do
  let x ← read c 0 j
  let bound ← orRaise bound
  stampNewSession c ⟨fresh id bound none, extras ++ x.rows, .settled, x.inFlight⟩ [x.session.id]
    "Session.fork" .opFork []

/-- `detach`. -/
def detach (c : LineageContext) (id : UUID) (j : ℕ) (bound : Bound) : Calling Unit := do
  let x ← read c 0 j
  let bound ← orRaise bound
  stampNewSession c ⟨fresh id bound none, x.rows, .settled, x.inFlight⟩ [] "Session.detach"
    .opDetach []

/-- `merge`. -/
def merge (texts : Texts) (c : LineageContext) (id : UUID) (j k : ℕ) (unbound : Bool)
    (bound : Bound) : Calling Unit := do
  let s ← Tx.query fun s => s
  let backend (j : ℕ) := s.sessions[j]?.bind fun x => x.session.sandboxBackend
  Tx.raiseUnless (unbound = false ∨ backend j = backend k) (some (.store (.valueError
    (s!"cannot merge unbound sessions targeting different backends: " ++
      texts.repr (.ofText? (backend j)) ++ " vs " ++ texts.repr (.ofText? (backend k))))))
  let x ← read c 0 j
  let y ← read c 1 k
  let x' ← read c 2 j
  let y' ← read c 3 k
  let usage := addUsage x'.session.cumulativeUsage y'.session.cumulativeUsage
  let bound ← orRaise bound
  stampNewSession c
    ⟨fresh id bound usage, x.rows ++ y.rows, .settled, x.inFlight ++ y.inFlight⟩
    [x.session.id, y.session.id] "Session.merge" .opMerge []

/-- `run_session_loop`, which returns the session while its coroutine is running. -/
def runSessionLoop (c : LineageContext) (id : UUID) (j k : ℕ) (provided : Bool) (bound : Bound) :
    Calling Unit := do
  Tx.raiseUnless (provided = true) (some (.store (.valueError
    ("no provider for run_session_loop: pass agent_provider=Provider(...) " ++
      "or bind one on the session via session.to(Provider(...))"))))
  let x ← synchronize j
  let y ← synchronize k
  let bound ← orRaise bound
  stampNewSession c ⟨fresh id bound none, x.rows, .running, []⟩ [x.session.id, y.session.id]
    "run_session_loop" .opSessionLoop []

/-- `run_session_compress`. -/
def runSessionCompress (c : LineageContext) (id : UUID) (j k : ℕ) (provided : Bool)
    (completion : Except Exn (Option String × Option RathLLMTokenUsage)) (bound : Bound) :
    Calling Unit := do
  Tx.raiseUnless (provided = true) (some (.store (.valueError
    ("no provider for run_session_compress: pass agent_provider=Provider(...) " ++
      "or bind one on the session via session.to(Provider(...))"))))
  let x ← synchronize j
  let y ← synchronize k
  let (content, usage) ← orRaise completion
  match content with
  | none => Tx.raise (some (.other "RuntimeError" "run_session_compress: empty model content"))
  | some body => do
    Tx.raiseUnless (isBlank body = false)
      (some (.other "RuntimeError" "run_session_compress: empty model content"))
    let bound ← orRaise bound
    stampNewSession c ⟨fresh id bound usage, [userTextChunk (strip body)], .settled, []⟩
      [x.session.id, y.session.id] "run_session_compress" .opSessionCompress
      [("compression.lossy", .json (.bool true)), ("compression.rows_out", .json (.int 1))]

/-- A call. -/
def perform (texts : Texts) (c : LineageContext) (id : UUID) : LineageCall → Calling Unit
  | .construct rows => add ⟨fresh id (none, none) none, rows, .settled, []⟩
  | .create kind text => create texts c id kind text
  | .createUserSession message => leaf c id (userTextChunk message) "create_user_session" .leafUser
  | .createSystemSession prompt =>
    leaf c id (systemTextChunk prompt) "create_system_session" .leafSystem
  | .fork j bound => forkWith c id j [] bound
  | .injectMemoryInto j extras bound => forkWith c id j extras bound
  | .detach j bound => detach c id j bound
  | .merge j k unbound bound => merge texts c id j k unbound bound
  | .runSessionLoop j k provided bound => runSessionLoop c id j k provided bound
  | .runSessionCompress j k provided completion bound =>
    runSessionCompress c id j k provided completion bound
  | .synchronize j => do
    let _ ← synchronize j
    pure ()

/-! ### Steps -/

/-- What the coroutine of a session does to it. -/
def fill (s : LineageState) (j : ℕ) (f : LineageSession → LineageSession) :
    Option LineageState := do
  let x ← s.sessions[j]?
  match x.filling with
  | .running => some (s.set j (f x))
  | _ => none

/-- The state after an event that can happen. The ids that are drawn are different. -/
def step (texts : Texts) (s : LineageState) : LineageEvent → Option LineageState
  | .call c id f =>
    if id ∈ s.ids then none
    else match perform texts c id f s with
      | (.error none, _) => none
      | (_, s') => some s'
  | .readInTool j => do
    let x ← s.sessions[j]?
    some { s with toolReads := s.toolReads ++ [(j, x)] }
  | .appendRow j row => s.fill j fun x => { x with rows := x.rows ++ [row] }
  | .countUsage j usage => s.fill j fun x =>
    { x with session := { x.session with
        cumulativeUsage := addUsage x.session.cumulativeUsage (some usage) } }
  | .complete j truncated => s.fill j fun x =>
    { x with
      session := { x.session with
        lineageExtras := if truncated then
          x.session.lineageExtras ++ [("loop.truncated", .json (.bool true))]
          else x.session.lineageExtras }
      filling := .returned }
  | .fail j e => s.fill j fun x => { x with filling := .failed e }

/-- The state after events that can happen one after the other. -/
def run (texts : Texts) (events : List LineageEvent) : Option LineageState :=
  events.foldlM (step texts) start

/-! ### What a step does -/

/-- What the coroutine of a session leaves alone: its lineage, and the rows that are there. When it
is over there are no more rows. -/
structure Grows (x x' : LineageSession) : Prop where
  id_eq : x'.session.id = x.session.id
  parents_eq : x'.session.parentSessionIds = x.session.parentSessionIds
  kind_eq : x'.session.lineageKind = x.session.lineageKind
  unfinished_eq : x'.unfinished = x.unfinished
  prefix_rows : x.rows <+: x'.rows
  rows_eq : x.filling ≠ .running → x'.rows = x.rows
  not_running : x.filling ≠ .running → x'.filling ≠ .running

/-- What an access may find at a place: a transcript that is there, or what was read in a tool. -/
def Found (s : LineageState) (j : ℕ) (p : LineageSession) : Prop :=
  s.sessions[j]? = some p ∧ p.filling = .settled ∨ (j, p) ∈ s.toolReads

/-- A session at a place before another one, as an access may have found it. -/
structure Before (s : LineageState) (i j : ℕ) (p : LineageSession) : Prop where
  lt : j < i
  found : s.Found j p

/-- Where the transcript of the session at a place comes from, by its lineage. -/
inductive Provenance (s : LineageState) (i : ℕ) (x : LineageSession) : Prop
  | root (hparents : x.session.parentSessionIds = [])
      (hkind : x.session.lineageKind ∈
        [LineageKind.unknown, .leafUser, .leafSystem, .opDetach])
  | fork (j : ℕ) (p : LineageSession) (extras : List ChunkRow) (hp : s.Before i j p)
      (hparents : x.session.parentSessionIds = [p.session.id])
      (hkind : x.session.lineageKind = .opFork) (hsettled : x.filling = .settled)
      (hunfinished : x.unfinished = p.inFlight) (hrows : x.rows = extras ++ p.rows)
  | merge (j k : ℕ) (p q p' q' : LineageSession) (hp : s.Before i j p) (hq : s.Before i k q)
      (hp' : s.Before i j p') (hq' : s.Before i k q')
      (hparents : x.session.parentSessionIds = [p.session.id, q.session.id])
      (hkind : x.session.lineageKind = .opMerge) (hsettled : x.filling = .settled)
      (hunfinished : x.unfinished = p.inFlight ++ q.inFlight) (hrows : x.rows = p.rows ++ q.rows)
      (husage : x.session.cumulativeUsage =
        addUsage p'.session.cumulativeUsage q'.session.cumulativeUsage)
  | sessionLoop (j k : ℕ) (p q : LineageSession) (hp : s.Before i j p) (hq : s.Before i k q)
      (hparents : x.session.parentSessionIds = [p.session.id, q.session.id])
      (hkind : x.session.lineageKind = .opSessionLoop) (hover : p.filling ≠ .running)
      (hrows : p.rows <+: x.rows)
  | sessionCompress (j k : ℕ) (p q : LineageSession) (hp : s.Before i j p) (hq : s.Before i k q)
      (hparents : x.session.parentSessionIds = [p.session.id, q.session.id])
      (hkind : x.session.lineageKind = .opSessionCompress) (hsettled : x.filling = .settled)
      (hrows : ∃ text, x.rows = [userTextChunk text])

/-- What a step does to the state, piece by piece. -/
inductive Change : LineageState → LineageState → Prop
  /-- A session whose transcript was not there. -/
  | grow {s : LineageState} {j : ℕ} {x x' : LineageSession} (hx : s.sessions[j]? = some x)
      (hopen : x.filling ≠ .settled) (hgrows : Grows x x') : Change s (s.set j x')
  /-- A new session, with its id in a journal or not. -/
  | add {s s' : LineageState} {x : LineageSession} (hid : x.session.id ∉ s.ids)
      (hx : s.Provenance s.sessions.length x) (hsessions : s'.sessions = s.sessions ++ [x])
      (htoolReads : s'.toolReads = s.toolReads)
      (hjournals : ∀ n, s'.journals n = s.journals n ∨
        s'.journals n = s.journals n ++ [x.session.id]) : Change s s'
  /-- A session that is read in a tool. -/
  | readInTool {s : LineageState} {j : ℕ} {x : LineageSession} (hx : s.sessions[j]? = some x) :
      Change s { s with toolReads := s.toolReads ++ [(j, x)] }

/-- What the steps do to the state. -/
abbrev Changes : LineageState → LineageState → Prop := Relation.ReflTransGen Change

/-- What was read in a tool: its transcript is what the lineage says, and the session at its place
has grown since. -/
structure Was (s : LineageState) (j : ℕ) (p : LineageSession) : Prop where
  provenance : s.Provenance j p
  exists_grows : ∃ x, s.sessions[j]? = some x ∧ Grows p x

/-- The ids are different, every transcript is what the lineage says, and so is what was read in
tools; the journals list sessions in the order in which they were made. -/
structure Traced (s : LineageState) : Prop where
  nodup_ids : s.ids.Nodup
  provenance : ∀ i x, s.sessions[i]? = some x → s.Provenance i x
  was : ∀ j p, (j, p) ∈ s.toolReads → s.Was j p
  sublist_journal : ∀ n, (s.journals n).Sublist s.ids

/-! ### The invariant -/

section Invariant

variable {s s' : LineageState}

theorem Grows.refl (x : LineageSession) : Grows x x where
  id_eq := rfl
  parents_eq := rfl
  kind_eq := rfl
  unfinished_eq := rfl
  prefix_rows := List.prefix_rfl
  rows_eq _ := rfl
  not_running h := h

theorem Grows.trans {x y z : LineageSession} (hxy : Grows x y) (hyz : Grows y z) : Grows x z where
  id_eq := hyz.id_eq.trans hxy.id_eq
  parents_eq := hyz.parents_eq.trans hxy.parents_eq
  kind_eq := hyz.kind_eq.trans hxy.kind_eq
  unfinished_eq := hyz.unfinished_eq.trans hxy.unfinished_eq
  prefix_rows := hxy.prefix_rows.trans hyz.prefix_rows
  rows_eq h := (hyz.rows_eq (hxy.not_running h)).trans (hxy.rows_eq h)
  not_running h := hyz.not_running (hxy.not_running h)

theorem getElem?_set_self {j : ℕ} {x x' : LineageSession}
    (hx : s.sessions[j]? = some x) : (s.set j x').sessions[j]? = some x' := by
  rw [set, List.getElem?_set_self (List.getElem?_eq_some_iff.mp hx).1]

theorem ids_set {j : ℕ} {x x' : LineageSession} (hx : s.sessions[j]? = some x)
    (hid : x'.session.id = x.session.id) : (s.set j x').ids = s.ids := by
  obtain ⟨hj, rfl⟩ := List.getElem?_eq_some_iff.mp hx
  have hlength : j < s.ids.length := by rwa [ids, List.length_map]
  have hget : s.ids[j] = s.sessions[j].session.id := List.getElem_map ..
  rw [ids, set, List.map_set, hid, ← hget]
  exact List.set_getElem_self hlength

/-- A transcript that is there stays as it is. -/
theorem Found.set {j l : ℕ} {p x x' : LineageSession} (hp : s.Found j p)
    (hx : s.sessions[l]? = some x) (hopen : x.filling ≠ .settled) : (s.set l x').Found j p := by
  obtain ⟨hget, hsettled⟩ | hmem := hp
  · have hne : l ≠ j := by
      rintro rfl
      cases hx.symm.trans hget
      exact hopen hsettled
    refine Or.inl ⟨?_, hsettled⟩
    rw [LineageState.set, List.getElem?_set_ne hne, hget]
  · exact Or.inr hmem

theorem Before.set {i j l : ℕ} {p x x' : LineageSession} (hp : s.Before i j p)
    (hx : s.sessions[l]? = some x) (hopen : x.filling ≠ .settled) : (s.set l x').Before i j p :=
  ⟨hp.lt, hp.found.set hx hopen⟩

theorem getElem?_of_append {j : ℕ} {p x : LineageSession} (hp : s.sessions[j]? = some p)
    (hsessions : s'.sessions = s.sessions ++ [x]) : s'.sessions[j]? = some p := by
  rw [hsessions, List.getElem?_append_left (List.getElem?_eq_some_iff.mp hp).1, hp]

theorem Before.add {i j : ℕ} {p x : LineageSession} (hp : s.Before i j p)
    (hsessions : s'.sessions = s.sessions ++ [x]) (htoolReads : s'.toolReads = s.toolReads) :
    s'.Before i j p := by
  refine ⟨hp.lt, ?_⟩
  obtain ⟨hget, hsettled⟩ | hmem := hp.found
  · exact Or.inl ⟨getElem?_of_append hget hsessions, hsettled⟩
  · exact Or.inr (htoolReads ▸ hmem)

theorem Before.readInTool {i j l : ℕ} {p x : LineageSession} (hp : s.Before i j p) :
    ({ s with toolReads := s.toolReads ++ [(l, x)] } : LineageState).Before i j p :=
  ⟨hp.lt, hp.found.imp id (List.mem_append_left _)⟩

/-- The provenance of a session is kept where what may have been found before it is. -/
theorem Provenance.mono {i : ℕ} {x : LineageSession} (h : s.Provenance i x)
    (hbefore : ∀ j p, s.Before i j p → s'.Before i j p) : s'.Provenance i x := by
  cases h with
  | root hparents hkind => exact .root hparents hkind
  | fork j p extras hp hparents hkind hsettled hunfinished hrows =>
    exact .fork j p extras (hbefore j p hp) hparents hkind hsettled hunfinished hrows
  | merge j k p q p' q' hp hq hp' hq' hparents hkind hsettled hunfinished hrows husage =>
    exact .merge j k p q p' q' (hbefore j p hp) (hbefore k q hq) (hbefore j p' hp')
      (hbefore k q' hq') hparents hkind hsettled hunfinished hrows husage
  | sessionLoop j k p q hp hq hparents hkind hover hrows =>
    exact .sessionLoop j k p q (hbefore j p hp) (hbefore k q hq) hparents hkind hover hrows
  | sessionCompress j k p q hp hq hparents hkind hsettled hrows =>
    exact .sessionCompress j k p q (hbefore j p hp) (hbefore k q hq) hparents hkind hsettled hrows

/-- Only the transcript of the session loop grows. -/
theorem Provenance.grows {i : ℕ} {x x' : LineageSession} (h : s.Provenance i x)
    (hopen : x.filling ≠ .settled) (hgrows : Grows x x') : s.Provenance i x' := by
  cases h with
  | root hparents hkind =>
    exact .root (hgrows.parents_eq.trans hparents) (hgrows.kind_eq ▸ hkind)
  | fork j p extras hp hparents hkind hsettled => exact absurd hsettled hopen
  | merge j k p q p' q' hp hq hp' hq' hparents hkind hsettled => exact absurd hsettled hopen
  | sessionLoop j k p q hp hq hparents hkind hover hrows =>
    exact .sessionLoop j k p q hp hq (hgrows.parents_eq.trans hparents)
      (hgrows.kind_eq.trans hkind) hover (hrows.trans hgrows.prefix_rows)
  | sessionCompress j k p q hp hq hparents hkind hsettled => exact absurd hsettled hopen

theorem traced_start : start.Traced where
  nodup_ids := .nil
  provenance i x hx := by cases hx
  was j p hp := by cases hp
  sublist_journal n := List.Sublist.refl []

/-- A session grows. -/
theorem Traced.set {j : ℕ} {x x' : LineageSession} (h : s.Traced) (hx : s.sessions[j]? = some x)
    (hopen : x.filling ≠ .settled) (hgrows : Grows x x') : (s.set j x').Traced := by
  have hids := ids_set hx hgrows.id_eq
  have hmono : ∀ {i y}, s.Provenance i y → (s.set j x').Provenance i y := fun hy =>
    hy.mono fun _ _ hp => hp.set hx hopen
  refine ⟨hids ▸ h.nodup_ids, fun i y hy => ?_, fun i p hp => ⟨?_, ?_⟩,
    fun n => hids ▸ h.sublist_journal n⟩
  · rw [LineageState.set, List.getElem?_set] at hy
    split_ifs at hy with hji hlt
    · cases hy
      exact hmono ((h.provenance i x (hji ▸ hx)).grows hopen hgrows)
    · exact hmono (h.provenance i y hy)
  · exact hmono (h.was i p hp).provenance
  · obtain ⟨y, hy, hpy⟩ := (h.was i p hp).exists_grows
    by_cases hji : j = i
    · subst hji
      cases hx.symm.trans hy
      exact ⟨x', getElem?_set_self hx, hpy.trans hgrows⟩
    · refine ⟨y, ?_, hpy⟩
      rw [LineageState.set, List.getElem?_set_ne hji, hy]

/-- A session is made. -/
theorem Traced.add {x : LineageSession} (h : s.Traced) (hid : x.session.id ∉ s.ids)
    (hx : s.Provenance s.sessions.length x) (hsessions : s'.sessions = s.sessions ++ [x])
    (htoolReads : s'.toolReads = s.toolReads)
    (hjournals : ∀ n, s'.journals n = s.journals n ∨
      s'.journals n = s.journals n ++ [x.session.id]) : s'.Traced := by
  have hids : s'.ids = s.ids ++ [x.session.id] := by
    rw [ids, hsessions, List.map_append]
    rfl
  have hmono : ∀ {i y}, s.Provenance i y → s'.Provenance i y := fun hy =>
    hy.mono fun _ _ hp => hp.add hsessions htoolReads
  refine ⟨?_, fun i y hy => ?_, fun i p hp => ?_, fun n => ?_⟩
  · rw [hids]
    exact List.nodup_append_comm.mp (List.nodup_cons.mpr ⟨hid, h.nodup_ids⟩)
  · rw [hsessions, List.getElem?_append] at hy
    split_ifs at hy with hi
    · exact hmono (h.provenance i y hy)
    · obtain ⟨hlength, hy⟩ := List.getElem?_eq_some_iff.mp hy
      have hi' : i = s.sessions.length := by
        rw [List.length_singleton] at hlength
        omega
      subst hi'
      have hxy : x = y := by simpa using hy
      rw [← hxy]
      exact hmono hx
  · have hwas := h.was i p (htoolReads ▸ hp)
    obtain ⟨y, hy, hpy⟩ := hwas.exists_grows
    exact ⟨hmono hwas.provenance, y, getElem?_of_append hy hsessions, hpy⟩
  · rw [hids]
    obtain hsame | hadded := hjournals n
    · rw [hsame]
      exact (h.sublist_journal n).trans (List.sublist_append_left _ _)
    · rw [hadded]
      exact (h.sublist_journal n).append (List.Sublist.refl _)

/-- A session is read in a tool. -/
theorem Traced.readInTool {j : ℕ} {x : LineageSession} (h : s.Traced)
    (hx : s.sessions[j]? = some x) :
    ({ s with toolReads := s.toolReads ++ [(j, x)] } : LineageState).Traced := by
  refine ⟨h.nodup_ids, fun i y hy => ?_, fun i p hp => ?_, h.sublist_journal⟩
  · exact (h.provenance i y hy).mono fun _ _ hp => hp.readInTool
  · obtain hp | hp := List.mem_append.mp hp
    · have hwas := h.was i p hp
      exact ⟨hwas.provenance.mono fun _ _ hp => hp.readInTool, hwas.exists_grows⟩
    · cases List.mem_singleton.mp hp
      exact ⟨(h.provenance j x hx).mono fun _ _ hp => hp.readInTool, x, hx, .refl x⟩

/-- A change keeps the invariant. -/
theorem Traced.change (h : s.Traced) (hchange : Change s s') : s'.Traced := by
  cases hchange with
  | grow hx hopen hgrows => exact h.set hx hopen hgrows
  | add hid hx hsessions htoolReads hjournals => exact h.add hid hx hsessions htoolReads hjournals
  | readInTool hx => exact h.readInTool hx

theorem Traced.changes (h : s.Traced) (hchanges : Changes s s') : s'.Traced := by
  induction hchanges with
  | refl => exact h
  | tail _ hchange ih => exact ih.change hchange

/-! ### Calls -/

/-- What a call has done so far, while the id that it has drawn is not that of a session. -/
structure Reached (s : LineageState) (id : UUID) (t : LineageState) : Prop where
  changes : Changes s t
  notMem_ids : id ∉ t.ids
  lt_length : ∀ q ∈ t.toolReads, q.1 < t.sessions.length

/-- There is a transcript at a place. -/
def HasRows (j : ℕ) (x : LineageSession) (t : LineageState) : Prop :=
  t.sessions[j]? = some x ∧ x.filling = .settled

/-- What is still so when the result of a coroutine is taken. -/
def Settling (P : LineageState → Prop) : Prop :=
  ∀ t j x, P t → t.sessions[j]? = some x → x.filling ≠ .settled →
    P (t.set j { x with filling := .settled })

variable {id : UUID} {c : LineageContext}

/-- A session whose result is taken. -/
theorem grows_settled (x : LineageSession) : Grows x { x with filling := .settled } where
  id_eq := rfl
  parents_eq := rfl
  kind_eq := rfl
  unfinished_eq := rfl
  prefix_rows := List.prefix_rfl
  rows_eq _ := rfl
  not_running _ := by simp

theorem settling_reached (s : LineageState) (id : UUID) : Settling (s.Reached id) := by
  intro t j x ht hx hopen
  refine ⟨ht.changes.tail (.grow hx hopen (grows_settled x)), ?_, fun q hq => ?_⟩
  · rw [ids_set hx (grows_settled x).id_eq]
    exact ht.notMem_ids
  · rw [set, List.length_set]
    exact ht.lt_length q hq

theorem Settling.and {P Q : LineageState → Prop} (hP : Settling P) (hQ : Settling Q) :
    Settling fun t => P t ∧ Q t :=
  fun t j x ht hx hopen => ⟨hP t j x ht.1 hx hopen, hQ t j x ht.2 hx hopen⟩

theorem settling_found (j : ℕ) (p : LineageSession) : Settling fun t => t.Found j p :=
  fun _ _ _ ht hx hopen => ht.set hx hopen

theorem settling_hasRows (j : ℕ) (p : LineageSession) : Settling (HasRows j p) := by
  intro t k x ht hx hopen
  refine ⟨?_, ht.2⟩
  have hne : k ≠ j := by
    rintro rfl
    cases hx.symm.trans ht.1
    exact hopen ht.2
  rw [LineageState.set, List.getElem?_set_ne hne, ht.1]

theorem HasRows.found {t : LineageState} {j : ℕ} {x : LineageSession} (h : HasRows j x t) :
    t.Found j x := Or.inl h

theorem Reached.before {t : LineageState} (h : s.Reached id t) {j : ℕ} {x : LineageSession}
    (hx : t.Found j x) : t.Before t.sessions.length j x := by
  refine ⟨?_, hx⟩
  obtain ⟨hget, -⟩ | hmem := hx
  · exact (List.getElem?_eq_some_iff.mp hget).1
  · exact h.lt_length _ hmem

theorem ends_synchronize {P : LineageState → Prop} {j : ℕ} (hP : Settling P) :
    Tx.Ends P (synchronize j) (fun x t => P t ∧ HasRows j x t) fun _ => P := by
  refine ⟨fun t ht => ?_⟩
  rw [synchronize]
  cases hx : t.sessions[j]? with
  | none => exact ht
  | some x =>
    cases hfilling : x.filling with
    | settled => simpa [hfilling] using ⟨ht, hx, hfilling⟩
    | running => simpa [hfilling] using ht
    | returned =>
      have hset := hP t j x ht hx (by simp [hfilling])
      simpa [hfilling] using ⟨hset, getElem?_set_self hx, rfl⟩
    | failed e =>
      have hset := hP t j x ht hx (by simp [hfilling])
      simpa [hfilling] using hset

/-- An access finds a transcript that is there, or it is in a tool. -/
theorem ends_read {P : LineageState → Prop} {access j : ℕ} (hP : Settling P) :
    Tx.Ends P (read c access j) (fun x t => P t ∧ t.Found j x) fun _ => P := by
  rw [read]
  cases c.toolReads with
  | none =>
    exact (ends_synchronize hP).consequence (fun _ ht => ht) (fun _ _ ht => ⟨ht.1, ht.2.found⟩)
      fun _ _ ht => ht
  | some place =>
    refine ⟨fun t ht => ?_⟩
    dsimp only
    cases hread : t.toolReads[place access]? with
    | none => exact ht
    | some q =>
      obtain ⟨k, x⟩ := q
      dsimp only
      split_ifs with hk
      · subst hk
        exact ⟨ht, Or.inr (List.mem_of_getElem? hread)⟩
      · exact ht

theorem ends_orRaise {α : Type} {x : Except Exn α} {P : LineageState → Prop}
    (hP : ∀ t, P t → s.Reached id t) :
    Tx.Ends P (orRaise x) (fun _ => P) fun _ => s.Reached id :=
  Tx.ends_ofExcept (fun _ _ _ ht => ht) fun _ _ t ht => hP t ht

theorem ends_raiseUnless {e : Option Exn} {p : Prop} [Decidable p] :
    Tx.Ends (s.Reached id) (Tx.raiseUnless p e) (fun _ => s.Reached id) fun _ => s.Reached id :=
  Tx.ends_ite (fun _ => Tx.ends_pure fun _ ht => ht) fun _ => Tx.ends_raise fun _ ht => ht

theorem ends_add {P : LineageState → Prop} {x : LineageSession}
    (hP : ∀ t, P t → s.Reached x.session.id t)
    (hx : ∀ t, P t → t.Provenance t.sessions.length x) :
    Tx.Ends P (add x) (fun _ => Changes s) fun _ => Changes s :=
  ⟨fun t ht => (hP t ht).changes.tail
    (.add (hP t ht).notMem_ids (hx t ht) rfl rfl fun _ => Or.inl rfl)⟩

/-- A new session is stamped, or it has no lineage. -/
theorem ends_stampNewSession {P : LineageState → Prop}
    {bound : Option String × Option BackendSandboxSpec} {usage : Option RathLLMTokenUsage}
    {rows : List ChunkRow} {filling : Filling} {unfinished parents : List UUID} {operator : String}
    {kind : LineageKind} {extras : List (String × ExtraValue)}
    (hP : ∀ t, P t → s.Reached id t)
    (hx : ∀ t, P t → ∀ x : LineageSession, x.session.parentSessionIds = parents →
      x.session.lineageKind = kind → x.session.cumulativeUsage = usage → x.rows = rows →
      x.filling = filling → x.unfinished = unfinished → t.Provenance t.sessions.length x) :
    Tx.Ends P (stampNewSession c ⟨fresh id bound usage, rows, filling, unfinished⟩ parents operator
      kind extras) (fun _ => Changes s) fun _ => Changes s := by
  refine Tx.ends_ite (fun _ => ⟨fun t ht => ?_⟩) fun _ => ?_
  · refine (hP t ht).changes.tail
      (.add (hP t ht).notMem_ids (hx t ht _ rfl rfl rfl rfl rfl rfl) rfl rfl fun n => ?_)
    cases c.journal with
    | none => exact Or.inl rfl
    | some m =>
      by_cases hn : n = m
      · rw [hn]
        exact Or.inr (Function.update_self ..)
      · exact Or.inl (Function.update_of_ne hn ..)
  · exact ends_add hP fun t ht => .root rfl (by simp [fresh])

/-- A body whose errors leave the state reached. -/
abbrev Adds (s : LineageState) (P : LineageState → Prop) (x : Calling Unit) : Prop :=
  Tx.Ends P x (fun _ => Changes s) fun _ => Changes s

theorem adds_bind {α : Type} {P : LineageState → Prop} {Q : α → LineageState → Prop}
    {x : Calling α} {f : α → Calling Unit} (h : Tx.Ends P x Q fun _ => s.Reached id)
    (hf : ∀ a, s.Adds (Q a) (f a)) : s.Adds P (x >>= f) :=
  (h.consequence (fun _ ht => ht) (fun _ _ ht => ht) fun _ _ ht => ht.changes).bind hf

theorem adds_read {P : LineageState → Prop} {access j : ℕ} {f : LineageSession → Calling Unit}
    (hP : Settling P) (hreached : ∀ t, P t → s.Reached id t)
    (hf : ∀ x, s.Adds (fun t => P t ∧ t.Found j x) (f x)) : s.Adds P (read c access j >>= f) :=
  adds_bind ((ends_read hP).consequence (fun _ ht => ht) (fun _ _ ht => ht)
    fun _ t ht => hreached t ht) hf

theorem adds_synchronize {P : LineageState → Prop} {j : ℕ} {f : LineageSession → Calling Unit}
    (hP : Settling P) (hreached : ∀ t, P t → s.Reached id t)
    (hf : ∀ x, s.Adds (fun t => P t ∧ HasRows j x t) (f x)) : s.Adds P (synchronize j >>= f) :=
  adds_bind ((ends_synchronize hP).consequence (fun _ ht => ht) (fun _ _ ht => ht)
    fun _ t ht => hreached t ht) hf

theorem adds_leaf {row : ChunkRow} {operator : String} {kind : LineageKind}
    (hkind : kind ∈ [LineageKind.unknown, .leafUser, .leafSystem, .opDetach]) :
    s.Adds (s.Reached id) (leaf c id row operator kind) :=
  ends_stampNewSession (fun _ ht => ht) fun _ _ _ hparents hk _ _ _ _ =>
    .root hparents (hk.symm ▸ hkind)

theorem adds_forkWith (j : ℕ) (extras : List ChunkRow) (bound : Bound) :
    s.Adds (s.Reached id) (forkWith c id j extras bound) := by
  refine adds_read (settling_reached s id) (fun _ ht => ht) fun p => ?_
  refine adds_bind (ends_orRaise fun _ ht => ht.1) fun bound => ?_
  refine ends_stampNewSession (fun _ ht => ht.1)
    fun t ht x hparents hkind _ hrows hfilling hunfinished => ?_
  exact .fork j p extras (ht.1.before ht.2) hparents hkind hfilling hunfinished hrows

theorem adds_detach (j : ℕ) (bound : Bound) : s.Adds (s.Reached id) (detach c id j bound) := by
  refine adds_read (settling_reached s id) (fun _ ht => ht) fun p => ?_
  refine adds_bind (ends_orRaise fun _ ht => ht.1) fun bound => ?_
  refine ends_stampNewSession (fun _ ht => ht.1) fun t ht x hparents hkind _ _ _ _ => ?_
  exact .root hparents (by simp [hkind])

theorem adds_merge (texts : Texts) (j k : ℕ) (unbound : Bool) (bound : Bound) :
    s.Adds (s.Reached id) (merge texts c id j k unbound bound) := by
  have hquery : Tx.Ends (s.Reached id) (Tx.query fun s => s : Calling LineageState)
      (fun _ => s.Reached id) fun _ => s.Reached id := Tx.ends_query fun _ ht => ht
  have hone := settling_reached s id
  have htwo := fun p => hone.and (settling_found j p)
  have hthree := fun p q => (htwo p).and (settling_found k q)
  have hfour := fun p q p' => (hthree p q).and (settling_found j p')
  refine adds_bind hquery fun _ => ?_
  refine adds_bind ends_raiseUnless fun _ => ?_
  refine adds_read hone (fun _ ht => ht) fun p => ?_
  refine adds_read (htwo p) (fun _ ht => ht.1) fun q => ?_
  refine adds_read (hthree p q) (fun _ ht => ht.1.1) fun p' => ?_
  refine adds_read (hfour p q p') (fun _ ht => ht.1.1.1) fun q' => ?_
  refine adds_bind (ends_orRaise fun _ ht => ht.1.1.1.1) fun bound => ?_
  refine ends_stampNewSession (fun _ ht => ht.1.1.1.1)
    fun t ht x hparents hkind husage hrows hfilling hunfinished => ?_
  obtain ⟨⟨⟨⟨ht, hp⟩, hq⟩, hp'⟩, hq'⟩ := ht
  exact .merge j k p q p' q' (ht.before hp) (ht.before hq) (ht.before hp') (ht.before hq')
    hparents hkind hfilling hunfinished hrows husage

theorem adds_runSessionLoop (j k : ℕ) (provided : Bool) (bound : Bound) :
    s.Adds (s.Reached id) (runSessionLoop c id j k provided bound) := by
  refine adds_bind ends_raiseUnless fun _ => ?_
  refine adds_synchronize (settling_reached s id) (fun _ ht => ht) fun p => ?_
  refine adds_synchronize ((settling_reached s id).and (settling_hasRows j p))
    (fun _ ht => ht.1) fun q => ?_
  refine adds_bind (ends_orRaise fun _ ht => ht.1.1) fun bound => ?_
  refine ends_stampNewSession (fun _ ht => ht.1.1) fun t ht x hparents hkind _ hrows _ _ => ?_
  obtain ⟨⟨ht, hp⟩, hq⟩ := ht
  exact .sessionLoop j k p q (ht.before hp.found) (ht.before hq.found) hparents hkind
    (by simp [hp.2]) (hrows ▸ List.prefix_rfl)

theorem adds_runSessionCompress (j k : ℕ) (provided : Bool)
    (completion : Except Exn (Option String × Option RathLLMTokenUsage)) (bound : Bound) :
    s.Adds (s.Reached id) (runSessionCompress c id j k provided completion bound) := by
  refine adds_bind ends_raiseUnless fun _ => ?_
  refine adds_synchronize (settling_reached s id) (fun _ ht => ht) fun p => ?_
  refine adds_synchronize ((settling_reached s id).and (settling_hasRows j p))
    (fun _ ht => ht.1) fun q => ?_
  refine adds_bind (ends_orRaise fun _ ht => ht.1.1) fun result => ?_
  obtain ⟨_ | body, usage⟩ := result
  · exact Tx.ends_raise fun _ ht => ht.1.1.changes
  · refine adds_bind (Q := fun _ t => (s.Reached id t ∧ HasRows j p t) ∧ HasRows k q t)
      (Tx.ends_ite (fun _ => Tx.ends_pure fun _ ht => ht) fun _ =>
        Tx.ends_raise fun _ ht => ht.1.1) fun _ => ?_
    refine adds_bind (ends_orRaise fun _ ht => ht.1.1) fun bound => ?_
    refine ends_stampNewSession (fun _ ht => ht.1.1)
      fun t ht x hparents hkind _ hrows hfilling _ => ?_
    obtain ⟨⟨ht, hp⟩, hq⟩ := ht
    exact .sessionCompress j k p q (ht.before hp.found) (ht.before hq.found) hparents hkind
      hfilling ⟨_, hrows⟩

theorem adds_create (texts : Texts) (kind text : String) :
    s.Adds (s.Reached id) (create texts c id kind text) := by
  refine Tx.ends_ite (fun _ => adds_leaf (by decide)) fun _ => ?_
  refine Tx.ends_ite (fun _ => adds_leaf (by decide)) fun _ => ?_
  refine Tx.ends_ite (fun _ => ?_) fun _ => Tx.ends_raise fun _ ht => ht.changes
  exact ends_add (fun _ ht => ht) fun _ _ => .root rfl (by simp [fresh])

/-- What a call does to the state. -/
theorem adds_perform (texts : Texts) (f : LineageCall) :
    s.Adds (s.Reached id) (perform texts c id f) := by
  cases f with
  | construct rows => exact ends_add (fun _ ht => ht) fun _ _ => .root rfl (by simp [fresh])
  | create kind text => exact adds_create texts kind text
  | createUserSession | createSystemSession => exact adds_leaf (by decide)
  | fork j bound => exact adds_forkWith j [] bound
  | injectMemoryInto j extras bound => exact adds_forkWith j extras bound
  | detach j bound => exact adds_detach j bound
  | merge j k unbound bound => exact adds_merge texts j k unbound bound
  | runSessionLoop j k provided bound => exact adds_runSessionLoop j k provided bound
  | runSessionCompress j k provided completion bound =>
    exact adds_runSessionCompress j k provided completion bound
  | synchronize j =>
    exact adds_synchronize (settling_reached s id) (fun _ ht => ht) fun _ =>
      Tx.ends_pure fun _ ht => ht.1.changes

/-! ### Runs -/

theorem change_of_fill {j : ℕ} {f : LineageSession → LineageSession}
    (hf : ∀ x, x.filling = .running → Grows x (f x)) (h : s.fill j f = some s') :
    Change s s' := by
  rw [fill] at h
  obtain ⟨x, hx, h⟩ := Option.bind_eq_some_iff.mp h
  cases hfilling : x.filling with
  | running =>
    simp only [hfilling, Option.some.injEq] at h
    rw [← h]
    exact .grow hx (by simp [hfilling]) (hf x hfilling)
  | settled | returned | failed => simp [hfilling] at h

theorem Traced.reached (h : s.Traced) {id : UUID} (hid : id ∉ s.ids) : s.Reached id s := by
  refine ⟨.refl, hid, fun q hq => ?_⟩
  obtain ⟨x, hx, -⟩ := (h.was q.1 q.2 hq).exists_grows
  exact (List.getElem?_eq_some_iff.mp hx).1

/-- What an event does to the state. -/
theorem Traced.changes_of_step (htraced : s.Traced) {texts : Texts} {e : LineageEvent}
    (h : step texts s e = some s') : Changes s s' := by
  cases e with
  | call c id f =>
    rw [step] at h
    split_ifs at h with hid
    have hadds : s.Adds (s.Reached id) (perform texts c id f) := adds_perform texts f
    have hends := hadds.ends s (htraced.reached hid)
    rcases hresult : perform texts c id f s with ⟨(_ | e) | u, t⟩ <;> rw [hresult] at h hends
    · cases h
    · cases h
      exact hends
    · cases h
      exact hends
  | readInTool j =>
    rw [step] at h
    obtain ⟨x, hx, h⟩ := Option.bind_eq_some_iff.mp h
    cases h
    exact .single (.readInTool hx)
  | appendRow j row =>
    rw [step] at h
    refine .single (change_of_fill (fun x hx => ?_) h)
    exact ⟨rfl, rfl, rfl, rfl, List.prefix_append .., fun hover => absurd hx hover,
      fun hover => absurd hx hover⟩
  | countUsage | complete | fail =>
    rw [step] at h
    refine .single (change_of_fill (fun x hx => ?_) h)
    exact ⟨rfl, rfl, rfl, rfl, List.prefix_rfl, fun hover => absurd hx hover,
      fun hover => absurd hx hover⟩

/-- The invariant holds after every run. -/
theorem traced_of_run {texts : Texts} {events : List LineageEvent}
    (h : run texts events = some s) : s.Traced := by
  induction events using List.reverseRecOn generalizing s with
  | nil =>
    cases h
    exact traced_start
  | append_singleton events e ih =>
    rw [run, List.foldlM_append] at h
    obtain ⟨t, ht, hstep⟩ := Option.bind_eq_some_iff.mp h
    obtain ⟨t', hstep, hend⟩ := Option.bind_eq_some_iff.mp hstep
    cases hend
    exact (ih ht).changes ((ih ht).changes_of_step hstep)

end Invariant

/-! ### The graph -/

theorem nodup_map_ids {s : LineageState} (h : s.ids.Nodup) :
    ((s.sessions.map fun x => (x.session.id, x.session.parentSessionIds)).map Prod.fst).Nodup := by
  rwa [List.map_map]

/-- The sessions by their ids, with their parents. -/
def graph (s : LineageState) (h : s.ids.Nodup) : SessionGraph where
  byId := s.sessions.map fun x => (x.session.id, x.session.parentSessionIds)
  nodup_ids := nodup_map_ids h

section Graph

variable {s : LineageState}

/-- The parents of a session come before it. -/
theorem Provenance.exists_before {i : ℕ} {x : LineageSession} (h : s.Provenance i x) {a : UUID}
    (ha : a ∈ x.session.parentSessionIds) : ∃ j p, s.Before i j p ∧ p.session.id = a := by
  cases h with
  | root hparents =>
    rw [hparents] at ha
    cases ha
  | fork j p extras hp hparents =>
    rw [hparents, List.mem_singleton] at ha
    exact ⟨j, p, hp, ha.symm⟩
  | merge j k p q _ _ hp hq _ _ hparents | sessionLoop j k p q hp hq hparents
  | sessionCompress j k p q hp hq hparents =>
    rw [hparents, List.mem_cons, List.mem_singleton] at ha
    obtain rfl | rfl := ha
    · exact ⟨j, p, hp, rfl⟩
    · exact ⟨k, q, hq, rfl⟩

theorem getElem?_ids (i : ℕ) : s.ids[i]? = s.sessions[i]?.map fun x => x.session.id :=
  List.getElem?_map ..

/-- What an access finds is a session at that place. -/
theorem Traced.getElem?_ids_of_found (h : s.Traced) {j : ℕ} {p : LineageSession}
    (hp : s.Found j p) : s.ids[j]? = some p.session.id := by
  obtain ⟨hget, -⟩ | hmem := hp
  · rw [getElem?_ids, hget]
    rfl
  · obtain ⟨x, hx, hgrows⟩ := (h.was j p hmem).exists_grows
    rw [getElem?_ids, hx, ← hgrows.id_eq]
    rfl

theorem idxOf_of_getElem? {l : List UUID} (h : l.Nodup) {i : ℕ} {a : UUID} (ha : l[i]? = some a) :
    l.idxOf a = i := by
  obtain ⟨hi, rfl⟩ := List.getElem?_eq_some_iff.mp ha
  exact h.idxOf_getElem i hi

theorem Traced.idxOf_lt (h : s.Traced) {x : LineageSession} (hx : x ∈ s.sessions) {a : UUID}
    (ha : a ∈ x.session.parentSessionIds) :
    s.ids.idxOf a < s.ids.idxOf x.session.id ∧ a ∈ s.ids := by
  obtain ⟨i, hi⟩ := List.mem_iff_getElem?.mp hx
  obtain ⟨j, p, hp, rfl⟩ := (h.provenance i x hi).exists_before ha
  have hchild : s.ids[i]? = some x.session.id := by rw [getElem?_ids, hi]; rfl
  have hparent := h.getElem?_ids_of_found hp.found
  rw [idxOf_of_getElem? h.nodup_ids hchild, idxOf_of_getElem? h.nodup_ids hparent]
  exact ⟨hp.lt, List.mem_of_getElem? hparent⟩

theorem Traced.acyclic (h : s.Traced) : (s.graph h.nodup_ids).Acyclic := by
  have hedge : ∀ a b, (s.graph h.nodup_ids).byId.Edge a b → s.ids.idxOf b < s.ids.idxOf a := by
    intro a b hedge
    obtain ⟨parents, hmem, hb⟩ := SessionGraph.edge_iff.mp hedge
    obtain ⟨x, hx, heq⟩ := List.mem_map.mp hmem
    cases heq
    exact (h.idxOf_lt hx hb).1
  have hpath : ∀ a b, (s.graph h.nodup_ids).Ancestor b a → s.ids.idxOf b < s.ids.idxOf a := by
    intro a b hpath
    induction hpath with
    | single hstep => exact hedge _ _ hstep
    | tail _ hstep ih => exact (hedge _ _ hstep).trans ih
  exact fun a hcycle => lt_irrefl _ (hpath a a hcycle)

theorem Traced.hasParents (h : s.Traced) : (s.graph h.nodup_ids).HasParents := by
  intro entry hentry p hp
  obtain ⟨x, hx, rfl⟩ := List.mem_map.mp hentry
  have hids : (s.graph h.nodup_ids).ids = s.ids := List.map_map ..
  rw [hids]
  exact (h.idxOf_lt hx hp).2

/-- In a list in the order of another one, nothing comes behind what is later. -/
theorem not_mem_of_sublist {l ids before after : List UUID} (hnodup : ids.Nodup)
    (hsub : l.Sublist ids) {a b : UUID} (hlt : ids.idxOf a < ids.idxOf b)
    (hl : l = before ++ b :: after) : a ∉ after := by
  intro ha
  rw [hl] at hsub
  have hpair : [b, a].Sublist ids := by
    have htail : [b, a].Sublist (b :: after) := (List.singleton_sublist.mpr ha).cons_cons b
    exact (htail.trans (List.sublist_append_right before _)).trans hsub
  obtain ⟨first, rest, rfl, hb, ha⟩ := List.cons_sublist_iff.mp hpair
  have ha : a ∈ rest := List.singleton_sublist.mp ha
  have hfirst : a ∉ first := fun hmem => List.disjoint_of_nodup_append hnodup hmem ha
  rw [List.idxOf_append_of_notMem hfirst, List.idxOf_append_of_mem hb] at hlt
  have hbound := List.idxOf_lt_length_iff.mpr hb
  omega

/-- **Lineage.** After every run, `validate_acyclic` finds nothing wrong with the sessions that were
made, and every journal lists sessions once, with no parent behind a child. -/
theorem validateAcyclic_of_run {texts : Texts} {events : List LineageEvent}
    (h : run texts events = some s) : ∃ hnodup : s.ids.Nodup,
    (s.graph hnodup).validateAcyclic = .ok () ∧ ∀ n, (s.journals n).Nodup ∧
      (∀ a ∈ s.journals n, a ∈ s.ids) ∧
      ∀ x ∈ s.sessions, ∀ a ∈ x.session.parentSessionIds, ∀ before after,
        s.journals n = before ++ x.session.id :: after → a ∉ after := by
  have htraced := traced_of_run h
  refine ⟨htraced.nodup_ids, ?_, fun n => ⟨?_, ?_, ?_⟩⟩
  · have hframes := Nat.lt_succ_self (s.graph htraced.nodup_ids).byId.length
    obtain ⟨hok, -⟩ | ⟨-, hwrong⟩ := SessionGraph.validateWithin_spec hframes
    · exact hok
    · exact (hwrong.elim (· htraced.hasParents) (· htraced.acyclic)).elim
  · exact (htraced.sublist_journal n).nodup htraced.nodup_ids
  · exact fun a ha => (htraced.sublist_journal n).subset ha
  · intro x hx a ha before after hl
    exact not_mem_of_sublist htraced.nodup_ids (htraced.sublist_journal n)
      (htraced.idxOf_lt hx ha).1 hl

end Graph

/-! ### Transcripts -/

/-- The transcript of a parent goes into that of the session, which is a fork, a merged session, or
what the session loop has made of the parent. -/
def Takes (x : LineageSession) (a : UUID) : Prop :=
  x.session.lineageKind = .opFork ∧ x.session.parentSessionIds = [a] ∨
    x.session.lineageKind = .opMerge ∧ a ∈ x.session.parentSessionIds ∨
    x.session.lineageKind = .opSessionLoop ∧ x.session.parentSessionIds.head? = some a

/-- The transcript of a session goes into that of a child. -/
def Carries (s : LineageState) (a b : UUID) : Prop :=
  ∃ x ∈ s.sessions, x.session.id = b ∧ Takes x a

/-- What a session is, or what it was when it was read in a tool. -/
structure IsVersion (s : LineageState) (v x : LineageSession) : Prop where
  mem : x ∈ s.sessions
  grows : Grows v x
  exists_provenance : ∃ i, s.Provenance i v

section Transcripts

variable {s : LineageState}

theorem Traced.eq_of_id (h : s.Traced) {x y : LineageSession} (hx : x ∈ s.sessions)
    (hy : y ∈ s.sessions) (hid : x.session.id = y.session.id) : x = y :=
  List.inj_on_of_nodup_map h.nodup_ids hx hy hid

theorem Grows.takes {x x' : LineageSession} (h : Grows x x') {a : UUID} (ha : Takes x' a) :
    Takes x a := by
  rwa [Takes, ← h.kind_eq, ← h.parents_eq]

theorem mem_inFlight {x : LineageSession} (h : x.filling = .running) :
    x.session.id ∈ x.inFlight := by
  simp [LineageSession.inFlight, h]

theorem Traced.isVersion_self (h : s.Traced) {x : LineageSession} (hx : x ∈ s.sessions) :
    s.IsVersion x x := by
  obtain ⟨i, hi⟩ := List.mem_iff_getElem?.mp hx
  exact ⟨hx, .refl x, i, h.provenance i x hi⟩

theorem Traced.exists_isVersion (h : s.Traced) {j : ℕ} {p : LineageSession} (hp : s.Found j p) :
    ∃ x, s.IsVersion p x := by
  obtain ⟨hget, -⟩ | hmem := hp
  · exact ⟨p, h.isVersion_self (List.mem_of_getElem? hget)⟩
  · have hwas := h.was j p hmem
    obtain ⟨x, hx, hgrows⟩ := hwas.exists_grows
    exact ⟨x, List.mem_of_getElem? hx, hgrows, j, hwas.provenance⟩

/-- A transcript contains what was found of the parent. If the coroutine of the parent was running,
this is on record. -/
theorem Provenance.exists_infix {i : ℕ} {x : LineageSession} (h : s.Provenance i x) {a : UUID}
    (ha : Takes x a) : ∃ j p, s.Before i j p ∧ p.session.id = a ∧ p.rows <:+: x.rows ∧
      (p.filling = .running → a ∈ x.unfinished) := by
  rw [Takes] at ha
  cases h with
  | root hparents hroot =>
    rw [hparents] at ha
    simp at ha
  | fork j p extras hp hparents hkind _ hunfinished hrows =>
    simp only [hparents, hkind, List.cons.injEq, and_true, true_and, reduceCtorEq, false_and,
      or_false] at ha
    subst ha
    refine ⟨j, p, hp, rfl, ?_, fun hrunning => hunfinished ▸ mem_inFlight hrunning⟩
    rw [hrows]
    exact (List.suffix_append ..).isInfix
  | merge j k p q _ _ hp hq _ _ hparents hkind _ hunfinished hrows =>
    simp only [hparents, hkind, reduceCtorEq, false_and, true_and, false_or, or_false,
      List.mem_cons, List.not_mem_nil] at ha
    rw [hunfinished, hrows]
    obtain rfl | rfl := ha
    · exact ⟨j, p, hp, rfl, (List.prefix_append ..).isInfix, fun hrunning =>
        List.mem_append_left _ (mem_inFlight hrunning)⟩
    · exact ⟨k, q, hq, rfl, (List.suffix_append ..).isInfix, fun hrunning =>
        List.mem_append_right _ (mem_inFlight hrunning)⟩
  | sessionLoop j k p q hp hq hparents hkind hover hrows =>
    simp only [hparents, hkind, reduceCtorEq, false_and, true_and, false_or, List.head?_cons,
      Option.some.injEq] at ha
    exact ⟨j, p, hp, ha, hrows.isInfix, fun hrunning => absurd hrunning hover⟩
  | sessionCompress j k p q hp hq hparents hkind =>
    simp [hkind] at ha

/-- A transcript contains that of a parent which was finished when it was used. -/
theorem Traced.infix_of_takes (h : s.Traced) {x v m : LineageSession} (hx : x ∈ s.sessions)
    (hv : s.IsVersion v m) (htakes : Takes m x.session.id) (hwhole : x.session.id ∉ m.unfinished) :
    x.rows <:+: v.rows := by
  obtain ⟨i, hprovenance⟩ := hv.exists_provenance
  obtain ⟨j, p, hp, hid, hrows, hrunning⟩ := hprovenance.exists_infix (hv.grows.takes htakes)
  obtain ⟨z, hz⟩ := h.exists_isVersion hp.found
  obtain rfl := h.eq_of_id hz.mem hx (hz.grows.id_eq.trans hid)
  have hover : p.filling ≠ .running := fun hfilling =>
    hwhole (hv.grows.unfinished_eq ▸ hrunning hfilling)
  rwa [hz.grows.rows_eq hover]

/-- **Transcripts.** After every run: if a session was forked, merged or looped after its coroutine
was over, which is always so outside of tools, then all of its rows are contained, as one piece, in
the rows of what was made, and in those of whatever this was forked, merged or looped into over any
number of generations, in tools as well and with some of these transcripts still unfinished. -/
theorem rows_of_carries {texts : Texts} {events : List LineageEvent}
    (h : run texts events = some s) {x m y : LineageSession} (hx : x ∈ s.sessions)
    (hm : m ∈ s.sessions) (hy : y ∈ s.sessions) (hcarries : s.Carries x.session.id m.session.id)
    (hwhole : x.session.id ∉ m.unfinished)
    (hpath : Relation.ReflTransGen s.Carries m.session.id y.session.id) : x.rows <:+: y.rows := by
  have htraced := traced_of_run h
  have hversions : ∀ b, Relation.ReflTransGen s.Carries m.session.id b →
      ∀ v c, s.IsVersion v c → c.session.id = b → x.rows <:+: v.rows := by
    intro b hpath
    induction hpath with
    | refl =>
      intro v c hv hid
      obtain rfl := htraced.eq_of_id hv.mem hm hid
      obtain ⟨z, hz, hid, htakes⟩ := hcarries
      obtain rfl := htraced.eq_of_id hz hm hid
      exact htraced.infix_of_takes hx hv htakes hwhole
    | tail _ hstep ih =>
      intro v c hv hid
      obtain ⟨z, hz, hzid, htakes⟩ := hstep
      obtain rfl := htraced.eq_of_id hz hv.mem (hzid.trans hid.symm)
      obtain ⟨i, hprovenance⟩ := hv.exists_provenance
      obtain ⟨j, p, hp, hpid, hrows, -⟩ := hprovenance.exists_infix (hv.grows.takes htakes)
      obtain ⟨w, hw⟩ := htraced.exists_isVersion hp.found
      exact (ih p w hw (hw.grows.id_eq.trans hpid)).trans hrows
  exact hversions _ hpath y y (htraced.isVersion_self hy) rfl

end Transcripts

end LineageState

/-! ### A sample -/

namespace Sample

/-- Texts that say nothing. -/
def silent : Texts := ⟨fun _ => "", fun _ => ""⟩

/-- A tool forks the session while its loop is running; the answer comes later. The fork is merged
with the question. -/
def lineageEvents : List LineageEvent :=
  let c : LineageContext := ⟨true, some 0, none⟩
  [.call c ⟨1⟩ (.createUserSession "Why?"),
    .call c ⟨2⟩ (.createSystemSession "Be brief."),
    .call c ⟨3⟩ (.runSessionLoop 0 1 true (.ok (none, none))),
    .readInTool 2,
    .call { c with toolReads := some fun _ => 0 } ⟨4⟩ (.fork 2 (.ok (none, none))),
    .appendRow 2 ⟨.assistant, [("content", .str "Because.")]⟩,
    .complete 2 false,
    .call c ⟨5⟩ (.merge 3 0 true (.ok (none, none)))]

theorem isSome_lineage : (LineageState.run silent lineageEvents).isSome = true := by decide +kernel

/-- The sessions that were made. -/
def lineage : LineageState := (LineageState.run silent lineageEvents).get isSome_lineage

theorem run_lineage : LineageState.run silent lineageEvents = some lineage :=
  (Option.some_get isSome_lineage).symm

theorem lineage_validateAcyclic : ∃ hnodup : lineage.ids.Nodup,
    (lineage.graph hnodup).validateAcyclic = .ok () ∧ ∀ n, (lineage.journals n).Nodup ∧
      (∀ a ∈ lineage.journals n, a ∈ lineage.ids) ∧
      ∀ x ∈ lineage.sessions, ∀ a ∈ x.session.parentSessionIds, ∀ before after,
        lineage.journals n = before ++ x.session.id :: after → a ∉ after :=
  LineageState.validateAcyclic_of_run run_lineage

theorem lineage_table : lineage.sessions.map (fun x =>
    (x.session.id, x.session.lineageKind, x.session.parentSessionIds, x.unfinished)) =
    [(⟨1⟩, .leafUser, [], []), (⟨2⟩, .leafSystem, [], []),
      (⟨3⟩, .opSessionLoop, [⟨1⟩, ⟨2⟩], []), (⟨4⟩, .opFork, [⟨3⟩], [⟨3⟩]),
      (⟨5⟩, .opMerge, [⟨4⟩, ⟨1⟩], [])] := by decide +kernel

/-- The answer is not in what was forked before it came. -/
example : lineage.sessions.map (fun x => x.rows.length) = [1, 1, 2, 1, 2] := by decide +kernel

theorem exists_of_lineage_table {id : UUID} {kind : LineageKind} {parents unfinished : List UUID}
    (h : (id, kind, parents, unfinished) ∈ lineage.sessions.map fun x =>
      (x.session.id, x.session.lineageKind, x.session.parentSessionIds, x.unfinished)) :
    ∃ x ∈ lineage.sessions, x.session.id = id ∧ x.session.lineageKind = kind ∧
      x.session.parentSessionIds = parents ∧ x.unfinished = unfinished := by
  obtain ⟨x, hx, heq⟩ := List.mem_map.mp h
  cases heq
  exact ⟨x, hx, rfl, rfl, rfl, rfl⟩

/-- The question is in the transcript of the merged session, by way of what the tool forked. -/
theorem lineage_rows : ∃ x ∈ lineage.sessions, ∃ y ∈ lineage.sessions, x.session.id = ⟨1⟩ ∧
    y.session.id = ⟨5⟩ ∧ x.rows <:+: y.rows := by
  obtain ⟨x, hx, hxid, -⟩ := @exists_of_lineage_table ⟨1⟩ .leafUser [] []
    (by rw [lineage_table]; decide)
  obtain ⟨out, hout, houtid, houtkind, houtparents, hwhole⟩ :=
    @exists_of_lineage_table ⟨3⟩ .opSessionLoop [⟨1⟩, ⟨2⟩] [] (by rw [lineage_table]; decide)
  obtain ⟨forked, hforked, hforkedid, hforkedkind, hforkedparents, -⟩ :=
    @exists_of_lineage_table ⟨4⟩ .opFork [⟨3⟩] [⟨3⟩] (by rw [lineage_table]; decide)
  obtain ⟨y, hy, hyid, hykind, hyparents, -⟩ :=
    @exists_of_lineage_table ⟨5⟩ .opMerge [⟨4⟩, ⟨1⟩] [] (by rw [lineage_table]; decide)
  have hloop : lineage.Carries ⟨1⟩ ⟨3⟩ :=
    ⟨out, hout, houtid, Or.inr (Or.inr ⟨houtkind, by rw [houtparents]; rfl⟩)⟩
  have hfork : lineage.Carries ⟨3⟩ ⟨4⟩ :=
    ⟨forked, hforked, hforkedid, Or.inl ⟨hforkedkind, hforkedparents⟩⟩
  have hmerge : lineage.Carries ⟨4⟩ ⟨5⟩ :=
    ⟨y, hy, hyid, Or.inr (Or.inl ⟨hykind, by rw [hyparents]; exact List.mem_cons_self⟩)⟩
  refine ⟨x, hx, y, hy, hxid, hyid, LineageState.rows_of_carries run_lineage hx hout hy ?_ ?_ ?_⟩
  · rw [hxid, houtid]
    exact hloop
  · rw [hwhole]
    exact List.not_mem_nil
  · rw [houtid, hyid]
    exact (Relation.ReflTransGen.single hfork).tail hmerge

end Sample

end OpenRath
