import OpenRath.Runtime.Sqlite.EventLog
import OpenRath.Server.Requests

/-!
# Event streams

A client reads the events of a run as a stream (`stream` in `src/rath/server/app.py`). The first
page is answered by the endpoint of pages, for which the parameter `after` comes before the header
`Last-Event-ID`; the generator of the stream has a cursor of its own, for which the header comes
first, and goes on from there once the first page is sent. Between two steps of a stream the store
may be called in any way.

A client that sends both numbers, which a browser does when it connects again, may be sent events
that it has acknowledged, or miss some.

## Main definitions

* `StreamRequest`, `StreamRequest.run`, `StreamRequest.cursor`, `StreamRequest.start`.
* `Generator`, `StreamRequest.Streams`: the course of a stream.
* `StreamRequest.acknowledged`, `StreamRequest.Resumes`: resuming where the client left off.
* `StreamRequest.TwoCursors`: when the two cursors of a stream differ.

## Main results

* `StreamRequest.Streams.invariant`: what has been sent in every state of a stream.
* `StreamRequest.resumes_iff`: when a stream resumes where the client left off.
-/

namespace OpenRath

open SQLite

/-! ### Requests -/

/-- A request for the events of a run: the caller as the provider has authenticated it, the id in
the path where it is one, the header `Last-Event-ID`, and the query. -/
structure StreamRequest where
  context : Option SecurityContext
  runId : Option UUID
  lastEventId : Option String
  after : Option String
  limit : Option String
  follow : Option String

namespace StreamRequest

variable (sha : Sha256) (t : Decimals) (texts : Texts) (r : StreamRequest)

/-- The checks of `events` on the caller and the run, at an answer of `get_run`. -/
def run (getRun : UUID → Except StoreError Run) : Except Failure UUID := do
  let context ← authenticate r.context "run.read"
  match r.runId with
  | none => .error runNotFound
  | some i =>
    match getRun i with
    | .ok run => if runVisible texts context run then .ok i else .error runNotFound
    | .error (.keyError _) | .error (.valueError _) => .error runNotFound
    | .error e => .error (.raised e)

/-- The cursor and the limit of `events`. -/
def cursor : Except Failure (ℤ × ℤ) :=
  let invalid : Failure := .response ⟨"request.invalid_argument", "invalid event cursor", 400⟩
  match t.int (r.after.getD (r.lastEventId.getD "0")) with
  | none => .error invalid
  | some after =>
    if after < 0 then .error invalid
    else match pageLimit t (r.limit.getD "200") 1000 with
      | none => .error invalid
      | some limit => .ok (after, limit)

/-- The text of the cursor of `generate`. -/
def generateCursor : String :=
  match r.lastEventId with
  | some lastEvent => if lastEvent = "" then r.after.getD "0" else lastEvent
  | none => r.after.getD "0"

/-- `follow`. -/
def follows : Bool := (r.follow.getD "false").toList.map Char.toLower = "true".toList

end StreamRequest

/-! ### The generator -/

/-- A state of the generator of a stream. -/
inductive Generator
  /-- Before the start, with the events of the first page. -/
  | initial (page : List RunEvent)
  /-- About to ask the store for the events after the cursor. -/
  | poll (cursor : ℤ)
  /-- In the loop over the items that are still to be sent. -/
  | sending (cursor : ℤ) (items : List RunEvent) (emitted : Bool)
  /-- About to read the run. -/
  | idle (cursor : ℤ) (emitted : Bool)
  | finished

namespace StreamRequest

variable (sha : Sha256) (t : Decimals) (texts : Texts) (r : StreamRequest)

/-- The start of `generate` and of its first round. -/
def start (page : List RunEvent) : Generator :=
  match t.int r.generateCursor with
  | none => .finished
  | some cursor => if page = [] then .poll cursor else .sending cursor page false

/-- The course of a stream of the events of the run `i` whose first page is read after the history
`opened`: the calls of the store so far, the state of the generator, and the events sent. -/
inductive Streams (i : UUID) (opened : List Call) : List Call → Generator → List RunEvent → Prop
  | opened {earlier : List Call} {clock clock' : ℕ → ClockReading} {after limit : ℤ}
      {page : List RunEvent} (hearlier : earlier <+: opened)
      (hrun : r.run texts (fun k =>
        (perform sha ⟨.getRun k, clock⟩ (SQLite.after sha earlier)).1) = .ok i)
      (hcursor : r.cursor t = .ok (after, limit))
      (hpage : (perform sha ⟨.listRunEvents i after (some limit), clock'⟩
        (SQLite.after sha opened)).1 = .ok page) :
      Streams i opened (opened ++ [⟨.listRunEvents i after (some limit), clock'⟩])
        (.initial page) []
  /-- A call that is not one of the stream. -/
  | other {calls : List Call} {g : Generator} {sent : List RunEvent} (call : Call) :
      Streams i opened calls g sent → Streams i opened (calls ++ [call]) g sent
  | start {calls : List Call} {page sent : List RunEvent} :
      Streams i opened calls (.initial page) sent → Streams i opened calls (r.start t page) sent
  | page {calls : List Call} {cursor : ℤ} {items sent : List RunEvent}
      {clock : ℕ → ClockReading}
      (hpage : (perform sha ⟨.listRunEvents i cursor (some 200), clock⟩
        (SQLite.after sha calls)).1 = .ok items) :
      Streams i opened calls (.poll cursor) sent →
      Streams i opened (calls ++ [⟨.listRunEvents i cursor (some 200), clock⟩])
        (.sending cursor items false) sent
  /-- The store raises, and the stream breaks off. -/
  | broken {calls : List Call} {cursor : ℤ} {sent : List RunEvent} :
      Streams i opened calls (.poll cursor) sent → Streams i opened calls .finished sent
  | emit {calls : List Call} {cursor : ℤ} {e : RunEvent} {items sent : List RunEvent}
      {emitted : Bool} :
      Streams i opened calls (.sending cursor (e :: items) emitted) sent →
      Streams i opened calls (.sending e.sequence items true) (sent ++ [e])
  | stop {calls : List Call} {cursor : ℤ} {sent : List RunEvent} {emitted : Bool}
      (hfollow : r.follows = false) :
      Streams i opened calls (.sending cursor [] emitted) sent →
      Streams i opened calls .finished sent
  | rest {calls : List Call} {cursor : ℤ} {sent : List RunEvent} {emitted : Bool}
      (hfollow : r.follows = true) :
      Streams i opened calls (.sending cursor [] emitted) sent →
      Streams i opened calls (.idle cursor emitted) sent
  | disconnect {calls : List Call} {cursor : ℤ} {sent : List RunEvent} {emitted : Bool} :
      Streams i opened calls (.idle cursor emitted) sent →
      Streams i opened calls .finished sent
  /-- The run is over and nothing new was sent. -/
  | done {calls : List Call} {cursor : ℤ} {sent : List RunEvent} {run : Run}
      {clock : ℕ → ClockReading}
      (hrun : (perform sha ⟨.getRun i, clock⟩ (SQLite.after sha calls)).1 = .ok run)
      (hover : run.status.Terminal) :
      Streams i opened calls (.idle cursor false) sent →
      Streams i opened (calls ++ [⟨.getRun i, clock⟩]) .finished sent
  | again {calls : List Call} {cursor : ℤ} {sent : List RunEvent} {emitted : Bool} {run : Run}
      {clock : ℕ → ClockReading}
      (hrun : (perform sha ⟨.getRun i, clock⟩ (SQLite.after sha calls)).1 = .ok run)
      (hgoing : run.status.Terminal → emitted = true) :
      Streams i opened calls (.idle cursor emitted) sent →
      Streams i opened (calls ++ [⟨.getRun i, clock⟩]) (.poll cursor) sent

/-! ### Resuming -/

/-- The number in the query, and `0` without one. -/
def afterNumber : Option ℤ :=
  match r.after with
  | some after => t.int after
  | none => some 0

/-- The number up to which the client has the events: the one in its header, and otherwise the one
in the query. An empty header has no number in it. -/
def acknowledged : Option ℤ :=
  match r.lastEventId with
  | some lastEvent => if lastEvent = "" then r.afterNumber t else t.int lastEvent
  | none => r.afterNumber t

/-- The events sent continue those that the client has, one by one. -/
def Resumes (sent : List RunEvent) : Prop :=
  sent = [] ∨ ∃ n ∈ r.acknowledged t, Continues RunEvent.sequence n sent

/-- The request has a number in its header and another one in its query, and the log goes on after
the one in the query. -/
structure TwoCursors (log : List RunEvent) (header after : ℤ) : Prop where
  lastEventId_ne : r.lastEventId ≠ some ""
  header_eq : r.lastEventId.bind t.int = some header
  after_eq : r.after.bind t.int = some after
  ne : header ≠ after
  lt : after < log.length

/-- The request is answered: the caller may read the run, and the numbers of the query are
numbers. -/
def Admitted (i : UUID) (opened : List Call) : Prop :=
  (∃ earlier clock, earlier <+: opened ∧ r.run texts (fun k =>
    (perform sha ⟨.getRun k, clock⟩ (SQLite.after sha earlier)).1) = .ok i) ∧
  ∃ cursor, r.cursor t = .ok cursor

/-! ### What is sent -/

variable {sha t texts r}

/-- The generator starts at the number that the client has acknowledged. -/
theorem int_generateCursor : t.int r.generateCursor = r.acknowledged t := by
  have hafter : t.int (r.after.getD "0") = r.afterNumber t := by
    rw [afterNumber]
    rcases r.after with _ | after
    · exact t.int_zero
    · rfl
  rw [generateCursor, acknowledged]
  rcases r.lastEventId with _ | lastEvent
  · exact hafter
  · by_cases hempty : lastEvent = ""
    · simp only [hempty, if_true]
      exact hafter
    · simp only [hempty, if_false]

/-- Both numbers of an answer of `cursor`. -/
theorem cursor_eq_ok_iff {after limit : ℤ} : r.cursor t = .ok (after, limit) ↔
    t.int (r.after.getD (r.lastEventId.getD "0")) = some after ∧ 0 ≤ after ∧
      pageLimit t (r.limit.getD "200") 1000 = some limit := by
  rw [cursor]
  rcases t.int (r.after.getD (r.lastEventId.getD "0")) with _ | n
  · simp
  · by_cases hn : n < 0
    · simp only [hn, if_true]
      grind
    · rcases pageLimit t (r.limit.getD "200") 1000 with _ | m
      · simp [hn]
      · simp only [hn, if_false]
        grind

/-- Without two cursors the first page starts after the number that the client has acknowledged,
unless there is nothing to send. -/
theorem acknowledged_eq_of_cursor {after limit : ℤ} {log : List RunEvent}
    (hcursor : r.cursor t = .ok (after, limit)) (hlt : after < log.length)
    (hone : ∀ header after, ¬ r.TwoCursors t log header after) {n : ℤ}
    (hn : r.acknowledged t = some n) : n = after := by
  obtain ⟨hint, -, -⟩ := cursor_eq_ok_iff.mp hcursor
  rw [acknowledged, afterNumber] at hn
  rcases hafter : r.after with _ | text
  · rcases hheader : r.lastEventId with _ | lastEvent
    · rw [hafter, hheader] at hint
      rw [hafter, hheader] at hn
      have hzero : t.int "0" = some after := hint
      rw [t.int_zero] at hzero
      exact Option.some.inj (hn.symm.trans hzero)
    · have htext : t.int lastEvent = some after := by rwa [hafter, hheader] at hint
      have hne : lastEvent ≠ "" := by
        rintro rfl
        rw [t.int_empty] at htext
        cases htext
      rw [hheader] at hn
      simp only [hne, if_false] at hn
      exact Option.some.inj (hn.symm.trans htext)
  · have htext : t.int text = some after := by rwa [hafter] at hint
    rcases hheader : r.lastEventId with _ | lastEvent
    · rw [hafter, hheader] at hn
      exact Option.some.inj (hn.symm.trans htext)
    · rw [hafter, hheader] at hn
      by_cases hempty : lastEvent = ""
      · simp only [hempty, if_true] at hn
        exact Option.some.inj (hn.symm.trans htext)
      · simp only [hempty, if_false] at hn
        by_contra hne
        exact hone n after ⟨by simp [hheader, hempty], by rw [hheader]; exact hn,
          by rw [hafter]; exact htext, hne, hlt⟩

section Course

variable {i : UUID} {opened calls : List Call} {g : Generator} {sent : List RunEvent}

/-- What has been sent in a state of a stream. -/
def HasSent (t : Decimals) (r : StreamRequest) (log : List RunEvent) :
    Generator → List RunEvent → Prop
  | .initial page, sent => sent = [] ∧ ∃ after limit, r.cursor t = .ok (after, limit) ∧
      Continues RunEvent.sequence after page ∧ (page = [] ↔ log.length ≤ after)
  | .poll cursor, sent | .idle cursor _, sent =>
      ∃ n ∈ r.acknowledged t, cursor = n + sent.length ∧ Continues RunEvent.sequence n sent
  | .sending cursor items _, sent =>
      ∃ n ∈ r.acknowledged t, cursor = n + sent.length ∧
        Continues RunEvent.sequence n (sent ++ items)
  | .finished, sent => r.Resumes t sent

/-- What has been sent in every state of a stream without two cursors. -/
theorem Streams.hasSent (h : r.Streams sha t texts i opened calls g sent)
    (hone : ∀ header after, ¬ r.TwoCursors t ((SQLite.after sha opened).eventsOf i) header after) :
    r.HasSent t ((SQLite.after sha opened).eventsOf i) g sent := by
  induction h with
  | opened _ _ hcursor hpage =>
    obtain ⟨-, -, hlimit⟩ := cursor_eq_ok_iff.mp hcursor
    exact ⟨rfl, _, _, hcursor, continues_of_listRunEvents
      (logged_after sha opened i).numbered (one_le_of_pageLimit (by omega) hlimit) hpage⟩
  | other _ _ ih => exact ih
  | @start _ page sent _ ih =>
    obtain ⟨rfl, after, limit, hcursor, hpage, hnil⟩ := ih
    rw [StreamRequest.start, int_generateCursor]
    rcases hn : r.acknowledged t with _ | n
    · exact Or.inl rfl
    · by_cases hempty : page = []
      · simp only [hempty, if_true]
        exact ⟨n, hn, by simp, .nil⟩
      · simp only [hempty, if_false]
        obtain rfl := acknowledged_eq_of_cursor hcursor (by grind) hone hn
        exact ⟨n, hn, by simp, hpage⟩
  | page hpage _ ih =>
    obtain ⟨n, hn, rfl, hsent⟩ := ih
    obtain ⟨hitems, -⟩ := continues_of_listRunEvents (logged_after sha _ i).numbered
      (by omega) hpage
    exact ⟨n, hn, rfl, hsent.append hitems⟩
  | broken _ ih =>
    obtain ⟨n, hn, -, hsent⟩ := ih
    exact Or.inr ⟨n, hn, hsent⟩
  | @emit _ _ e items sent _ _ ih =>
    obtain ⟨n, hn, -, hsent⟩ := ih
    have happend : sent ++ [e] ++ items = sent ++ e :: items := by simp
    refine ⟨n, hn, ?_, happend ▸ hsent⟩
    have hnumber := hsent sent.length (by simp)
    simp only [List.getElem_append_right, Nat.sub_self, List.getElem_cons_zero, le_refl] at hnumber
    rw [hnumber, List.length_append, List.length_singleton]
    omega
  | stop _ _ ih =>
    obtain ⟨n, hn, -, hsent⟩ := ih
    exact Or.inr ⟨n, hn, by rwa [List.append_nil] at hsent⟩
  | rest _ _ ih =>
    obtain ⟨n, hn, hcursor, hsent⟩ := ih
    exact ⟨n, hn, hcursor, by rwa [List.append_nil] at hsent⟩
  | disconnect _ ih | done _ _ _ ih =>
    obtain ⟨n, hn, -, hsent⟩ := ih
    exact Or.inr ⟨n, hn, hsent⟩
  | again _ _ _ ih => exact ih

/-- The request of a stream was admitted. -/
theorem Streams.admitted (h : r.Streams sha t texts i opened calls g sent) :
    r.Admitted sha t texts i opened := by
  induction h with
  | opened hearlier hrun hcursor _ => exact ⟨⟨_, _, hearlier, hrun⟩, _, hcursor⟩
  | other _ _ ih | start _ ih | page _ _ ih | broken _ ih | emit _ ih | stop _ _ ih
  | rest _ _ ih | disconnect _ ih | done _ _ _ ih | again _ _ _ ih => exact ih

/-- A stream without two cursors resumes where the client left off. -/
theorem Streams.resumes (h : r.Streams sha t texts i opened calls g sent)
    (hone : ∀ header after, ¬ r.TwoCursors t ((SQLite.after sha opened).eventsOf i) header after) :
    r.Resumes t sent := by
  have hsent := h.hasSent hone
  cases g with
  | initial page => exact Or.inl hsent.1
  | poll | idle =>
    obtain ⟨n, hn, -, hcontinues⟩ := hsent
    exact Or.inr ⟨n, hn, hcontinues⟩
  | sending =>
    obtain ⟨n, hn, -, hcontinues⟩ := hsent
    exact Or.inr ⟨n, hn, hcontinues.of_append⟩
  | finished => exact hsent

/-- The first event of a stream with two cursors is not the one after the number in the header. -/
theorem exists_streams_not_resumes (hadmitted : r.Admitted sha t texts i opened)
    {header after : ℤ}
    (htwo : r.TwoCursors t ((SQLite.after sha opened).eventsOf i) header after) :
    ∃ calls g sent, r.Streams sha t texts i opened calls g sent ∧ ¬ r.Resumes t sent := by
  obtain ⟨⟨earlier, clock, hearlier, hrun⟩, ⟨after', limit⟩, hcursor⟩ := hadmitted
  obtain ⟨hint, hnonneg, hlimit⟩ := cursor_eq_ok_iff.mp hcursor
  obtain ⟨text, htext, hafter⟩ := Option.bind_eq_some_iff.mp htwo.after_eq
  obtain ⟨lastEvent, hheader, hlast⟩ := Option.bind_eq_some_iff.mp htwo.header_eq
  rw [htext, Option.getD_some, hafter] at hint
  obtain rfl := Option.some.inj hint
  have hempty : lastEvent ≠ "" := fun h => htwo.lastEventId_ne (h ▸ hheader)
  have hacknowledged : r.acknowledged t = some header := by
    rw [acknowledged, hheader]
    simp only [hempty, if_false]
    exact hlast
  -- The first page is not empty, and it starts after the number in the query.
  obtain ⟨seen, rfl⟩ := Int.eq_ofNat_of_zero_le hnonneg
  have hlog : Numbered RunEvent.sequence ((SQLite.after sha opened).eventsOf i) :=
    (logged_after sha opened i).numbered
  have hpage : (perform sha ⟨.listRunEvents i seen (some limit), clock⟩
      (SQLite.after sha opened)).1 =
        .ok ((((SQLite.after sha opened).eventsOf i).drop seen).take limit.toNat) :=
    listRunEvents_eq clock hlog (one_le_of_pageLimit (by omega) hlimit)
  obtain ⟨hcontinues, hnil⟩ := continues_of_listRunEvents hlog
    (one_le_of_pageLimit (by omega) hlimit) hpage
  have hstream := Streams.opened (t := t) hearlier hrun hcursor hpage
  rcases hitems : (((SQLite.after sha opened).eventsOf i).drop seen).take limit.toNat with
    _ | ⟨e, items⟩
  · have := hnil.mp hitems
    have := htwo.lt
    omega
  · rw [hitems] at hstream hcontinues
    have hstart := hstream.start
    rw [StreamRequest.start, int_generateCursor, hacknowledged] at hstart
    refine ⟨_, _, _, hstart.emit, fun hresumes => ?_⟩
    rcases hresumes with h | ⟨n, hn, h⟩
    · cases h
    · obtain rfl : header = n := Option.some.inj (hacknowledged.symm.trans hn)
      have h₁ : (e.sequence : ℤ) = header + 1 := h.head
      have h₂ : (e.sequence : ℤ) = seen + 1 := hcontinues.head
      exact htwo.ne (by omega)

end Course

/-- **Event streams.** A stream of events, whatever is written while it runs, sends the events
right after the number that the client has acknowledged, one by one, unless the request has
another number in its query than in its header and the log goes on after the one in the query:
then a stream that is admitted starts in the wrong place. -/
theorem resumes_iff (sha : Sha256) (t : Decimals) (texts : Texts) (r : StreamRequest) (i : UUID)
    (opened : List Call) :
    (∀ calls g sent, r.Streams sha t texts i opened calls g sent → r.Resumes t sent) ↔
      ¬ (r.Admitted sha t texts i opened ∧
        ∃ header after, r.TwoCursors t ((SQLite.after sha opened).eventsOf i) header after) := by
  constructor
  · rintro h ⟨hadmitted, header, after, htwo⟩
    obtain ⟨calls, g, sent, hstream, hnot⟩ := exists_streams_not_resumes hadmitted htwo
    exact hnot (h calls g sent hstream)
  · intro h calls g sent hstream
    refine hstream.resumes fun header after htwo => h ⟨hstream.admitted, header, after, htwo⟩

end StreamRequest

/-! ### A sample -/

namespace Sample

/-- The request of a browser that connects again: it has received the first event, and the address
of the stream is still the one of the first time. -/
def reconnect : StreamRequest where
  context := some reader
  runId := some run.id
  lastEventId := some "1"
  after := some "0"
  limit := none
  follow := none

/-- A browser that connects again is sent the first event once more. -/
theorem reconnect_not_resumes :
    ¬ ∀ calls g sent, reconnect.Streams Sample.sha decimals ⟨fun _ => "", fun _ => ""⟩ run.id
      claimed calls g sent → reconnect.Resumes decimals sent := by
  intro h
  have hrun : reconnect.run ⟨fun _ => "", fun _ => ""⟩ (fun k =>
      (perform Sample.sha ⟨.getRun k, clock 0⟩ (SQLite.after Sample.sha claimed)).1) =
        .ok run.id := by decide +kernel
  have hcursor : reconnect.cursor decimals = .ok (0, 200) := by decide
  have htwo : reconnect.TwoCursors decimals
      ((SQLite.after Sample.sha claimed).eventsOf run.id) 1 0 :=
    ⟨by decide, by decide, by decide, by decide, by decide +kernel⟩
  obtain ⟨calls, g, sent, hstream, hnot⟩ := StreamRequest.exists_streams_not_resumes
    ⟨⟨claimed, clock 0, List.prefix_refl _, hrun⟩, _, hcursor⟩ htwo
  exact hnot (h calls g sent hstream)

end Sample

end OpenRath
