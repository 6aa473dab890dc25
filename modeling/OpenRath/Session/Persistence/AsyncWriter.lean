import OpenRath.Session.Persistence.TornWrites

/-!
# The asynchronous writer of a session file

`_AsyncSessionWriter` (`src/rath/_async/awriter.py`) hands rows over to a task that writes them to
the file of a session one after the other. The caller, the task and the closing of the writer take
their steps in any order, and a write may fail at any place: then a part of what was to be written
has arrived, and Python keeps the rest in its buffers for the next write or drops it.

A writer serves one caller, which calls `awrite_chunk` in a sequence and then `aclose` or `abandon`.
A crash is the end of a run at any place.

## Main definitions

* `Flush`: how a write to the file ends.
* `AsyncSessionWriter`, `AsyncState`, `AsyncEvent`, `AsyncState.step`.
* `AsyncState.Orderly`: no row and no trailer is written after a failed write.
* `AsyncState.ChunksInOrder`, `AsyncState.ClosedHonestly`: the file has a prefix of the rows, and is
  closed only if it has all of them.

## Main results

* `AsyncState.honest_of_orderly`.
-/

namespace OpenRath

open TextFile

/-! ### The writer -/

/-- How a write to a file ends. One that fails has written a part of the bytes. -/
inductive Flush
  | done
  | fails (e : Exn) (written : ℕ) (kept : Bool)
deriving DecidableEq

namespace Flush

/-- What arrives of the bytes. -/
def arrived (bytes : List UInt8) : Flush → List UInt8
  | done => bytes
  | fails _ written _ => bytes.take written

/-- What stays in the buffers. -/
def left (bytes : List UInt8) : Flush → List UInt8
  | done => []
  | fails _ written kept => if kept then bytes.drop written else []

end Flush

/-- How far the closing of a writer has come. -/
inductive ClosingStage
  /-- Rows are taken. -/
  | running
  /-- `aclose` waits for room in the queue. -/
  | putting
  /-- `aclose` waits for the task. -/
  | joining
  /-- The trailer is written. -/
  | trailed
  /-- The trailer could not be written. -/
  | failed
  /-- The file with the trailer is closed. -/
  | released
  /-- The file has its final name. -/
  | renamed
  /-- `abandon` has cancelled the task. -/
  | abandoning
  /-- The file is closed and keeps its in-flight name. -/
  | gone
deriving DecidableEq

/-- `_AsyncSessionWriter`. -/
structure AsyncSessionWriter where
  writer : SessionWriter
  /-- What is in the buffers of the file. -/
  buffered : List UInt8
  queueMaxsize : ℕ
  /-- The rows that wait to be written, and the sentinel. -/
  queue : List (Option (ℤ × ChunkRow))
  /-- The row that the task has taken from the queue. -/
  inFlight : Option (ℤ × ChunkRow)
  /-- The task has not come to its end. -/
  draining : Bool
  closed : Bool
  error : Option Exn
  stage : ClosingStage
deriving DecidableEq

/-- A writer with the files and the rows that it has taken. -/
structure AsyncState where
  w : AsyncSessionWriter
  dir : Directory
  enqueued : List (ℤ × ChunkRow)

/-- A step of the caller, of the task or of the closing. -/
inductive AsyncEvent
  | awriteChunk (index : ℤ) (row : ChunkRow)
  | get
  | writeChunk (flush : Flush)
  | aclose
  | putSentinel
  | writeTrailer (now : Clock) (flush : Flush)
  | release (written : ℕ)
  | rename
  | abandon

namespace AsyncState

section Steps

variable (host : Host)

/-- `_AsyncSessionWriter.__init__`, which writes the header and starts the task. -/
def start (session : Session) (sandboxHandleId : Option String) (createdAt : Clock)
    (queueMaxsize : ℕ) (dir : Directory) : AsyncState :=
  let (w, dir) := SessionWriter.create host session sandboxHandleId (.utc createdAt) dir
  { w :=
      { writer := w, buffered := [], queueMaxsize, queue := [], inFlight := none, draining := true,
        closed := false, error := none, stage := .running }
    dir := dir
    enqueued := [] }

/-- `awrite_chunk`. A call that raises changes nothing; a call that waits for room takes no step. -/
def awriteChunk (s : AsyncState) (index : ℤ) (row : ChunkRow) : Option AsyncState :=
  if s.w.error.isSome ∨ s.w.closed then some s
  else if s.w.queue.length < s.w.queueMaxsize then
    some { s with
      w := { s.w with queue := s.w.queue ++ [some (index, row)] }
      enqueued := s.enqueued ++ [(index, row)] }
  else none

/-- The task takes the next item from the queue, and comes to its end if it is the sentinel. -/
def get (s : AsyncState) : Option AsyncState :=
  if s.w.draining ∧ s.w.inFlight = none then
    match s.w.queue with
    | [] => none
    | none :: queue => some { s with w := { s.w with queue, draining := false } }
    | some row :: queue => some { s with w := { s.w with queue, inFlight := some row } }
  else none

/-- The stages in which the file is open for rows. -/
def IsOpen (stage : ClosingStage) : Prop := stage ∈ [.running, .putting, .joining, .abandoning]

instance (stage : ClosingStage) : Decidable (IsOpen stage) :=
  inferInstanceAs (Decidable (stage ∈ [.running, .putting, .joining, .abandoning]))

/-- The write of a record: what arrives, and what stays in the buffers. -/
def flushRecord (s : AsyncState) (record : JsonObject) (flush : Flush) : AsyncState :=
  let bytes := s.w.buffered ++ encode (recordLine host record)
  { s with
    w := { s.w with buffered := flush.left bytes }
    dir := s.dir.append s.w.writer.partialPath (flush.arrived bytes) }

/-- `write_chunk`, in a thread of its own. The task keeps the first error in mind and goes on. -/
def writeChunk (s : AsyncState) (flush : Flush) : Option AsyncState :=
  match s.w.inFlight with
  | none => none
  | some (index, row) =>
    if IsOpen s.w.stage then
      let s' := flushRecord host s (buildChunkRecord index row) flush
      some { s' with
        w := { s'.w with
          inFlight := none
          writer := match flush with
            | .done => { s.w.writer with chunksWritten := s.w.writer.chunksWritten + 1 }
            | .fails _ _ _ => s.w.writer
          error := match flush with
            | .done => s.w.error
            | .fails e _ _ => some e } }
    else none

/-- `aclose` and `abandon` of a writer that is closed do nothing. -/
def aclose (s : AsyncState) : Option AsyncState :=
  if s.w.closed then some s
  else some { s with w := { s.w with closed := true, stage := .putting } }

/-- The sentinel is put into the queue once there is room. -/
def putSentinel (s : AsyncState) : Option AsyncState :=
  if s.w.stage = .putting ∧ s.w.queue.length < s.w.queueMaxsize then
    some { s with w := { s.w with queue := s.w.queue ++ [none], stage := .joining } }
  else none

/-- The beginning of `SessionWriter.close`, once the task has come to its end. Whether a row could
not be written is not asked. -/
def writeTrailer (s : AsyncState) (now : Clock) (flush : Flush) : Option AsyncState :=
  if s.w.stage = .joining ∧ s.w.draining = false then
    let s' := flushRecord host s
      (buildTrailer s.w.writer.session s.w.writer.chunksWritten (.utc now)) flush
    some { s' with w := { s'.w with stage := match flush with
      | .done => .trailed
      | .fails _ _ _ => .failed } }
  else none

/-- `_release`: the file is closed, and what is in the buffers arrives or not. -/
def release (s : AsyncState) (written : ℕ) : Option AsyncState :=
  let s' : AsyncState := { s with
    w := { s.w with buffered := [], writer := { s.w.writer with closed := true } }
    dir := s.dir.append s.w.writer.partialPath (s.w.buffered.take written) }
  match s.w.stage with
  | .trailed => some { s' with w := { s'.w with stage := .released } }
  | .failed | .abandoning => some { s' with w := { s'.w with stage := .gone } }
  | _ => none

/-- `os.replace`. -/
def rename (s : AsyncState) : Option AsyncState :=
  if s.w.stage = .released then
    some { s with
      w := { s.w with stage := .renamed }
      dir := s.dir.replace s.w.writer.partialPath s.w.writer.finalPath }
  else none

/-- `abandon`. A row that is being written is not called back. -/
def abandon (s : AsyncState) : Option AsyncState :=
  if s.w.closed then some s
  else some { s with w := { s.w with closed := true, draining := false, stage := .abandoning } }

/-- A step. -/
def step (s : AsyncState) : AsyncEvent → Option AsyncState
  | .awriteChunk index row => s.awriteChunk index row
  | .get => s.get
  | .writeChunk flush => s.writeChunk host flush
  | .aclose => s.aclose
  | .putSentinel => s.putSentinel
  | .writeTrailer now flush => s.writeTrailer host now flush
  | .release written => s.release written
  | .rename => s.rename
  | .abandon => s.abandon

/-- No row and no trailer is written after a failed write, and a trailer whose write has failed
does not arrive in spite of this. -/
def Orderly (s : AsyncState) : AsyncEvent → Prop
  | .writeChunk _ => s.w.error = none
  | .writeTrailer now flush => s.w.error = none ∧
      ∀ e written kept, flush = .fails e written kept → written < (encode (recordLine host
        (buildTrailer s.w.writer.session s.w.writer.chunksWritten (.utc now)))).length
  | .release written => s.w.stage = .failed → s.w.buffered = [] ∨ written < s.w.buffered.length
  | _ => True

/-- Steps in a sequence. -/
def run (s : AsyncState) (events : List AsyncEvent) : Option AsyncState :=
  events.foldlM (step host) s

/-- The states that are reached by orderly steps. -/
inductive Reached (start : AsyncState) : AsyncState → Prop
  | start : Reached start start
  | step {s s' : AsyncState} {e : AsyncEvent} (h : Reached start s) (ho : Orderly host s e)
      (hs : step host s e = some s') : Reached start s'

end Steps

/-! ### What is promised -/

section Honest

variable (host : Host) (session : Session) (s : AsyncState)

/-- The chunk records in the file are the first ones of the rows. -/
def ChunksInOrder : Prop :=
  ∀ name ∈ [sessionFile session.id, sessionPartialFile session.id], ∀ bytes,
    s.dir.read name = some bytes → chunkRecordsIn host bytes <+: chunkRecords s.enqueued

/-- `load_session` takes the session for closed only if all rows are in the file with the final
name and no other is left. -/
def ClosedHonestly : Prop :=
  ∀ path ∈ [none, some (sessionFile session.id), some (sessionPartialFile session.id)],
    ∀ p, loadSession host s.dir session.id path = .ok p → p.closed = true →
      s.dir.read (sessionPartialFile session.id) = none ∧
      ∃ bytes, s.dir.read (sessionFile session.id) = some bytes ∧
        chunkRecordsIn host bytes = chunkRecords s.enqueued

end Honest

/-! ### The invariant -/

section Invariant

variable (host : Host) (session : Session) (sandboxHandleId : Option String) (createdAt : Clock)

variable (s : AsyncState)

/-- All rows so far have been written, and the others wait in their order. -/
def Exact : Prop :=
  s.w.error = none ∧ s.w.buffered = [] ∧ ∃ rows,
    s.enqueued = rows ++ s.w.inFlight.toList ++ s.w.queue.filterMap id ∧
      s.w.writer.chunksWritten = rows.length ∧
      s.dir.read (sessionPartialFile session.id) =
        some (fileBytes host session sandboxHandleId createdAt rows createdAt false)

/-- What is in the file and in the buffers is the beginning of what is to be in the file. -/
def Beginning : Prop :=
  ∃ bytes, s.dir.read (sessionPartialFile session.id) = some bytes ∧
    bytes ++ s.w.buffered <+:
      fileBytes host session sandboxHandleId createdAt s.enqueued createdAt false

/-- The file before the trailer. -/
def Live : Prop :=
  Exact host session sandboxHandleId createdAt s ∨
    s.w.error ≠ none ∧ Beginning host session sandboxHandleId createdAt s

/-- A part of the trailer is missing. -/
def Torn : Prop :=
  ∃ bytes closedAt, s.dir.read (sessionPartialFile session.id) = some bytes ∧
    bytes ++ s.w.buffered <+:
      fileBytes host session sandboxHandleId createdAt s.enqueued closedAt true ∧
    bytes.length <
      (fileBytes host session sandboxHandleId createdAt s.enqueued closedAt true).length

/-- What holds of the files in the stages of the closing. -/
def FileInv : ClosingStage → Prop
  | .running => s.w.closed = false ∧ s.w.draining = true ∧
      (∃ rows : List (ℤ × ChunkRow), s.w.queue = rows.map some) ∧
      Live host session sandboxHandleId createdAt s
  | .putting => s.w.closed = true ∧ s.w.draining = true ∧
      (∃ rows : List (ℤ × ChunkRow), s.w.queue = rows.map some) ∧
      Live host session sandboxHandleId createdAt s
  | .joining => s.w.closed = true ∧
      (s.w.draining = true → ∃ rows : List (ℤ × ChunkRow), s.w.queue = rows.map some ++ [none]) ∧
      (s.w.draining = false → s.w.queue = [] ∧ s.w.inFlight = none) ∧
      Live host session sandboxHandleId createdAt s
  | .abandoning => s.w.closed = true ∧ s.w.draining = false ∧
      Live host session sandboxHandleId createdAt s
  | .trailed | .released => s.w.closed = true ∧ s.w.draining = false ∧ s.w.buffered = [] ∧
      ∃ closedAt, s.dir.read (sessionPartialFile session.id) =
        some (fileBytes host session sandboxHandleId createdAt s.enqueued closedAt true)
  | .failed | .gone => s.w.closed = true ∧ s.w.draining = false ∧
      Torn host session sandboxHandleId createdAt s
  | .renamed => s.w.closed = true ∧ s.w.draining = false ∧
      s.dir.read (sessionPartialFile session.id) = none ∧
      ∃ closedAt, s.dir.read (sessionFile session.id) =
        some (fileBytes host session sandboxHandleId createdAt s.enqueued closedAt true)

/-- The invariant of a writer whose steps are orderly. -/
structure Inv : Prop where
  session_eq : s.w.writer.session = session
  finalPath_eq : s.w.writer.finalPath = sessionFile session.id
  partialPath_eq : s.w.writer.partialPath = sessionPartialFile session.id
  final : s.w.stage ≠ .renamed → s.dir.read (sessionFile session.id) = none
  file : FileInv host session sandboxHandleId createdAt s s.w.stage

variable {host session sandboxHandleId createdAt s}

theorem Exact.beginning (h : Exact host session sandboxHandleId createdAt s) :
    Beginning host session sandboxHandleId createdAt s := by
  obtain ⟨-, hbuffered, rows, henqueued, -, hread⟩ := h
  refine ⟨_, hread, ?_⟩
  rw [hbuffered, List.append_nil, henqueued, List.append_assoc]
  exact fileBytes_mono host session sandboxHandleId createdAt rows _ createdAt

theorem Live.beginning (h : Live host session sandboxHandleId createdAt s) :
    Beginning host session sandboxHandleId createdAt s :=
  h.elim Exact.beginning And.right

theorem Live.exact (h : Live host session sandboxHandleId createdAt s)
    (herror : s.w.error = none) : Exact host session sandboxHandleId createdAt s :=
  h.resolve_right fun hbeginning => hbeginning.1 herror

theorem inv_start {dir : Directory} (queueMaxsize : ℕ)
    (hfinal : dir.read (sessionFile session.id) = none)
    (hinflight : dir.read (sessionPartialFile session.id) = none) :
    Inv host session sandboxHandleId createdAt
      (start host session sandboxHandleId createdAt queueMaxsize dir) := by
  refine ⟨rfl, rfl, rfl, fun _ => ?_, rfl, rfl, ⟨[], rfl⟩, Or.inl ⟨rfl, rfl, [], rfl, rfl, ?_⟩⟩
  · refine (Directory.read_append_of_ne _ ?_ _).trans hfinal
    exact (sessionPartialFile_ne_sessionFile session.id).symm
  · refine (Directory.read_append dir _ _).trans ?_
    rw [hinflight]
    simp [fileBytes, writtenRecords, trailers, recordsText, chunkRecords]

theorem inv_awriteChunk {s' : AsyncState} {index : ℤ} {row : ChunkRow}
    (hinv : Inv host session sandboxHandleId createdAt s) (h : s.awriteChunk index row = some s') :
    Inv host session sandboxHandleId createdAt s' := by
  rw [awriteChunk] at h
  split_ifs at h with hrefused hroom
  · cases h
    exact hinv
  · cases h
    rw [not_or, Option.not_isSome_iff_eq_none, Bool.not_eq_true] at hrefused
    obtain ⟨herror, hopen⟩ := hrefused
    have hfile := hinv.file
    rcases hstage : s.w.stage <;> rw [hstage] at hfile
    case running =>
      obtain ⟨hclosed, hdraining, ⟨rows, hqueue⟩, hlive⟩ := hfile
      obtain ⟨-, hbuffered, written, henqueued, hcount, hread⟩ := hlive.exact herror
      refine ⟨hinv.session_eq, hinv.finalPath_eq, hinv.partialPath_eq, hinv.final, ?_⟩
      dsimp only
      rw [hstage]
      refine ⟨hclosed, hdraining, ⟨rows ++ [(index, row)], by simp [hqueue]⟩,
        Or.inl ⟨herror, hbuffered, written, ?_, hcount, hread⟩⟩
      simp [henqueued, List.filterMap_append]
    all_goals exact absurd (hfile.1.symm.trans hopen) (by decide)

/-- Taking a row from the queue changes nothing but where the row is. -/
theorem Live.get {queue : List (Option (ℤ × ChunkRow))} {row : ℤ × ChunkRow}
    (h : Live host session sandboxHandleId createdAt s) (hnone : s.w.inFlight = none)
    (hqueue : s.w.queue = some row :: queue) :
    Live host session sandboxHandleId createdAt
      { s with w := { s.w with queue, inFlight := some row } } := by
  rcases h with ⟨herror, hbuffered, rows, henqueued, hcount, hread⟩ | ⟨herror, hbeginning⟩
  · refine Or.inl ⟨herror, hbuffered, rows, ?_, hcount, hread⟩
    simp [henqueued, hnone, hqueue]
  · exact Or.inr ⟨herror, hbeginning⟩

theorem inv_get {s' : AsyncState} (hinv : Inv host session sandboxHandleId createdAt s)
    (h : s.get = some s') : Inv host session sandboxHandleId createdAt s' := by
  have hfile := hinv.file
  rw [AsyncState.get] at h
  split_ifs at h with hget
  obtain ⟨hdraining, hnone⟩ := hget
  split at h
  · cases h
  · next queue hqueue =>
    -- The sentinel is in the queue only once `aclose` waits for the task, and it is the last item.
    cases h
    refine ⟨hinv.session_eq, hinv.finalPath_eq, hinv.partialPath_eq, hinv.final, ?_⟩
    dsimp only
    rcases hstage : s.w.stage <;> rw [hstage] at hfile
    case running | putting =>
      obtain ⟨-, -, ⟨rows, hrows⟩, -⟩ := hfile
      rw [hqueue] at hrows
      cases rows <;> simp at hrows
    case joining =>
      obtain ⟨hclosed, hsentinel, -, hlive⟩ := hfile
      obtain ⟨rows, hrows⟩ := hsentinel hdraining
      have hempty : queue = [] := by
        rw [hqueue] at hrows
        cases rows with
        | nil => simpa using hrows
        | cons row rows => simp at hrows
      refine ⟨hclosed, fun h => absurd h Bool.false_ne_true, fun _ => ⟨hempty, hnone⟩, ?_⟩
      rcases hlive with ⟨herror, hbuffered, written, henqueued, hcount, hread⟩ | hfailed
      · refine Or.inl ⟨herror, hbuffered, written, ?_, hcount, hread⟩
        simp [henqueued, hqueue]
      · exact Or.inr hfailed
    all_goals exact absurd (hfile.2.1.symm.trans hdraining) (by decide)
  · next row queue hqueue =>
    cases h
    refine ⟨hinv.session_eq, hinv.finalPath_eq, hinv.partialPath_eq, hinv.final, ?_⟩
    dsimp only
    rcases hstage : s.w.stage <;> rw [hstage] at hfile
    case running | putting =>
      obtain ⟨hclosed, -, ⟨rows, hrows⟩, hlive⟩ := hfile
      refine ⟨hclosed, hdraining, ?_, hlive.get hnone hqueue⟩
      rw [hqueue] at hrows
      cases rows with
      | nil => simp at hrows
      | cons r rows => exact ⟨rows, (List.cons.inj hrows).2⟩
    case joining =>
      obtain ⟨hclosed, hsentinel, -, hlive⟩ := hfile
      obtain ⟨rows, hrows⟩ := hsentinel hdraining
      refine ⟨hclosed, fun _ => ?_, fun h => absurd (h.symm.trans hdraining) (by decide),
        hlive.get hnone hqueue⟩
      rw [hqueue] at hrows
      cases rows with
      | nil => simp at hrows
      | cons r rows => exact ⟨rows, (List.cons.inj hrows).2⟩
    all_goals exact absurd (hfile.2.1.symm.trans hdraining) (by decide)

/-- The parts of what is to be written that have arrived and that stay in the buffers are its
beginning. -/
theorem arrived_append_left (bytes : List UInt8) (flush : Flush) :
    flush.arrived bytes ++ flush.left bytes <+: bytes := by
  cases flush with
  | done => simp [Flush.arrived, Flush.left]
  | fails e written kept =>
    cases kept with
    | false => simpa [Flush.arrived, Flush.left] using List.take_prefix written bytes
    | true => simp [Flush.arrived, Flush.left]

/-- A row that is written, or whose write fails, when no write has failed before. -/
theorem Exact.writeChunk {index : ℤ} {row : ChunkRow}
    (h : Exact host session sandboxHandleId createdAt s) (flush : Flush)
    (hname : s.w.writer.partialPath = sessionPartialFile session.id)
    (hrow : s.w.inFlight = some (index, row)) :
    let s' := flushRecord host s (buildChunkRecord index row) flush
    Live host session sandboxHandleId createdAt { s' with
      w := { s'.w with
        inFlight := none
        writer := match flush with
          | .done => { s.w.writer with chunksWritten := s.w.writer.chunksWritten + 1 }
          | .fails _ _ _ => s.w.writer
        error := match flush with
          | .done => s.w.error
          | .fails e _ _ => some e } } := by
  obtain ⟨herror, hbuffered, rows, henqueued, hcount, hread⟩ := h
  have hfileBytes := fileBytes_concat host session sandboxHandleId createdAt rows (index, row)
    createdAt
  rw [hrow] at henqueued
  have hrows :
      fileBytes host session sandboxHandleId createdAt (rows ++ [(index, row)]) createdAt false <+:
        fileBytes host session sandboxHandleId createdAt s.enqueued createdAt false := by
    rw [henqueued]
    exact fileBytes_mono host session sandboxHandleId createdAt _ _ createdAt
  have hfile : (s.dir.append s.w.writer.partialPath
      (flush.arrived (s.w.buffered ++ encode (recordLine host (buildChunkRecord index row))))).read
        (sessionPartialFile session.id) =
      some (fileBytes host session sandboxHandleId createdAt rows createdAt false ++
        flush.arrived (encode (recordLine host (buildChunkRecord index row)))) := by
    rw [hname, Directory.read_append, hread, hbuffered, List.nil_append]
    rfl
  cases flush with
  | done =>
    refine Or.inl ⟨herror, rfl, rows ++ [(index, row)], ?_, ?_, ?_⟩
    · simp [flushRecord, henqueued]
    · simp [hcount]
    · rw [hfileBytes]
      exact hfile
  | fails e written kept =>
    refine Or.inr ⟨Option.some_ne_none e, _, hfile, ?_⟩
    dsimp only [flushRecord]
    rw [hbuffered, List.nil_append, List.append_assoc]
    refine List.IsPrefix.trans ?_ hrows
    rw [hfileBytes]
    exact (List.prefix_append_right_inj _).mpr (arrived_append_left _ _)

theorem inv_writeChunk {s' : AsyncState} {flush : Flush}
    (hinv : Inv host session sandboxHandleId createdAt s) (herror : s.w.error = none)
    (h : s.writeChunk host flush = some s') : Inv host session sandboxHandleId createdAt s' := by
  have hfile := hinv.file
  unfold AsyncState.writeChunk at h
  split at h
  · cases h
  · next index row hrow =>
    split_ifs at h with hopen
    cases h
    refine ⟨?_, ?_, ?_, fun hstage => ?_, ?_⟩
    · cases flush <;> exact hinv.session_eq
    · cases flush <;> exact hinv.finalPath_eq
    · cases flush <;> exact hinv.partialPath_eq
    · refine (Directory.read_append_of_ne _ ?_ _).trans (hinv.final hstage)
      rw [hinv.partialPath_eq]
      exact (sessionPartialFile_ne_sessionFile session.id).symm
    · have hwrite := fun hlive : Live host session sandboxHandleId createdAt s =>
        (hlive.exact herror).writeChunk flush hinv.partialPath_eq hrow
      dsimp only [flushRecord] at hwrite ⊢
      rcases hstage : s.w.stage <;> rw [hstage] at hfile
      case running | putting =>
        obtain ⟨hclosed, hdraining, hqueue, hlive⟩ := hfile
        exact ⟨hclosed, hdraining, hqueue, hwrite hlive⟩
      case joining =>
        obtain ⟨hclosed, hsentinel, hended, hlive⟩ := hfile
        refine ⟨hclosed, hsentinel, fun h => ?_, hwrite hlive⟩
        exact absurd ((hended h).2.symm.trans hrow) (Option.some_ne_none _).symm
      case abandoning =>
        obtain ⟨hclosed, hdraining, hlive⟩ := hfile
        exact ⟨hclosed, hdraining, hwrite hlive⟩
      all_goals
        rw [hstage] at hopen
        exact absurd hopen (by decide)

theorem inv_aclose {s' : AsyncState} (hinv : Inv host session sandboxHandleId createdAt s)
    (h : s.aclose = some s') : Inv host session sandboxHandleId createdAt s' := by
  have hfile := hinv.file
  rw [AsyncState.aclose] at h
  split_ifs at h with hclosed
  · cases h
    exact hinv
  · cases h
    have hfinal : s.dir.read (sessionFile session.id) = none := by
      refine hinv.final fun hstage => ?_
      rw [hstage] at hfile
      exact hclosed hfile.1
    refine ⟨hinv.session_eq, hinv.finalPath_eq, hinv.partialPath_eq, fun _ => hfinal, ?_⟩
    rcases hstage : s.w.stage <;> rw [hstage] at hfile
    case running =>
      obtain ⟨-, hdraining, hqueue, hlive⟩ := hfile
      exact ⟨rfl, hdraining, hqueue, hlive⟩
    all_goals exact absurd hfile.1 hclosed

theorem inv_abandon {s' : AsyncState} (hinv : Inv host session sandboxHandleId createdAt s)
    (h : s.abandon = some s') : Inv host session sandboxHandleId createdAt s' := by
  have hfile := hinv.file
  rw [AsyncState.abandon] at h
  split_ifs at h with hclosed
  · cases h
    exact hinv
  · cases h
    have hfinal : s.dir.read (sessionFile session.id) = none := by
      refine hinv.final fun hstage => ?_
      rw [hstage] at hfile
      exact hclosed hfile.1
    refine ⟨hinv.session_eq, hinv.finalPath_eq, hinv.partialPath_eq, fun _ => hfinal, ?_⟩
    rcases hstage : s.w.stage <;> rw [hstage] at hfile
    case running => exact ⟨rfl, rfl, hfile.2.2.2⟩
    all_goals exact absurd hfile.1 hclosed

theorem inv_putSentinel {s' : AsyncState} (hinv : Inv host session sandboxHandleId createdAt s)
    (h : s.putSentinel = some s') : Inv host session sandboxHandleId createdAt s' := by
  have hfile := hinv.file
  rw [AsyncState.putSentinel] at h
  split_ifs at h with hput
  cases h
  rw [hput.1] at hfile
  obtain ⟨hclosed, hdraining, ⟨rows, hqueue⟩, hlive⟩ := hfile
  have hfinal : s.dir.read (sessionFile session.id) = none :=
    hinv.final (by rw [hput.1]; decide)
  refine ⟨hinv.session_eq, hinv.finalPath_eq, hinv.partialPath_eq, fun _ => hfinal, hclosed,
    fun _ => ⟨rows, congrArg (· ++ [none]) hqueue⟩,
    fun h => absurd (h.symm.trans hdraining) Bool.false_ne_true, ?_⟩
  rcases hlive with ⟨herror, hbuffered, written, henqueued, hcount, hread⟩ | ⟨herror, hbeginning⟩
  · refine Or.inl ⟨herror, hbuffered, written, ?_, hcount, hread⟩
    simp [henqueued, List.filterMap_append]
  · exact Or.inr ⟨herror, hbeginning⟩

/-- What a prefix of a file without a trailer lacks of one with a trailer. -/
theorem Beginning.torn (h : Beginning host session sandboxHandleId createdAt s) :
    Torn host session sandboxHandleId createdAt s := by
  obtain ⟨bytes, hread, hpre⟩ := h
  have hclosed := fileBytes_closed host session sandboxHandleId createdAt s.enqueued createdAt
  have hline := @encode_recordLine_length_pos host
    (buildTrailer session s.enqueued.length (.utc createdAt))
  have hshort := hpre.length_le
  rw [List.length_append] at hshort
  refine ⟨bytes, createdAt, hread, ?_, ?_⟩
  · rw [hclosed]
    exact hpre.trans (List.prefix_append _ _)
  · rw [hclosed, List.length_append]
    omega

/-- The task has come to its end without an error: all rows are in the file. -/
theorem inv_writeTrailer {s' : AsyncState} {now : Clock} {flush : Flush}
    (hinv : Inv host session sandboxHandleId createdAt s)
    (ho : Orderly host s (.writeTrailer now flush))
    (h : s.writeTrailer host now flush = some s') :
    Inv host session sandboxHandleId createdAt s' := by
  obtain ⟨herror, hshort⟩ := ho
  have hfile := hinv.file
  unfold AsyncState.writeTrailer at h
  split_ifs at h with hend
  cases h
  rw [hend.1] at hfile
  obtain ⟨hclosed, -, hended, hlive⟩ := hfile
  obtain ⟨hqueue, hnone⟩ := hended hend.2
  obtain ⟨-, hbuffered, rows, henqueued, hcount, hread⟩ := hlive.exact herror
  have hrows : s.enqueued = rows := by simpa [hqueue, hnone] using henqueued
  subst hrows
  have hfinal : s.dir.read (sessionFile session.id) = none :=
    hinv.final (by rw [hend.1]; decide)
  have hline :
      recordLine host (buildTrailer s.w.writer.session s.w.writer.chunksWritten (.utc now)) =
        recordLine host (buildTrailer session s.enqueued.length (.utc now)) := by
    rw [hinv.session_eq, hcount]
  rw [hline] at hshort
  have hfileBytes := fileBytes_closed host session sandboxHandleId createdAt s.enqueued now
  rw [fileBytes_false_eq host session sandboxHandleId createdAt _ now createdAt] at hfileBytes
  have hread' : (s.dir.append s.w.writer.partialPath (flush.arrived
      (s.w.buffered ++ encode (recordLine host
        (buildTrailer s.w.writer.session s.w.writer.chunksWritten (.utc now)))))).read
        (sessionPartialFile session.id) =
      some (fileBytes host session sandboxHandleId createdAt s.enqueued createdAt false ++
        flush.arrived (encode (recordLine host
          (buildTrailer session s.enqueued.length (.utc now))))) := by
    rw [hline, hinv.partialPath_eq, Directory.read_append, hread, hbuffered, List.nil_append]
    rfl
  refine ⟨hinv.session_eq, hinv.finalPath_eq, hinv.partialPath_eq, fun _ => ?_, ?_⟩
  · refine (Directory.read_append_of_ne _ ?_ _).trans hfinal
    rw [hinv.partialPath_eq]
    exact (sessionPartialFile_ne_sessionFile session.id).symm
  · cases flush with
    | done => exact ⟨hclosed, hend.2, rfl, now, hread'.trans (congrArg some hfileBytes.symm)⟩
    | fails e written kept =>
      refine ⟨hclosed, hend.2, _, now, hread', ?_, ?_⟩
      · dsimp only [flushRecord]
        rw [hline, hbuffered, List.nil_append, List.append_assoc, hfileBytes]
        exact (List.prefix_append_right_inj _).mpr (arrived_append_left _ _)
      · have := hshort e written kept rfl
        dsimp only [flushRecord]
        rw [hfileBytes]
        simp only [Flush.arrived, List.length_append, List.length_take]
        omega

/-- What arrives when the file is closed. -/
theorem read_release (hinv : Inv host session sandboxHandleId createdAt s) {bytes : List UInt8}
    (hread : s.dir.read (sessionPartialFile session.id) = some bytes) (written : ℕ) :
    (s.dir.append s.w.writer.partialPath (s.w.buffered.take written)).read
      (sessionPartialFile session.id) = some (bytes ++ s.w.buffered.take written) := by
  rw [hinv.partialPath_eq, Directory.read_append, hread]
  rfl

theorem inv_release {s' : AsyncState} {written : ℕ}
    (hinv : Inv host session sandboxHandleId createdAt s) (ho : Orderly host s (.release written))
    (h : s.release written = some s') : Inv host session sandboxHandleId createdAt s' := by
  have hfile := hinv.file
  have hfinal (hstage : s.w.stage ≠ .renamed) :
      (s.dir.append s.w.writer.partialPath (s.w.buffered.take written)).read
        (sessionFile session.id) = none := by
    refine (Directory.read_append_of_ne _ ?_ _).trans (hinv.final hstage)
    rw [hinv.partialPath_eq]
    exact (sessionPartialFile_ne_sessionFile session.id).symm
  unfold AsyncState.release at h
  split at h
  · next hstage =>
    cases h
    rw [hstage] at hfile
    obtain ⟨hclosed, hdraining, hbuffered, closedAt, hread⟩ := hfile
    refine ⟨hinv.session_eq, hinv.finalPath_eq, hinv.partialPath_eq,
      fun _ => hfinal (by rw [hstage]; decide), hclosed, hdraining, rfl, closedAt, ?_⟩
    refine (read_release hinv hread written).trans ?_
    rw [hbuffered, List.take_nil, List.append_nil]
  · next hstage =>
    cases h
    rw [hstage] at hfile
    obtain ⟨hclosed, hdraining, bytes, closedAt, hread, hpre, hshort⟩ := hfile
    refine ⟨hinv.session_eq, hinv.finalPath_eq, hinv.partialPath_eq,
      fun _ => hfinal (by rw [hstage]; decide), hclosed, hdraining, _, closedAt,
      read_release hinv hread written, ?_, ?_⟩
    · rw [List.append_nil]
      exact ((List.prefix_append_right_inj bytes).mpr (List.take_prefix _ _)).trans hpre
    · have hlength := hpre.length_le
      rw [List.length_append] at hlength
      rw [List.length_append, List.length_take]
      rcases ho hstage with hbuffered | hwritten
      · rw [hbuffered, List.length_nil, Nat.min_zero, Nat.add_zero]
        exact hshort
      · exact lt_of_lt_of_le (Nat.add_lt_add_left (lt_of_le_of_lt (Nat.min_le_left _ _) hwritten) _)
          hlength
  · next hstage =>
    cases h
    rw [hstage] at hfile
    obtain ⟨hclosed, hdraining, hlive⟩ := hfile
    obtain ⟨bytes, hread, hpre⟩ := hlive.beginning
    refine ⟨hinv.session_eq, hinv.finalPath_eq, hinv.partialPath_eq,
      fun _ => hfinal (by rw [hstage]; decide), hclosed, hdraining, ?_⟩
    refine Beginning.torn ⟨_, read_release hinv hread written, ?_⟩
    rw [List.append_nil]
    exact ((List.prefix_append_right_inj bytes).mpr (List.take_prefix _ _)).trans hpre
  · cases h

theorem inv_rename {s' : AsyncState} (hinv : Inv host session sandboxHandleId createdAt s)
    (h : s.rename = some s') : Inv host session sandboxHandleId createdAt s' := by
  have hfile := hinv.file
  rw [AsyncState.rename] at h
  split_ifs at h with hstage
  cases h
  rw [hstage] at hfile
  obtain ⟨hclosed, hdraining, -, closedAt, hread⟩ := hfile
  have hne := sessionPartialFile_ne_sessionFile session.id
  refine ⟨hinv.session_eq, hinv.finalPath_eq, hinv.partialPath_eq, fun h => absurd rfl h, hclosed,
    hdraining, ?_, closedAt, ?_⟩
  · rw [hinv.partialPath_eq, hinv.finalPath_eq]
    exact Directory.read_replace_source hread hne
  · rw [hinv.partialPath_eq, hinv.finalPath_eq]
    exact Directory.read_replace_target hread _

theorem inv_step {s' : AsyncState} {e : AsyncEvent}
    (hinv : Inv host session sandboxHandleId createdAt s) (ho : Orderly host s e)
    (h : step host s e = some s') : Inv host session sandboxHandleId createdAt s' := by
  cases e with
  | awriteChunk index row => exact inv_awriteChunk hinv h
  | get => exact inv_get hinv h
  | writeChunk flush => exact inv_writeChunk hinv ho h
  | aclose => exact inv_aclose hinv h
  | putSentinel => exact inv_putSentinel hinv h
  | writeTrailer now flush => exact inv_writeTrailer hinv ho h
  | release written => exact inv_release hinv ho h
  | rename => exact inv_rename hinv h
  | abandon => exact inv_abandon hinv h

theorem inv_reached {s₀ : AsyncState} (hinv : Inv host session sandboxHandleId createdAt s₀)
    (h : Reached host s₀ s) : Inv host session sandboxHandleId createdAt s := by
  induction h with
  | start => exact hinv
  | step _ ho hs ih => exact inv_step ih ho hs

/-- Before the trailer is written the file is the beginning of one with a trailer, and a proper one
up to then and after a failure. -/
theorem Inv.on_disk (hinv : Inv host session sandboxHandleId createdAt s)
    (hstage : s.w.stage ≠ .renamed) :
    ∃ bytes closedAt, s.dir.read (sessionPartialFile session.id) = some bytes ∧
      bytes <+: fileBytes host session sandboxHandleId createdAt s.enqueued closedAt true ∧
      (s.w.stage ≠ .trailed → s.w.stage ≠ .released →
        bytes.length <
          (fileBytes host session sandboxHandleId createdAt s.enqueued closedAt true).length) := by
  have htorn : Torn host session sandboxHandleId createdAt s → ∃ bytes closedAt,
      s.dir.read (sessionPartialFile session.id) = some bytes ∧
      bytes <+: fileBytes host session sandboxHandleId createdAt s.enqueued closedAt true ∧
      bytes.length <
        (fileBytes host session sandboxHandleId createdAt s.enqueued closedAt true).length :=
    fun ⟨bytes, closedAt, hread, hpre, hshort⟩ =>
      ⟨bytes, closedAt, hread, (List.prefix_append _ _).trans hpre, hshort⟩
  have hfile := hinv.file
  rcases hcase : s.w.stage <;> rw [hcase] at hfile hstage
  case running | putting =>
    obtain ⟨bytes, closedAt, hread, hpre, hshort⟩ := htorn hfile.2.2.2.beginning.torn
    exact ⟨bytes, closedAt, hread, hpre, fun _ _ => hshort⟩
  case joining =>
    obtain ⟨bytes, closedAt, hread, hpre, hshort⟩ := htorn hfile.2.2.2.beginning.torn
    exact ⟨bytes, closedAt, hread, hpre, fun _ _ => hshort⟩
  case abandoning =>
    obtain ⟨bytes, closedAt, hread, hpre, hshort⟩ := htorn hfile.2.2.beginning.torn
    exact ⟨bytes, closedAt, hread, hpre, fun _ _ => hshort⟩
  case failed | gone =>
    obtain ⟨bytes, closedAt, hread, hpre, hshort⟩ := htorn hfile.2.2
    exact ⟨bytes, closedAt, hread, hpre, fun _ _ => hshort⟩
  case trailed =>
    obtain ⟨-, -, -, closedAt, hread⟩ := hfile
    exact ⟨_, closedAt, hread, List.prefix_refl _, fun h _ => absurd rfl h⟩
  case released =>
    obtain ⟨-, -, -, closedAt, hread⟩ := hfile
    exact ⟨_, closedAt, hread, List.prefix_refl _, fun _ h => absurd rfl h⟩
  case renamed => exact absurd rfl hstage

end Invariant

/-! ### What is loaded -/

section Honesty

variable {host : Host} {session : Session} {sandboxHandleId : Option String} {createdAt : Clock}
  {rows : List (ℤ × ChunkRow)} {closedAt : Clock} {bytes : List UInt8}

/-- A writer none of whose rows and whose trailer is not written after a failed write is honest at
every moment, but between the trailer and the renaming of the file. -/
theorem honest_of_orderly {s : AsyncState} {queueMaxsize : ℕ} {dir : Directory}
    (hfinal : dir.read (sessionFile session.id) = none)
    (hinflight : dir.read (sessionPartialFile session.id) = none)
    (hreached : Reached host
      (start host session sandboxHandleId createdAt queueMaxsize dir) s)
    (hloadable : ∀ closedAt, ∀ record ∈ writtenRecords host session sandboxHandleId s.enqueued
      s.enqueued.length createdAt closedAt true, (Json.obj record).Loadable host.floats) :
    ChunksInOrder host session s ∧
      (s.w.stage ≠ .trailed → s.w.stage ≠ .released → ClosedHonestly host session s) := by
  have hinv := inv_reached (inv_start queueMaxsize hfinal hinflight) hreached
  by_cases hstage : s.w.stage = .renamed
  · have hfile := hinv.file
    rw [hstage] at hfile
    obtain ⟨-, -, hnone, closedAt, hread⟩ := hfile
    have hall := chunkRecordsIn_fileBytes (hloadable closedAt)
    refine ⟨fun name hname bytes hbytes => ?_, fun _ _ path _ p _ _ => ⟨hnone, _, hread, hall⟩⟩
    rcases List.mem_cons.mp hname with rfl | hname
    · rw [← Option.some_inj.mp (hread.symm.trans hbytes), hall]
    · rw [List.mem_singleton.mp hname, hnone] at hbytes
      cases hbytes
  · obtain ⟨bytes, closedAt, hread, hpre, hshort⟩ := hinv.on_disk hstage
    have hnone := hinv.final hstage
    refine ⟨fun name hname bytes' hbytes => ?_,
      fun htrailed hreleased path hpath p hp hclosed => ?_⟩
    · rcases List.mem_cons.mp hname with rfl | hname
      · rw [hnone] at hbytes
        cases hbytes
      · rw [List.mem_singleton.mp hname] at hbytes
        rw [← Option.some_inj.mp (hread.symm.trans hbytes)]
        exact chunkRecordsIn_of_isPrefix (hloadable closedAt) hpre
    · obtain ⟨path', hload⟩ : ∃ path', loadFile host path' bytes = .ok p := by
        rw [loadSession] at hp
        simp only [List.mem_cons, List.not_mem_nil, or_false] at hpath
        rcases hpath with rfl | rfl | rfl
        · rw [Option.getD_none, hnone] at hp
          dsimp only at hp
          rw [hread] at hp
          exact ⟨_, hp⟩
        · rw [Option.getD_some, hnone] at hp
          cases hp
        · rw [Option.getD_some, hread] at hp
          exact ⟨_, hp⟩
      have hopen := closed_eq_false_of_isPrefix (hloadable closedAt) hpre
        (hshort htrailed hreleased) hload
      exact absurd (hclosed.symm.trans hopen) Bool.false_ne_true.symm

/-- A step in which no write fails. -/
def Succeeds : AsyncEvent → Prop
  | .writeChunk flush => flush = .done
  | .writeTrailer _ flush => flush = .done
  | _ => True

/-- The states that are reached when no write fails. -/
inductive Served (host : Host) (start : AsyncState) : AsyncState → Prop
  | start : Served host start start
  | step {s s' : AsyncState} {e : AsyncEvent} (h : Served host start s) (he : Succeeds e)
      (hs : step host s e = some s') : Served host start s'

/-- No write has failed. -/
def Calm (s : AsyncState) : Prop := s.w.error = none ∧ s.w.stage ≠ .failed

theorem calm_step {s s' : AsyncState} {e : AsyncEvent} (h : Calm s) (he : Succeeds e)
    (hs : step host s e = some s') : Calm s' := by
  obtain ⟨herror, hstage⟩ := h
  cases e with
  | awriteChunk index row =>
    rw [step, awriteChunk] at hs
    split_ifs at hs <;> cases hs <;> exact ⟨herror, hstage⟩
  | get =>
    rw [step, AsyncState.get] at hs
    split_ifs at hs
    split at hs <;> cases hs <;> exact ⟨herror, hstage⟩
  | writeChunk flush =>
    obtain rfl : flush = .done := he
    replace hs : s.writeChunk host .done = some s' := hs
    unfold AsyncState.writeChunk at hs
    split at hs
    · cases hs
    · split_ifs at hs
      cases hs
      exact ⟨herror, hstage⟩
  | aclose =>
    rw [step, aclose] at hs
    split_ifs at hs
    · cases hs
      exact ⟨herror, hstage⟩
    · cases hs
      exact ⟨herror, by simp⟩
  | putSentinel =>
    rw [step, putSentinel] at hs
    split_ifs at hs
    cases hs
    exact ⟨herror, by simp⟩
  | writeTrailer now flush =>
    obtain rfl : flush = .done := he
    replace hs : s.writeTrailer host now .done = some s' := hs
    unfold AsyncState.writeTrailer at hs
    split_ifs at hs
    cases hs
    exact ⟨herror, by simp⟩
  | release written =>
    replace hs : s.release written = some s' := hs
    unfold AsyncState.release at hs
    split at hs
    · cases hs
      exact ⟨herror, by simp⟩
    · next hfailed => exact absurd hfailed hstage
    · cases hs
      exact ⟨herror, by simp⟩
    · cases hs
  | rename =>
    rw [step, rename] at hs
    split_ifs at hs
    cases hs
    exact ⟨herror, by simp⟩
  | abandon =>
    rw [step, abandon] at hs
    split_ifs at hs
    · cases hs
      exact ⟨herror, hstage⟩
    · cases hs
      exact ⟨herror, by simp⟩

theorem Calm.orderly {s : AsyncState} {e : AsyncEvent} (h : Calm s) (he : Succeeds e) :
    Orderly host s e := by
  cases e with
  | writeChunk flush => exact h.1
  | writeTrailer now flush =>
    obtain rfl : flush = .done := he
    exact ⟨h.1, fun _ _ _ h => nomatch h⟩
  | release written => exact fun hfailed => absurd hfailed h.2
  | awriteChunk | get | aclose | putSentinel | rename | abandon => exact trivial

theorem Served.reached {s₀ s : AsyncState} (h : Served host s₀ s) (hcalm : Calm s₀) :
    Reached host s₀ s ∧ Calm s := by
  induction h with
  | start => exact ⟨.start, hcalm⟩
  | step _ he hs ih => exact ⟨ih.1.step (ih.2.orderly he) hs, calm_step ih.2 he hs⟩

/-- A writer that has come to its end without failures has written all rows. -/
theorem Served.read_renamed {s : AsyncState} {queueMaxsize : ℕ} {dir : Directory}
    (h : Served host
      (AsyncState.start host session sandboxHandleId createdAt queueMaxsize dir) s)
    (hfinal : dir.read (sessionFile session.id) = none)
    (hinFlight : dir.read (sessionPartialFile session.id) = none)
    (hstage : s.w.stage = .renamed) : ∃ closedAt, s.dir.read (sessionFile session.id) =
      some (fileBytes host session sandboxHandleId createdAt s.enqueued closedAt true) := by
  have hreached := (h.reached ⟨rfl, by simp [AsyncState.start]⟩).1
  have hfile := (inv_reached (inv_start queueMaxsize hfinal hinFlight) hreached).file
  rw [hstage] at hfile
  exact hfile.2.2.2

end Honesty

/-! ### A session -/

section Sample

/-- A writer of a session without rows. -/
def sampleStart : AsyncState :=
  start sampleHost sampleSession none ⟨0, wall_pos⟩ 2 Table.empty

/-- A row. -/
def sampleRow (text : String) : ChunkRow := ⟨.user, [("content", .str text)]⟩

theorem sample_loadable (n : ℤ) (hn : n ∈ [0, 1]) (text : String) (closedAt : Clock) :
    ∀ record ∈ writtenRecords sampleHost sampleSession none [(n, sampleRow text)] 1
      ⟨0, by decide⟩ closedAt true, (Json.obj record).Loadable sampleHost.floats := by
  have hdigits : ∀ n ∈ [0, 1, 2, 3, 4, 7], (dumpsInt n).countP Char.isDigit ≤ 4300 := by decide
  have hindex : (dumpsInt n).countP Char.isDigit ≤ 4300 :=
    hdigits n (List.mem_of_mem_take (i := 2) hn)
  simp [writtenRecords, trailers, buildHeader, buildChunkRecord, buildTrailer, chunkRecords,
    sampleRow, sampleSession, lineageExtrasToJsonable, ExtraValue.jsonable, Json.ofText?,
    specToJsonable, cumulativeUsageToJsonable, schemaVersion, Json.Loadable, LoadableFields,
    LoadableItems, hdigits, hindex]

/-- A row that is written, and the closing. -/
theorem honest_of_orderly_sample : ∃ s, Reached sampleHost sampleStart s ∧
    s.enqueued = [(0, sampleRow "a")] ∧ s.w.stage = .renamed ∧
    ChunksInOrder sampleHost sampleSession s ∧ ClosedHonestly sampleHost sampleSession s := by
  have h₁ : Reached sampleHost sampleStart sampleStart := .start
  have h₂ := h₁.step (e := .awriteChunk 0 (sampleRow "a")) trivial rfl
  have h₃ := h₂.step (e := .get) trivial rfl
  have h₄ := h₃.step (e := .writeChunk .done) rfl rfl
  have h₅ := h₄.step (e := .aclose) trivial rfl
  have h₆ := h₅.step (e := .putSentinel) trivial rfl
  have h₇ := h₆.step (e := .get) trivial rfl
  have h₈ := h₇.step (e := .writeTrailer ⟨0, by decide⟩ .done) ⟨rfl, fun _ _ _ h => nomatch h⟩ rfl
  have h₉ := h₈.step (e := .release 0) (fun h => nomatch h) rfl
  have h := h₉.step (e := .rename) trivial rfl
  have hhonest := @honest_of_orderly sampleHost sampleSession none ⟨0, by decide⟩ _ 2 Table.empty
    rfl rfl h fun closedAt => sample_loadable 0 (by decide) "a" closedAt
  exact ⟨_, h, rfl, rfl, hhonest.1, hhonest.2 nofun nofun⟩

/-- A run in which the first row cannot be written. -/
def sampleFailure : Option AsyncState :=
  run sampleHost sampleStart
    [.awriteChunk 0 (sampleRow "a"), .awriteChunk 1 (sampleRow "b"), .get,
      .writeChunk (.fails (.other "OSError" "No space left on device") 0 false), .get,
      .writeChunk .done, .aclose, .putSentinel, .get, .writeTrailer ⟨0, wall_pos⟩ .done,
      .release 0, .rename]

/-- A row that cannot be written is followed by the next one, by the trailer and by the final
name. -/
theorem not_honest : ∃ s, sampleFailure = some s ∧
    ¬ ChunksInOrder sampleHost sampleSession s ∧ ¬ ClosedHonestly sampleHost sampleSession s := by
  obtain ⟨s, hrun, hread, henqueued⟩ : ∃ s, sampleFailure = some s ∧
      s.dir.read (sessionFile sampleSession.id) = some (fileBytes sampleHost sampleSession none
        ⟨0, by decide⟩ [(1, sampleRow "b")] ⟨0, by decide⟩ true) ∧
      s.enqueued = [(0, sampleRow "a"), (1, sampleRow "b")] :=
    ⟨_, rfl, by decide +kernel, rfl⟩
  have hchunks := chunkRecordsIn_fileBytes (sample_loadable 1 (by decide) "b" ⟨0, by decide⟩)
  refine ⟨s, hrun, fun hprefix => ?_, fun hclosed => ?_⟩
  · have hpre := hprefix _ List.mem_cons_self _ hread
    rw [hchunks, henqueued] at hpre
    exact absurd hpre (by decide)
  · have hload : ∃ p, loadSession sampleHost s.dir sampleSession.id none = .ok p ∧
        p.closed = true := by
      have hone : ∀ record ∈ writtenRecords sampleHost sampleSession none [(1, sampleRow "b")] 1
          ⟨0, by decide⟩ ⟨0, by decide⟩ true, (Json.obj record).OneLine := by decide +kernel
      rw [loadSession, Option.getD_none, hread]
      exact ⟨_, loadFile_fileBytes sampleHost_readsBack
        (sample_loadable 1 (by decide) "b" ⟨0, by decide⟩) hone
        (show readSpec sampleHost sampleSession = .ok none from rfl), rfl⟩
    obtain ⟨p, hp, hpclosed⟩ := hload
    obtain ⟨-, bytes, hbytes, hall⟩ := hclosed none List.mem_cons_self p hp hpclosed
    rw [← Option.some_inj.mp (hread.symm.trans hbytes), hchunks, henqueued] at hall
    exact absurd hall (by decide)

end Sample

end AsyncState

end OpenRath
