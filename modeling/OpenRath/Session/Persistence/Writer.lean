import OpenRath.Library.Table
import OpenRath.Library.TextFile
import OpenRath.Session.Persistence.Serialize

/-!
# The writer of a session file

`SessionWriter` (`src/rath/session/persistence/writer.py`) appends the records of a session to an
in-flight file, one record a line, and renames the file when it is closed. The directory of the
sessions is a table of files by name. Only one process writes to a file, so that the lock of the
in-flight file is free; line ends are written as they are.

## Main definitions

* `Directory`, `sessionFile`, `sessionPartialFile`.
* `SessionWriter`, with `create`, `writeChunk`, `close` and `abandon`.
* `recordLine`, `chunkRecords`, `sessionRecords`: the records that a writer writes.

## Main results

* `SessionWriter.writeChunks_eq`, `SessionWriter.persist_eq`: the file of a writer consists of its
  records, one a line.
-/

namespace OpenRath

open TextFile

/-! ### Files -/

/-- A file with its name. -/
abbrev File : Type := String × List UInt8

/-- The directory of the sessions. -/
abbrev Directory : Type := Table fun f : File => f.1

def sessionFileSuffix : String := ".jsonl"

def sessionPartialSuffix : String := ".jsonl.__partial__"

/-- `session_file`. -/
def sessionFile (sessionId : UUID) : String := sessionId.str ++ sessionFileSuffix

/-- `session_partial_file`. -/
def sessionPartialFile (sessionId : UUID) : String := sessionId.str ++ sessionPartialSuffix

theorem sessionPartialFile_ne_sessionFile (i : UUID) : sessionPartialFile i ≠ sessionFile i := by
  intro h
  have hlength := congrArg String.length h
  simp only [sessionPartialFile, sessionFile, String.length_append] at hlength
  have hsuffixes : sessionPartialSuffix.length ≠ sessionFileSuffix.length := by decide
  omega

namespace Directory

/-- The bytes of a file. -/
def read (dir : Directory) (name : String) : Option (List UInt8) := (dir.find? name).map Prod.snd

/-- Appending to a file, which is created if it is missing. -/
def append (dir : Directory) (name : String) (bytes : List UInt8) : Directory :=
  dir.put (name, (dir.read name).getD [] ++ bytes)

/-- `os.replace`. A file that is missing is not renamed. -/
def replace (dir : Directory) (source target : String) : Directory :=
  match dir.read source with
  | none => dir
  | some bytes => (dir.erase source).put (target, bytes)

@[simp] theorem read_append (dir : Directory) (name : String) (bytes : List UInt8) :
    (dir.append name bytes).read name = some ((dir.read name).getD [] ++ bytes) := by
  rw [read, append]
  have hfind := Table.find?_put_self dir (name, (dir.read name).getD [] ++ bytes)
  rw [hfind]
  rfl

/-- Appending twice to a file is appending once. -/
theorem append_append (dir : Directory) (name : String) (bytes bytes' : List UInt8) :
    (dir.append name bytes).append name bytes' = dir.append name (bytes ++ bytes') := by
  rw [append, read_append, Option.getD_some, append, append, ← List.append_assoc]
  exact Table.put_put dir rfl

theorem replace_eq {dir : Directory} {source : String} {bytes : List UInt8}
    (h : dir.read source = some bytes) (target : String) :
    dir.replace source target = (dir.erase source).put (target, bytes) := by
  rw [replace, h]

/-- Appending to a file leaves the other files alone. -/
theorem read_append_of_ne (dir : Directory) {name name' : String} (h : name' ≠ name)
    (bytes : List UInt8) : (dir.append name bytes).read name' = dir.read name' :=
  congrArg (Option.map Prod.snd) (Table.find?_put_of_ne dir h)

theorem read_replace_target {dir : Directory} {source : String} {bytes : List UInt8}
    (h : dir.read source = some bytes) (target : String) :
    (dir.replace source target).read target = some bytes := by
  rw [replace_eq h, read]
  exact congrArg (Option.map Prod.snd) (Table.find?_put_self (dir.erase source) (target, bytes))

theorem read_replace_source {dir : Directory} {source target : String} {bytes : List UInt8}
    (h : dir.read source = some bytes) (hne : source ≠ target) :
    (dir.replace source target).read source = none := by
  have hfind : ((dir.erase source).put (target, bytes)).find? source = none :=
    (Table.find?_put_of_ne _ hne).trans (Table.find?_erase_self dir source)
  rw [replace_eq h, read, hfind]
  rfl

theorem ne_of_mem {dir : Directory} {name : String} (h : dir.read name = none) {f : File}
    (hf : f ∈ dir.rows) : f.1 ≠ name := by
  rintro rfl
  rw [read, Table.find?_of_mem hf] at h
  cases h

end Directory

/-! ### Records -/

section Writer

variable (host : Host)

/-- The line of a record. -/
def recordLine (record : JsonObject) : List Char := dumps host.floats (.obj record) ++ ['\n']

/-- The text of a file with the given records. -/
def recordsText (records : List JsonObject) : List Char := records.flatMap (recordLine host)

/-- The records of chunk rows with their indices. -/
def chunkRecords (rows : List (ℤ × ChunkRow)) : List JsonObject :=
  rows.map fun r => buildChunkRecord r.1 r.2

/-- The records of a session whose writer was closed. -/
def sessionRecords (session : Session) (sandboxHandleId : Option String)
    (rows : List (ℤ × ChunkRow)) (createdAt closedAt : Datetime) : List JsonObject :=
  buildHeader host session sandboxHandleId createdAt :: (chunkRecords rows ++
    [buildTrailer session rows.length closedAt])

/-! ### The writer -/

/-- The writer of a session file. -/
structure SessionWriter where
  session : Session
  finalPath : String
  partialPath : String
  chunksWritten : ℕ
  closed : Bool
deriving DecidableEq

namespace SessionWriter

/-- `_write_record`. -/
def writeRecord (w : SessionWriter) (record : JsonObject) (dir : Directory) : Directory :=
  dir.append w.partialPath (encode (recordLine host record))

/-- The construction of a writer, which writes the header. -/
def create (session : Session) (sandboxHandleId : Option String) (now : Datetime)
    (dir : Directory) : SessionWriter × Directory :=
  let w : SessionWriter :=
    { session, finalPath := sessionFile session.id, partialPath := sessionPartialFile session.id,
      chunksWritten := 0, closed := false }
  (w, writeRecord host w (buildHeader host session sandboxHandleId now) dir)

/-- `write_chunk`. -/
def writeChunk (w : SessionWriter) (index : ℤ) (row : ChunkRow) (dir : Directory) :
    Except Exn (SessionWriter × Directory) :=
  if w.closed then
    .error (.other "RuntimeError"
      s!"SessionWriter({w.finalPath}) is closed; cannot append more chunks")
  else
    .ok ({ w with chunksWritten := w.chunksWritten + 1 },
      writeRecord host w (buildChunkRecord index row) dir)

/-- `close`. -/
def close (w : SessionWriter) (now : Datetime) (dir : Directory) : SessionWriter × Directory :=
  if w.closed then (w, dir)
  else
    let dir := writeRecord host w (buildTrailer w.session w.chunksWritten now) dir
    ({ w with closed := true }, dir.replace w.partialPath w.finalPath)

/-- `abandon`. -/
def abandon (w : SessionWriter) : SessionWriter := { w with closed := true }

/-- The calls of `write_chunk` for rows with their indices. -/
def writeChunks (w : SessionWriter) : List (ℤ × ChunkRow) → Directory →
    Except Exn (SessionWriter × Directory)
  | [], dir => .ok (w, dir)
  | (index, row) :: rows, dir => do
    let (w, dir) ← writeChunk host w index row dir
    writeChunks w rows dir

/-- The directory behind a writer that writes rows and is closed. -/
def persist (session : Session) (sandboxHandleId : Option String) (rows : List (ℤ × ChunkRow))
    (createdAt closedAt : Datetime) (dir : Directory) : Except Exn Directory := do
  let (w, dir) := create host session sandboxHandleId createdAt dir
  let (w, dir) ← writeChunks host w rows dir
  .ok (close host w closedAt dir).2

/-- A writer that is open appends the records of the rows. -/
theorem writeChunks_eq (w : SessionWriter) (hopen : w.closed = false)
    (rows : List (ℤ × ChunkRow)) (dir : Directory) (bytes : List UInt8) :
    writeChunks host w rows (dir.append w.partialPath bytes) =
      .ok ({ w with chunksWritten := w.chunksWritten + rows.length },
        dir.append w.partialPath (bytes ++ encode (recordsText host (chunkRecords rows)))) := by
  induction rows generalizing w bytes with
  | nil => simp [writeChunks, recordsText, chunkRecords]
  | cons r rows ih =>
    obtain ⟨index, row⟩ := r
    have hopen' : ¬ w.closed = true := by simp [hopen]
    rw [writeChunks, writeChunk, if_neg hopen', writeRecord, Directory.append_append]
    refine (ih { w with chunksWritten := w.chunksWritten + 1 } hopen _).trans ?_
    simp [recordsText, chunkRecords, List.append_assoc, Nat.add_assoc, Nat.add_comm 1]

/-- Where no in-flight file is left, the file of a session consists of its records, one a line,
and the other files stay as they are. -/
theorem persist_eq (session : Session) (sandboxHandleId : Option String)
    (rows : List (ℤ × ChunkRow)) (createdAt closedAt : Datetime) (dir : Directory)
    (hnew : dir.read (sessionPartialFile session.id) = none) :
    ∃ dir', persist host session sandboxHandleId rows createdAt closedAt dir = .ok dir' ∧
      ∀ f : File, f ∈ dir'.rows ↔ (f ∈ dir.rows ∧ f.1 ≠ sessionFile session.id) ∨
        f = (sessionFile session.id, encode (recordsText host
          (sessionRecords host session sandboxHandleId rows createdAt closedAt))) := by
  set inFlight := sessionPartialFile session.id with hinFlight
  have hheader : create host session sandboxHandleId createdAt dir =
      (⟨session, sessionFile session.id, inFlight, 0, false⟩,
        dir.append inFlight (encode (recordLine host
          (buildHeader host session sandboxHandleId createdAt)))) := rfl
  have hrows := writeChunks_eq host ⟨session, sessionFile session.id, inFlight, 0, false⟩ rfl rows
    dir (encode (recordLine host (buildHeader host session sandboxHandleId createdAt)))
  refine ⟨_, by rw [persist, hheader]; dsimp only; rw [hrows]; rfl, fun f => ?_⟩
  have htext : encode (recordLine host (buildHeader host session sandboxHandleId createdAt)) ++
      encode (recordsText host (chunkRecords rows)) ++
        encode (recordLine host (buildTrailer session rows.length closedAt)) =
      encode (recordsText host
        (sessionRecords host session sandboxHandleId rows createdAt closedAt)) := by
    simp [sessionRecords, recordsText, List.append_assoc]
  rw [close, if_neg (by simp), writeRecord, Directory.append_append]
  dsimp only
  rw [Directory.replace_eq (Directory.read_append _ _ _), hnew, Option.getD_none, List.nil_append,
    Nat.zero_add, htext, Table.mem_put, Table.mem_erase, Directory.append, Table.mem_put]
  constructor
  · rintro (⟨⟨⟨hf, -⟩ | rfl, hinFlight⟩, hfinal⟩ | rfl)
    · exact Or.inl ⟨hf, hfinal⟩
    · exact absurd rfl hinFlight
    · exact Or.inr rfl
  · rintro (⟨hf, hfinal⟩ | rfl)
    · have hne := Directory.ne_of_mem hnew hf
      exact Or.inl ⟨⟨Or.inl ⟨hf, hne⟩, hne⟩, hfinal⟩
    · exact Or.inr rfl

end SessionWriter

end Writer

end OpenRath
