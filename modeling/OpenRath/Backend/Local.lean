import Mathlib.Data.Finmap
import Mathlib.Data.Finset.Sort
import Mathlib.Data.String.Basic
import OpenRath.Session.Persistence.Serialize
import OpenRath.Library.TextFile

/-!
# The workspace of a sandbox

The file operations of the trusted-host backend (`src/rath/backend/local.py`) on a workspace, which
is a map from resolved paths to the contents of files. A directory is there if there is a file below
it. The workspace has no symbolic links, and the operating system fails for no other reasons than
the shape of the workspace.

Commands and code may do anything with the workspace. What they do is given by the host.

## Main definitions

* `Workspace`, `Workspace.IsDir`, `Workspace.Blocked`.
* `LocalHost.resolve`, `filesRead`, `filesWrite`, `filesList`, `filesExists`.

## Main results

* `Apart`: of two paths, neither is below the other one.
* `readAt_insert`, `listAt_insert`, `existsAt_insert`, `writeAt_comm`: an operation on a path that
  is apart does not depend on a write.
-/

namespace OpenRath

open TextFile

/-- A path below the root of a workspace, by its components. -/
abbrev WorkspacePath : Type := List String

/-- The contents of the files of a workspace. -/
abbrev Workspace : Type := Finmap fun _ : WorkspacePath => List UInt8

/-- An entry of a directory. -/
structure FileEntry where
  name : String
  path : String
  isDir : Bool
deriving DecidableEq

/-- What a backend returns. -/
inductive ToolResult
  | failure (kind message detail : String)
  | text (data : String)
  | bytes (data : List UInt8)
  | entries (entries : List FileEntry)
  | written (count : ℕ)
  | exists (found : Bool)
  | command (exitCode : ℤ) (stdout stderr : List UInt8) (elapsedMs : BitVec 64)
  | code (stdout stderr : List UInt8) (error : Option String)
deriving DecidableEq

/-- The arguments of a run of code. -/
structure CodeRun where
  code : String
  language : String
  timeout : Option Seconds

/-- The host of a workspace. -/
structure LocalHost where
  host : Host
  /-- The name of the backend, `local` or `trusted-host`. -/
  name : String
  /-- The components of the root. -/
  root : List String
  /-- The home directory of a user, or of the one who runs the process. -/
  home : String → Option (List String)
  /-- `read_text` of the bytes of a file. -/
  readText : String → List UInt8 → Except Exn String
  shell : String → Workspace → Workspace × Except Exn ToolResult
  codeRun : CodeRun → Workspace → Workspace × Except Exn ToolResult

namespace Workspace

variable (ws : Workspace) (p : WorkspacePath)

/-- The path is a directory. -/
def IsDir : Prop := p = [] ∨ ∃ q ∈ ws.keys, p <+: q ∧ p ≠ q

instance : Decidable (ws.IsDir p) :=
  inferInstanceAs (Decidable (p = [] ∨ ∃ q ∈ ws.keys, p <+: q ∧ p ≠ q))

/-- A directory above the path is a file. -/
def Blocked : Prop := ∃ q ∈ p.inits.dropLast, q ∈ ws

instance : Decidable (ws.Blocked p) :=
  inferInstanceAs (Decidable (∃ q ∈ p.inits.dropLast, q ∈ ws))

/-- The names in a directory. -/
def names : Finset String :=
  (ws.keys.filter fun q => p <+: q ∧ p ≠ q).image fun q => q.getD p.length ""

end Workspace

namespace LocalHost

variable (backend : LocalHost)

/-- The text of a path. -/
def pathText (p : WorkspacePath) : String :=
  String.ofList ((backend.root ++ p).flatMap fun c => '/' :: c.toList)

/-- The components of a text, as `pathlib` takes it apart. -/
def pathParts (path : String) : List String :=
  ((path.toList.splitOn '/').map String.ofList).filter fun c => c ≠ "" ∧ c ≠ "."

/-- `Path(path).expanduser()`, below the root if it is not absolute. -/
def candidate (path : String) : Except Exn (List String) :=
  let parts := pathParts path
  if path.toList.head? = some '/' then .ok parts
  else
    match parts.head? with
    | none => .ok backend.root
    | some first =>
      match first.toList with
      | '~' :: user =>
        match backend.home (String.ofList user) with
        | some home => .ok (home ++ parts.tail)
        | none => .error (.other "RuntimeError" "Could not determine home directory.")
      | _ => .ok (backend.root ++ parts)

/-- `Path.resolve`, without symbolic links. -/
def normalize (parts : List String) : List String :=
  parts.foldl (fun done c => if c = ".." then done.dropLast else done ++ [c]) []

/-- `_resolve`: the path below the root, or the failure for one that is outside. -/
def resolve (path : String) : Except Exn (Except ToolResult WorkspacePath) := do
  let parts ← backend.candidate path
  let resolved := normalize parts
  if backend.root <+: resolved then .ok (.ok (resolved.drop backend.root.length))
  else
    let repr text := backend.host.texts.repr (.str text)
    .ok (.error (.failure "path_violation"
      s!"path {repr path} is outside sandbox workspace {repr (backend.pathText [])}"
      "_PathViolation"))

/-- The failure for an error of the operating system. -/
def osFailure (kind : String) (errno : ℕ) (text : String) (p : WorkspacePath) (detail : String) :
    ToolResult :=
  .failure kind s!"[Errno {errno}] {text}: {backend.host.texts.repr (.str (backend.pathText p))}"
    detail

section Operations

variable (ws : Workspace) (p : WorkspacePath)

/-- `_files_read` of a resolved path. -/
def readAt (encoding : Option String) : Except Exn ToolResult :=
  match ws.lookup p with
  | some data =>
    match encoding with
    | none => .ok (.bytes data)
    | some encoding => (backend.readText encoding data).map .text
  | none =>
    if ws.IsDir p then
      .ok (backend.osFailure "os_error" 21 "Is a directory" p "IsADirectoryError")
    else if ws.Blocked p then
      .ok (backend.osFailure "os_error" 20 "Not a directory" p "NotADirectoryError")
    else .ok (backend.osFailure "file_not_found" 2 "No such file or directory" p
      (backend.pathText p))

/-- Why a file cannot be written. -/
def writeFailure : Option ToolResult :=
  if ws.IsDir p then some (backend.osFailure "os_error" 21 "Is a directory" p "IsADirectoryError")
  else if p.dropLast ∈ ws then
    some (backend.osFailure "os_error" 17 "File exists" p.dropLast "FileExistsError")
  else if ws.Blocked p then
    some (backend.osFailure "os_error" 20 "Not a directory" p.dropLast "NotADirectoryError")
  else none

/-- `_files_write` of a resolved path. -/
def writeAt (payload : List UInt8) : Workspace × ToolResult :=
  match backend.writeFailure ws p with
  | some failure => (ws, failure)
  | none => (ws.insert p payload, .written payload.length)

/-- `_files_list` of a resolved path. -/
def listAt : ToolResult :=
  if p ∈ ws then backend.osFailure "os_error" 20 "Not a directory" p "NotADirectoryError"
  else if ws.IsDir p then
    .entries ((ws.names p).sort.map fun name =>
      ⟨name, backend.pathText (p ++ [name]), decide (p ++ [name] ∉ ws)⟩)
  else if ws.Blocked p then
    backend.osFailure "os_error" 20 "Not a directory" p "NotADirectoryError"
  else backend.osFailure "os_error" 2 "No such file or directory" p "FileNotFoundError"

/-- `_files_exists` of a resolved path. -/
def existsAt : ToolResult := .exists (decide (p ∈ ws ∨ ws.IsDir p))

end Operations

end LocalHost

/-! ### Paths that are apart -/

/-- Neither path is below the other one. -/
def Apart (p q : WorkspacePath) : Prop := ¬ p <+: q ∧ ¬ q <+: p

theorem Apart.symm {p q : WorkspacePath} (h : Apart p q) : Apart q p := ⟨h.2, h.1⟩

theorem Apart.ne {p q : WorkspacePath} (h : Apart p q) : p ≠ q := by
  rintro rfl
  exact h.1 (List.prefix_refl p)

namespace Workspace

variable {ws : Workspace} {p q : WorkspacePath} {data : List UInt8}

theorem mem_insert_iff_of_prefix (h : Apart p q) {r : WorkspacePath} (hr : r <+: q ∨ q <+: r) :
    r ∈ ws.insert p data ↔ r ∈ ws := by
  have hne : r ≠ p := by
    rintro rfl
    exact hr.elim h.1 h.2
  rw [Finmap.mem_insert, or_iff_right hne]

theorem isDir_insert (h : Apart p q) : IsDir (ws.insert p data) q ↔ ws.IsDir q := by
  refine or_congr_right (exists_congr fun r => and_congr_left fun hr => ?_)
  rw [Finmap.mem_keys, Finmap.mem_keys]
  exact mem_insert_iff_of_prefix h (Or.inr hr.1)

theorem blocked_insert (h : Apart p q) : Blocked (ws.insert p data) q ↔ ws.Blocked q := by
  refine exists_congr fun r => and_congr_right fun hr => mem_insert_iff_of_prefix h (Or.inl ?_)
  exact (List.mem_inits r q).mp (List.mem_of_mem_dropLast hr)

theorem names_insert (h : Apart p q) : names (ws.insert p data) q = ws.names q := by
  refine congrArg (Finset.image _) (Finset.ext fun r => ?_)
  rw [Finset.mem_filter, Finset.mem_filter, Finmap.mem_keys, Finmap.mem_keys]
  exact and_congr_left fun hr => mem_insert_iff_of_prefix h (Or.inr hr.1)

end Workspace

namespace LocalHost

variable (backend : LocalHost) {ws : Workspace} {p q : WorkspacePath} {data : List UInt8}

theorem readAt_insert (h : Apart p q) (encoding : Option String) :
    backend.readAt (ws.insert p data) q encoding = backend.readAt ws q encoding := by
  rw [readAt, readAt, Finmap.lookup_insert_of_ne ws h.ne.symm]
  simp only [Workspace.isDir_insert h, Workspace.blocked_insert h]

theorem listAt_insert (h : Apart p q) :
    backend.listAt (ws.insert p data) q = backend.listAt ws q := by
  have hself : q ∈ ws.insert p data ↔ q ∈ ws :=
    Workspace.mem_insert_iff_of_prefix h (Or.inl (List.prefix_refl q))
  have hchild : ∀ name, q ++ [name] ∈ ws.insert p data ↔ q ++ [name] ∈ ws := fun name =>
    Workspace.mem_insert_iff_of_prefix h (Or.inr (List.prefix_append q [name]))
  rw [listAt, listAt]
  simp only [hself, hchild, Workspace.isDir_insert h, Workspace.blocked_insert h,
    Workspace.names_insert h]

theorem existsAt_insert (h : Apart p q) : existsAt (ws.insert p data) q = existsAt ws q := by
  have hself : q ∈ ws.insert p data ↔ q ∈ ws :=
    Workspace.mem_insert_iff_of_prefix h (Or.inl (List.prefix_refl q))
  rw [existsAt, existsAt]
  simp only [hself, Workspace.isDir_insert h]

theorem writeFailure_insert (h : Apart p q) :
    backend.writeFailure (ws.insert p data) q = backend.writeFailure ws q := by
  have hparent : q.dropLast ∈ ws.insert p data ↔ q.dropLast ∈ ws :=
    Workspace.mem_insert_iff_of_prefix h (Or.inl (List.dropLast_prefix q))
  rw [writeFailure, writeFailure]
  simp only [hparent, Workspace.isDir_insert h, Workspace.blocked_insert h]

theorem writeAt_snd (payload : List UInt8) : (backend.writeAt ws p payload).2 =
    (backend.writeFailure ws p).getD (.written payload.length) := by
  rw [writeAt]
  cases backend.writeFailure ws p <;> rfl

/-- Whatever is the same in every workspace with a further file is the same behind a write. -/
theorem eq_of_writeAt {α : Type} {f : Workspace → α}
    (hf : ∀ ws data, f (ws.insert p data) = f ws) (payload : List UInt8) :
    f (backend.writeAt ws p payload).1 = f ws := by
  rw [writeAt]
  cases backend.writeFailure ws p with
  | some failure => rfl
  | none => exact hf ws payload

/-- Writes of paths that are apart commute. -/
theorem writeAt_comm (h : Apart p q) (payload payload' : List UInt8) :
    (backend.writeAt (backend.writeAt ws p payload).1 q payload').1 =
      (backend.writeAt (backend.writeAt ws q payload').1 p payload).1 := by
  have hp : backend.writeFailure (backend.writeAt ws q payload').1 p = backend.writeFailure ws p :=
    backend.eq_of_writeAt (f := fun ws => backend.writeFailure ws p)
      (fun _ _ => backend.writeFailure_insert h.symm) payload'
  have hq : backend.writeFailure (backend.writeAt ws p payload).1 q = backend.writeFailure ws q :=
    backend.eq_of_writeAt (f := fun ws => backend.writeFailure ws q)
      (fun _ _ => backend.writeFailure_insert h) payload
  rw [writeAt, hq, writeAt, writeAt, hp, writeAt]
  cases backend.writeFailure ws p with
  | some failure => cases backend.writeFailure ws q <;> rfl
  | none =>
    cases backend.writeFailure ws q with
    | some failure => rfl
    | none => exact Finmap.insert_insert_of_ne ws h.ne

end LocalHost

end OpenRath
