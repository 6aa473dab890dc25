import OpenRath.Library.Notes
import OpenRath.Library.PosixPath
import OpenRath.Memory.Finding

/-!
# The files of a local memory

The handlers of `LocalMemoryBackend` (`src/rath/memory/adapters/local.py`) with the requests that
they make to the operating system, under absolute paths. There are no links below the root of a
store. What the system answers is left open, but for the names of the entries of a directory and of
temporary files, which are names of entries.

All files that the handlers read, create and remove are below the root of the store, but for the
source of a resource, which is below one of the roots from which the store may import.

## Main definitions

* `FileRequest`, `FileProc`: the requests, and programs that make them.
* `BoundHandle`: an open store.
* `BoundHandle.resolveUri`, `BoundHandle.dispatchWrite`, `BoundHandle.dispatchRead`,
  `BoundHandle.dispatchList`, `BoundHandle.dispatchTree`, `BoundHandle.dispatchResource`,
  `BoundHandle.dispatchCommit`.
* `FileRequest.StaysBelow`, `FileRequest.Imports`: the requests for files of the store, and for the
  source of a resource.

## Main results

* `BoundHandle.resolveUri_of_no_nul`: what an address leads to.
* `BoundHandle.confined`: the files of the handlers.
-/

namespace OpenRath

open TextFile

/-! ### Requests -/

/-- The name of an entry of a directory. -/
abbrev Segment : Type := { name : FileName // name.IsSegment }

/-- A request to the operating system. -/
inductive FileRequest
  | isFile (p : TreePath)
  | isDir (p : TreePath)
  | pathExists (p : TreePath)
  | stat (p : TreePath)
  | iterdir (p : TreePath)
  | readBytes (p : TreePath)
  | mkdir (p : TreePath)
  | writeBytes (p : TreePath) (data : List UInt8)
  /-- `NamedTemporaryFile`, for which the system chooses a name in the directory. -/
  | makeTemp (dir : TreePath)
  | replace (source target : TreePath)
  | unlink (p : TreePath) (missingOk : Bool)

/-- What is answered to a request. -/
def FileRequest.Reply : FileRequest → Type
  | isFile _ | isDir _ | pathExists _ => Bool
  | stat _ => ℕ
  | iterdir _ => List Segment
  | readBytes _ => List UInt8
  | makeTemp _ => Segment
  | mkdir _ | writeBytes _ _ | replace _ _ | unlink _ _ => Unit

/-- What comes of a request. -/
abbrev FileRequest.Answer (c : FileRequest) : Type := Except MemoryExn c.Reply

/-- A program that makes requests. -/
abbrev FileProc (α : Type) : Type := Proc FileRequest FileRequest.Answer MemoryExn α

namespace FileProc

variable {α β : Type}

/-- A request whose failure is raised. -/
def request (c : FileRequest) : FileProc c.Reply := Proc.perform c >>= Proc.ofExcept

def isFile (p : TreePath) : FileProc Bool := request (.isFile p)

def isDir (p : TreePath) : FileProc Bool := request (.isDir p)

def pathExists (p : TreePath) : FileProc Bool := request (.pathExists p)

/-- `stat().st_size`. -/
def fileSize (p : TreePath) : FileProc ℕ := request (.stat p)

/-- The names in a directory, in order. -/
def sortedNames (p : TreePath) : FileProc (List Segment) := do
  let names ← (request (.iterdir p) : FileProc (List Segment))
  pure (names.mergeSort fun m n => m.1 ≤ n.1)

def readBytes (p : TreePath) : FileProc (List UInt8) := request (.readBytes p)

/-- `mkdir(parents=True, exist_ok=True)`. -/
def mkdir (p : TreePath) : FileProc Unit := request (.mkdir p)

def writeBytes (p : TreePath) (data : List UInt8) : FileProc Unit := request (.writeBytes p data)

def makeTemp (dir : TreePath) : FileProc Segment := request (.makeTemp dir)

def replace (source target : TreePath) : FileProc Unit := request (.replace source target)

def unlink (p : TreePath) (missingOk : Bool) : FileProc Unit := request (.unlink p missingOk)

/-- A computation that may raise. -/
def orRaise (x : Except Exn α) : FileProc α := Proc.ofExcept (x.mapError .raised)

/-- A program for each of some values. -/
def forEach (f : α → FileProc Unit) : List α → FileProc Unit
  | [] => pure ()
  | a :: as => do
    f a
    forEach f as

/-- The results of a program for each of some values. -/
def collect (f : α → FileProc (List β)) : List α → FileProc (List β)
  | [] => pure []
  | a :: as => do
    let bs ← f a
    let rest ← collect f as
    pure (bs ++ rest)

/-- The first of some paths that is a file. -/
def firstFile : List TreePath → FileProc (Option TreePath)
  | [] => pure none
  | p :: ps => do
    if ← isFile p then pure (some p) else firstFile ps

/-- `atomic_write_text`. -/
def atomicWriteText (path : TreePath) (text : List Char) (newline : Bool) : FileProc Unit := do
  let target := path.resolve
  mkdir target.dropLast
  let text := if newline && text.getLast? != some '\n' then text ++ ['\n'] else text
  let name ← makeTemp target.dropLast
  let temp := target.dropLast ++ [name.1]
  let written ← Proc.attempt (do
    writeBytes temp (encode text)
    replace temp target)
  match written with
  | .ok () => pure ()
  | .error e => do
    unlink temp true
    Proc.throw e

end FileProc

/-! ### Handlers -/

/-- `_LocalHandle`, with the policy for resources. -/
structure BoundHandle where
  memory : MemoryHost
  path : TreePath
  resolved : ∀ name ∈ path, name ≠ ['.', '.']
  /-- `local_roots`. -/
  localRoots : List TreePath
  /-- `max_bytes`. -/
  maxBytes : ℕ

/-- What an operation gets from outside of the system. -/
structure SystemWorld extends MemoryWorld where
  /-- The path of a source that is a local one. -/
  locate : String → Option TreePath

/-- `str` of a path. -/
def TreePath.text (p : TreePath) : String :=
  if p = [] then "/" else String.ofList (p.flatMap fun name => '/' :: name)

namespace BoundHandle

open FileProc MemoryHost

variable (bound : BoundHandle) (world : SystemWorld)

/-- A path relative to the store, with the failure for what is not below it. -/
def contained (resolved : TreePath) (failure : MemoryResult) : Except MemoryResult TreePath :=
  if bound.path.resolve <+: resolved then .ok resolved else .error failure

/-- `_resolve_uri`. -/
def resolveUri (uri : String) : Except Exn (Except MemoryResult TreePath) :=
  match bound.memory.resolveUri uri with
  | .error e => .error e
  | .ok (.error failure) => .ok (.error failure)
  | .ok (.ok parts) => .ok (bound.contained (bound.path.joinpath parts).resolve
      (.failure .invalidUri s!"path escapes store root: {bound.memory.repr uri}"))

/-- `_contained_child`. -/
def containedChild (parts : List FileName) : Except MemoryResult TreePath :=
  let resolved := (bound.path.joinpath parts).resolve
  bound.contained resolved (.failure .invalidUri s!"path escapes store root: {
    bound.memory.repr resolved.text} is not in the subpath of {
    bound.memory.repr bound.path.resolve.text}")

/-- A handler for the path of an address, which fails if there is none. -/
def withResolved (uri : String) (handler : TreePath → FileProc MemoryResult) :
    FileProc MemoryResult := do
  match ← FileProc.orRaise (bound.resolveUri uri) with
  | .error failure => pure failure
  | .ok resolved => handler resolved

/-- A sidecar is removed if it is there. -/
def removeSidecar (resolved : TreePath) (suffix : List Char) : FileProc Unit := do
  let sidecar := resolved.withSuffix suffix
  if ← pathExists sidecar then unlink sidecar false else pure ()

/-- `_dispatch_write`. -/
def dispatchWrite (uri content mode : String) : FileProc MemoryResult :=
  bound.withResolved uri fun resolved =>
    if mode ∉ ["replace", "write"] then
      pure (.failure .unsupported s!"unsupported write mode: {bound.memory.repr mode}")
    else do
      let target := resolved.withSuffix mdSuffix
      mkdir target.dropLast
      FileProc.atomicWriteText target content.toList false
      forEach (removeSidecar resolved) bound.memory.hiddenSuffixes
      pure (.written uri (encode content.toList).length)

/-- `_dispatch_read`. -/
def dispatchRead (uri : String) (level : MemoryLevel) (encoding : Option String) :
    FileProc MemoryResult :=
  bound.withResolved uri fun resolved => do
    match ← firstFile [resolved.withSuffix mdSuffix, resolved] with
    | none => pure (.failure .notFound s!"no memory at {uri}")
    | some target =>
      let data ← readBytes target
      let body ← FileProc.orRaise (bound.memory.bodyOf data)
      pure (.read uri (if encoding = none then .bytes (encode body) else .text body) level)

/-- `_entry_for`. -/
def entryFor (path : TreePath) (uriBase : String) : FileProc (Option MemoryEntry) :=
  let name := path.name
  if isHidden name then pure none
  else do
    if ← isDir path then pure (some ⟨name, entryUri uriBase name, true, none⟩)
    else do
      let display := if mdSuffix.isSuffixOf name then name.dropLast.dropLast.dropLast else name
      if ← pathExists path then
        let size ← fileSize path
        pure (some ⟨display, entryUri uriBase display, false, some size⟩)
      else pure (some ⟨display, entryUri uriBase display, false, none⟩)

/-- `_list_dir`. -/
def listDir (dirPath : TreePath) (uriBase : String) : FileProc (List MemoryEntry) := do
  let names ← sortedNames dirPath
  collect (fun name => do
    let entry ← entryFor (dirPath ++ [name.1]) uriBase
    pure entry.toList) names

/-- `_walk_tree`, through a number of levels. -/
def walkTree : ℕ → TreePath → String → FileProc (List MemoryEntry)
  | 0, _, _ => pure []
  | levels + 1, dirPath, uriBase => do
    let names ← sortedNames dirPath
    collect (fun name => do
      match ← entryFor (dirPath ++ [name.1]) uriBase with
      | none => pure []
      | some entry =>
        if entry.isDir then
          let below ← walkTree levels (dirPath ++ [name.1]) entry.uri
          pure (entry :: below)
        else pure [entry]) names

/-- `_dispatch_list`. -/
def dispatchList (uri : String) : FileProc MemoryResult :=
  bound.withResolved uri fun resolved => do
    if ← isDir resolved then
      let entries ← listDir resolved uri
      pure (.list entries)
    else pure (.list [])

/-- `_dispatch_tree`. -/
def dispatchTree (uri : String) (depth : ℤ) : FileProc MemoryResult :=
  bound.withResolved uri fun resolved => do
    if ← isDir resolved then
      let entries ← walkTree (depth + 1).toNat resolved uri
      pure (.list entries)
    else pure (.list [])

/-! ### Resources -/

/-- `_fetch_resource`, of a local source. -/
def fetchLocal (path : TreePath) : FileProc Fetched :=
  if bound.localRoots = [] then
    pure (.accessDenied "local paths require resource_import_roots")
  else if ∀ root ∈ bound.localRoots, ¬ root <+: path then
    pure (.accessDenied s!"{path.text} is outside resource_import_roots")
  else do
    if ← isFile path then
      let size ← fileSize path
      if bound.maxBytes < size then
        pure (.fetchError s!"resource exceeds {bound.maxBytes} bytes")
      else
        let data ← readBytes path
        pure (.resource data path.name path.text)
    else pure (.notFound path.text)

/-- `_fetch_resource`. -/
def fetchResource (source : String) : FileProc Fetched :=
  match world.locate source with
  | some path => bound.fetchLocal path
  | none => pure (world.fetch source)

/-- `_dispatch_resource`, of what was fetched. -/
def storeResource (targetUri : String) (targetPath : TreePath) (reason instruction : String)
    (data : List UInt8) (originalName : List Char) (label : String) : FileProc MemoryResult := do
  let sha := bound.memory.digest data
  let root := targetPath.joinpath [sha]
  let blobPath := root.joinpath [blobName originalName]
  let stored := .written (entryUri targetUri sha) data.length
  let same ← (do
    if ← isFile blobPath then
      let size ← fileSize blobPath
      pure (size == data.length)
    else pure false : FileProc Bool)
  if same then pure stored
  else do
    mkdir root
    if '\x00' ∈ blobName originalName then
      Proc.throw (.raised (.other "ValueError" "embedded null byte"))
    else do
      writeBytes blobPath data
      FileProc.atomicWriteText (root.joinpath ["meta.md".toList])
        (resourceMeta sha label.toList originalName reason.toList instruction.toList data.length)
        true
      pure stored

/-- `_fetch_resource`, with what is not found for a `FileNotFoundError`. -/
def fetchOrNotFound (source : String) : FileProc Fetched := do
  match ← Proc.attempt (bound.fetchResource world source) with
  | .ok fetched => pure fetched
  | .error (.os (.notFound p)) => pure (.notFound (bound.memory.osText (.notFound p)))
  | .error e => Proc.throw e

/-- `op.target_uri or f"{MEMORY_URI_PREFIX}resources"`. -/
def resourceUri (targetUri : Option String) : String :=
  match targetUri with
  | none | some "" => memoryPrefix ++ "resources"
  | some uri => uri

/-- `_dispatch_resource`, of what has come of fetching the source. -/
def dispatchFetched (targetUri : String) (targetPath : TreePath) (reason instruction : String) :
    Fetched → FileProc MemoryResult
  | .resource data originalName label =>
    bound.storeResource targetUri targetPath reason instruction data originalName label
  | .notFound text => pure (.failure .notFound s!"resource source not found: {text}")
  | .accessDenied text => pure (.failure .unauthorized s!"resource source not allowed: {text}")
  | .fetchError text => pure (.failure .transport s!"failed to fetch resource: {text}")
  | .permission text => Proc.throw (.permission text)
  | .osError type text => Proc.throw (.osError type text)
  | .raised e => Proc.throw (.raised e)

/-- `_dispatch_resource`. -/
def dispatchResource (source : String) (targetUri : Option String) (reason instruction : String) :
    FileProc MemoryResult :=
  bound.withResolved (resourceUri targetUri) fun targetPath => do
    let fetched ← bound.fetchOrNotFound world source
    bound.dispatchFetched (resourceUri targetUri) targetPath reason instruction fetched

/-! ### Commits -/

/-- A memo is written, if it has an address in the store. -/
def storeMemo (memo : String × String) : FileProc Unit := do
  match ← FileProc.orRaise (bound.resolveUri memo.1) with
  | .error _ => pure ()
  | .ok sub => do
    let target := sub.withSuffix mdSuffix
    mkdir target.dropLast
    FileProc.atomicWriteText target memo.2.toList false

/-- `_dispatch_commit`. -/
def dispatchCommit (sessionId : String) (messages : List MemoryMessage) (wait : Bool) :
    FileProc MemoryResult :=
  if sessionId = "" then
    pure (.failure .invalidUri "MemoryOpCommit requires non-empty session_id")
  else if ¬ isSafeSegment sessionId then
    pure (.failure .invalidUri "session_id must be a single safe path segment")
  else match bound.containedChild
      ["session".toList, sessionId.toList, "commits".toList, world.stamp] with
    | .error failure => pure failure
    | .ok commitRoot => do
      mkdir commitRoot
      let normalized ← FileProc.orRaise (normalizeMessages messages)
      FileProc.atomicWriteText (commitRoot.joinpath ["messages.json".toList])
        (dumpsIndented bound.memory.host.floats 0 (.arr (normalized.map .obj))) true
      let archivedUri := s!"{memoryPrefix}session/{sessionId}/commits/{
        String.ofList world.stamp}/messages.json"
      if ¬ wait then pure (.commit archivedUri (-1))
      else match world.chat with
        | none => pure (.commit archivedUri 0)
        | some chat => do
          let extracted ← FileProc.orRaise (bound.memory.extractMemos chat normalized)
          forEach bound.storeMemo extracted
          pure (.commit archivedUri extracted.length)

end BoundHandle

/-! ### Requests below a root -/

open TreePath

/-- The request is for a file or directory below the root. The root itself may be made, and hold a
temporary file. -/
def FileRequest.StaysBelow (root : TreePath) : FileRequest → Prop
  | isFile p | isDir p | pathExists p | stat p | iterdir p | readBytes p | writeBytes p _
  | unlink p _ => Below root p
  | mkdir p | makeTemp p => Within root p
  | replace source target => Below root source ∧ Below root target

/-- The request is for what is read of a file below one of the roots. -/
def FileRequest.Imports (roots : List TreePath) : FileRequest → Prop
  | isFile p | stat p | readBytes p => ∃ root ∈ roots, root <+: p
  | _ => False

namespace FileProc

variable {α β : Type} {P : FileRequest → Prop}

theorem issues_request {c : FileRequest} (h : P c) : (request c).Issues P :=
  (Proc.issues_perform h).bind fun r => (Proc.closed_issues P).ofExcept r

theorem issues_forEach {f : α → FileProc Unit} {as : List α} (h : ∀ a ∈ as, (f a).Issues P) :
    (forEach f as).Issues P := by
  induction as with
  | nil => trivial
  | cons a as ih =>
    obtain ⟨ha, has⟩ := List.forall_mem_cons.mp h
    exact ha.bind fun _ => ih has

theorem issues_collect {f : α → FileProc (List β)} (h : ∀ a, (f a).Issues P) (as : List α) :
    (collect f as).Issues P := by
  induction as with
  | nil => trivial
  | cons a as ih => exact (h a).bind fun _ => ih.bind fun _ => trivial

theorem issues_firstFile {ps : List TreePath} (h : ∀ p ∈ ps, P (.isFile p)) :
    (firstFile ps).Issues P := by
  induction ps with
  | nil => trivial
  | cons p ps ih =>
    obtain ⟨hp, hps⟩ := List.forall_mem_cons.mp h
    exact (issues_request hp).bind fun (found : Bool) => (Proc.closed_issues P).ite trivial (ih hps)

theorem returns_firstFile (ps : List TreePath) :
    (firstFile ps).Returns fun found => ∀ p ∈ found, p ∈ ps := by
  induction ps with
  | nil => exact fun p hp => nomatch hp
  | cons q ps ih =>
    refine (Proc.returns_of_forall (P := fun _ => True) (fun _ => trivial) _).bind
      fun (found : Bool) _ => ?_
    by_cases hfound : found = true
    · rw [if_pos hfound]
      rintro p ⟨⟩
      exact List.mem_cons_self
    · rw [if_neg hfound]
      exact ih.imp fun found' h p hp => List.mem_cons_of_mem q (h p hp)

/-- A file below the root is written through a temporary file next to it. -/
theorem issues_atomicWriteText {root path : TreePath} (hroot : ∀ name ∈ root, name ≠ ['.', '.'])
    (h : Below root path) (text : List Char) (newline : Bool) :
    (atomicWriteText path text newline).Issues (FileRequest.StaysBelow root) := by
  have hpath : path.resolve = path := h.within.resolve_eq hroot
  have hparent := h.within_dropLast
  rw [atomicWriteText, hpath]
  refine (issues_request hparent).bind fun _ => (issues_request hparent).bind fun name => ?_
  have htemp : Below root (path.dropLast ++ [name.1]) := hparent.below_concat name.2
  refine (Proc.Issues.attempt ?_).bind fun written => ?_
  · exact (issues_request htemp).bind fun _ => issues_request ⟨htemp, h⟩
  · rcases written with e | ⟨⟩
    · exact (issues_request htemp).bind fun _ => trivial
    · trivial

end FileProc

namespace BoundHandle

open FileProc MemoryHost

variable {bound : BoundHandle} {world : SystemWorld}

/-! ### Addresses -/

theorem contained_append {parts : List FileName} (h : ∀ part ∈ parts, part.IsSegment)
    (failure : MemoryResult) :
    bound.contained (bound.path.joinpath parts).resolve failure = .ok (bound.path ++ parts) := by
  have hroot : bound.path.resolve = bound.path := resolve_eq_self bound.resolved
  have hresolve : (bound.path ++ parts).resolve = bound.path ++ parts := by
    refine resolve_eq_self fun name hname => ?_
    rcases List.mem_append.mp hname with hname | hname
    · exact bound.resolved name hname
    · exact (h name hname).ne_parent
  rw [contained, joinpath_of_segments _ h, hresolve, hroot, if_pos (List.prefix_append ..)]

/-- The parts of an address that is accepted are names of entries. -/
theorem isSegment_of_resolveUri {store : MemoryHost} {uri : String} {parts : TreePath}
    (h : store.resolveUri uri = .ok (.ok parts)) : ∀ part ∈ parts, part.IsSegment := by
  have hscopes : ∀ scope ∈ validScopes, scope ∉ [[], ['.'], ['.', '.']] :=
    forall_mem_of_all (by decide)
  have hpath := isStorePath_of_resolveUri store h
  obtain ⟨scope, rest, rfl⟩ := List.exists_cons_of_ne_nil hpath.ne_nil
  intro part hpart
  refine ⟨?_, (segments_of_resolveUri h part hpart).1⟩
  rcases List.mem_cons.mp hpart with rfl | hpart
  · exact hscopes _ hpath.scope
  · exact hpath.segments part hpart

theorem resolveUri_of_ok {uri : String} {parts : TreePath}
    (h : bound.memory.resolveUri uri = .ok (.ok parts)) :
    bound.resolveUri uri = .ok (.ok (bound.path ++ parts)) := by
  rw [resolveUri, h]
  simp only [contained_append (isSegment_of_resolveUri h)]

theorem below_of_resolveUri {uri : String} {path : TreePath}
    (h : bound.resolveUri uri = .ok (.ok path)) : Below bound.path path := by
  obtain ⟨message, hfailure, -⟩ | ⟨e, herror, -⟩ | ⟨parts, hparts, hpath, -⟩ :=
    bound.memory.resolveUri_cases uri
  · simp [resolveUri, hfailure] at h
  · simp [resolveUri, herror] at h
  · obtain rfl : bound.path ++ parts = path := by simpa [resolveUri_of_ok hparts] using h
    exact .of_append hpath.ne_nil (isSegment_of_resolveUri hparts)

/-- An address leads nowhere or into a scope of the store. -/
theorem resolveUri_of_no_nul {uri : String} (h : '\x00' ∉ uri.toList) :
    (∃ message, bound.resolveUri uri = .ok (.error (.failure .invalidUri message))) ∨
      ∃ scope ∈ validScopes, ∃ segments : List FileName, (∀ seg ∈ segments, seg.IsSegment) ∧
        bound.resolveUri uri = .ok (.ok (bound.path ++ scope :: segments)) := by
  obtain ⟨message, hfailure, -⟩ | ⟨e, -, hnul⟩ | ⟨parts, hparts, hpath, -⟩ :=
    bound.memory.resolveUri_cases uri
  · exact Or.inl ⟨message, by rw [resolveUri, hfailure]⟩
  · obtain ⟨seg, hseg, hmem⟩ := hnul.mem
    have htail := subset_of_mem_splitOn (List.mem_of_mem_tail hseg) hmem
    exact absurd ((List.drop_subset _ _) htail) h
  · have hsegments := isSegment_of_resolveUri hparts
    have hresolve := resolveUri_of_ok hparts
    obtain ⟨scope, rest, rfl⟩ := List.exists_cons_of_ne_nil hpath.ne_nil
    exact Or.inr ⟨scope, hpath.scope, rest, (List.forall_mem_cons.mp hsegments).2, hresolve⟩

/-! ### Handlers -/

variable {P : FileRequest → Prop}

theorem issues_withResolved {uri : String} {handler : TreePath → FileProc MemoryResult}
    (h : ∀ path, Below bound.path path → (handler path).Issues P) :
    (bound.withResolved uri handler).Issues P := by
  rw [withResolved]
  rcases hresolve : bound.resolveUri uri with e | failure | path
  · trivial
  · trivial
  · exact h path (below_of_resolveUri hresolve)

theorem issues_of_withResolved {uri : String} {path : TreePath}
    {handler : TreePath → FileProc MemoryResult} (hpath : bound.resolveUri uri = .ok (.ok path))
    (h : (bound.withResolved uri handler).Issues P) : (handler path).Issues P := by
  rw [withResolved, hpath] at h
  exact h

theorem below_withSuffix_mdSuffix {root path : TreePath} (h : Below root path) :
    Below root (path.withSuffix mdSuffix) := h.withSuffix (by decide) (by decide)

theorem below_withSuffix_of_mem {root path : TreePath} (h : Below root path) {suffix : List Char}
    (hsuffix : suffix ∈ bound.memory.hiddenSuffixes) : Below root (path.withSuffix suffix) := by
  have hhidden : ∀ s ∈ [vecSuffix, metaSuffix], 1 < s.length ∧ '/' ∉ s :=
    forall_mem_of_all (by decide)
  obtain ⟨hlength, hslash⟩ :=
    hhidden suffix (bound.memory.perm_hiddenSuffixes.mem_iff.mp hsuffix)
  exact h.withSuffix hlength hslash

theorem issues_dispatchWrite (uri content mode : String) :
    (bound.dispatchWrite uri content mode).Issues (FileRequest.StaysBelow bound.path) := by
  refine issues_withResolved fun path hpath => ?_
  have htarget := below_withSuffix_mdSuffix hpath
  refine (Proc.closed_issues _).ite trivial ?_
  refine (issues_request htarget.within_dropLast).bind fun _ => ?_
  refine (issues_atomicWriteText bound.resolved htarget content.toList false).bind fun _ => ?_
  refine (issues_forEach fun suffix hsuffix => ?_).bind fun _ => trivial
  have hsidecar := below_withSuffix_of_mem hpath hsuffix
  exact (issues_request hsidecar).bind fun (found : Bool) =>
    (Proc.closed_issues _).ite (issues_request hsidecar) trivial

theorem issues_dispatchRead (uri : String) (level : MemoryLevel) (encoding : Option String) :
    (bound.dispatchRead uri level encoding).Issues (FileRequest.StaysBelow bound.path) := by
  refine issues_withResolved fun path hpath => ?_
  have hcandidates : ∀ p ∈ [path.withSuffix mdSuffix, path], Below bound.path p := by
    intro p hp
    simp only [List.mem_cons, List.not_mem_nil, or_false] at hp
    obtain rfl | rfl := hp
    · exact below_withSuffix_mdSuffix hpath
    · exact hpath
  refine (issues_firstFile hcandidates).bind_of_returns (returns_firstFile _) fun found hfound => ?_
  rcases found with _ | target
  · trivial
  · refine (issues_request (hcandidates target (hfound target rfl))).bind fun data => ?_
    exact ((Proc.closed_issues _).ofExcept _).bind fun _ => trivial

/-! ### Listings -/

theorem issues_sortedNames {path : TreePath} (h : Below bound.path path) :
    (sortedNames path).Issues (FileRequest.StaysBelow bound.path) :=
  (issues_request h).bind fun _ => trivial

theorem issues_entryFor {path : TreePath} (h : Below bound.path path) (uriBase : String) :
    (entryFor path uriBase).Issues (FileRequest.StaysBelow bound.path) := by
  refine (Proc.closed_issues _).ite trivial ?_
  refine (issues_request h).bind fun (directory : Bool) => ?_
  refine (Proc.closed_issues _).ite trivial ?_
  refine (issues_request h).bind fun (found : Bool) => ?_
  exact (Proc.closed_issues _).ite ((issues_request h).bind fun _ => trivial) trivial

theorem issues_listDir {path : TreePath} (h : Below bound.path path) (uriBase : String) :
    (listDir path uriBase).Issues (FileRequest.StaysBelow bound.path) := by
  refine (issues_sortedNames h).bind fun names => issues_collect (fun name => ?_) names
  refine (issues_entryFor (h.below_concat name.2) uriBase).bind fun entry => ?_
  trivial

theorem issues_walkTree {levels : ℕ} {path : TreePath} (h : Below bound.path path)
    (uriBase : String) :
    (walkTree levels path uriBase).Issues (FileRequest.StaysBelow bound.path) := by
  induction levels generalizing path uriBase with
  | zero => trivial
  | succ levels ih =>
    refine (issues_sortedNames h).bind fun names => issues_collect (fun name => ?_) names
    have hname : Below bound.path (path ++ [name.1]) := h.below_concat name.2
    refine (issues_entryFor hname uriBase).bind fun entry => ?_
    rcases entry with _ | entry
    · trivial
    · exact (Proc.closed_issues _).ite ((ih hname entry.uri).bind fun _ => trivial) trivial

theorem issues_dispatchList (uri : String) :
    (bound.dispatchList uri).Issues (FileRequest.StaysBelow bound.path) := by
  refine issues_withResolved fun path hpath => ?_
  refine (issues_request hpath).bind fun (directory : Bool) => ?_
  exact (Proc.closed_issues _).ite ((issues_listDir hpath uri).bind fun _ => trivial) trivial

theorem issues_dispatchTree (uri : String) (depth : ℤ) :
    (bound.dispatchTree uri depth).Issues (FileRequest.StaysBelow bound.path) := by
  refine issues_withResolved fun path hpath => ?_
  refine (issues_request hpath).bind fun (directory : Bool) => ?_
  exact (Proc.closed_issues _).ite ((issues_walkTree hpath uri).bind fun _ => trivial) trivial

/-! ### Resources -/

theorem slash_not_mem_pathName (text : List Char) : '/' ∉ pathName text := by
  rw [pathName, List.getLastD_eq_getLast?]
  rcases hlast : ((text.splitOn '/').filter fun part => part ∉ [[], ['.']]).getLast? with _ | name
  · exact List.not_mem_nil
  · exact not_mem_of_mem_splitOn (List.mem_of_mem_filter (List.mem_of_getLast? hlast))

/-- Whatever the name of a resource is, it is stored under the name of an entry. -/
theorem isSegment_blobName (originalName : List Char) : (blobName originalName).IsSegment := by
  have hslash : '/' ∉ (pathName originalName).suffix := fun hmem =>
    slash_not_mem_pathName originalName (FileName.suffix_subset _ hmem)
  show FileName.IsSegment ("source".toList ++
    if (pathName originalName).suffix = [] then ".bin".toList else (pathName originalName).suffix)
  refine FileName.isSegment_of_length ?_ ?_
  · rw [List.length_append]
    exact Nat.lt_add_right _ (by decide)
  · rw [List.mem_append, not_or]
    refine ⟨by decide, ?_⟩
    split_ifs
    · decide
    · exact hslash

theorem issues_fetchLocal (path : TreePath) :
    (bound.fetchLocal path).Issues (FileRequest.Imports bound.localRoots) := by
  rw [fetchLocal]
  split_ifs with hroots houtside
  · trivial
  · trivial
  have hpath : ∃ root ∈ bound.localRoots, root <+: path := by
    push Not at houtside
    exact houtside
  refine (issues_request hpath).bind fun (found : Bool) => ?_
  refine (Proc.closed_issues _).ite ?_ trivial
  refine (issues_request hpath).bind fun (size : ℕ) => ?_
  exact (Proc.closed_issues _).ite trivial ((issues_request hpath).bind fun _ => trivial)

theorem issues_fetchResource (source : String) :
    (bound.fetchResource world source).Issues (FileRequest.Imports bound.localRoots) := by
  rw [fetchResource]
  rcases world.locate source with _ | path
  · trivial
  · exact issues_fetchLocal path

theorem issues_fetchOrNotFound (source : String) :
    (bound.fetchOrNotFound world source).Issues (FileRequest.Imports bound.localRoots) := by
  refine (issues_fetchResource source).attempt.bind fun fetched => ?_
  rcases fetched with ((_ | _ | _ | _) | _ | _ | _) | _ <;> trivial

section Digest

variable (hdigest : ∀ data, (bound.memory.digest data).IsSegment)
include hdigest

theorem issues_storeResource {path : TreePath} (h : Below bound.path path)
    (targetUri reason instruction : String) (data : List UInt8) (originalName : List Char)
    (label : String) :
    (bound.storeResource targetUri path reason instruction data originalName label).Issues
      (FileRequest.StaysBelow bound.path) := by
  have hblob := isSegment_blobName originalName
  have hmeta : FileName.IsSegment "meta.md".toList := by decide
  have hroot : Below bound.path (path.joinpath [bound.memory.digest data]) := by
    rw [joinpath_of_segments path (by simpa using hdigest data)]
    exact h.below_concat (hdigest data)
  have hblobPath : Below bound.path
      ((path.joinpath [bound.memory.digest data]).joinpath [blobName originalName]) := by
    rw [joinpath_of_segments (path.joinpath _) (by simpa using hblob)]
    exact hroot.below_concat hblob
  have hmetaPath : Below bound.path
      ((path.joinpath [bound.memory.digest data]).joinpath ["meta.md".toList]) := by
    rw [joinpath_of_segments (path.joinpath _) (by simpa using hmeta)]
    exact hroot.below_concat hmeta
  rw [storeResource]
  refine Proc.Issues.bind ?_ fun (same : Bool) => (Proc.closed_issues _).ite trivial ?_
  · refine (issues_request hblobPath).bind fun (found : Bool) => ?_
    exact (Proc.closed_issues _).ite ((issues_request hblobPath).bind fun _ => trivial) trivial
  · refine (issues_request hroot.within).bind fun _ => (Proc.closed_issues _).ite trivial ?_
    refine (issues_request hblobPath).bind fun _ => ?_
    exact (issues_atomicWriteText bound.resolved hmetaPath _ true).bind fun _ => trivial

theorem issues_dispatchResource (source : String) (targetUri : Option String)
    (reason instruction : String) :
    (bound.dispatchResource world source targetUri reason instruction).Issues fun c =>
      c.StaysBelow bound.path ∨ c.Imports bound.localRoots := by
  refine issues_withResolved fun path hpath => ?_
  have hfetch : (bound.fetchOrNotFound world source).Issues fun c =>
      c.StaysBelow bound.path ∨ c.Imports bound.localRoots :=
    (issues_fetchOrNotFound source).imp fun _ => Or.inr
  refine hfetch.bind fun fetched => ?_
  cases fetched with
  | resource data originalName label =>
    exact (issues_storeResource hdigest hpath _ reason instruction data originalName label).imp
      fun _ => Or.inl
  | notFound | accessDenied | fetchError | permission | osError | raised => trivial

end Digest

/-! ### Commits -/

theorem issues_storeMemo (memo : String × String) :
    (bound.storeMemo memo).Issues (FileRequest.StaysBelow bound.path) := by
  rw [storeMemo]
  rcases hresolve : bound.resolveUri memo.1 with e | failure | path
  · trivial
  · trivial
  · have htarget := below_withSuffix_mdSuffix (below_of_resolveUri hresolve)
    exact (issues_request htarget.within_dropLast).bind fun _ =>
      issues_atomicWriteText bound.resolved htarget memo.2.toList false

/-- A session identifier that is safe is the name of an entry. -/
theorem isSegment_of_isSafeSegment {text : String} (h : isSafeSegment text = true) :
    FileName.IsSegment text.toList := by
  rw [isSafeSegment] at h
  cases htext : text.toList with
  | nil => simp [htext] at h
  | cons c rest =>
    simp only [htext, Bool.and_eq_true, List.all_eq_true] at h
    obtain ⟨hc, hrest⟩ := h
    have hpoint : c ≠ '.' := by
      rintro rfl
      exact absurd hc (by decide)
    refine ⟨fun hmem => ?_, fun hmem => ?_⟩
    · simp only [List.mem_cons, List.not_mem_nil, or_false] at hmem
      obtain heq | heq | heq := hmem
      · cases heq
      · exact hpoint (List.cons.inj heq).1
      · exact hpoint (List.cons.inj heq).1
    · rcases List.mem_cons.mp hmem with rfl | hmem
      · exact absurd hc (by decide)
      · exact absurd (hrest '/' hmem) (by decide)

theorem issues_dispatchCommit (hstamp : world.stamp.IsSegment) (sessionId : String)
    (messages : List MemoryMessage) (wait : Bool) :
    (bound.dispatchCommit world sessionId messages wait).Issues
      (FileRequest.StaysBelow bound.path) := by
  rw [dispatchCommit]
  by_cases hempty : sessionId = ""
  · rw [if_pos hempty]
    trivial
  rw [if_neg hempty]
  by_cases hsafe : isSafeSegment sessionId = true
  swap
  · rw [if_pos hsafe]
    trivial
  rw [if_neg (not_not.mpr hsafe)]
  have hfixed : FileName.IsSegment "session".toList ∧ FileName.IsSegment "commits".toList ∧
      FileName.IsSegment "messages.json".toList := by decide
  have hparts : ∀ part ∈ ["session".toList, sessionId.toList, "commits".toList, world.stamp],
      FileName.IsSegment part := by
    intro part hpart
    simp only [List.mem_cons, List.not_mem_nil, or_false] at hpart
    obtain rfl | rfl | rfl | rfl := hpart
    · exact hfixed.1
    · exact isSegment_of_isSafeSegment hsafe
    · exact hfixed.2.1
    · exact hstamp
  have hroot : Below bound.path (bound.path ++
      ["session".toList, sessionId.toList, "commits".toList, world.stamp]) :=
    .of_append (List.cons_ne_nil _ _) hparts
  have harchive := hroot.below_concat hfixed.2.2
  rw [containedChild, contained_append hparts]
  dsimp only
  rw [joinpath_of_segments _ (by simpa using hfixed.2.2)]
  refine (issues_request hroot.within).bind fun _ => ?_
  refine ((Proc.closed_issues _).ofExcept _).bind fun normalized => ?_
  refine (issues_atomicWriteText bound.resolved harchive _ true).bind fun _ => ?_
  refine (Proc.closed_issues _).ite trivial ?_
  rcases world.chat with _ | chat
  · trivial
  refine ((Proc.closed_issues _).ofExcept _).bind fun extracted => ?_
  exact (issues_forEach fun memo _ => issues_storeMemo memo).bind fun _ => trivial

/-! ### The files of the handlers -/

/-- **The store stays inside.** An address without the character that no name has leads nowhere or
into a scope of the store. All files of the handlers are below the root of the store, but for the
local source of a resource, which is below one of the roots for imports. -/
theorem confined (hdigest : ∀ data, (bound.memory.digest data).IsAlphanumeric)
    (hstamp : world.stamp.IsAlphanumeric) :
    (∀ uri : String, '\x00' ∉ uri.toList →
      (∃ message, bound.resolveUri uri = .ok (.error (.failure .invalidUri message))) ∨
        ∃ scope ∈ validScopes, ∃ segments : List FileName, (∀ seg ∈ segments, seg.IsSegment) ∧
          bound.resolveUri uri = .ok (.ok (bound.path ++ scope :: segments))) ∧
      (∀ uri content mode,
        (bound.dispatchWrite uri content mode).Issues (FileRequest.StaysBelow bound.path)) ∧
      (∀ uri level encoding,
        (bound.dispatchRead uri level encoding).Issues (FileRequest.StaysBelow bound.path)) ∧
      (∀ uri, (bound.dispatchList uri).Issues (FileRequest.StaysBelow bound.path)) ∧
      (∀ uri depth, (bound.dispatchTree uri depth).Issues (FileRequest.StaysBelow bound.path)) ∧
      (∀ source targetUri reason instruction,
        (bound.dispatchResource world source targetUri reason instruction).Issues fun c =>
          c.StaysBelow bound.path ∨ c.Imports bound.localRoots) ∧
      ∀ sessionId messages wait,
        (bound.dispatchCommit world sessionId messages wait).Issues
          (FileRequest.StaysBelow bound.path) :=
  ⟨fun _ => resolveUri_of_no_nul, issues_dispatchWrite, issues_dispatchRead, issues_dispatchList,
    issues_dispatchTree, issues_dispatchResource fun data => (hdigest data).isSegment,
    issues_dispatchCommit hstamp.isSegment⟩

/-- A local source that may be imported can be read, wherever it is. -/
theorem readBytes_of_issues {P : FileRequest → Prop} {source : String} {targetUri : Option String}
    {root path target : TreePath} (hlocate : world.locate source = some path)
    (hroot : root ∈ bound.localRoots) (hpath : root <+: path)
    (htarget : bound.resolveUri (resourceUri targetUri) = .ok (.ok target))
    {reason instruction : String}
    (h : (bound.dispatchResource world source targetUri reason instruction).Issues P) :
    P (.readBytes path) := by
  have hroots : bound.localRoots ≠ [] := List.ne_nil_of_mem hroot
  have hinside : ¬ ∀ root ∈ bound.localRoots, ¬ root <+: path := fun hall => hall root hroot hpath
  have hresource : (bound.fetchResource world source).Issues P :=
    (issues_of_withResolved htarget h).of_bind.of_bind.of_attempt
  have hfetch : (bound.fetchLocal path).Issues P := by
    rwa [fetchResource, hlocate] at hresource
  rw [fetchLocal, if_neg hroots, if_neg hinside] at hfetch
  -- The system answers that there is a file, and that it is empty.
  have hsize := hfetch.2 (.ok true)
  have hread := hsize.2 (.ok (0 : ℕ))
  exact hread.1

/-- A source outside of the store that may be imported leads outside of the store. -/
theorem not_confined_of_imports {source : String} {targetUri : Option String}
    {root path target : TreePath} (hlocate : world.locate source = some path)
    (hroot : root ∈ bound.localRoots) (hpath : root <+: path)
    (htarget : bound.resolveUri (resourceUri targetUri) = .ok (.ok target))
    (houtside : ¬ Below bound.path path) :
    ¬ ∀ source targetUri reason instruction,
      (bound.dispatchResource world source targetUri reason instruction).Issues
        (FileRequest.StaysBelow bound.path) :=
  fun h => houtside (readBytes_of_issues hlocate hroot hpath htarget (h source targetUri "" ""))

end BoundHandle

namespace Sample

/-- A store that may import what is in a directory beside it. -/
def importing : BoundHandle where
  memory := memoryHost
  path := ["srv".toList, "memory".toList]
  resolved := forall_mem_of_all (by decide)
  localRoots := [["srv".toList, "imports".toList]]
  maxBytes := 1024

/-- All sources are absolute paths. -/
def importingWorld : SystemWorld where
  toMemoryWorld := memoryWorld
  locate source := some (TreePath.components source.toList).resolve

theorem isAlphanumeric_digest (data : List UInt8) :
    (importing.memory.digest data).IsAlphanumeric := by
  show FileName.IsAlphanumeric "ba7816bf8f01cfea".toList
  exact ⟨List.cons_ne_nil _ _, forall_mem_of_all (by decide)⟩

theorem isAlphanumeric_stamp : importingWorld.stamp.IsAlphanumeric :=
  ⟨List.cons_ne_nil _ _, forall_mem_of_all (by decide)⟩

/-- The files of a commit. -/
theorem confined_sample :
    (importing.dispatchCommit importingWorld "s1" [] false).Issues
      (FileRequest.StaysBelow importing.path) :=
  (BoundHandle.confined isAlphanumeric_digest isAlphanumeric_stamp).2.2.2.2.2.2 "s1" [] false

/-- The source of a resource is read outside of the store. -/
theorem source_not_confined : ¬ ∀ source targetUri reason instruction,
    (importing.dispatchResource importingWorld source targetUri reason instruction).Issues
      (FileRequest.StaysBelow importing.path) := by
  have htarget : importing.resolveUri (BoundHandle.resourceUri none) =
      .ok (.ok (importing.path ++ ["resources".toList])) := by decide +kernel
  have hlocate : importingWorld.locate "/srv/imports/notes.txt" =
      some ["srv".toList, "imports".toList, "notes.txt".toList] := by decide +kernel
  refine BoundHandle.not_confined_of_imports hlocate List.mem_cons_self
    (List.prefix_append _ [_]) htarget ?_
  rintro ⟨rest, -, -, hrest⟩
  simp [importing] at hrest

end Sample

end OpenRath
