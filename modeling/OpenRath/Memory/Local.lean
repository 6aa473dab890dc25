import Mathlib.Order.Lattice.Nat
import OpenRath.Library.TextFile
import OpenRath.Library.Transaction
import OpenRath.Memory.Models

/-!
# The local memory

The operations of `LocalMemoryBackend` (`src/rath/memory/adapters/local.py`) on an open store, which
is a tree of files below its root. The description of the store in its root is left out: no address
leads to it. The system has no links, and its line separator is the line feed.

What a store gets from outside is given with each operation (`MemoryWorld`): the time, the clients
for embeddings and chats, and what is behind the source of a resource. How documents are scored, in
floating-point numbers, is given by the host.

## Main definitions

* `resolveUri`: the path of an address.
* `dispatchWrite`, `dispatchRead`, `dispatchFind`, `dispatchResource`, `dispatchCommit` and others.
* `MemoryHost.dispatch`.
-/

namespace OpenRath

open TextFile

/-! ### The surroundings of a store -/

/-- A document that is ranked. -/
structure DocRow where
  uri : String
  body : List Char
  path : TreePath
deriving DecidableEq

/-- A client for embeddings. -/
structure EmbeddingClient where
  /-- The model of the provider. -/
  model : Option String
  embed : List (List Char) → Except Exn (List (List (BitVec 64)))
  embedOne : String → Except Exn (List (BitVec 64))

/-- The model under which vectors are stored. -/
def EmbeddingClient.modelName (client : EmbeddingClient) : String :=
  match client.model with
  | none | some "" => "<embedding>"
  | some model => model

/-- The vectors of some texts, without a request if there are none. -/
def EmbeddingClient.embedAll (client : EmbeddingClient) (bodies : List (List Char)) :
    Except Exn (List (List (BitVec 64))) :=
  if bodies = [] then .ok [] else client.embed bodies

/-- What comes of fetching the source of a resource. -/
inductive Fetched
  | resource (data : List UInt8) (originalName : List Char) (label : String)
  /-- `FileNotFoundError`. -/
  | notFound (text : String)
  /-- `_ResourceAccessDenied`. -/
  | accessDenied (text : String)
  /-- `_ResourceFetchError`. -/
  | fetchError (text : String)
  /-- `PermissionError`. -/
  | permission (text : String)
  /-- Another `OSError`, with the name of its class. -/
  | osError (type text : String)
  | raised (e : Exn)

/-- What an operation gets from outside of the store. -/
structure MemoryWorld where
  /-- The time, to the microsecond. -/
  stamp : FileName
  embedding : Option EmbeddingClient
  /-- The text of the reply to a conversation. -/
  chat : Option (String → Except Exn String)
  fetch : String → Fetched

/-- The suffix of documents. -/
def mdSuffix : List Char := ".md".toList

/-- The suffix of the sidecars with vectors. -/
def vecSuffix : List Char := ".vec".toList

/-- The suffix of the sidecars with descriptions. -/
def metaSuffix : List Char := ".meta.json".toList

/-- The host of a local memory. -/
structure MemoryHost where
  host : Host
  /-- `str` of an error of the operating system. -/
  osText : OsError → String
  /-- The hexadecimal digits at the beginning of the digest of some bytes. -/
  digest : List UInt8 → FileName
  /-- `_HIDDEN_SUFFIXES`, in the order of the set. -/
  hiddenSuffixes : List (List Char)
  perm_hiddenSuffixes : hiddenSuffixes.Perm [vecSuffix, metaSuffix]
  /-- `_bm25_rank`. -/
  bm25Rank : List DocRow → String → ℤ → List MemoryHit
  /-- The documents with their vectors, ranked by `_cosine`. -/
  cosineRank : List (BitVec 64) → List (DocRow × List (BitVec 64)) → ℤ →
    Except Exn (List MemoryHit)
  /-- `float` of an item of a vector that is not a floating-point number. -/
  floatOf : Json → Except Exn (BitVec 64)

/-- What a handler raises. -/
inductive MemoryExn
  | os (e : OsError)
  | permission (text : String)
  /-- Another `OSError`, with the name of its class. -/
  | osError (type text : String)
  | raised (e : Exn)
deriving DecidableEq

/-- A handler. -/
abbrev Handler (α : Type) : Type := Tx FileTree MemoryExn α

/-- An operation on the tree. -/
def onTree (f : FileTree → Except OsError FileTree) : Handler Unit :=
  Tx.tryExecute fun t => (f t).mapError .os

/-- A computation that may raise. -/
def orRaise {α : Type} (x : Except Exn α) : Handler α := Tx.ofExcept (x.mapError .raised)

/-- The file or directory is there. -/
def FileTree.Exists (t : FileTree) (p : TreePath) : Prop := p ∈ t.files ∨ t.IsDir p

instance (t : FileTree) (p : TreePath) : Decidable (t.Exists p) :=
  inferInstanceAs (Decidable (p ∈ t.files ∨ t.IsDir p))

/-- `atomic_write_text`. -/
def atomicWriteText (target : TreePath) (text : List Char) (newline : Bool) : Handler Unit := do
  onTree fun t => t.mkdir target.dropLast
  let text := if newline && text.getLast? != some '\n' then text ++ ['\n'] else text
  onTree fun t => t.write target (encode text)

namespace MemoryHost

variable (store : MemoryHost) (world : MemoryWorld)

/-- `repr` of a text. -/
def repr (text : String) : String := store.host.texts.repr (.str text)

/-- `read_text` of the bytes of a file. -/
def bodyOf (data : List UInt8) : Except Exn (List Char) :=
  match readText data with
  | some body => .ok body
  | none => .error (.other "UnicodeDecodeError" (store.host.decodeError data))

/-! ### Addresses -/

/-- What is behind the scheme of an address. -/
def uriTail (uri : String) : List Char :=
  uri.toList.drop (if startsWith uri memoryPrefix then memoryPrefix else legacyPrefix).length

/-- `_resolve_uri`. -/
def resolveUri (uri : String) : Except Exn (Except MemoryResult TreePath) :=
  match memoryUriPrefix uri with
  | none => .ok (.error (.failure .invalidUri
      s!"URI must start with {store.repr memoryPrefix}: {store.repr uri}"))
  | some _ =>
    if isRootUri uri then .ok (.error (.failure .invalidUri "URI has empty path after scheme"))
    else if uriTail uri = [] then
      .ok (.error (.failure .invalidUri "URI has empty path after scheme"))
    else
      let parts := (uriTail uri).splitOn '/'
      let scope := parts.headD []
      if scope ∉ validScopes then .ok (.error (.failure .invalidUri
        s!"unknown scope {store.repr (String.ofList scope)}; must be one of {
          store.host.texts.repr (.arr (validScopes.map fun s => .str (String.ofList s)))}"))
      else if ∃ seg ∈ parts.tail, seg ∈ [[], ['.'], ['.', '.']] then
        .ok (.error (.failure .invalidUri s!"forbidden path segment in {store.repr uri}"))
      -- The operating system has no names with this character.
      else if ∃ seg ∈ parts.tail, '\x00' ∈ seg then
        .error (.other "ValueError" "embedded null byte")
      else .ok (.ok parts)

/-- A handler for the path of an address, which fails if there is none. -/
def withResolved (uri : String) (handler : TreePath → Handler MemoryResult) :
    Handler MemoryResult := do
  match ← orRaise (store.resolveUri uri) with
  | .error failure => pure failure
  | .ok resolved => handler resolved

/-! ### Files -/

/-- A sidecar is removed if it is there. -/
def removeSidecar (resolved : TreePath) (suffix : List Char) : Handler Unit := do
  let sidecar := resolved.withSuffix suffix
  let t ← Tx.query id
  if t.Exists sidecar then onTree fun t => t.unlink sidecar

/-- `_dispatch_write`. -/
def dispatchWrite (uri content mode : String) : Handler MemoryResult :=
  store.withResolved uri fun resolved =>
    if mode ∉ ["replace", "write"] then
      pure (.failure .unsupported s!"unsupported write mode: {store.repr mode}")
    else do
      let target := resolved.withSuffix mdSuffix
      onTree fun t => t.mkdir target.dropLast
      atomicWriteText target content.toList false
      Tx.forEach (removeSidecar resolved) store.hiddenSuffixes
      pure (.written uri (encode content.toList).length)

/-- The file that is read at a path. -/
def readTarget? (t : FileTree) (resolved : TreePath) : Option TreePath :=
  [resolved.withSuffix mdSuffix, resolved].find? (· ∈ t.files)

/-- `_dispatch_read`. -/
def dispatchRead (uri : String) (level : MemoryLevel) (encoding : Option String) :
    Handler MemoryResult :=
  store.withResolved uri fun resolved => do
    let t ← Tx.query id
    match readTarget? t resolved with
    | none => pure (.failure .notFound s!"no memory at {uri}")
    | some target =>
      let body ← orRaise (store.bodyOf ((t.files.lookup target).getD []))
      pure (.read uri (if encoding = none then .bytes (encode body) else .text body) level)

/-! ### Listings -/

/-- The entry has a name that is hidden. -/
def isHidden (name : FileName) : Bool :=
  name = "meta.json".toList || vecSuffix.isSuffixOf name || metaSuffix.isSuffixOf name

/-- The address of an entry of a directory. -/
def entryUri (uriBase : String) (name : FileName) : String :=
  String.ofList (withoutSlashes uriBase ++ '/' :: name)

/-- `_entry_for`. -/
def entryFor (t : FileTree) (path : TreePath) (uriBase : String) : Option MemoryEntry :=
  let name := path.name
  if isHidden name then none
  else if t.IsDir path then some ⟨name, entryUri uriBase name, true, none⟩
  else
    let display := if mdSuffix.isSuffixOf name then name.dropLast.dropLast.dropLast else name
    some ⟨display, entryUri uriBase display, false, (t.files.lookup path).map List.length⟩

/-- `_list_dir`. -/
def listDir (t : FileTree) (dirPath : TreePath) (uriBase : String) : List MemoryEntry :=
  (t.names dirPath).sort.filterMap fun name => entryFor t (dirPath ++ [name]) uriBase

/-- `_walk_tree`, through a number of levels. -/
def walkTree (t : FileTree) : ℕ → TreePath → String → List MemoryEntry
  | 0, _, _ => []
  | levels + 1, dirPath, uriBase =>
    (t.names dirPath).sort.flatMap fun name =>
      match entryFor t (dirPath ++ [name]) uriBase with
      | none => []
      | some entry =>
        entry :: if entry.isDir then walkTree t levels (dirPath ++ [name]) entry.uri else []

/-- `_dispatch_list`. -/
def dispatchList (uri : String) : Handler MemoryResult :=
  store.withResolved uri fun resolved => do
    let t ← Tx.query id
    if ¬ t.IsDir resolved then pure (.list []) else pure (.list (listDir t resolved uri))

/-- `_dispatch_tree`. -/
def dispatchTree (uri : String) (depth : ℤ) : Handler MemoryResult :=
  store.withResolved uri fun resolved => do
    let t ← Tx.query id
    if ¬ t.IsDir resolved then pure (.list [])
    else pure (.list (walkTree t (depth + 1).toNat resolved uri))

/-! ### Search -/

/-- `_find_scope`. -/
def findScope (targetUri : Option String) : Except Exn (Except MemoryResult TreePath × String) :=
  match targetUri with
  | none | some "" => .ok (.ok [], memoryRoot)
  | some uri => do
    match ← store.resolveUri uri with
    | .error failure => .ok (.error failure, uri)
    | .ok resolved => .ok (.ok resolved, String.ofList (withoutSlashes uri))

/-- `_walk_md`, through a number of levels: the addresses and paths of the documents. -/
def walkMd (t : FileTree) : ℕ → TreePath → String → List (String × TreePath)
  | 0, _, _ => []
  | levels + 1, dirPath, uriBase =>
    (t.names dirPath).sort.flatMap fun name =>
      if isHidden name then []
      else if t.IsDir (dirPath ++ [name]) then
        walkMd t levels (dirPath ++ [name]) (entryUri uriBase name)
      else if mdSuffix.isSuffixOf name then
        [(entryUri uriBase name.dropLast.dropLast.dropLast, dirPath ++ [name])]
      else []

/-- A number of levels that the tree does not have. -/
def levels (t : FileTree) : ℕ := (t.made ∪ t.files.keys).sup List.length + 1

/-- `_collect_md_docs`, up to the contents of the documents. -/
def docPaths (t : FileTree) (scopePath : TreePath) (scopeUri : String) : List (String × TreePath) :=
  if ¬ t.Exists scopePath then []
  else if isRootUri scopeUri then
    validScopes.flatMap fun scope =>
      if t.IsDir (scopePath ++ [scope]) then
        walkMd t (levels t) (scopePath ++ [scope]) (memoryPrefix ++ String.ofList scope)
      else []
  else if scopePath ∈ t.files then [(scopeUri, scopePath)]
  else walkMd t (levels t) scopePath scopeUri

/-- `_collect_md_docs`. -/
def collectMdDocs (t : FileTree) (scopePath : TreePath) (scopeUri : String) :
    Except Exn (List DocRow) :=
  (docPaths t scopePath scopeUri).mapM fun doc => do
    let body ← store.bodyOf ((t.files.lookup doc.2).getD [])
    .ok ⟨doc.1, body, doc.2⟩

/-- The items of a vector. -/
def vectorOf : List Json → Except Exn (List (BitVec 64))
  | [] => .ok []
  | .float bits :: items => do .ok (bits :: (← vectorOf items))
  | item :: items => do .ok ((← store.floatOf item) :: (← vectorOf items))

/-- `_load_vec`. -/
def loadVec (t : FileTree) (sidecar : TreePath) (expectedModel : String) :
    Except Exn (Option (List (BitVec 64))) :=
  match t.files.lookup sidecar with
  | none => .ok none
  | some data => do
    match loads store.host.floats (← store.bodyOf data) with
    | .error (.decode _ _) => .ok none
    | .error _ => .error (.other "ValueError" "")
    | .ok (.obj raw) =>
      if JsonObject.get? raw "model" ≠ some (.str expectedModel) then .ok none
      else match JsonObject.get? raw "vector" with
        | some (.arr vec) =>
          match store.vectorOf vec with
          | .ok vec => .ok (some vec)
          | .error e =>
            if e.typeName = "TypeError" ∨ e.typeName = "ValueError" then .ok none else .error e
        | _ => .ok none
    | .ok _ => .ok none

/-- The path of the sidecar with the vector of a document. -/
def sidecarOf (path : TreePath) : TreePath := path.withSuffix vecSuffix

/-- The fields of a sidecar. -/
def vecPayload (model : String) (vec : List (BitVec 64)) : JsonObject :=
  [("model", .str model), ("vector", .arr (vec.map .float))]

/-- `_store_vec`. -/
def storeVec (sidecar : TreePath) (model : String) (vec : List (BitVec 64)) : Handler Unit := do
  onTree fun t => t.mkdir sidecar.dropLast
  atomicWriteText sidecar (dumps store.host.floats (.obj (vecPayload model vec))) true

/-- The documents with the vectors that are stored for them. -/
def loadVecs (t : FileTree) (model : String) (docs : List DocRow) :
    Except Exn (List (DocRow × Option (List (BitVec 64)))) :=
  docs.mapM fun doc => do .ok (doc, ← store.loadVec t (sidecarOf doc.path) model)

/-- `_embedding_rank`. -/
def embeddingRank (client : EmbeddingClient) (docs : List DocRow) (query : String) (topK : ℤ) :
    Handler (List MemoryHit) :=
  if docs = [] then pure []
  else do
    let t ← Tx.query id
    let loaded ← orRaise (store.loadVecs t client.modelName docs)
    let needEmbed := loaded.filterMap fun d => if d.2 = none then some d.1 else none
    let newVecs ← orRaise (client.embedAll (needEmbed.map DocRow.body))
    let embedded := needEmbed.zip newVecs
    Tx.forEach (fun d => store.storeVec (sidecarOf d.1.path) client.modelName d.2) embedded
    let cached := loaded.filterMap (fun d => d.2.map fun vec => (d.1.path, vec)) ++
      embedded.map fun d => (d.1.path, d.2)
    let queryVec ← orRaise (client.embedOne query)
    orRaise (store.cosineRank queryVec
      (docs.filterMap fun doc => ((cached.find? (·.1 = doc.path)).map fun c => (doc, c.2))) topK)

/-- `_dispatch_find`. -/
def dispatchFind (query : String) (targetUri : Option String) (topK : ℤ) :
    Handler MemoryResult := do
  match ← orRaise (store.findScope targetUri) with
  | (.error failure, _) => pure failure
  | (.ok scopePath, scopeUri) =>
    let t ← Tx.query id
    let docs ← orRaise (store.collectMdDocs t scopePath scopeUri)
    if docs = [] then pure (.find [])
    else match world.embedding with
      | none => pure (.find (store.bm25Rank docs query topK))
      | some client =>
        -- A failure to rank by vectors is logged only.
        match ← Tx.attempt (store.embeddingRank client docs query topK) with
        | .ok hits => pure (.find hits)
        | .error _ => pure (.find (store.bm25Rank docs query topK))

/-! ### Resources -/

/-- `PurePath(text).name`. -/
def pathName (text : List Char) : FileName :=
  ((text.splitOn '/').filter fun part => part ∉ [[], ['.']]).getLastD []

/-- The name under which a resource is stored. -/
def blobName (originalName : List Char) : FileName :=
  let suffix := (pathName originalName).suffix
  "source".toList ++ if suffix = [] then ".bin".toList else suffix

/-- The description of a resource. -/
def resourceMeta (sha : FileName) (label originalName reason instruction : List Char) (size : ℕ) :
    List Char :=
  let lines := ["# Resource ".toList ++ sha, [], "- source: ".toList ++ label,
    "- original_name: ".toList ++ originalName, "- bytes: ".toList ++ Nat.toDigits 10 size]
  let lines := if reason = [] then lines else lines ++ [[], "## Reason".toList, reason]
  let lines := if instruction = [] then lines
    else lines ++ [[], "## Instruction".toList, instruction]
  ['\n'].intercalate lines

/-- `_dispatch_resource`, of what was fetched. -/
def storeResource (targetUri : String) (targetPath : TreePath) (reason instruction : String)
    (data : List UInt8) (originalName : List Char) (label : String) : Handler MemoryResult := do
  let sha := store.digest data
  let root := targetPath ++ [sha]
  let blobPath := root ++ [blobName originalName]
  let stored := .written (entryUri targetUri sha) data.length
  let t ← Tx.query id
  if (t.files.lookup blobPath).map List.length = some data.length then pure stored
  else do
    onTree fun t => t.mkdir root
    if '\x00' ∈ blobName originalName then
      Tx.raise (.raised (.other "ValueError" "embedded null byte"))
    else do
      onTree fun t => t.write blobPath data
      atomicWriteText (root ++ ["meta.md".toList])
        (resourceMeta sha label.toList originalName reason.toList instruction.toList data.length)
        true
      pure stored

/-- `_dispatch_resource`. -/
def dispatchResource (source : String) (targetUri : Option String) (reason instruction : String) :
    Handler MemoryResult :=
  let targetUri := match targetUri with
    | none | some "" => memoryPrefix ++ "resources"
    | some uri => uri
  store.withResolved targetUri fun targetPath =>
    match world.fetch source with
    | .resource data originalName label =>
      store.storeResource targetUri targetPath reason instruction data originalName label
    | .notFound text => pure (.failure .notFound s!"resource source not found: {text}")
    | .accessDenied text => pure (.failure .unauthorized s!"resource source not allowed: {text}")
    | .fetchError text => pure (.failure .transport s!"failed to fetch resource: {text}")
    | .permission text => Tx.raise (.permission text)
    | .osError type text => Tx.raise (.osError type text)
    | .raised e => Tx.raise (.raised e)

/-! ### Commits -/

/-- `_safe_storage_segment`: the text is one. -/
def isSafeSegment (text : String) : Bool :=
  match text.toList with
  | [] => false
  | c :: rest => c.isAlphanum && rest.all fun c => c.isAlphanum || c ∈ ['.', '_', '-']

/-- `_normalize_message` of all messages, as far as they can be serialized. -/
def normalizeMessages : List MemoryMessage → Except Exn (List JsonObject)
  | [] => .ok []
  | .fields o :: messages => do .ok (o :: (← normalizeMessages messages))
  | .unserializable e :: _ => .error e

/-- The items that an iteration over the parts of a message goes through. -/
def partItems : Json → Except Exn (List Json)
  | .arr items => .ok items
  | .str s => .ok (s.toList.map fun c => .str (String.ofList [c]))
  | .obj fields => .ok (fields.map fun f => .str f.1)
  | v =>
    if v.truthy then .error (.other "TypeError" "object is not iterable") else .ok []

/-- The line of a message in the conversation. -/
def conversationLine (msg : JsonObject) : Except Exn (List Char) := do
  let text v := (store.host.texts.text v).toList
  let role := (msg.get? "role").getD (.str "user")
  let content ← match (msg.get? "content").getD .null with
    | .null => do
      let parts ← partItems ((msg.get? "parts").getD .null)
      .ok ([' '].intercalate (parts.map text))
    | v => .ok (text v)
  .ok ('[' :: (text role ++ ']' :: ' ' :: content))

/-- The text without the marks of a block of code around it. -/
def withoutFences (text : String) : String :=
  if startsWith text "```" then
    let inner := (text.toList.dropWhile (· = Char.ofNat 96)).rdropWhile (· = Char.ofNat 96)
    strip (String.ofList
      (if (inner.take 4).map Char.toLower = "json".toList then inner.drop 4 else inner))
  else text

/-- The part of a text from the first opening to the last closing bracket. -/
def bracketed? (text : List Char) : Option (List Char) :=
  let inner := (text.dropWhile (· ≠ '[')).rdropWhile (· ≠ ']')
  if inner.length ≤ 1 then none else some inner

/-- `_coerce_json_array`. -/
def coerceJsonArray (text : String) : Except Exn Json :=
  let text := strip text
  if text = "" then .ok .null
  else
    let text := (withoutFences text).toList
    match loads store.host.floats text with
    | .ok v => .ok v
    | .error (.decode _ _) =>
      match bracketed? text with
      | none => .ok .null
      | some inner =>
        match loads store.host.floats inner with
        | .ok v => .ok v
        | .error (.decode _ _) => .ok .null
        | .error _ => .error (.other "ValueError" "")
    | .error _ => .error (.other "ValueError" "")

/-- A memo among the items of a reply. -/
def memoOf? : Json → Option (String × String)
  | .obj item =>
    match JsonObject.get? item "uri", JsonObject.get? item "content" with
    | some (.str uri), some (.str content) =>
      if memoryUriPrefix uri = none then none else some (toPublicUri uri, content)
    | _, _ => none
  | _ => none

/-- `_extract_memos`. -/
def extractMemos (chat : String → Except Exn String) (messages : List JsonObject) :
    Except Exn (List (String × String)) := do
  let lines ← messages.mapM store.conversationLine
  match chat (String.ofList (['\n'].intercalate lines)) with
  | .error _ => .ok []
  | .ok raw =>
    match ← store.coerceJsonArray raw with
    | .arr items => .ok (items.filterMap memoOf?)
    | _ => .ok []

/-- A memo is written, if it has an address in the store. -/
def storeMemo (memo : String × String) : Handler Unit := do
  match ← orRaise (store.resolveUri memo.1) with
  | .error _ => pure ()
  | .ok sub => do
    let target := sub.withSuffix mdSuffix
    onTree fun t => t.mkdir target.dropLast
    atomicWriteText target memo.2.toList false

/-- The directory of a commit. -/
def commitRoot (sessionId : String) : TreePath :=
  ["session".toList, sessionId.toList, "commits".toList, world.stamp]

/-- `_dispatch_commit`. -/
def dispatchCommit (sessionId : String) (messages : List MemoryMessage) (wait : Bool) :
    Handler MemoryResult := do
  if sessionId = "" then
    pure (.failure .invalidUri "MemoryOpCommit requires non-empty session_id")
  else if ¬ isSafeSegment sessionId then
    pure (.failure .invalidUri "session_id must be a single safe path segment")
  else do
    let root := commitRoot world sessionId
    onTree fun t => t.mkdir root
    let normalized ← orRaise (normalizeMessages messages)
    atomicWriteText (root ++ ["messages.json".toList])
      (dumpsIndented store.host.floats 0 (.arr (normalized.map .obj))) true
    let archivedUri := s!"{memoryPrefix}session/{sessionId}/commits/{
      String.ofList world.stamp}/messages.json"
    if ¬ wait then pure (.commit archivedUri (-1))
    else match world.chat with
      | none => pure (.commit archivedUri 0)
      | some chat => do
        let extracted ← orRaise (store.extractMemos chat normalized)
        Tx.forEach store.storeMemo extracted
        pure (.commit archivedUri extracted.length)

/-! ### Dispatch -/

/-- The handler of an operation. -/
def handler : MemoryOp → Handler MemoryResult
  | .write uri content mode => store.dispatchWrite uri content mode
  | .read uri level encoding => store.dispatchRead uri level encoding
  | .list uri => store.dispatchList uri
  | .tree uri depth => store.dispatchTree uri depth
  | .find query targetUri topK | .search query targetUri topK =>
    store.dispatchFind world query targetUri topK
  | .resource source targetUri reason instruction =>
    store.dispatchResource world source targetUri reason instruction
  | .commit sessionId messages wait => store.dispatchCommit world sessionId messages wait

/-- The result for what a handler raised, if it is an error of the operating system. -/
def caught : MemoryExn → Except Exn MemoryResult
  | .permission text => .ok (.failure .unauthorized s!"permission denied: {text}")
  | .os e => .ok (.failure .internal s!"{e.typeName}: {store.osText e}")
  | .osError type text => .ok (.failure .internal s!"{type}: {text}")
  | .raised e => .error e

/-- `LocalMemoryBackend.dispatch`, of an open store. -/
def dispatch (op : MemoryOp) (t : FileTree) : Except Exn MemoryResult × FileTree :=
  match store.handler world op t with
  | (.ok result, t') => (.ok result, t')
  | (.error e, t') => (store.caught e, t')

end MemoryHost

namespace Sample

theorem isNumeral_zero : ∀ c ∈ "0.0".toList, isNumeral c = true := forall_mem_of_all (by decide)

/-- A host of a store without vectors. -/
def memoryHost : MemoryHost where
  host :=
    { floats := ⟨fun _ => "0.0".toList, fun _ => 0, fun _ => isNumeral_zero⟩
      texts := ⟨fun _ => "", fun _ => ""⟩
      readings :=
        { uuid := fun _ => .error (.store (.valueError "badly formed hexadecimal UUID string"))
          datetime := fun _ => .error (.store (.valueError "Invalid isoformat string"))
          lower := id
          isHex := fun _ => false }
      exceptionText := fun _ => ""
      decodeError := fun _ => "invalid start byte"
      intOfText := fun _ => .error (.store (.valueError "invalid literal for int()"))
      floatOf := fun _ => .error (.other "TypeError" "")
      totalSeconds := fun _ => 0 }
  osText := OsError.typeName
  digest := fun _ => "ba7816bf8f01cfea".toList
  hiddenSuffixes := [vecSuffix, metaSuffix]
  perm_hiddenSuffixes := .refl _
  bm25Rank := fun docs _ topK =>
    (docs.map fun doc => ⟨doc.uri, 0, String.ofList doc.body⟩).take topK.toNat
  cosineRank := fun _ _ _ => .ok []
  floatOf := fun _ => .error (.other "TypeError" "")

/-- What an operation gets if there are no clients and nothing can be fetched. -/
def memoryWorld : MemoryWorld :=
  ⟨"20260101T000000000000Z".toList, none, none, fun source => .notFound source⟩

end Sample

end OpenRath
