import OpenRath.Library.FileTree
import OpenRath.Session.Persistence.Serialize

/-!
# Operations on a memory

The address scheme (`src/rath/memory/uri.py`), the operations (`op_types.py`) and their results
(`results.py`). Texts are sequences of characters: those with unpaired surrogates are left out.

## Main definitions

* `memoryUriPrefix`, `toPublicUri`.
* `MemoryOp`, `MemoryResult`.
-/

namespace OpenRath

/-! ### Addresses -/

/-- `MEMORY_URI_PREFIX`. -/
def memoryPrefix : String := "memory://"

/-- `LEGACY_MEMORY_URI_PREFIX`. -/
def legacyPrefix : String := "viking://"

/-- `MEMORY_URI_ROOT`. -/
def memoryRoot : String := "memory:/"

/-- `_VALID_SCOPES`, in order. -/
def validScopes : List FileName :=
  ["agent".toList, "resources".toList, "session".toList, "user".toList]

/-- `uri.startswith(start)`. -/
def startsWith (uri start : String) : Bool := start.toList.isPrefixOf uri.toList

/-- `uri.rstrip("/")`. -/
def withoutSlashes (uri : String) : List Char := uri.toList.rdropWhile (· = '/')

/-- The address is a scheme without a path. -/
def isRootUri (uri : String) : Bool :=
  withoutSlashes uri ∈ ["memory:".toList, "viking:".toList]

/-- `memory_uri_prefix`. -/
def memoryUriPrefix (uri : String) : Option String :=
  if startsWith uri memoryPrefix then some memoryPrefix
  else if startsWith uri legacyPrefix then some legacyPrefix
  else if isRootUri uri then some memoryRoot
  else none

/-- `to_public_uri`. -/
def toPublicUri (uri : String) : String :=
  if withoutSlashes uri = "viking:".toList then memoryRoot
  else if startsWith uri legacyPrefix then
    memoryPrefix ++ String.ofList (uri.toList.drop legacyPrefix.length)
  else uri

/-! ### Operations -/

/-- The level at which an entry is read. -/
inductive MemoryLevel
  | abstract
  | overview
  | detail
deriving DecidableEq

/-- An entry of the messages of a commit. -/
inductive MemoryMessage
  | fields (o : JsonObject)
  /-- An entry that cannot be serialized, with the exception for it. -/
  | unserializable (e : Exn)
deriving DecidableEq

/-- An operation that the local backend supports. -/
inductive MemoryOp
  | write (uri content mode : String)
  | read (uri : String) (level : MemoryLevel) (encoding : Option String)
  | list (uri : String)
  | tree (uri : String) (depth : ℤ)
  | find (query : String) (targetUri : Option String) (topK : ℤ)
  | search (query : String) (targetUri : Option String) (topK : ℤ)
  | resource (source : String) (targetUri : Option String) (reason instruction : String)
  | commit (sessionId : String) (messages : List MemoryMessage) (wait : Bool)
deriving DecidableEq

/-! ### Results -/

/-- The kinds of failures that the local backend returns. -/
inductive FailureKind
  | notFound
  | unsupported
  | transport
  | unauthorized
  | invalidUri
  | internal
deriving DecidableEq

/-- What a read returns. -/
inductive MemoryData
  | text (body : List Char)
  | bytes (data : List UInt8)
deriving DecidableEq

/-- An entry of a listing. -/
structure MemoryEntry where
  name : FileName
  uri : String
  isDir : Bool
  size : Option ℕ
deriving DecidableEq

/-- A document that was found. -/
structure MemoryHit where
  uri : String
  score : BitVec 64
  snippet : String
deriving DecidableEq

/-- What a backend returns. -/
inductive MemoryResult
  | failure (kind : FailureKind) (message : String)
  | written (uri : String) (bytesWritten : ℕ)
  | read (uri : String) (data : MemoryData) (level : MemoryLevel)
  | list (entries : List MemoryEntry)
  | find (hits : List MemoryHit)
  | commit (archivedUri : String) (extractedCount : ℤ)
deriving DecidableEq

end OpenRath
