import OpenRath.Library.JsonSorted
import OpenRath.Library.TextFile
import OpenRath.Session.Persistence.Serialize

/-!
# Artifacts

An artifact (`src/rath/artifacts/store.py`) is a content of a tenant, which is stored under its
SHA-256 digest, and a manifest, which says what the content is. The manifest is a JSON text with
sorted keys.

## Main definitions

* `Artifact`, `Artifact.make`: an artifact, and the checks of its constructor.
* `manifest`, `parseManifest`: the text of an artifact, and back.
* `PutRequest`, `stage`: what `put` does before it writes.

## Main results

* `parseManifest_manifest`: a manifest is read as it was written.
* `stage_eq_ok`: what has been staged.
-/

namespace OpenRath

open TextFile

/-! ### The model -/

/-- `_SCOPE`. -/
def isScope (value : String) : Bool :=
  match value.toList with
  | [] => false
  | c :: cs => c.isAlphanum && decide (cs.length ≤ 127) &&
      cs.all fun c => c.isAlphanum || c = '_' || c = '.' || c = '-'

/-- `_SHA256`. -/
def isDigest (value : String) : Bool :=
  decide (value.toList.length = 64) &&
    value.toList.all fun c => c.isDigit || decide ('a' ≤ c ∧ c ≤ 'f')

theorem length_of_isDigest {digest : String} (h : isDigest digest = true) :
    digest.toList.length = 64 := by
  rw [isDigest, Bool.and_eq_true, decide_eq_true_eq] at h
  exact h.1

/-- `ValueError`. -/
def valueError (message : String) : Exn := .store (.valueError message)

/-- `_validate_scope`. -/
def validateScope (value fieldName : String) : Except Exn Unit :=
  if isScope value then .ok () else .error (valueError s!"{fieldName} contains unsafe characters")

/-- `_validate_digest`. -/
def validateDigest (digest : String) : Except Exn Unit :=
  if isDigest digest then .ok ()
  else .error (valueError "digest must be a lowercase SHA-256 digest")

/-- An artifact. -/
structure Artifact where
  tenantId : String
  digest : String
  size : ℕ
  mediaType : String
  createdAt : Datetime
  metadata : JsonObject
  isScope_tenantId : isScope tenantId = true
  isDigest_digest : isDigest digest = true
  isBlank_mediaType : isBlank mediaType = false
  createdAt_aware : createdAt.Aware

/-- The constructor, with its checks. -/
def Artifact.make (tenantId digest : String) (size : ℤ) (mediaType : String) (createdAt : Datetime)
    (metadata : JsonObject) : Except Exn Artifact :=
  if hscope : isScope tenantId = true then
    if hdigest : isDigest digest = true then
      if 0 ≤ size then
        if hmedia : isBlank mediaType = false then
          if haware : createdAt.Aware then
            .ok ⟨tenantId, digest, size.toNat, mediaType, createdAt, metadata, hscope, hdigest,
              hmedia, haware⟩
          else .error (valueError "created_at must be timezone-aware")
        else .error (valueError "media_type must not be empty")
      else .error (valueError "size must not be negative")
    else .error (valueError "digest must be a lowercase SHA-256 digest")
  else .error (valueError "tenant_id contains unsafe characters")

/-- A host with SHA-256. -/
structure ArtifactHost where
  host : Host
  /-- `hashlib.sha256(value).hexdigest()`. -/
  sha256 : List UInt8 → String
  isDigest_sha256 : ∀ value, isDigest (sha256 value) = true

/-! ### Manifests -/

section Manifests

variable (host : Host)

/-- The fields of a manifest. -/
def manifestFields (artifact : Artifact) : JsonObject :=
  [("tenant_id", .str artifact.tenantId), ("digest", .str artifact.digest),
    ("size", .int artifact.size), ("media_type", .str artifact.mediaType),
    ("created_at", .str (String.ofList artifact.createdAt.isoformat)),
    ("metadata", .obj artifact.metadata)]

/-- `_manifest`. -/
def manifest (artifact : Artifact) : List UInt8 :=
  encode (dumps host.floats (Json.obj (manifestFields artifact)).sortKeys)

/-- A value where a text is needed. -/
def manifestText : Json → Except Exn String
  | .str text => .ok text
  | v => .error (.other "TypeError" s!"expected string or bytes-like object, got '{v.typeName}'")

/-- A value where an integer is needed. -/
def manifestSize : Json → Except Exn ℤ
  | .int n => .ok n
  | v => .error (.other "TypeError"
      s!"'<' not supported between instances of '{v.typeName}' and 'int'")

/-- `json.loads` of bytes. -/
def loadsBytes (value : List UInt8) : Except Exn Json :=
  match decode value with
  | none => .error (.other "UnicodeDecodeError" (host.decodeError value))
  | some text =>
    (loads host.floats text).mapError fun
      | .decode message _ => .other "JSONDecodeError" message
      | .tooManyDigits count => valueError
          s!"Exceeds the limit (4300 digits) for integer string conversion: value has {count} digits"
      | .surrogate => .other "UnicodeError" "surrogates not allowed"

/-- The artifact of the fields of a manifest. -/
def artifactOf (data : JsonObject) : Except Exn Artifact := do
  let tenantId ← data.require "tenant_id"
  let digest ← data.require "digest"
  let size ← data.require "size"
  let mediaType ← data.require "media_type"
  let createdAt ← data.require "created_at"
  let createdAt ← manifestText createdAt
  let createdAt ← host.readings.datetime createdAt
  let metadata ← data.require "metadata"
  let metadata ← mappingOr (some metadata)
  let tenantId ← manifestText tenantId
  let digest ← manifestText digest
  let size ← manifestSize size
  let mediaType ← manifestText mediaType
  Artifact.make tenantId digest size mediaType createdAt metadata

/-- `_parse_manifest`. -/
def parseManifest (value : List UInt8) : Except Exn Artifact := do
  match ← loadsBytes host value with
  | .obj data => artifactOf host data
  | v => .error (.other "TypeError" s!"'{v.typeName}' object is not subscriptable")

end Manifests

/-! ### A manifest is read as it was written -/

theorem require_of_mem {o : JsonObject} (hnodup : (o.map Prod.fst).Nodup) {k : String} {v : Json}
    (h : (k, v) ∈ o) : o.require k = .ok v := by
  rw [JsonObject.require, JsonObject.get?_of_mem hnodup h]

/-- An artifact passes the checks of its constructor. -/
theorem Artifact.make_self (artifact : Artifact) (metadata : JsonObject) :
    Artifact.make artifact.tenantId artifact.digest artifact.size artifact.mediaType
      artifact.createdAt metadata = .ok { artifact with metadata } := by
  rw [Artifact.make, dif_pos artifact.isScope_tenantId, dif_pos artifact.isDigest_digest,
    if_pos (Int.natCast_nonneg _), dif_pos artifact.isBlank_mediaType,
    dif_pos artifact.createdAt_aware]
  rfl

/-- What the constructor has been called with. -/
theorem Artifact.make_eq_ok {tenantId digest mediaType : String} {size : ℤ} {createdAt : Datetime}
    {metadata : JsonObject} {artifact : Artifact}
    (h : Artifact.make tenantId digest size mediaType createdAt metadata = .ok artifact) :
    artifact.tenantId = tenantId ∧ artifact.digest = digest ∧ artifact.metadata = metadata := by
  rw [Artifact.make] at h
  split_ifs at h
  cases h
  exact ⟨rfl, rfl, rfl⟩

/-- A host reads the manifest of an artifact. -/
structure Artifact.Readable (host : Host) (artifact : Artifact) : Prop where
  metadata : (Json.obj artifact.metadata).Loadable host.floats
  size : (dumpsInt artifact.size).countP Char.isDigit ≤ 4300
  createdAt : host.readings.datetime (String.ofList artifact.createdAt.isoformat) =
    .ok artifact.createdAt

theorem nodup_manifestFields (artifact : Artifact) :
    ((manifestFields artifact).map Prod.fst).Nodup := by
  show ["tenant_id", "digest", "size", "media_type", "created_at", "metadata"].Nodup
  decide

/-- **Manifests.** A manifest is read as it was written, with the keys of the metadata in order. -/
theorem parseManifest_manifest {host : Host} {artifact : Artifact}
    (h : artifact.Readable host) : parseManifest host (manifest host artifact) =
      .ok { artifact with metadata := sortFields artifact.metadata } := by
  have hloadable : (Json.obj (manifestFields artifact)).Loadable host.floats :=
    ⟨nodup_manifestFields artifact, trivial, trivial, h.size, trivial, trivial, h.metadata, trivial⟩
  have hloads := loads_dumps host.floats (Json.Loadable.sortKeys host.floats _ hloadable)
  have hbytes : loadsBytes host (manifest host artifact) =
      .ok (.obj (sortFields (manifestFields artifact))) := by
    rw [loadsBytes, manifest, decode_encode]
    show Except.mapError _ (loads _ _) = _
    rw [hloads]
    rfl
  have hnodup := (keys_sortFields (manifestFields artifact)).nodup_iff.mpr
    (nodup_manifestFields artifact)
  have hrequire : ∀ k v, (k, v) ∈ manifestFields artifact →
      JsonObject.require (sortFields (manifestFields artifact)) k = .ok v.sortKeys := by
    intro k v hmem
    exact require_of_mem hnodup
      ((perm_sortFields _).mem_iff.mpr (List.mem_map.mpr ⟨(k, v), hmem, rfl⟩))
  rw [parseManifest, hbytes]
  show artifactOf host _ = _
  have htenant := hrequire "tenant_id" (.str artifact.tenantId) (by simp [manifestFields])
  have hdigest := hrequire "digest" (.str artifact.digest) (by simp [manifestFields])
  have hsize := hrequire "size" (.int artifact.size) (by simp [manifestFields])
  have hmedia := hrequire "media_type" (.str artifact.mediaType) (by simp [manifestFields])
  have hcreated := hrequire "created_at" (.str (String.ofList artifact.createdAt.isoformat))
    (by simp [manifestFields])
  have hmetadata := hrequire "metadata" (.obj artifact.metadata) (by simp [manifestFields])
  rw [artifactOf, htenant, hdigest, hsize, hmedia, hcreated, hmetadata]
  show Except.bind (host.readings.datetime _) _ = _
  rw [h.createdAt]
  exact artifact.make_self (sortFields artifact.metadata)

/-! ### What `put` does before it writes -/

/-- What `put` is called with, and what it comes across before it writes. -/
structure PutRequest where
  tenantId : String
  /-- The chunks of the content. -/
  chunks : List (List UInt8)
  /-- What the reading of the content raises in the end. -/
  failure : Option Exn
  mediaType : String
  /-- What `freeze_mapping` makes of the metadata. -/
  metadata : Except Exn JsonObject
  now : Fin (Calendar.maxDays * usPerDay)

/-- The content, chunk by chunk, behind what has been read. -/
def readChunks (maxBytes : ℕ) (failure : Option Exn) :
    List UInt8 → List (List UInt8) → Except Exn (List UInt8)
  | content, [] =>
    match failure with
    | some e => .error e
    | none => .ok content
  | content, chunk :: chunks =>
    if maxBytes < (content ++ chunk).length then
      .error (valueError "artifact exceeds configured size limit")
    else readChunks maxBytes failure (content ++ chunk) chunks

/-- The artifact that a call of `put` is to write, and its content. -/
def stage (host : ArtifactHost) (maxBytes : ℕ) (request : PutRequest) :
    Except Exn (Artifact × List UInt8) := do
  let content ← readChunks maxBytes request.failure [] request.chunks
  let metadata ← request.metadata
  let artifact ← Artifact.make request.tenantId (host.sha256 content) content.length
    request.mediaType (.utc request.now) metadata
  .ok (artifact, content)

theorem stage_of_make {host : ArtifactHost} {maxBytes : ℕ} {request : PutRequest}
    {artifact : Artifact} {content : List UInt8} {metadata : JsonObject}
    (hread : readChunks maxBytes request.failure [] request.chunks = .ok content)
    (hmetadata : request.metadata = .ok metadata)
    (hmake : Artifact.make request.tenantId (host.sha256 content) content.length request.mediaType
      (.utc request.now) metadata = .ok artifact) :
    stage host maxBytes request = .ok (artifact, content) := by
  simp only [stage, hread, hmetadata, hmake, bind, Except.bind]

/-- What has been staged is under its own digest. -/
theorem stage_eq_ok {host : ArtifactHost} {maxBytes : ℕ} {request : PutRequest}
    {artifact : Artifact} {content : List UInt8}
    (h : stage host maxBytes request = .ok (artifact, content)) :
    artifact.tenantId = request.tenantId ∧ artifact.digest = host.sha256 content := by
  obtain ⟨content', -, hmetadata⟩ := exists_of_bind_eq_ok h
  obtain ⟨metadata, -, hartifact⟩ := exists_of_bind_eq_ok hmetadata
  obtain ⟨artifact', hmake, hpair⟩ := exists_of_bind_eq_ok hartifact
  cases hpair
  obtain ⟨htenant, hdigest, -⟩ := Artifact.make_eq_ok hmake
  exact ⟨htenant, hdigest⟩

theorem readChunks_length {maxBytes : ℕ} {failure : Option Exn} {chunks : List (List UInt8)}
    {read content : List UInt8} (hread : read.length ≤ maxBytes)
    (h : readChunks maxBytes failure read chunks = .ok content) : content.length ≤ maxBytes := by
  induction chunks generalizing read with
  | nil =>
    rcases failure with _ | e
    · cases h
      exact hread
    · cases h
  | cons chunk chunks ih =>
    rw [readChunks] at h
    split_ifs at h with hlarge
    exact ih (not_lt.mp hlarge) h

/-- A content that is too large is not staged. -/
theorem length_of_stage {host : ArtifactHost} {maxBytes : ℕ} {request : PutRequest}
    {artifact : Artifact} {content : List UInt8}
    (h : stage host maxBytes request = .ok (artifact, content)) : content.length ≤ maxBytes := by
  obtain ⟨content', hread, hmetadata⟩ := exists_of_bind_eq_ok h
  obtain ⟨metadata, -, hartifact⟩ := exists_of_bind_eq_ok hmetadata
  obtain ⟨artifact', -, hpair⟩ := exists_of_bind_eq_ok hartifact
  cases hpair
  exact readChunks_length (Nat.zero_le _) hread

/-! ### A content and its artifact -/

namespace ArtifactHost

theorem isNumeral_sample : ∀ c ∈ "0.0".toList, isNumeral c = true :=
  List.all_eq_true.mp rfl

/-- A time. -/
def sampleNow : Fin (Calendar.maxDays * usPerDay) := ⟨0, wall_pos⟩

/-- The text of the time. -/
def sampleText : String := String.ofList (Datetime.utc sampleNow).isoformat

/-- One time is read. -/
def readSample (text : String) : Except Exn Datetime :=
  if text = sampleText then .ok (.utc sampleNow)
  else .error (valueError "Invalid isoformat string")

/-- A host that reads one time. -/
def sampleHost : Host where
  floats := ⟨fun _ => "0.0".toList, fun _ => 0, fun _ => isNumeral_sample⟩
  texts := ⟨fun _ => "", fun _ => ""⟩
  readings :=
    { uuid := fun _ => .error (valueError "badly formed hexadecimal UUID string")
      datetime := readSample
      lower := id
      isHex := fun _ => false }
  exceptionText := fun _ => ""
  decodeError := fun _ => ""
  intOfText := fun _ => .error (valueError "invalid literal for int()")
  floatOf := fun _ => .error (.other "TypeError" "")
  totalSeconds := fun _ => 0

/-- The digests of `abc` and of the empty content. -/
def sampleSha256 (value : List UInt8) : String :=
  if value = [97, 98, 99] then "ba7816bf8f01cfea414140de5dae2223b00361a396177a9cb410ff61f20015ad"
  else "e3b0c44298fc1c149afbf4c8996fb92427ae41e4649b934ca495991b7852b855"

theorem isDigest_sampleSha256 (value : List UInt8) : isDigest (sampleSha256 value) = true := by
  rw [sampleSha256]
  split_ifs <;> decide

/-- A host that knows two digests. -/
def sample : ArtifactHost := ⟨sampleHost, sampleSha256, isDigest_sampleSha256⟩

/-- An upload of `abc`. -/
def sampleRequest : PutRequest where
  tenantId := "tenant-a"
  chunks := [[97, 98, 99]]
  failure := none
  mediaType := "text/plain"
  metadata := .ok []
  now := sampleNow

theorem isScope_sample : isScope "tenant-a" = true := by decide

theorem isBlank_sample : isBlank "text/plain" = false := by decide

/-- The artifact of the upload. -/
def sampleArtifact : Artifact where
  tenantId := "tenant-a"
  digest := sampleSha256 [97, 98, 99]
  size := 3
  mediaType := "text/plain"
  createdAt := .utc sampleNow
  metadata := []
  isScope_tenantId := isScope_sample
  isDigest_digest := isDigest_sampleSha256 _
  isBlank_mediaType := isBlank_sample
  createdAt_aware := rfl

theorem stage_sample : stage sample 1024 sampleRequest = .ok (sampleArtifact, [97, 98, 99]) := by
  have hmake := sampleArtifact.make_self []
  exact stage_of_make rfl rfl hmake

theorem size_sample : (dumpsInt 3).countP Char.isDigit ≤ 4300 := by decide +kernel

theorem readSample_sampleText : readSample sampleText = .ok (.utc sampleNow) := by
  rw [readSample, if_pos rfl]

theorem datetime_sample : sampleHost.readings.datetime = readSample := by rw [sampleHost]

theorem readable_sample : sampleArtifact.Readable sampleHost where
  metadata := ⟨List.nodup_nil, trivial⟩
  size := size_sample
  createdAt := by rw [datetime_sample]; exact readSample_sampleText

theorem length_manifest_sample : (manifest sampleHost sampleArtifact).length ≤ 1024 * 1024 := by
  decide +kernel

end ArtifactHost

end OpenRath
