import Mathlib.Logic.Function.Basic
import OpenRath.Artifacts.Models
import OpenRath.Library.Events

/-!
# Artifacts in a directory

`LocalArtifactStore` (`src/rath/artifacts/store.py`) keeps every artifact in two files, the content
and the manifest. `put` moves the content to its place, unless there is one, and then writes the
manifest. `delete` removes the content first and then the manifest. The calls of threads and of
processes come in between each other, and any of them may stop between two steps.

Between the two steps of `delete` there is a manifest without its content. The same is so when the
content is removed after `put` has found it.

## Main definitions

* `LocalPhase`, `LocalArtifacts`: the calls of `put` and `delete`, and the files.
* `LocalArtifactStore.step`: one step of a call.
* `LocalArtifactStore.Consistent`: an artifact with a manifest has its content.
* `LocalArtifactStore.Ordered`: contents are removed, and manifests written, at the right time.

## Main results

* `LocalArtifactStore.consistent_iff`.
-/

namespace OpenRath

/-- A store below a directory. -/
structure LocalArtifactStore where
  host : ArtifactHost
  maxBytes : ℕ

/-- The files below the directory. -/
abbrev ArtifactFiles : Type := List String → Option (List UInt8)

/-- What a call of `put` or `delete` is about to do. -/
inductive LocalPhase
  /-- `payload.exists()`, of `put`. -/
  | putExists (artifact : Artifact) (content : List UInt8)
  /-- `temporary.unlink` or `temporary.replace(payload)`. -/
  | putContent (artifact : Artifact) (content : List UInt8) (existing : Bool)
  /-- `_atomic_write(manifest, …)`. -/
  | putManifest (artifact : Artifact)
  /-- `stat`, at the end of `put`. -/
  | putStat (artifact : Artifact)
  /-- `payload.exists()`, of `delete`. -/
  | deleteExists (tenantId digest : String)
  /-- `manifest.exists()`, of `delete`. -/
  | deleteManifestExists (tenantId digest : String)
  /-- `payload.unlink`. -/
  | deleteContent (tenantId digest : String) (existed : Bool)
  /-- `manifest.unlink`. -/
  | deleteManifest (tenantId digest : String) (existed : Bool)
  /-- `put` has returned or raised. -/
  | put (result : Except Exn Artifact)
  /-- `delete` has returned or raised. -/
  | delete (result : Except Exn Bool)
  /-- The call has been broken off. -/
  | stopped

/-- The files, and the calls that are made on them. -/
structure LocalArtifacts where
  files : ArtifactFiles
  calls : List LocalPhase

/-- A call begins, makes its next step or is broken off. -/
inductive LocalEvent
  | put (request : PutRequest)
  | delete (tenantId digest : String)
  | advance (i : ℕ)
  | stop (i : ℕ)

namespace LocalArtifactStore

variable (store : LocalArtifactStore)

/-- The file of the content of an artifact. -/
def contentPath (tenantId digest : String) : List String :=
  [tenantId, String.ofList (digest.toList.take 2), digest]

/-- The file of the manifest of an artifact. -/
def manifestPath (tenantId digest : String) : List String :=
  [tenantId, String.ofList (digest.toList.take 2), digest ++ ".json"]

/-- `_paths`. There are no symbolic links below the directory. -/
def paths (tenantId digest : String) : Except Exn (List String × List String) := do
  validateScope tenantId "tenant_id"
  validateDigest digest
  .ok (contentPath tenantId digest, manifestPath tenantId digest)

/-- The bytes of a file of an artifact. -/
def readBytes (files : ArtifactFiles) (digest : String) (path : List String) :
    Except Exn (List UInt8) :=
  match files path with
  | some value => .ok value
  | none => .error (.other "ArtifactNotFound" digest)

/-- `get`. -/
def get (files : ArtifactFiles) (tenantId digest : String) : Except Exn (List UInt8) := do
  let (contentPath, _) ← paths tenantId digest
  let value ← readBytes files digest contentPath
  if store.host.sha256 value = digest then .ok value
  else .error (.other "OSError" "artifact digest verification failed")

/-- The artifact of a manifest that is found under a tenant and a digest. -/
def readManifest (tenantId digest : String) (value : List UInt8) : Except Exn Artifact := do
  let artifact ← parseManifest store.host.host value
  if artifact.tenantId = tenantId ∧ artifact.digest = digest then .ok artifact
  else .error (.other "OSError" "artifact manifest identity mismatch")

/-- `stat`. -/
def stat (files : ArtifactFiles) (tenantId digest : String) : Except Exn Artifact := do
  let (_, manifestPath) ← paths tenantId digest
  let value ← readBytes files digest manifestPath
  store.readManifest tenantId digest value

/-- What `put` does before it looks at the directory of the artifact. -/
def beginPut (request : PutRequest) : LocalPhase :=
  match validateScope request.tenantId "tenant_id", stage store.host store.maxBytes request with
  | .error e, _ => .put (.error e)
  | .ok _, .error e => .put (.error e)
  | .ok _, .ok (artifact, content) => .putExists artifact content

/-- What `delete` does before it looks at the directory of the artifact. -/
def beginDelete (tenantId digest : String) : LocalPhase :=
  match paths tenantId digest with
  | .ok _ => .deleteExists tenantId digest
  | .error e => .delete (.error e)

/-- The next step of a call, and the files after it. -/
def next (files : ArtifactFiles) : LocalPhase → Option (LocalPhase × ArtifactFiles)
  | .putExists artifact content =>
    some (.putContent artifact content
      (files (contentPath artifact.tenantId artifact.digest)).isSome,
      files)
  | .putContent artifact content existing =>
    some (.putManifest artifact, if existing then files else
      Function.update files (contentPath artifact.tenantId artifact.digest) (some content))
  | .putManifest artifact =>
    some (.putStat artifact, Function.update files
      (manifestPath artifact.tenantId artifact.digest) (some (manifest store.host.host artifact)))
  | .putStat artifact => some (.put (store.stat files artifact.tenantId artifact.digest), files)
  | .deleteExists tenantId digest =>
    if (files (contentPath tenantId digest)).isSome then
      some (.deleteContent tenantId digest true, files)
    else some (.deleteManifestExists tenantId digest, files)
  | .deleteManifestExists tenantId digest =>
    some (.deleteContent tenantId digest (files (manifestPath tenantId digest)).isSome, files)
  | .deleteContent tenantId digest existed =>
    some (.deleteManifest tenantId digest existed,
      Function.update files (contentPath tenantId digest) none)
  | .deleteManifest tenantId digest existed =>
    some (.delete (.ok existed), Function.update files (manifestPath tenantId digest) none)
  | .put _ | .delete _ | .stopped => none

/-- The steps of the calls. -/
def step (s : LocalArtifacts) : LocalEvent → Option LocalArtifacts
  | .put request => some { s with calls := s.calls ++ [store.beginPut request] }
  | .delete tenantId digest => some { s with calls := s.calls ++ [beginDelete tenantId digest] }
  | .advance i => do
    let phase ← s.calls[i]?
    let (phase, files) ← store.next s.files phase
    some ⟨files, s.calls.set i phase⟩
  | .stop i => some { s with calls := s.calls.set i .stopped }

/-- An empty directory. -/
def start : LocalArtifacts := ⟨fun _ => none, []⟩

/-- An artifact whose manifest is read has its content. -/
def Consistent (files : ArtifactFiles) : Prop :=
  ∀ tenantId digest artifact, store.stat files tenantId digest = .ok artifact →
    ∃ content, store.get files tenantId digest = .ok content ∧ store.host.sha256 content = digest

/-- A content is removed only when no manifest of it is read, and a manifest is written only when
the content is still there, unless it cannot be read. -/
def Ordered (s : LocalArtifacts) (e : LocalEvent) (_ : LocalArtifacts) : Prop :=
  (∀ i tenantId digest existed, e = .advance i →
    s.calls[i]? = some (.deleteContent tenantId digest existed) →
      ∀ artifact, store.stat s.files tenantId digest ≠ .ok artifact) ∧
  ∀ i artifact, e = .advance i → s.calls[i]? = some (.putManifest artifact) →
    (∃ content, store.get s.files artifact.tenantId artifact.digest = .ok content) ∨
      ∀ artifact', store.readManifest artifact.tenantId artifact.digest
        (manifest store.host.host artifact) ≠ .ok artifact'

/-! ### What is read -/

variable {store} {files files' : ArtifactFiles} {tenantId digest : String}

theorem manifestPath_inj {tenantId' digest' : String}
    (h : manifestPath tenantId digest = manifestPath tenantId' digest') :
    tenantId = tenantId' ∧ digest = digest' := by
  rw [manifestPath, manifestPath] at h
  simp only [List.cons.injEq] at h
  exact ⟨h.1, (String.append_left_inj _).mp h.2.2.1⟩

theorem contentPath_inj {tenantId' digest' : String}
    (h : contentPath tenantId digest = contentPath tenantId' digest') :
    tenantId = tenantId' ∧ digest = digest' := by
  rw [contentPath, contentPath] at h
  simp only [List.cons.injEq] at h
  exact ⟨h.1, h.2.2.1⟩

theorem contentPath_ne_manifestPath (tenantId tenantId' : String) {digest digest' : String}
    (hdigest : isDigest digest = true) (hdigest' : isDigest digest' = true) :
    contentPath tenantId digest ≠ manifestPath tenantId' digest' := by
  intro h
  rw [contentPath, manifestPath] at h
  simp only [List.cons.injEq] at h
  have hlength := congrArg (fun name => name.toList.length) h.2.2.1
  rw [String.toList_append, List.length_append, length_of_isDigest hdigest,
    length_of_isDigest hdigest'] at hlength
  cases hlength

theorem paths_eq_ok {pair : List String × List String} (h : paths tenantId digest = .ok pair) :
    isDigest digest = true ∧ pair = (contentPath tenantId digest,
      manifestPath tenantId digest) := by
  obtain ⟨_, -, hpaths⟩ := exists_of_bind_eq_ok h
  obtain ⟨_, hdigest, hpair⟩ := exists_of_bind_eq_ok hpaths
  cases hpair
  rw [validateDigest] at hdigest
  split_ifs at hdigest with hvalid
  exact ⟨hvalid, rfl⟩

theorem paths_artifact (artifact : Artifact) : paths artifact.tenantId artifact.digest =
    .ok (contentPath artifact.tenantId artifact.digest,
      manifestPath artifact.tenantId artifact.digest) := by
  rw [paths, validateScope, validateDigest, if_pos artifact.isScope_tenantId,
    if_pos artifact.isDigest_digest]
  rfl

/-- When a content is read. -/
theorem get_eq_ok {content : List UInt8} : store.get files tenantId digest = .ok content ↔
    paths tenantId digest = .ok (contentPath tenantId digest, manifestPath tenantId digest) ∧
      files (contentPath tenantId digest) = some content ∧ store.host.sha256 content = digest := by
  constructor
  · intro h
    obtain ⟨pair, hpaths, hread⟩ := exists_of_bind_eq_ok h
    obtain ⟨hdigest, rfl⟩ := paths_eq_ok hpaths
    obtain ⟨value, hvalue, hsha⟩ := exists_of_bind_eq_ok hread
    split_ifs at hsha with hsame
    cases hsha
    rw [readBytes] at hvalue
    rcases hfile : files (contentPath tenantId digest) with _ | value <;> rw [hfile] at hvalue
    · cases hvalue
    · cases hvalue
      exact ⟨hpaths, rfl, hsame⟩
  · rintro ⟨hpaths, hfile, hsame⟩
    simp only [get, hpaths, readBytes, hfile, bind, Except.bind]
    exact if_pos hsame

/-- When a manifest is read. -/
theorem stat_eq_ok {artifact : Artifact} : store.stat files tenantId digest = .ok artifact ↔
    paths tenantId digest = .ok (contentPath tenantId digest, manifestPath tenantId digest) ∧
      ∃ value, files (manifestPath tenantId digest) = some value ∧
        store.readManifest tenantId digest value = .ok artifact := by
  constructor
  · intro h
    obtain ⟨pair, hpaths, hread⟩ := exists_of_bind_eq_ok h
    obtain ⟨hdigest, rfl⟩ := paths_eq_ok hpaths
    obtain ⟨value, hvalue, hmanifest⟩ := exists_of_bind_eq_ok hread
    rw [readBytes] at hvalue
    rcases hfile : files (manifestPath tenantId digest) with _ | value <;> rw [hfile] at hvalue
    · cases hvalue
    · cases hvalue
      exact ⟨hpaths, value, rfl, hmanifest⟩
  · rintro ⟨hpaths, value, hfile, hmanifest⟩
    simp only [stat, hpaths, readBytes, hfile, bind, Except.bind]
    exact hmanifest

/-- The manifest of an artifact is found under its tenant and digest. -/
theorem readManifest_manifest (store : LocalArtifactStore) {artifact : Artifact}
    (h : artifact.Readable store.host.host) :
    store.readManifest artifact.tenantId artifact.digest (manifest store.host.host artifact) =
      .ok { artifact with metadata := sortFields artifact.metadata } := by
  simp [readManifest, parseManifest_manifest h, bind, Except.bind]

/-! ### Changes of the files -/

/-- A change of a content does not change what is read of manifests. -/
theorem stat_update_content (hdigest : isDigest digest = true) (value : Option (List UInt8))
    {tenantId' digest' : String} {artifact : Artifact} :
    store.stat (Function.update files (contentPath tenantId digest) value) tenantId' digest' =
        .ok artifact ↔
      store.stat files tenantId' digest' = .ok artifact := by
  rw [stat_eq_ok, stat_eq_ok]
  refine and_congr_right fun hpaths => ?_
  have hne := contentPath_ne_manifestPath tenantId tenantId' hdigest (paths_eq_ok hpaths).1
  rw [Function.update_of_ne hne.symm]

/-- A change of a manifest does not change what is read of contents. -/
theorem get_update_manifest (hdigest : isDigest digest = true) (value : Option (List UInt8))
    {tenantId' digest' : String} {content : List UInt8} :
    store.get (Function.update files (manifestPath tenantId digest) value) tenantId' digest' =
        .ok content ↔
      store.get files tenantId' digest' = .ok content := by
  rw [get_eq_ok, get_eq_ok]
  refine and_congr_right fun hpaths => ?_
  have hne := contentPath_ne_manifestPath tenantId' tenantId (paths_eq_ok hpaths).1 hdigest
  rw [Function.update_of_ne hne]

/-- A change of a content does not change what is read of other contents. -/
theorem get_update_content_of_ne {tenantId' digest' : String} {content : List UInt8}
    (value : Option (List UInt8)) (hne : ¬ (tenantId' = tenantId ∧ digest' = digest)) :
    store.get (Function.update files (contentPath tenantId digest) value) tenantId' digest' =
        .ok content ↔
      store.get files tenantId' digest' = .ok content := by
  rw [get_eq_ok, get_eq_ok, Function.update_of_ne fun h => hne (contentPath_inj h)]

/-- A change of a manifest does not change what is read of other manifests. -/
theorem stat_update_manifest_of_ne {tenantId' digest' : String} {artifact : Artifact}
    (value : Option (List UInt8)) (hne : ¬ (tenantId' = tenantId ∧ digest' = digest)) :
    store.stat (Function.update files (manifestPath tenantId digest) value) tenantId' digest' =
        .ok artifact ↔
      store.stat files tenantId' digest' = .ok artifact := by
  rw [stat_eq_ok, stat_eq_ok, Function.update_of_ne fun h => hne (manifestPath_inj h)]

/-- A content is moved to its place. -/
theorem Consistent.update_content (h : store.Consistent files) (hdigest : isDigest digest = true)
    {content : List UInt8} (hsha : store.host.sha256 content = digest) :
    store.Consistent (Function.update files (contentPath tenantId digest) (some content)) := by
  intro tenantId' digest' artifact hstat
  by_cases hsame : tenantId' = tenantId ∧ digest' = digest
  · obtain ⟨rfl, rfl⟩ := hsame
    have hpaths := (stat_eq_ok.mp hstat).1
    exact ⟨content, get_eq_ok.mpr ⟨hpaths, Function.update_self _ _ _, hsha⟩, hsha⟩
  · obtain ⟨content', hget, hsha'⟩ := h _ _ _ ((stat_update_content hdigest _).mp hstat)
    exact ⟨content', (get_update_content_of_ne _ hsame).mpr hget, hsha'⟩

/-- A content is removed, of which no manifest is read. -/
theorem Consistent.remove_content (h : store.Consistent files) (hdigest : isDigest digest = true)
    (hstat : ∀ artifact, store.stat files tenantId digest ≠ .ok artifact) :
    store.Consistent (Function.update files (contentPath tenantId digest) none) := by
  intro tenantId' digest' artifact hstat'
  have hbefore := (stat_update_content hdigest _).mp hstat'
  have hne : ¬ (tenantId' = tenantId ∧ digest' = digest) := by
    rintro ⟨rfl, rfl⟩
    exact hstat artifact hbefore
  obtain ⟨content, hget, hsha⟩ := h _ _ _ hbefore
  exact ⟨content, (get_update_content_of_ne _ hne).mpr hget, hsha⟩

/-- A manifest is written, whose content is there, or is removed. -/
theorem Consistent.update_manifest (h : store.Consistent files) (hdigest : isDigest digest = true)
    {value : Option (List UInt8)}
    (hvalue : (∃ content, store.get files tenantId digest = .ok content) ∨
      ∀ bytes artifact, value = some bytes →
        store.readManifest tenantId digest bytes ≠ .ok artifact) :
    store.Consistent (Function.update files (manifestPath tenantId digest) value) := by
  intro tenantId' digest' artifact hstat
  by_cases hsame : tenantId' = tenantId ∧ digest' = digest
  · obtain ⟨rfl, rfl⟩ := hsame
    rcases hvalue with ⟨content, hget⟩ | hnone
    · exact ⟨content, (get_update_manifest hdigest _).mpr hget, (get_eq_ok.mp hget).2.2⟩
    · obtain ⟨-, bytes, hfile, hread⟩ := stat_eq_ok.mp hstat
      rw [Function.update_self] at hfile
      exact absurd hread (hnone bytes artifact hfile)
  · obtain ⟨content, hget, hsha⟩ := h _ _ _ ((stat_update_manifest_of_ne _ hsame).mp hstat)
    exact ⟨content, (get_update_manifest hdigest _).mpr hget, hsha⟩

/-! ### Steps of the calls -/

/-- What a call has found out before a phase. -/
def Valid (store : LocalArtifactStore) : LocalPhase → Prop
  | .putExists artifact content | .putContent artifact content _ =>
    store.host.sha256 content = artifact.digest
  | .deleteExists _ digest | .deleteManifestExists _ digest | .deleteContent _ digest _
  | .deleteManifest _ digest _ => isDigest digest = true
  | .putManifest _ | .putStat _ | .put _ | .delete _ | .stopped => True

/-- Artifacts whose manifests are read have their contents, and contents are under their digests. -/
structure Inv (store : LocalArtifactStore) (s : LocalArtifacts) : Prop where
  consistent : store.Consistent s.files
  valid : ∀ phase ∈ s.calls, store.Valid phase

theorem valid_beginPut (request : PutRequest) : store.Valid (store.beginPut request) := by
  rw [beginPut]
  rcases validateScope request.tenantId "tenant_id" with e | _
  · trivial
  · rcases hstage : stage store.host store.maxBytes request with e | ⟨artifact, content⟩
    · trivial
    · exact (stage_eq_ok hstage).2.symm

theorem valid_beginDelete (tenantId digest : String) :
    store.Valid (beginDelete tenantId digest) := by
  rw [beginDelete]
  rcases hpaths : paths tenantId digest with e | pair
  · trivial
  · exact (paths_eq_ok hpaths).1

theorem valid_next {phase phase' : LocalPhase} (h : store.next files phase = some (phase', files'))
    (hvalid : store.Valid phase) : store.Valid phase' := by
  rcases phase with ⟨artifact, content⟩ | ⟨artifact, content, existing⟩ | artifact | artifact |
    ⟨tenantId, digest⟩ | ⟨tenantId, digest⟩ | ⟨tenantId, digest, existed⟩ |
    ⟨tenantId, digest, existed⟩ | _ | _ | _
  case deleteExists =>
    rw [next] at h
    split_ifs at h <;> cases h <;> exact hvalid
  all_goals first | cases h; exact hvalid | cases h; trivial | cases h

/-- A step keeps contents and manifests together if it is made at the right time. -/
theorem consistent_next {phase phase' : LocalPhase}
    (h : store.next files phase = some (phase', files')) (hconsistent : store.Consistent files)
    (hvalid : store.Valid phase)
    (hcontent : ∀ tenantId digest existed, phase = .deleteContent tenantId digest existed →
      ∀ artifact, store.stat files tenantId digest ≠ .ok artifact)
    (hmanifest : ∀ artifact, phase = .putManifest artifact →
      (∃ content, store.get files artifact.tenantId artifact.digest = .ok content) ∨
        ∀ artifact', store.readManifest artifact.tenantId artifact.digest
          (manifest store.host.host artifact) ≠ .ok artifact') : store.Consistent files' := by
  rcases phase with ⟨artifact, content⟩ | ⟨artifact, content, existing⟩ | artifact | artifact |
    ⟨tenantId, digest⟩ | ⟨tenantId, digest⟩ | ⟨tenantId, digest, existed⟩ |
    ⟨tenantId, digest, existed⟩ | _ | _ | _
  case putContent =>
    cases h
    rcases existing with _ | _
    · exact hconsistent.update_content artifact.isDigest_digest hvalid
    · exact hconsistent
  case putManifest =>
    cases h
    refine hconsistent.update_manifest artifact.isDigest_digest
      ((hmanifest artifact rfl).imp_right ?_)
    rintro hunread bytes artifact' hbytes
    cases hbytes
    exact hunread artifact'
  case deleteExists =>
    rw [next] at h
    split_ifs at h <;> cases h <;> exact hconsistent
  case deleteContent =>
    cases h
    exact hconsistent.remove_content hvalid (hcontent tenantId digest existed rfl)
  case deleteManifest =>
    cases h
    exact hconsistent.update_manifest hvalid (.inr fun _ _ h =>
      absurd h (Option.some_ne_none _).symm)
  case putExists | putStat | deleteManifestExists =>
    cases h
    exact hconsistent
  all_goals cases h

/-- A step of a call is a step of one phase. -/
theorem advance_cases {s s' : LocalArtifacts} {i : ℕ}
    (h : store.step s (.advance i) = some s') :
    ∃ phase phase', s.calls[i]? = some phase ∧
      store.next s.files phase = some (phase', s'.files) ∧ s'.calls = s.calls.set i phase' := by
  obtain ⟨phase, hphase, hadvance⟩ := Option.bind_eq_some_iff.mp h
  obtain ⟨⟨phase', files⟩, hnext, hs'⟩ := Option.bind_eq_some_iff.mp hadvance
  cases hs'
  exact ⟨phase, phase', hphase, hnext, rfl⟩

theorem inv_step {s s' : LocalArtifacts} {e : LocalEvent} (hinv : Inv store s)
    (h : store.step s e = some s') (hordered : store.Ordered s e s') : Inv store s' := by
  rcases e with request | ⟨tenantId, digest⟩ | i | i
  case put =>
    cases h
    refine ⟨hinv.consistent, fun phase hphase => ?_⟩
    rcases List.mem_append.mp hphase with hphase | hnew
    · exact hinv.valid phase hphase
    · rw [List.mem_singleton.mp hnew]
      exact valid_beginPut request
  case delete =>
    cases h
    refine ⟨hinv.consistent, fun phase hphase => ?_⟩
    rcases List.mem_append.mp hphase with hphase | hnew
    · exact hinv.valid phase hphase
    · rw [List.mem_singleton.mp hnew]
      exact valid_beginDelete tenantId digest
  case advance =>
    obtain ⟨phase, phase', hphase, hnext, hcalls⟩ := advance_cases h
    have hvalid := hinv.valid phase (List.mem_of_getElem? hphase)
    refine ⟨?_, fun other hother => ?_⟩
    · refine consistent_next hnext hinv.consistent hvalid ?_ ?_
      · rintro tenantId digest existed rfl
        exact hordered.1 i tenantId digest existed rfl hphase
      · rintro artifact rfl
        exact hordered.2 i artifact rfl hphase
    · rw [hcalls] at hother
      rcases List.mem_or_eq_of_mem_set hother with hother | rfl
      · exact hinv.valid other hother
      · exact valid_next hnext hvalid
  case stop =>
    cases h
    refine ⟨hinv.consistent, fun other hother => ?_⟩
    rcases List.mem_or_eq_of_mem_set hother with hother | rfl
    · exact hinv.valid other hother
    · trivial

/-- A step after which contents and manifests are together has been made at the right time. -/
theorem ordered_of_consistent {s s' : LocalArtifacts} {e : LocalEvent} (hinv : Inv store s)
    (h : store.step s e = some s') (hconsistent : store.Consistent s'.files) :
    store.Ordered s e s' := by
  constructor
  · rintro i tenantId digest existed rfl hphase artifact hstat
    obtain ⟨phase, phase', hphase', hnext, -⟩ := advance_cases h
    cases hphase'.symm.trans hphase
    have hdigest : isDigest digest = true := hinv.valid _ (List.mem_of_getElem? hphase)
    obtain ⟨-, hfiles⟩ := Prod.mk.inj (Option.some.inj hnext)
    rw [← hfiles] at hconsistent
    obtain ⟨content, hget, -⟩ :=
      hconsistent _ _ _ ((stat_update_content hdigest none).mpr hstat)
    have hfile := (get_eq_ok.mp hget).2.1
    rw [Function.update_self] at hfile
    cases hfile
  · rintro i artifact rfl hphase
    obtain ⟨phase, phase', hphase', hnext, -⟩ := advance_cases h
    cases hphase'.symm.trans hphase
    obtain ⟨-, hfiles⟩ := Prod.mk.inj (Option.some.inj hnext)
    rw [← hfiles] at hconsistent
    by_contra hwrong
    push Not at hwrong
    obtain ⟨hget, artifact', hread⟩ := hwrong
    have hstat := stat_eq_ok.mpr
      ⟨paths_artifact artifact, _, Function.update_self _ _ s.files, hread⟩
    obtain ⟨content, hget', -⟩ := hconsistent _ _ _ hstat
    exact hget content ((get_update_manifest artifact.isDigest_digest _).mp hget')

theorem inv_start : Inv store start := by
  refine ⟨fun tenantId digest artifact hstat => ?_, fun phase hphase => ?_⟩
  · obtain ⟨-, value, hfile, -⟩ := stat_eq_ok.mp hstat
    cases hfile
  · cases hphase

/-- **Manifests and contents.** In all states of a run, the artifacts whose manifests are read have
their contents, exactly if contents are removed only when no manifest of them is read, and manifests
are written only when their contents are still there. -/
theorem consistent_iff (store : LocalArtifactStore) (events : List LocalEvent) :
    Events.Along store.step (fun _ _ s' => store.Consistent s'.files) start events ↔
      Events.Along store.step store.Ordered start events := by
  have hstep : ∀ (s : LocalArtifacts) (e : LocalEvent) (s' : LocalArtifacts), Inv store s →
      store.step s e = some s' → store.Ordered s e s' →
        Inv store s' ∧ store.Consistent s'.files :=
    fun _ _ _ hinv hs hordered =>
      have hinv' := inv_step hinv hs hordered
      ⟨hinv', hinv'.consistent⟩
  have hback : ∀ (s : LocalArtifacts) (e : LocalEvent) (s' : LocalArtifacts), Inv store s →
      store.step s e = some s' → store.Consistent s'.files → store.Ordered s e s' :=
    fun _ _ _ hinv hs hconsistent => ordered_of_consistent hinv hs hconsistent
  exact Events.along_iff_of_invariant hstep hback inv_start

/-! ### A deletion that is broken off -/

/-- A store. -/
def sample : LocalArtifactStore := ⟨.sample, 1024⟩

/-- An upload, and a deletion that is broken off after the content has been removed. -/
def sampleEvents : List LocalEvent :=
  [.put ArtifactHost.sampleRequest, .advance 0, .advance 0, .advance 0, .advance 0,
    .delete ArtifactHost.sampleArtifact.tenantId ArtifactHost.sampleArtifact.digest, .advance 1,
    .advance 1]

/-- Between its two steps, a deletion leaves a manifest without its content. -/
theorem not_consistent : ¬ Events.Along sample.step
    (fun _ _ s' => sample.Consistent s'.files) start sampleEvents := by
  intro h
  have hput : sample.step start (.put ArtifactHost.sampleRequest) = some ⟨fun _ => none,
      [.putExists ArtifactHost.sampleArtifact [97, 98, 99]]⟩ := by
    have hstage : stage sample.host sample.maxBytes ArtifactHost.sampleRequest = _ :=
      ArtifactHost.stage_sample
    have hscope : validateScope ArtifactHost.sampleRequest.tenantId "tenant_id" = .ok () :=
      if_pos ArtifactHost.isScope_sample
    rw [step, beginPut, hscope, hstage]
    rfl
  have hdelete : ∀ s, sample.step s (.delete ArtifactHost.sampleArtifact.tenantId
      ArtifactHost.sampleArtifact.digest) = some { s with calls := s.calls ++
        [.deleteExists ArtifactHost.sampleArtifact.tenantId
          ArtifactHost.sampleArtifact.digest] } := by
    intro s
    rw [step, beginDelete, paths_artifact]
  have hrun := (((((h _ hput).2 _ rfl).2 _ rfl).2 _ rfl).2 _ rfl).2
  have hlast : sample.Consistent (Function.update (Function.update (Function.update
      (fun _ => none) (contentPath ArtifactHost.sampleArtifact.tenantId
        ArtifactHost.sampleArtifact.digest) (some [97, 98, 99]))
      (manifestPath ArtifactHost.sampleArtifact.tenantId ArtifactHost.sampleArtifact.digest)
        (some (manifest sample.host.host ArtifactHost.sampleArtifact)))
      (contentPath ArtifactHost.sampleArtifact.tenantId ArtifactHost.sampleArtifact.digest)
        none) := (((hrun _ (hdelete _)).2 _ rfl).2 _ rfl).1
  have hread := readManifest_manifest sample ArtifactHost.readable_sample
  have hdigest := ArtifactHost.sampleArtifact.isDigest_digest
  obtain ⟨content, hget, -⟩ := hlast _ _ _ ((stat_update_content hdigest none).mpr
    (stat_eq_ok.mpr ⟨paths_artifact _, _, Function.update_self _ _ _, hread⟩))
  have hfile := (get_eq_ok.mp hget).2.1
  rw [Function.update_self] at hfile
  cases hfile

end LocalArtifactStore

end OpenRath
