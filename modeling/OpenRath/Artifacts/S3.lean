import Mathlib.Logic.Function.Basic
import OpenRath.Artifacts.Models
import OpenRath.Library.Events

/-!
# Artifacts in a bucket

`S3ArtifactStore` (`src/rath/artifacts/store.py`) keeps every artifact in two objects of a bucket,
the content and the manifest, whose keys are made of the tenant and the digest. All uploads of a
content by a tenant write the same two objects. An upload whose manifest is not written deletes the
content that it has written, and with it that of an earlier upload.

## Main definitions

* `S3ArtifactStore.put`, `S3ArtifactStore.get`, `S3ArtifactStore.stat`, `S3ArtifactStore.delete`.
* `S3ArtifactStore.Kept`: a call of `put` that raises leaves what could be read.
* `S3ArtifactStore.FirstUpload`: the manifest is written, or the artifact could not be read before.

## Main results

* `S3ArtifactStore.kept_iff`.
-/

namespace OpenRath

/-- A store in a bucket. -/
structure S3ArtifactStore where
  host : ArtifactHost
  /-- The prefix of the keys. -/
  keyPrefix : String
  maxBytes : ℕ

/-- The objects of a bucket, by their keys. -/
abbrev Bucket : Type := String → Option (List UInt8)

/-- A call on a store. Writing the content and writing the manifest may raise. -/
inductive S3Call
  | put (request : PutRequest) (contentFails manifestFails : Option Exn)
  | get (tenantId digest : String)
  | stat (tenantId digest : String)
  | delete (tenantId digest : String)

/-- `ArtifactNotFound`. -/
def artifactNotFound (digest : String) : Exn := .other "ArtifactNotFound" digest

namespace S3ArtifactStore

variable (store : S3ArtifactStore)

/-- The key of the content of an artifact. -/
def contentKey (tenantId digest : String) : String :=
  store.keyPrefix ++ "/" ++ tenantId ++ "/" ++ String.ofList (digest.toList.take 2) ++ "/" ++ digest

/-- The key of the manifest of an artifact. -/
def manifestKey (tenantId digest : String) : String := store.contentKey tenantId digest ++ ".json"

/-- `_keys`. -/
def keys (tenantId digest : String) : Except Exn (String × String) := do
  validateScope tenantId "tenant_id"
  validateDigest digest
  .ok (store.contentKey tenantId digest, store.manifestKey tenantId digest)

/-- `_read_response_bounded`, of an object in the bucket. -/
def readBounded (bucket : Bucket) (digest key : String) (maximum : ℕ) :
    Except Exn (List UInt8) :=
  match bucket key with
  | none => .error (artifactNotFound digest)
  | some value =>
    if maximum < value.length then .error (valueError "artifact exceeds configured size limit")
    else .ok value

/-- `get`. -/
def get (bucket : Bucket) (tenantId digest : String) : Except Exn (List UInt8) := do
  let (contentKey, _) ← store.keys tenantId digest
  let value ← readBounded bucket digest contentKey store.maxBytes
  if store.host.sha256 value = digest then .ok value
  else .error (.other "OSError" "artifact digest verification failed")

/-- `stat`. -/
def stat (bucket : Bucket) (tenantId digest : String) : Except Exn Artifact := do
  let (_, manifestKey) ← store.keys tenantId digest
  let value ← readBounded bucket digest manifestKey (1024 * 1024)
  let artifact ← parseManifest store.host.host value
  if artifact.tenantId = tenantId ∧ artifact.digest = digest then .ok artifact
  else .error (.other "OSError" "artifact manifest identity mismatch")

/-- `put`, with the bucket after it. -/
def put (bucket : Bucket) (request : PutRequest) (contentFails manifestFails : Option Exn) :
    Except Exn Artifact × Bucket :=
  match stage store.host store.maxBytes request with
  | .error e => (.error e, bucket)
  | .ok (artifact, content) =>
    match store.keys artifact.tenantId artifact.digest, contentFails, manifestFails with
    | .error e, _, _ | .ok _, some e, _ => (.error e, bucket)
    | .ok (contentKey, _), none, some e =>
      -- What has been written is deleted again, whether or not it was there before.
      (.error e, Function.update (Function.update bucket contentKey (some content)) contentKey none)
    | .ok (contentKey, manifestKey), none, none =>
      (.ok artifact, Function.update (Function.update bucket contentKey (some content)) manifestKey
        (some (manifest store.host.host artifact)))

/-- `delete`, with the bucket after it. -/
def delete (bucket : Bucket) (tenantId digest : String) : Except Exn Bool × Bucket :=
  match store.stat bucket tenantId digest with
  | .ok _ =>
    (.ok true, Function.update (Function.update bucket (store.contentKey tenantId digest) none)
      (store.manifestKey tenantId digest) none)
  | .error e => if e = artifactNotFound digest then (.ok false, bucket) else (.error e, bucket)

/-- The bucket after a call. -/
def step (bucket : Bucket) : S3Call → Option Bucket
  | .put request contentFails manifestFails =>
    some (store.put bucket request contentFails manifestFails).2
  | .get _ _ | .stat _ _ => some bucket
  | .delete tenantId digest => some (store.delete bucket tenantId digest).2

/-- An artifact is read, with its content and its manifest. -/
def Reads (bucket : Bucket) (tenantId digest : String) (content : List UInt8)
    (artifact : Artifact) : Prop :=
  store.get bucket tenantId digest = .ok content ∧ store.stat bucket tenantId digest = .ok artifact

/-- A call of `put` that raises leaves what could be read as it was. -/
def Kept (bucket : Bucket) (call : S3Call) (bucket' : Bucket) : Prop :=
  ∀ request contentFails manifestFails e, call = .put request contentFails manifestFails →
    (store.put bucket request contentFails manifestFails).1 = .error e →
      ∀ tenantId digest content artifact, store.Reads bucket tenantId digest content artifact →
        store.Reads bucket' tenantId digest content artifact

/-- When the manifest is not written after the content, the artifact could not be read before. -/
def FirstUpload (bucket : Bucket) (call : S3Call) (_ : Bucket) : Prop :=
  ∀ request e artifact content, call = .put request none (some e) →
    stage store.host store.maxBytes request = .ok (artifact, content) →
      ∀ content' artifact',
        ¬ store.Reads bucket artifact.tenantId artifact.digest content' artifact'

/-! ### Keys -/

variable {store}

theorem ne_of_mem_digest {digest : String} (h : isDigest digest = true) {c : Char}
    (hc : c ∈ digest.toList) : c ≠ 'n' := by
  rw [isDigest, Bool.and_eq_true] at h
  rintro rfl
  exact absurd (List.all_eq_true.mp h.2 'n' hc) (by decide)

theorem contentKey_inj {tenantId digest tenantId' digest' : String}
    (hdigest : isDigest digest = true) (hdigest' : isDigest digest' = true)
    (h : store.contentKey tenantId digest = store.contentKey tenantId' digest') :
    tenantId = tenantId' ∧ digest = digest' := by
  have hlength : digest.toList.length = digest'.toList.length :=
    (length_of_isDigest hdigest).trans (length_of_isDigest hdigest').symm
  have htext := congrArg String.toList h
  simp only [contentKey, String.toList_append] at htext
  obtain ⟨hbefore, hsame⟩ := List.append_inj' htext hlength
  obtain rfl : digest = digest' := String.toList_inj.mp hsame
  simp only [List.append_cancel_right_eq, List.append_cancel_left_eq, String.toList_inj] at hbefore
  exact ⟨hbefore, rfl⟩

/-- The manifest of one artifact is not the content of another one. -/
theorem manifestKey_ne {tenantId digest tenantId' digest' : String}
    (hdigest' : isDigest digest' = true) :
    store.manifestKey tenantId digest ≠ store.contentKey tenantId' digest' := by
  intro h
  have hne : digest'.toList ≠ [] := by
    intro hnil
    have hlength := length_of_isDigest hdigest'
    rw [hnil] at hlength
    cases hlength
  have hlast := congrArg (fun key => key.toList.getLast?) h
  simp only [manifestKey, contentKey, String.toList_append] at hlast
  rw [List.getLast?_append_of_ne_nil _ hne, List.getLast?_append_of_ne_nil _ (by decide)] at hlast
  exact ne_of_mem_digest hdigest' (List.mem_of_getLast? hlast.symm) rfl

/-! ### What is read -/

theorem keys_eq_ok {tenantId digest : String} {pair : String × String}
    (h : store.keys tenantId digest = .ok pair) : isDigest digest = true ∧
      pair = (store.contentKey tenantId digest, store.manifestKey tenantId digest) := by
  obtain ⟨_, -, hkeys⟩ := exists_of_bind_eq_ok h
  obtain ⟨_, hdigest, hpair⟩ := exists_of_bind_eq_ok hkeys
  cases hpair
  rw [validateDigest] at hdigest
  split_ifs at hdigest with hvalid
  exact ⟨hvalid, rfl⟩

theorem keys_artifact (artifact : Artifact) : store.keys artifact.tenantId artifact.digest =
    .ok (store.contentKey artifact.tenantId artifact.digest,
      store.manifestKey artifact.tenantId artifact.digest) := by
  rw [keys, validateScope, validateDigest, if_pos artifact.isScope_tenantId,
    if_pos artifact.isDigest_digest]
  rfl

theorem isDigest_of_get {bucket : Bucket} {tenantId digest : String} {content : List UInt8}
    (h : store.get bucket tenantId digest = .ok content) : isDigest digest = true := by
  obtain ⟨pair, hkeys, -⟩ := exists_of_bind_eq_ok h
  exact (keys_eq_ok hkeys).1

/-- What is read depends on two objects only. -/
theorem Reads.congr {bucket bucket' : Bucket} {tenantId digest : String} {content : List UInt8}
    {artifact : Artifact} (h : store.Reads bucket tenantId digest content artifact)
    (hcontent : bucket' (store.contentKey tenantId digest) =
      bucket (store.contentKey tenantId digest))
    (hmanifest : bucket' (store.manifestKey tenantId digest) =
      bucket (store.manifestKey tenantId digest)) :
    store.Reads bucket' tenantId digest content artifact := by
  obtain ⟨pair, hkeys, -⟩ := exists_of_bind_eq_ok h.1
  obtain ⟨-, rfl⟩ := keys_eq_ok hkeys
  have hget : store.get bucket' tenantId digest = store.get bucket tenantId digest := by
    rw [get, get, hkeys]
    show Except.bind (readBounded _ _ _ _) _ = Except.bind (readBounded _ _ _ _) _
    rw [readBounded, readBounded, hcontent]
  have hstat : store.stat bucket' tenantId digest = store.stat bucket tenantId digest := by
    rw [stat, stat, hkeys]
    show Except.bind (readBounded _ _ _ _) _ = Except.bind (readBounded _ _ _ _) _
    rw [readBounded, readBounded, hmanifest]
  exact ⟨hget.trans h.1, hstat.trans h.2⟩

/-- A content that is not there is not read. -/
theorem get_of_none {bucket : Bucket} {tenantId digest : String} {content : List UInt8}
    (h : bucket (store.contentKey tenantId digest) = none) :
    store.get bucket tenantId digest ≠ .ok content := by
  intro hget
  obtain ⟨pair, hkeys, hread⟩ := exists_of_bind_eq_ok hget
  obtain ⟨-, rfl⟩ := keys_eq_ok hkeys
  obtain ⟨value, hvalue, -⟩ := exists_of_bind_eq_ok hread
  rw [readBounded, h] at hvalue
  cases hvalue

/-- An upload whose manifest is not written deletes the content. -/
theorem put_of_failure (store : S3ArtifactStore) (bucket : Bucket) {request : PutRequest}
    {artifact : Artifact}
    {content : List UInt8} (e : Exn)
    (hstage : stage store.host store.maxBytes request = .ok (artifact, content)) :
    store.put bucket request none (some e) = (.error e,
      Function.update bucket (store.contentKey artifact.tenantId artifact.digest) none) := by
  simp only [put, hstage, keys_artifact, Function.update_idem]

/-- What a call of `put` that raises does. -/
theorem put_eq_error {bucket : Bucket} {request : PutRequest}
    {contentFails manifestFails : Option Exn} {e : Exn}
    (h : (store.put bucket request contentFails manifestFails).1 = .error e) :
    (store.put bucket request contentFails manifestFails).2 = bucket ∨
      ∃ artifact content, contentFails = none ∧ manifestFails = some e ∧
        stage store.host store.maxBytes request = .ok (artifact, content) ∧
          (store.put bucket request contentFails manifestFails).2 =
            Function.update bucket (store.contentKey artifact.tenantId artifact.digest) none := by
  rw [put] at h ⊢
  rcases hstage : stage store.host store.maxBytes request with e' | ⟨artifact, content⟩
  · exact .inl rfl
  · simp only [hstage, keys_artifact] at h ⊢
    rcases contentFails with _ | e' <;> rcases manifestFails with _ | e''
    · cases h
    · cases h
      exact .inr ⟨artifact, content, rfl, rfl, rfl, Function.update_idem _ _ _⟩
    · exact .inl rfl
    · exact .inl rfl

/-- An artifact that has been uploaded is read. -/
theorem reads_of_put (store : S3ArtifactStore) (bucket : Bucket) {request : PutRequest}
    {artifact : Artifact}
    {content : List UInt8}
    (hstage : stage store.host store.maxBytes request = .ok (artifact, content))
    (hreadable : artifact.Readable store.host.host)
    (hsize : (manifest store.host.host artifact).length ≤ 1024 * 1024) :
    store.Reads (store.put bucket request none none).2 artifact.tenantId artifact.digest content
      { artifact with metadata := sortFields artifact.metadata } := by
  have hput : (store.put bucket request none none).2 = Function.update (Function.update bucket
      (store.contentKey artifact.tenantId artifact.digest) (some content))
      (store.manifestKey artifact.tenantId artifact.digest)
      (some (manifest store.host.host artifact)) := by
    simp only [put, hstage, keys_artifact]
  have hne : store.contentKey artifact.tenantId artifact.digest ≠
      store.manifestKey artifact.tenantId artifact.digest :=
    (manifestKey_ne artifact.isDigest_digest).symm
  have hcontent : readBounded (store.put bucket request none none).2 artifact.digest
      (store.contentKey artifact.tenantId artifact.digest) store.maxBytes = .ok content := by
    rw [hput, readBounded, Function.update_of_ne hne, Function.update_self]
    exact if_neg (not_lt.mpr (length_of_stage hstage))
  have hmanifest : readBounded (store.put bucket request none none).2 artifact.digest
      (store.manifestKey artifact.tenantId artifact.digest) (1024 * 1024) =
        .ok (manifest store.host.host artifact) := by
    rw [hput, readBounded, Function.update_self]
    exact if_neg (not_lt.mpr hsize)
  constructor
  · simp only [get, keys_artifact, hcontent, bind, Except.bind]
    exact if_pos (stage_eq_ok hstage).2.symm
  · simp [stat, keys_artifact, hmanifest, parseManifest_manifest hreadable, bind, Except.bind]

/-! ### Failed uploads -/

/-- A call keeps what could be read exactly if it is not a second upload that fails. -/
theorem kept_iff_firstUpload {bucket bucket' : Bucket} {call : S3Call}
    (h : store.step bucket call = some bucket') :
    store.Kept bucket call bucket' ↔ store.FirstUpload bucket call bucket' := by
  constructor
  · rintro hkept request e artifact content rfl hstage content' artifact' hreads
    cases h
    have hput := put_of_failure store bucket e hstage
    have hafter := hkept request none (some e) e rfl (congrArg Prod.fst hput) _ _ _ _ hreads
    rw [hput] at hafter
    exact get_of_none (Function.update_self _ _ _) hafter.1
  · rintro hfirst request contentFails manifestFails e rfl hraised tenantId digest content artifact
      hreads
    cases h
    obtain hsame | ⟨staged, content', rfl, rfl, hstage, hafter⟩ := put_eq_error hraised
    · rw [hsame]
      exact hreads
    · rw [hafter]
      have hdigest := isDigest_of_get hreads.1
      by_cases hkey : store.contentKey tenantId digest =
          store.contentKey staged.tenantId staged.digest
      · obtain ⟨rfl, rfl⟩ := contentKey_inj hdigest staged.isDigest_digest hkey
        exact absurd hreads (hfirst request e staged content' rfl hstage content artifact)
      · exact hreads.congr (Function.update_of_ne hkey _ _)
          (Function.update_of_ne (manifestKey_ne staged.isDigest_digest) _ _)

/-- **Failed uploads.** In a sequence of calls, the calls of `put` that raise leave what could be
read before exactly if no manifest fails to be written for a content of which an earlier upload can
be read. -/
theorem kept_iff (store : S3ArtifactStore) (bucket : Bucket) (calls : List S3Call) :
    Events.Along store.step store.Kept bucket calls ↔
      Events.Along store.step store.FirstUpload bucket calls := by
  have hstep : ∀ (s : Bucket) (e : S3Call) (s' : Bucket), True → store.step s e = some s' →
      store.FirstUpload s e s' → True ∧ store.Kept s e s' :=
    fun _ _ _ _ hs hfirst => ⟨trivial, (kept_iff_firstUpload hs).mpr hfirst⟩
  have hback : ∀ (s : Bucket) (e : S3Call) (s' : Bucket), True → store.step s e = some s' →
      store.Kept s e s' → store.FirstUpload s e s' :=
    fun _ _ _ _ hs hkept => (kept_iff_firstUpload hs).mp hkept
  exact Events.along_iff_of_invariant (I := fun _ => True) hstep hback trivial

/-- A store. -/
def sample : S3ArtifactStore := ⟨.sample, "openrath", 1024⟩

/-- The second upload of a content fails, and the content is gone. -/
theorem not_kept : ¬ Events.Along sample.step sample.Kept (fun _ => none)
    [.put ArtifactHost.sampleRequest none none,
      .put ArtifactHost.sampleRequest none (some (.timeout "put_object"))] := by
  intro h
  have hkept := ((h _ rfl).2 _ rfl).1
  have hreads := reads_of_put sample (fun _ => none)
    ArtifactHost.stage_sample ArtifactHost.readable_sample ArtifactHost.length_manifest_sample
  have hput := put_of_failure sample
    (sample.put (fun _ => none) ArtifactHost.sampleRequest none none).2 (.timeout "put_object")
    ArtifactHost.stage_sample
  have hafter := hkept _ _ _ _ rfl (congrArg Prod.fst hput) _ _ _ _ hreads
  rw [hput] at hafter
  exact get_of_none (Function.update_self _ _ _) hafter.1

end S3ArtifactStore

end OpenRath
