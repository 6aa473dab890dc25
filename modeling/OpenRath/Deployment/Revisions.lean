import OpenRath.Adapters.Schema
import OpenRath.Library.Completion
import OpenRath.Library.JsonAscii
import OpenRath.Library.NumberText
import OpenRath.Library.Table
import OpenRath.Runtime.ContextColumn

/-!
# Revisions of a deployment

A revision is made of the digest of the code and a manifest, and its id and its content digest are
hashes of their canonical text (`src/rath/deployment/revisions.py`). A table keeps the first
revision of every id (`SQLiteRevisionStore`). To put a revision, a client looks for a row in one
transaction, and then reads it in another one and compares it, or inserts its own; in between, the
others go on, so that the insertion may come too late and be refused.

A manifest comes back from the table with the keys of its mappings in order. The hashes are
parameters, and so is the table of decimal digits.

## Main definitions

* `RevisionHost`, `DeploymentManifest`, `Revision`, `Revision.create`, `Revision.contentDigest`.
* `RevisionRow`, `Revision.row`, `RevisionRow.load`.
* `RevisionCmd`, `putRevision`, `getRevision`: the programs.
* `Revisions`: revisions that the hashes tell apart.

## Main results

* `load_row`: a revision is read as it was written, with the keys in order.
* `Revisions.id_eq_iff`: two revisions have the same id if and only if they have the same content.
* `Revisions.putRevision_stored`: what has been put is in the table for good.
-/

namespace OpenRath

/-- What is computed outside of the repository. -/
structure RevisionHost where
  texts : Texts
  decimals : Decimals
  floats : FloatText
  /-- `uuid5(NAMESPACE_URL, name)`. -/
  uuid5 : List Char → UUID
  /-- `sha256(payload.encode("utf-8")).hexdigest()`. -/
  sha256 : List Char → String

variable {host : RevisionHost}

/-! ### Digests -/

namespace RevisionHost

/-- The texts that pass for a SHA-256 digest. -/
def IsDigest (host : RevisionHost) (value : String) : Prop :=
  value.length = 64 ∧ (host.decimals.intHex value.toList).isSome

instance (host : RevisionHost) (value : String) : Decidable (host.IsDigest value) :=
  inferInstanceAs (Decidable (_ ∧ _))

/-- What is raised for another text: the `ValueError` of the length, or else of `int(value, 16)`. -/
def digestError (host : RevisionHost) (name value : String) : Exn :=
  if value.length ≠ 64 then .store (.valueError s!"{name} must be a SHA-256 digest")
  else .store (.valueError
    s!"invalid literal for int() with base 16: {host.texts.repr (.str value)}")

end RevisionHost

/-! ### Manifests -/

/-- What the code of a revision runs with. -/
structure DeploymentManifest (host : RevisionHost) where
  imageDigest : String
  planHash : String
  pythonVersion : String
  dependenciesDigest : String
  resources : JsonObject
  isDigest_imageDigest : host.IsDigest imageDigest
  isDigest_planHash : host.IsDigest planHash
  isDigest_dependenciesDigest : host.IsDigest dependenciesDigest

namespace DeploymentManifest

/-- `DeploymentManifest`, with the checks of `__post_init__`. -/
def create (host : RevisionHost) (imageDigest planHash pythonVersion dependenciesDigest : String)
    (resources : JsonObject) : Except Exn (DeploymentManifest host) :=
  if himage : host.IsDigest imageDigest then
    if hplan : host.IsDigest planHash then
      if hdependencies : host.IsDigest dependenciesDigest then
        .ok ⟨imageDigest, planHash, pythonVersion, dependenciesDigest, resources, himage, hplan,
          hdependencies⟩
      else .error (host.digestError "dependencies_digest" dependenciesDigest)
    else .error (host.digestError "plan_hash" planHash)
  else .error (host.digestError "image_digest" imageDigest)

/-- The fields of the canonical text. -/
def fields (m : DeploymentManifest host) : JsonObject :=
  [("image_digest", .str m.imageDigest), ("plan_hash", .str m.planHash),
    ("python_version", .str m.pythonVersion), ("dependencies_digest", .str m.dependenciesDigest),
    ("resources", .obj m.resources)]

/-- `canonical_json`. The text of an integer may be too long. -/
def canonicalJson (m : DeploymentManifest host) : Except Exn (List Char) :=
  match dumpsAsciiSorted host.floats [] (.obj m.fields) with
  | some t => .ok t
  | none => .error (.store (.valueError
      "Exceeds the limit (4300 digits) for integer string conversion"))

/-- The manifest with the keys of its resources in order. -/
def sorted (m : DeploymentManifest host) : DeploymentManifest host :=
  { m with resources := sortFields m.resources }

/-- `m == m'`, where the order of the keys of a mapping does not matter. -/
def equals (m m' : DeploymentManifest host) : Bool :=
  m.imageDigest = m'.imageDigest && m.planHash = m'.planHash &&
    m.pythonVersion = m'.pythonVersion && m.dependenciesDigest = m'.dependenciesDigest &&
    Json.eqValue false (.obj (sortFields m.resources)) (.obj (sortFields m'.resources))

/-- A field of a mapping, which is a text in the rows that the store writes. -/
def textField (data : JsonObject) (key : String) : Except Exn String :=
  match data.get? key with
  | some (.str s) => .ok s
  | some _ => .error (.other "TypeError" s!"{key} must be a string")
  | none => .error (.store (.keyError key))

/-- `_manifest`. -/
def load (host : RevisionHost) (text : List Char) : Except Exn (DeploymentManifest host) := do
  match loads host.floats text with
  | .ok (.obj data) =>
    let imageDigest ← textField data "image_digest"
    let planHash ← textField data "plan_hash"
    let pythonVersion ← textField data "python_version"
    let dependenciesDigest ← textField data "dependencies_digest"
    match JsonObject.get? data "resources" with
    | some (.obj resources) =>
      create host imageDigest planHash pythonVersion dependenciesDigest resources
    | some _ => .error (.other "TypeError" "deployment.resources must be a mapping")
    | none => .error (.store (.keyError "resources"))
  | .ok _ => .error (.other "TypeError" "the manifest must be a mapping")
  | .error _ => .error (.other "JSONDecodeError" "the manifest is no JSON text")

end DeploymentManifest

/-! ### Revisions -/

/-- A revision. -/
structure Revision (host : RevisionHost) where
  id : UUID
  codeDigest : String
  manifest : DeploymentManifest host
  createdAt : Datetime

namespace Revision

/-- The name from which the id is made. -/
def name (codeDigest : String) (manifest : DeploymentManifest host) : Except Exn (List Char) :=
  manifest.canonicalJson.map fun canonical =>
    "openrath-revision:".toList ++ (codeDigest.toList ++ ':' :: canonical)

/-- `Revision.create`, with the time that it reads. -/
def create (codeDigest : String) (manifest : DeploymentManifest host) (createdAt : Datetime) :
    Except Exn (Revision host) := do
  if ¬ host.IsDigest codeDigest then .error (host.digestError "code_digest" codeDigest)
  let name ← name codeDigest manifest
  .ok ⟨host.uuid5 name, codeDigest, manifest, createdAt⟩

/-- What the content digest is made from: the canonical text is read again. -/
def payload (r : Revision host) : Except Exn (List Char) := do
  let canonical ← r.manifest.canonicalJson
  match loads host.floats canonical with
  | .ok manifest =>
    match dumpsAsciiSorted host.floats []
        (.obj [("code_digest", .str r.codeDigest), ("manifest", manifest)]) with
    | some t => .ok t
    | none => .error (.store (.valueError
        "Exceeds the limit (4300 digits) for integer string conversion"))
  | .error _ => .error (.other "JSONDecodeError" "the manifest is no JSON text")

/-- `content_digest`. -/
def contentDigest (r : Revision host) : Except Exn String := r.payload.map host.sha256

/-- The revision with the keys of its mappings in order. -/
def sorted (r : Revision host) : Revision host := { r with manifest := r.manifest.sorted }

/-- The code and the manifest, up to the order of keys. -/
def content (r : Revision host) : String × DeploymentManifest host :=
  (r.codeDigest, r.manifest.sorted)

end Revision

/-! ### The table -/

/-- A row of the table `revisions`. -/
structure RevisionRow where
  id : UUID
  contentDigest : String
  codeDigest : String
  planHash : String
  manifestJson : List Char
  createdAt : Datetime
deriving DecidableEq

/-- The row of a revision. -/
def Revision.row (r : Revision host) : Except Exn RevisionRow := do
  let contentDigest ← r.contentDigest
  let manifestJson ← r.manifest.canonicalJson
  .ok ⟨r.id, contentDigest, r.codeDigest, r.manifest.planHash, manifestJson, r.createdAt⟩

/-- The revision of a row. -/
def RevisionRow.load (host : RevisionHost) (row : RevisionRow) : Except Exn (Revision host) :=
  (DeploymentManifest.load host row.manifestJson).map fun manifest =>
    ⟨row.id, row.codeDigest, manifest, row.createdAt⟩

/-- The table `revisions`. -/
abbrev RevisionTable : Type := Table RevisionRow.id

/-- The transactions of the store. -/
inductive RevisionCmd
  /-- `SELECT * FROM revisions WHERE id = ?`. -/
  | select (id : UUID)
  /-- `INSERT INTO revisions`. -/
  | insert (row : RevisionRow)

/-- What a transaction answers. -/
def RevisionCmd.Answer : RevisionCmd → Type
  | select _ => Option RevisionRow
  | insert _ => Except Exn Unit

/-- The execution of a transaction. The ids and the content digests are unique. -/
def RevisionCmd.exec : (c : RevisionCmd) → RevisionTable → c.Answer × RevisionTable
  | .select id, x => (x.find? id, x)
  | .insert row, x =>
    if row.contentDigest ∈ x.rows.map RevisionRow.contentDigest then
      (.error (.store .integrityError), x)
    else match x.insert? row with
      | some y => (.ok (), y)
      | none => (.error (.store .integrityError), x)

theorem RevisionCmd.exec_select (id : UUID) (x : RevisionTable) :
    RevisionCmd.exec (.select id) x = (x.find? id, x) := rfl

/-- A program of these transactions. -/
abbrev Revising (α : Type) : Type := Proc RevisionCmd RevisionCmd.Answer Exn α

/-- `SQLiteRevisionStore.get`. -/
def getRevision (host : RevisionHost) (id : UUID) : Revising (Revision host) :=
  .call (.select id) fun found =>
    match found with
    | some row => Proc.ofExcept (row.load host)
    | none => .throw (.store (.keyError id.str))

/-- `SQLiteRevisionStore.put`. -/
def putRevision (revision : Revision host) : Revising (Revision host) :=
  .call (.select revision.id) fun existing =>
    match existing with
    | some _ => do
      let loaded ← getRevision host revision.id
      Proc.throwUnless (loaded.codeDigest = revision.codeDigest ∧
        loaded.manifest.equals revision.manifest = true)
        (.other "RevisionConflict" "revision identity is immutable")
      pure loaded
    | none => do
      let row ← Proc.ofExcept revision.row
      .call (.insert row) fun inserted => do
        Proc.ofExcept inserted
        pure revision

/-! ### Reading -/

section Load

variable (hfl : ∀ bits, (doubleValue bits).isSome = true → host.floats.Survives bits)

namespace DeploymentManifest

variable {m m' : DeploymentManifest host} {canonical : List Char}

/-- The numbers of the resources are finite, and no mapping has a key twice. -/
def Finite (m : DeploymentManifest host) : Prop := (Json.obj m.resources).Finite

theorem Finite.fields (h : m.Finite) : (Json.obj m.fields).Finite :=
  ⟨by simp [DeploymentManifest.fields], trivial, trivial, trivial, trivial, h, trivial⟩

theorem canonicalJson_eq_ok_iff :
    m.canonicalJson = .ok canonical ↔
      dumpsAsciiSorted host.floats [] (.obj m.fields) = some canonical := by
  rw [canonicalJson]
  cases dumpsAsciiSorted host.floats [] (.obj m.fields) <;> simp

include hfl in
theorem loads_canonicalJson (hm : m.Finite) (h : m.canonicalJson = .ok canonical) :
    loads host.floats canonical = .ok (.obj (sortFields m.fields)) :=
  loads_dumpsAsciiSorted host.floats (by simp) hfl hm.fields (canonicalJson_eq_ok_iff.mp h)

include hfl in
/-- A manifest is read as it was written, with the keys of its resources in order. -/
theorem load_canonicalJson (hm : m.Finite) (h : m.canonicalJson = .ok canonical) :
    load host canonical = .ok m.sorted := by
  have hnodup : (m.fields.map Prod.fst).Nodup := by simp [DeploymentManifest.fields]
  have htext {key s : String} (hs : m.fields.get? key = some (.str s)) :
      textField (sortFields m.fields) key = .ok s := by
    rw [textField, JsonObject.get?_sortFields hnodup, hs]
    rfl
  have hresources : JsonObject.get? (sortFields m.fields) "resources" =
      some (.obj (sortFields m.resources)) := by
    rw [JsonObject.get?_sortFields hnodup]
    rfl
  have himage := htext (show m.fields.get? "image_digest" = some (.str m.imageDigest) from rfl)
  have hplan := htext (show m.fields.get? "plan_hash" = some (.str m.planHash) from rfl)
  have hpython := htext (show m.fields.get? "python_version" = some (.str m.pythonVersion) from rfl)
  have hdependencies := htext
    (show m.fields.get? "dependencies_digest" = some (.str m.dependenciesDigest) from rfl)
  rw [load, loads_canonicalJson hfl hm h]
  simp only [himage, hplan, hpython, hdependencies, hresources, bind, Except.bind, create,
    dif_pos m.isDigest_imageDigest, dif_pos m.isDigest_planHash,
    dif_pos m.isDigest_dependenciesDigest]
  rfl

@[simp] theorem sorted_sorted (m : DeploymentManifest host) : m.sorted.sorted = m.sorted := by
  rw [sorted, sorted]
  exact congrArg (fun resources => { m with resources := resources })
    (Json.obj.inj (Json.sortKeys_sortKeys (.obj m.resources)))

/-- Manifests that are the same up to the order of keys are equal. -/
theorem equals_of_sorted_eq (hm : m.Finite) (h : m'.sorted = m.sorted) :
    m'.sorted.equals m = true := by
  have hself : Json.eqValue false (.obj (sortFields m.resources)) (.obj (sortFields m.resources)) =
      true := Json.Finite.eqValue_self _ (Json.Finite.sortKeys _ hm)
  have hresources : sortFields (sortFields m.resources) = sortFields m.resources :=
    Json.obj.inj (Json.sortKeys_sortKeys (.obj m.resources))
  rw [h]
  simp [equals, sorted, hresources, hself]

theorem sortFields_fields_sorted (m : DeploymentManifest host) :
    sortFields m.sorted.fields = sortFields m.fields := by
  have hresources : sortFields (sortFields m.resources) = sortFields m.resources :=
    Json.obj.inj (Json.sortKeys_sortKeys (.obj m.resources))
  simp [DeploymentManifest.fields, sorted, sortFields, Json.sortKeys, hresources]

/-- The canonical text is made of the fields with their keys in order. -/
theorem canonicalJson_eq_of_sortFields {canonical' : List Char}
    (h : m.canonicalJson = .ok canonical) (h' : m'.canonicalJson = .ok canonical')
    (hfields : sortFields m.fields = sortFields m'.fields) :
    canonical = canonical' := by
  have htext := canonicalJson_eq_ok_iff.mp h
  have htext' := canonicalJson_eq_ok_iff.mp h'
  rw [dumpsAsciiSorted] at htext htext'
  split_ifs at htext htext'
  cases htext
  cases htext'
  rw [Json.sortKeys, Json.sortKeys, hfields]

include hfl in
/-- Two manifests have the same canonical text if and only if they are the same up to the order of
keys. -/
theorem canonicalJson_eq_iff {canonical' : List Char} (hm : m.Finite) (hm' : m'.Finite)
    (h : m.canonicalJson = .ok canonical) (h' : m'.canonicalJson = .ok canonical') :
    canonical = canonical' ↔ m.sorted = m'.sorted := by
  constructor
  · rintro rfl
    have hload := load_canonicalJson hfl hm h
    rw [load_canonicalJson hfl hm' h'] at hload
    exact (Except.ok.inj hload).symm
  · intro hsorted
    refine canonicalJson_eq_of_sortFields h h' ?_
    rw [← sortFields_fields_sorted m, hsorted, sortFields_fields_sorted]

end DeploymentManifest

namespace Revision

variable {r r' : Revision host} {t t' : List Char}

include hfl in
/-- The row of a revision is read as the revision, with the keys in order. -/
theorem load_row (hm : r.manifest.Finite) {row : RevisionRow} (h : r.row = .ok row) :
    row.load host = .ok r.sorted ∧ row.id = r.id ∧ r.contentDigest = .ok row.contentDigest := by
  obtain ⟨digest, hdigest, h⟩ := exists_of_bind_eq_ok h
  obtain ⟨canonical, hcanonical, h⟩ := exists_of_bind_eq_ok h
  cases h
  refine ⟨?_, rfl, hdigest⟩
  rw [RevisionRow.load, DeploymentManifest.load_canonicalJson hfl hm hcanonical]
  rfl

/-- The fields of what the content digest is made from. -/
def digested (r : Revision host) : JsonObject :=
  [("code_digest", .str r.codeDigest), ("manifest", .obj (sortFields r.manifest.fields))]

theorem nodup_digested (r : Revision host) : (r.digested.map Prod.fst).Nodup := by
  simp [digested]

theorem finite_digested (hm : r.manifest.Finite) : (Json.obj r.digested).Finite :=
  ⟨r.nodup_digested, trivial, Json.Finite.sortKeys _ hm.fields, trivial⟩

include hfl in
theorem payload_eq_ok_iff (hm : r.manifest.Finite) :
    r.payload = .ok t ↔ ∃ canonical, r.manifest.canonicalJson = .ok canonical ∧
      dumpsAsciiSorted host.floats [] (.obj r.digested) = some t := by
  rw [payload, bind_eq_ok_iff]
  refine exists_congr fun canonical => and_congr_right fun hcanonical => ?_
  rw [DeploymentManifest.loads_canonicalJson hfl hm hcanonical]
  show (match dumpsAsciiSorted host.floats [] (.obj r.digested) with
    | some t => (.ok t : Except Exn (List Char))
    | none => .error _) = .ok t ↔ _
  cases dumpsAsciiSorted host.floats [] (.obj r.digested) <;> simp

include hfl in
theorem exists_row (hm : r.manifest.Finite) {canonical : List Char}
    (hcanonical : r.manifest.canonicalJson = .ok canonical) : ∃ row, r.row = .ok row := by
  have htext := DeploymentManifest.canonicalJson_eq_ok_iff.mp hcanonical
  rw [dumpsAsciiSorted] at htext
  split_ifs at htext with hfields
  have hmanifest : (Json.obj (sortFields r.manifest.fields)).isWritable = true :=
    Json.isWritable_sortKeys (.obj r.manifest.fields) hfields
  have hdigested : (Json.obj r.digested).isWritable = true := by
    rw [digested, Json.isWritable, writableFields, writableFields, writableFields, hmanifest]
    rfl
  have hpayload : r.payload = .ok (dumpsAscii host.floats [] (Json.obj r.digested).sortKeys) :=
    (payload_eq_ok_iff hfl hm).mpr
      ⟨canonical, hcanonical, by rw [dumpsAsciiSorted, if_pos hdigested]⟩
  rw [row, contentDigest, hpayload, hcanonical]
  exact ⟨_, rfl⟩

include hfl in
/-- The content digest is made from a text that tells the content. -/
theorem content_eq_of_payload_eq (hm : r.manifest.Finite) (hm' : r'.manifest.Finite)
    (h : r.payload = .ok t) (h' : r'.payload = .ok t) : r.content = r'.content := by
  obtain ⟨canonical, hcanonical, htext⟩ := (payload_eq_ok_iff hfl hm).mp h
  obtain ⟨canonical', hcanonical', htext'⟩ := (payload_eq_ok_iff hfl hm').mp h'
  have hloads := loads_dumpsAsciiSorted host.floats (by simp) hfl (finite_digested hm) htext
  rw [loads_dumpsAsciiSorted host.floats (by simp) hfl (finite_digested hm') htext'] at hloads
  have hdigested : sortFields r'.digested = sortFields r.digested :=
    Json.obj.inj (Except.ok.inj hloads)
  have hget (k : String) : (r'.digested.get? k).map Json.sortKeys =
      (r.digested.get? k).map Json.sortKeys := by
    rw [← JsonObject.get?_sortFields r'.nodup_digested, hdigested,
      JsonObject.get?_sortFields r.nodup_digested]
  have hcode : r'.codeDigest = r.codeDigest :=
    Json.str.inj (Option.some.inj (hget "code_digest"))
  have hmanifest : sortFields (sortFields r'.manifest.fields) =
      sortFields (sortFields r.manifest.fields) :=
    Json.obj.inj (Option.some.inj (hget "manifest"))
  have hidem (m : DeploymentManifest host) : sortFields (sortFields m.fields) =
      sortFields m.fields := Json.obj.inj (Json.sortKeys_sortKeys (.obj m.fields))
  rw [hidem, hidem] at hmanifest
  have hsorted := (DeploymentManifest.canonicalJson_eq_iff hfl hm hm' hcanonical hcanonical').mp
    (DeploymentManifest.canonicalJson_eq_of_sortFields hcanonical hcanonical' hmanifest.symm)
  rw [content, content, hcode, hsorted]

include hfl in
/-- The id is made from a name that tells the content, as the digest of the code has a fixed
length. -/
theorem name_eq_iff (hm : r.manifest.Finite) (hm' : r'.manifest.Finite)
    (hcode : host.IsDigest r.codeDigest) (hcode' : host.IsDigest r'.codeDigest)
    (h : name r.codeDigest r.manifest = .ok t) (h' : name r'.codeDigest r'.manifest = .ok t') :
    t = t' ↔ r.content = r'.content := by
  obtain ⟨canonical, hcanonical, rfl⟩ : ∃ canonical, r.manifest.canonicalJson = .ok canonical ∧
      _ = t := by
    rw [name] at h
    rcases hcanonical : r.manifest.canonicalJson with e | canonical <;> rw [hcanonical] at h
    · cases h
    · exact ⟨canonical, rfl, Except.ok.inj h⟩
  obtain ⟨canonical', hcanonical', rfl⟩ : ∃ canonical, r'.manifest.canonicalJson = .ok canonical ∧
      _ = t' := by
    rw [name] at h'
    rcases hcanonical : r'.manifest.canonicalJson with e | canonical <;> rw [hcanonical] at h'
    · cases h'
    · exact ⟨canonical, rfl, Except.ok.inj h'⟩
  have hlength : r.codeDigest.toList.length = r'.codeDigest.toList.length := by
    rw [String.length_toList, String.length_toList, hcode.1, hcode'.1]
  rw [content, content, Prod.mk.injEq,
    ← DeploymentManifest.canonicalJson_eq_iff hfl hm hm' hcanonical hcanonical']
  constructor
  · intro heq
    obtain ⟨hlist, hrest⟩ := List.append_inj (List.append_cancel_left heq) hlength
    exact ⟨String.toList_inj.mp hlist, (List.cons.inj hrest).2⟩
  · rintro ⟨hlist, rfl⟩
    rw [hlist]

end Revision

end Load

/-! ### Revisions that are told apart -/

/-- Revisions that were created, with finite numbers, and that the hashes tell apart. -/
structure Revisions (host : RevisionHost) where
  carrier : Set (Revision host)
  created : ∀ r ∈ carrier, Revision.create r.codeDigest r.manifest r.createdAt = .ok r
  finite : ∀ r ∈ carrier, r.manifest.Finite
  uuid5 : ∀ r ∈ carrier, ∀ r' ∈ carrier, ∀ t t', Revision.name r.codeDigest r.manifest = .ok t →
    Revision.name r'.codeDigest r'.manifest = .ok t' → host.uuid5 t = host.uuid5 t' → t = t'
  sha256 : ∀ r ∈ carrier, ∀ r' ∈ carrier, ∀ t t', r.payload = .ok t → r'.payload = .ok t' →
    host.sha256 t = host.sha256 t' → t = t'

namespace Revisions

variable (S : Revisions host) (hfl : ∀ bits, (doubleValue bits).isSome = true →
    host.floats.Survives bits) {r r' : Revision host}

variable {S} in
/-- What was checked and computed for the id. -/
theorem exists_name (hr : r ∈ S.carrier) : host.IsDigest r.codeDigest ∧
    ∃ t, Revision.name r.codeDigest r.manifest = .ok t ∧ host.uuid5 t = r.id := by
  have hcreated := S.created r hr
  rw [Revision.create] at hcreated
  split_ifs at hcreated with hdigest
  · obtain ⟨t, ht, hid⟩ := exists_of_bind_eq_ok hcreated
    exact ⟨hdigest, t, ht, congrArg Revision.id (Except.ok.inj hid)⟩
  · cases hcreated

include hfl in
/-- Two revisions have the same id if and only if they have the same content. -/
theorem id_eq_iff (hr : r ∈ S.carrier) (hr' : r' ∈ S.carrier) :
    r.id = r'.id ↔ r.content = r'.content := by
  obtain ⟨hcode, t, ht, hid⟩ := exists_name hr
  obtain ⟨hcode', t', ht', hid'⟩ := exists_name hr'
  rw [← Revision.name_eq_iff hfl (S.finite r hr) (S.finite r' hr') hcode hcode' ht ht', ← hid,
    ← hid']
  exact ⟨S.uuid5 r hr r' hr' t t' ht ht', congrArg host.uuid5⟩

include hfl in
theorem content_eq_of_contentDigest_eq (hr : r ∈ S.carrier) (hr' : r' ∈ S.carrier) {d : String}
    (h : r.contentDigest = .ok d) (h' : r'.contentDigest = .ok d) : r.content = r'.content := by
  rw [Revision.contentDigest] at h h'
  rcases ht : r.payload with e | t <;> rw [ht] at h
  · cases h
  rcases ht' : r'.payload with e | t' <;> rw [ht'] at h'
  · cases h'
  obtain rfl : t = t' :=
    S.sha256 r hr r' hr' t t' ht ht' ((Except.ok.inj h).trans (Except.ok.inj h').symm)
  exact Revision.content_eq_of_payload_eq hfl (S.finite r hr) (S.finite r' hr') ht ht'

include hfl in
/-- Every one of the revisions has a row. -/
theorem exists_row (hr : r ∈ S.carrier) : ∃ row, r.row = .ok row := by
  obtain ⟨-, t, ht, -⟩ := exists_name hr
  rw [Revision.name] at ht
  rcases hcanonical : r.manifest.canonicalJson with e | canonical <;> rw [hcanonical] at ht
  · cases ht
  · exact Revision.exists_row hfl (S.finite r hr) hcanonical

/-! ### Clients -/

/-- All rows are of such revisions. -/
def Kept (x : RevisionTable) : Prop := ∀ row ∈ x.rows, ∃ r ∈ S.carrier, r.row = .ok row

/-- The transactions of a client that puts such revisions. -/
def Issued : RevisionCmd → Prop
  | .select _ => True
  | .insert row => ∃ r ∈ S.carrier, r.row = .ok row

/-- The others put such revisions, and get any. -/
def Others : RevisionTable → RevisionTable → Prop :=
  Relation.ReflTransGen fun x y => ∃ c, S.Issued c ∧ y = (RevisionCmd.exec c x).2

/-- A row is inserted, or there is one with the same id or the same content digest. -/
theorem exec_insert_cases (row : RevisionRow) (x : RevisionTable) :
    (∃ y, RevisionCmd.exec (.insert row) x = (.ok (), y) ∧ y.rows = x.rows ++ [row]) ∨
      RevisionCmd.exec (.insert row) x = (.error (.store .integrityError), x) ∧
        ∃ other ∈ x.rows, other.contentDigest = row.contentDigest ∨ other.id = row.id := by
  rw [RevisionCmd.exec]
  split_ifs with hdigest
  · obtain ⟨other, hother, heq⟩ := List.mem_map.mp hdigest
    exact .inr ⟨rfl, other, hother, .inl heq⟩
  · rcases hinsert : x.insert? row with _ | y
    · obtain ⟨other, hother⟩ := Table.insert?_eq_none_iff.mp hinsert
      obtain ⟨hmem, heq⟩ := Table.find?_eq_some_iff.mp hother
      exact .inr ⟨rfl, other, hmem, .inr heq⟩
    · exact .inl ⟨y, rfl, Table.insert?_rows hinsert⟩

/-- What a transaction does to the rows. -/
theorem rows_exec (c : RevisionCmd) (x : RevisionTable) :
    (c.exec x).2 = x ∨ ∃ row, c = .insert row ∧ (c.exec x).2.rows = x.rows ++ [row] := by
  cases c with
  | select => exact .inl rfl
  | insert row =>
    rcases exec_insert_cases row x with ⟨y, hexec, hrows⟩ | ⟨hexec, -⟩
    · exact .inr ⟨row, rfl, by rw [hexec]; exact hrows⟩
    · exact .inl (by rw [hexec])

variable {S} {x y : RevisionTable}

theorem Others.refl (x : RevisionTable) : S.Others x x := Relation.ReflTransGen.refl

theorem Others.trans {z : RevisionTable} (h : S.Others x y) (h' : S.Others y z) : S.Others x z :=
  Relation.ReflTransGen.trans h h'

/-- Rows stay. -/
theorem Others.find? (h : S.Others x y) {id : UUID} {row : RevisionRow}
    (hrow : x.find? id = some row) : y.find? id = some row := by
  induction h with
  | refl => exact hrow
  | @tail y z _ hstep ih =>
    obtain ⟨c, -, rfl⟩ := hstep
    rcases rows_exec c y with hsame | ⟨new, -, hrows⟩
    · rwa [hsame]
    · obtain ⟨hmem, hid⟩ := Table.find?_eq_some_iff.mp ih
      exact Table.find?_eq_some_iff.mpr ⟨by rw [hrows]; exact List.mem_append_left _ hmem, hid⟩

/-- The rows are of such revisions all the time. -/
theorem Others.kept (h : S.Others x y) (hx : S.Kept x) : S.Kept y := by
  induction h with
  | refl => exact hx
  | @tail y z _ hstep ih =>
    obtain ⟨c, hc, rfl⟩ := hstep
    rcases rows_exec c y with hsame | ⟨new, rfl, hrows⟩
    · rwa [hsame]
    · intro row hrow
      rw [hrows] at hrow
      rcases List.mem_append.mp hrow with hrow | hrow
      · exact ih row hrow
      · cases List.mem_singleton.mp hrow
        exact hc

/-- A row that is there is got as what it is read as. -/
theorem of_getRevision {id : UUID} {row : RevisionRow} (hrow : x.find? id = some row)
    {trace : List ((c : RevisionCmd) × c.Answer)} {got : Except Exn (Revision host)}
    (h : (getRevision host id).Completes (fun c (_ : Unit) x => c.exec x) S.Others x trace got y) :
    got = row.load host ∧ S.Others x y := by
  cases h with
  | @call _ _ _ x₁ _ _ _ _ hR₁ h =>
    simp only [RevisionCmd.exec_select, hR₁.find? hrow] at h
    obtain ⟨-, hgot, hR₂⟩ := h.of_ofExcept
    exact ⟨hgot, hR₁.trans hR₂⟩

/-- A client alone gets what the row is read as. -/
theorem complete_putRevision {r loaded : Revision host} {row : RevisionRow}
    (hrow : x.find? r.id = some row) (hload : row.load host = .ok loaded)
    (haccepted : loaded.codeDigest = r.codeDigest ∧ loaded.manifest.equals r.manifest = true) :
    ((putRevision r).complete (fun c (_ : Unit) x => c.exec x) () x).2.1 = some (.ok loaded) := by
  simp only [putRevision, getRevision, Proc.complete, Proc.bind_eq, Proc.call_bind, Proc.ofExcept,
    RevisionCmd.exec_select, hrow, hload]
  simp only [Proc.ret_bind, Proc.throwUnless, if_pos haccepted]
  rfl

/-- The row of a revision, which is read as one with the same id and the same content. -/
structure Stores (r : Revision host) (row : RevisionRow) (stored : Revision host) : Prop where
  load : row.load host = .ok stored
  id_eq : stored.id = r.id
  content_eq : stored.content = r.content

include hfl in
/-- A row with the content digest or with the id of a revision stores it, and passes the comparison
with it. -/
theorem exists_stores (hr : r ∈ S.carrier) {own other : RevisionRow} (hown : r.row = .ok own)
    (hother : ∃ r' ∈ S.carrier, r'.row = .ok other)
    (hsame : other.contentDigest = own.contentDigest ∨ other.id = own.id) :
    other.id = r.id ∧ ∃ stored, Stores r other stored ∧
      stored.codeDigest = r.codeDigest ∧ stored.manifest.equals r.manifest = true := by
  obtain ⟨-, hid, hdigest⟩ := Revision.load_row hfl (S.finite r hr) hown
  obtain ⟨r', hr', hrow'⟩ := hother
  obtain ⟨hload', hid', hdigest'⟩ := Revision.load_row hfl (S.finite r' hr') hrow'
  have hcontent : r'.content = r.content := by
    rcases hsame with hsame | hsame
    · exact S.content_eq_of_contentDigest_eq hfl hr' hr hdigest' (hsame ▸ hdigest)
    · exact (S.id_eq_iff hfl hr' hr).mp (hid'.symm.trans (hsame.trans hid))
  have hid_eq : r'.id = r.id := (S.id_eq_iff hfl hr' hr).mpr hcontent
  have hcode : r'.codeDigest = r.codeDigest := congrArg Prod.fst hcontent
  have hsorted : r'.manifest.sorted = r.manifest.sorted := congrArg Prod.snd hcontent
  refine ⟨hid'.trans hid_eq, r'.sorted, ⟨hload', hid_eq, ?_⟩, hcode,
    DeploymentManifest.equals_of_sorted_eq (S.finite r hr) hsorted⟩
  rw [← hcontent, Revision.content, Revision.content, Revision.sorted]
  exact congrArg (Prod.mk r'.codeDigest) r'.manifest.sorted_sorted

include hfl in
/-- **Putting revisions.** However a client that puts a revision ends, among others that do so,
there is a row with the id of the revision and the same content, which is never changed. The client
has returned the revision, which it was the first to put, or what the row is read as; or its
insertion was refused, as another client had just put the same. It does not find a conflict. -/
theorem putRevision_stored (hr : r ∈ S.carrier) (hx : S.Kept x)
    {trace : List ((c : RevisionCmd) × c.Answer)} {result : Except Exn (Revision host)}
    (h : (putRevision r).Completes (fun c (_ : Unit) x => c.exec x) S.Others x trace result y) :
    ∃ row stored, Stores r row stored ∧ (∀ z, S.Others y z → z.find? r.id = some row) ∧
      (result = .ok r ∧ r.row = .ok row ∨ result = .ok stored ∨
        result = .error (.store .integrityError)) := by
  obtain ⟨own, hown⟩ := S.exists_row hfl hr
  obtain ⟨-, hid, -⟩ := Revision.load_row hfl (S.finite r hr) hown
  cases h with
  | @call _ _ _ x₁ _ _ _ _ hR₁ h =>
    have hx₁ := hR₁.kept hx
    rcases hfind : x₁.find? r.id with _ | row
    · simp only [RevisionCmd.exec_select, hfind, hown] at h
      cases h with
      | @call _ _ _ x₂ _ _ _ _ hR₂ h =>
        rcases exec_insert_cases own x₂ with ⟨x₃, hinsert, hrows⟩ | ⟨hinsert, other, hmem, hsame⟩
        · simp only [hinsert] at h
          cases h with
          | ret hR₃ =>
            have hrow : x₃.find? r.id = some own :=
              Table.find?_eq_some_iff.mpr ⟨by simp [hrows], hid⟩
            obtain ⟨-, stored, hstores, -⟩ :=
              exists_stores hfl hr hown ⟨r, hr, hown⟩ (.inr rfl)
            exact ⟨own, stored, hstores, fun z hz => Others.find? (hR₃.trans hz) hrow,
              .inl ⟨rfl, hown⟩⟩
        · simp only [hinsert] at h
          cases h with
          | throw hR₃ =>
            obtain ⟨hrow, stored, hstores, -⟩ :=
              exists_stores hfl hr hown (hR₂.kept hx₁ other hmem) hsame
            have hfound : x₂.find? r.id = some other := Table.find?_eq_some_iff.mpr ⟨hmem, hrow⟩
            exact ⟨other, stored, hstores, fun z hz => Others.find? (hR₃.trans hz) hfound,
              .inr (.inr rfl)⟩
    · obtain ⟨hmem, hrow⟩ := Table.find?_eq_some_iff.mp hfind
      obtain ⟨-, stored, hstores, haccepted⟩ :=
        exists_stores hfl hr hown (hx₁ row hmem) (.inr (hrow.trans hid.symm))
      simp only [RevisionCmd.exec_select, hfind] at h
      rcases h.of_bind Others.refl with ⟨loaded, x₂, past, rest, hget, h, -⟩ | ⟨e, hget, -⟩
      · obtain ⟨hloaded, hR₂⟩ := of_getRevision hfind hget
        cases Except.ok.inj (hloaded.trans hstores.load)
        rw [Proc.throwUnless, if_pos haccepted] at h
        cases h with
        | ret hR₃ =>
          exact ⟨row, stored, hstores, fun z hz => Others.find? (hR₂.trans (hR₃.trans hz)) hfind,
            .inr (.inl rfl)⟩
      · cases (of_getRevision hfind hget).1.trans hstores.load

end Revisions

/-! ### A sample -/

namespace Sample

/-- The hashes of one revision. -/
def revisionHost : RevisionHost where
  texts := texts
  decimals := decimals
  floats := bits
  uuid5 _ := ⟨0xb06566b175e55fe98437543e06a6de98⟩
  sha256 _ := "9319edc4026376eb72f38ca7cd56bd03abd4a1b21bc91f5569e781287bb1d07f"

/-- A manifest, with its resources in some order. -/
def deployment (resources : JsonObject) : DeploymentManifest revisionHost where
  imageDigest := "aaaaaaaaaaaaaaaaaaaaaaaaaaaaaaaaaaaaaaaaaaaaaaaaaaaaaaaaaaaaaaaa"
  planHash := "bbbbbbbbbbbbbbbbbbbbbbbbbbbbbbbbbbbbbbbbbbbbbbbbbbbbbbbbbbbbbbbb"
  pythonVersion := "3.12"
  dependenciesDigest := "cccccccccccccccccccccccccccccccccccccccccccccccccccccccccccccccc"
  resources
  isDigest_imageDigest := by decide +kernel
  isDigest_planHash := by decide +kernel
  isDigest_dependenciesDigest := by decide +kernel

/-- A revision, created at some second. -/
def release (resources : JsonObject) (s : Fin 1000) : Revision revisionHost where
  id := ⟨0xb06566b175e55fe98437543e06a6de98⟩
  codeDigest := "dddddddddddddddddddddddddddddddddddddddddddddddddddddddddddddddd"
  manifest := deployment resources
  createdAt := .utc (reading s)

/-- The first revision. -/
def released : Revision revisionHost := release [("memory", .str "1Gi"), ("cpu", .int 2)] 0

/-- The same revision, created once more. -/
def rebuilt : Revision revisionHost := release [("cpu", .int 2), ("memory", .str "1Gi")] 60

/-- The row of the first one. -/
def releasedRow : RevisionRow where
  id := ⟨0xb06566b175e55fe98437543e06a6de98⟩
  contentDigest := "9319edc4026376eb72f38ca7cd56bd03abd4a1b21bc91f5569e781287bb1d07f"
  codeDigest := "dddddddddddddddddddddddddddddddddddddddddddddddddddddddddddddddd"
  planHash := "bbbbbbbbbbbbbbbbbbbbbbbbbbbbbbbbbbbbbbbbbbbbbbbbbbbbbbbbbbbbbbbb"
  manifestJson := dumpsAscii bits [] (Json.obj released.manifest.fields).sortKeys
  createdAt := .utc (reading 0)

theorem finite_released : released.manifest.Finite := ⟨by decide, trivial, trivial, trivial⟩

theorem row_released : released.row = .ok releasedRow := by
  have hcanonical : released.manifest.canonicalJson = .ok releasedRow.manifestJson := by
    have hwritable : (Json.obj released.manifest.fields).isWritable = true := rfl
    rw [DeploymentManifest.canonicalJson, dumpsAsciiSorted, if_pos hwritable]
    rfl
  obtain ⟨row, hrow⟩ := Revision.exists_row (fun b _ => survives_bits b)
    finite_released hcanonical
  rcases hpayload : released.payload with e | t
  · rw [Revision.row, Revision.contentDigest, hpayload] at hrow
    cases hrow
  · rw [Revision.row, Revision.contentDigest, hpayload, hcanonical]
    rfl

theorem name_release (r : Revision revisionHost) (hr : r ∈ ({released, rebuilt} : Set _)) :
    Revision.name r.codeDigest r.manifest =
      Revision.name released.codeDigest released.manifest := by
  rcases hr with rfl | rfl
  · rfl
  · rfl

theorem payload_release (r : Revision revisionHost) (hr : r ∈ ({released, rebuilt} : Set _)) :
    r.payload = released.payload := by
  rcases hr with rfl | rfl
  · rfl
  · rfl

/-- The two are told apart from no other one. -/
def releases : Revisions revisionHost where
  carrier := {released, rebuilt}
  created := by
    rintro r (rfl | rfl)
    · rfl
    · rfl
  finite := by
    rintro r (rfl | rfl)
    · exact finite_released
    · exact ⟨by decide, trivial, trivial, trivial⟩
  uuid5 r hr r' hr' t t' ht ht' _ := Except.ok.inj
    (ht.symm.trans ((name_release r hr).trans ((name_release r' hr').symm.trans ht')))
  sha256 r hr r' hr' t t' ht ht' _ := Except.ok.inj
    (ht.symm.trans ((payload_release r hr).trans ((payload_release r' hr').symm.trans ht')))

/-- The table with the first one. -/
def releaseTable : RevisionTable := ⟨[releasedRow], by simp⟩

theorem kept_releaseTable : releases.Kept releaseTable := by
  intro row hrow
  cases List.mem_singleton.mp hrow
  exact ⟨released, .inl rfl, row_released⟩

/-- The second one is put after the first one. -/
theorem rebuilt_stored : ∃ trace y row stored,
    (putRevision rebuilt).Completes (fun c (_ : Unit) x => c.exec x) releases.Others releaseTable
      trace (.ok released.sorted) y ∧
    Revisions.Stores rebuilt row stored ∧
    (∀ z, releases.Others y z → z.find? rebuilt.id = some row) ∧
    ((.ok released.sorted : Except Exn (Revision revisionHost)) = .ok rebuilt ∧
        rebuilt.row = .ok row ∨
      (.ok released.sorted : Except Exn (Revision revisionHost)) = .ok stored ∨
      (.ok released.sorted : Except Exn (Revision revisionHost)) =
        .error (.store .integrityError)) := by
  have hrefl := Revisions.Others.refl (S := releases)
  have hfind : releaseTable.find? rebuilt.id = some releasedRow := rfl
  have hload : releasedRow.load revisionHost = .ok released.sorted :=
    (Revision.load_row (fun b _ => survives_bits b) finite_released row_released).1
  have hequal : released.sorted.codeDigest = rebuilt.codeDigest ∧
      released.sorted.manifest.equals rebuilt.manifest = true := ⟨rfl, rfl⟩
  have hresult := Revisions.complete_putRevision hfind hload hequal
  have h := Proc.completes_complete hrefl hresult
  obtain ⟨row, stored, hrow⟩ := releases.putRevision_stored (fun b _ => survives_bits b)
    (.inr rfl) kept_releaseTable h
  exact ⟨_, _, row, stored, h, hrow⟩

end Sample

end OpenRath
