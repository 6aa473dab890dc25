import OpenRath.Library.JsonObject
import OpenRath.Runtime.World

/-!
# The configuration on disk

`ConfigStore` (`src/rath/config/store.py`) keeps a configuration in two files: `config.json` without
secrets, and `credentials.json` with the keys of the providers (`src/rath/config/credentials.py`).
When the configuration is read, the keys are filled in where the first file has none.

A configuration is what its schema makes of a document. The schema does not distinguish a provider
without a key from one whose key is null, nor the places at which the keys stand.

## Main definitions

* `splitSecrets`, `secretsFromConfig`, `mergeCredentials`, `loadOrDefault`.
* `withKeys`: a document with the keys of another one.

## Main results

* `configuration_mergeCredentials`: what is read from the two files of different documents.
* `secretsOf_credentialsFile`: the keys that the second file has.
* `withKeys_keysOf`: a document is read as it has been written.
-/

namespace OpenRath

namespace ConfigStore

open JsonObject (get?_append get?_singleton get?_erase_self get?_of_mem erase_erase erase_insert
  getD_erase getD_insert)

/-- A file as it is parsed. -/
inductive Document
  | json (v : Json)
  | invalid (lineno colno : ℕ) (msg : String)
  | undecodable (message : String)
deriving DecidableEq

/-- `SECRET_SECTIONS`. -/
def secretSections : List String := ["llm", "backend"]

/-- The providers of a section, if it has some. -/
def providers (o : JsonObject) (sectionName : String) : JsonObject :=
  match o.getD sectionName with
  | .obj sect =>
    match JsonObject.getD sect "providers" with
    | .obj providers => providers
    | _ => []
  | _ => []

/-- The fields of an object change. -/
def onObject (f : JsonObject → JsonObject) : Json → Json
  | .obj o => .obj (f o)
  | v => v

/-- The entries of all providers in the sections with secrets change. -/
def mapEntries (f : String → String → JsonObject → JsonObject) (o : JsonObject) : JsonObject :=
  o.map fun sect =>
    if sect.1 ∈ secretSections then
      (sect.1, onObject (List.map fun field =>
        if field.1 = "providers" then
          (field.1, onObject (List.map fun entry =>
            (entry.1, onObject (f sect.1 entry.1) entry.2)) field.2)
        else field) sect.2)
    else sect

/-! ### Secrets -/

/-- An entry without the key that is a secret. -/
def stripKey (entry : JsonObject) : JsonObject :=
  if (entry.getD "api_key").truthy then entry.erase "api_key" else entry

/-- The keys of the providers of a section that are secrets. -/
def sectionKeys (payload : JsonObject) (sectionName : String) : JsonObject :=
  (providers payload sectionName).filterMap fun p =>
    match p.2 with
    | .obj entry =>
      if (JsonObject.getD entry "api_key").truthy then some (p.1, JsonObject.getD entry "api_key")
      else none
    | _ => none

/-- `split_secrets`. -/
def splitSecrets (payload : JsonObject) : JsonObject × JsonObject :=
  (mapEntries (fun _ _ => stripKey) payload,
    secretSections.filterMap fun sectionName =>
      if sectionKeys payload sectionName = [] then none
      else some (sectionName, .obj [("providers", .obj (sectionKeys payload sectionName))]))

/-- Keys, by section and name of the provider. -/
abbrev Secrets : Type := List ((String × String) × String)

/-- The key of a provider. -/
def Secrets.get? (secrets : Secrets) (sectionName name : String) : Option String :=
  (secrets.find? fun s => s.1 = (sectionName, name)).map Prod.snd

/-- A key that is a nonempty text, by section and name. -/
def textKey (sectionName : String) (p : String × Json) : Option ((String × String) × String) :=
  match p.2 with
  | .str key => if key ≠ "" then some ((sectionName, p.1), key) else none
  | _ => none

/-- `secrets_from_config`. -/
def secretsFromConfig (credentials : JsonObject) : Secrets :=
  secretSections.flatMap fun sectionName =>
    (providers credentials sectionName).filterMap (textKey sectionName)

/-- The secrets that are read from `credentials.json`. A file that is no JSON is ignored. -/
def secretsOf : Option Document → Except Exn Secrets
  | some (.json (.obj credentials)) => .ok (secretsFromConfig credentials)
  | some (.undecodable message) => .error (.other "UnicodeDecodeError" message)
  | some (.json _) | some (.invalid _ _ _) | none => .ok []

/-- An entry with the key that is kept for it, unless it has one itself. -/
def mergeEntry (secrets : Secrets) (sectionName name : String) (entry : JsonObject) : JsonObject :=
  if (entry.getD "api_key").truthy then entry
  else
    match secrets.get? sectionName name with
    | some key => entry.insert "api_key" (.str key)
    | none => entry

/-- `_merge_credentials`. -/
def mergeCredentials (secrets : Secrets) (raw : JsonObject) : JsonObject :=
  mapEntries (mergeEntry secrets) raw

/-! ### Reading -/

/-- An entry with its key at the end, which is null if there is none. -/
def lastKey (entry : JsonObject) (key : Json) : JsonObject :=
  entry.erase "api_key" ++ [("api_key", key)]

/-- A document whose providers have their keys at the end. -/
def configuration (raw : JsonObject) : JsonObject :=
  mapEntries (fun _ _ entry => lastKey entry (entry.getD "api_key")) raw

/-- The schema of configurations, and the one without a file. -/
structure Schema (Config : Type) where
  default : Config
  /-- The configuration of a document, or what is wrong with it. -/
  parse : JsonObject → Except String Config

variable {Config : Type} (schema : Schema Config) (path : String)

/-- `RathConfig.model_validate`. -/
def modelValidate (raw : JsonObject) : Except Exn Config :=
  match schema.parse (configuration raw) with
  | .ok config => .ok config
  | .error e => .error (.other "ConfigError" s!"{path} failed schema validation: {e}")

/-- `_load_or_default`, of the contents of the two files. -/
def loadOrDefault (config credentials : Option Document) : Except Exn Config :=
  match config with
  | none => .ok schema.default
  | some (.invalid lineno colno msg) =>
    .error (.other "ConfigError"
      s!"{path} is not valid JSON (line {lineno}, col {colno}): {msg}")
  | some (.undecodable message) => .error (.other "UnicodeDecodeError" message)
  | some (.json (.obj raw)) => do
    let secrets ← secretsOf credentials
    modelValidate schema path (mergeCredentials secrets raw)
  | some (.json v) =>
    .error (.other "ConfigError" s!"{path} top-level must be a JSON object, got {v.typeName}")

/-! ### Writing -/

/-- What `save` writes to `config.json`. -/
def configFile (payload : JsonObject) : Document := .json (.obj (splitSecrets payload).1)

/-- What `save` writes to `credentials.json`, which is removed if there are no secrets. -/
def credentialsFile (payload : JsonObject) : Option Document :=
  if (splitSecrets payload).2 = [] then none
  else some (.json (.obj ((splitSecrets payload).2.insert "version" (.int 1))))

/-! ### The keys of a document -/

/-- The keys of the providers of a document. -/
def keysOf (payload : JsonObject) : Secrets :=
  secretSections.flatMap fun sectionName =>
    (providers payload sectionName).filterMap fun p =>
      match p.2 with
      | .obj entry => textKey sectionName (p.1, JsonObject.getD entry "api_key")
      | _ => none

/-- The key that a provider gets from other keys than its own, which it keeps if it is empty. -/
def otherKey (secrets : Secrets) (sectionName name : String) (own : Json) : Json :=
  match secrets.get? sectionName name with
  | some key => .str key
  | none => if own.truthy then .null else own

/-- The configuration of a document, with other keys for its providers. -/
def withKeys (secrets : Secrets) (payload : JsonObject) : JsonObject :=
  mapEntries (fun sectionName name entry =>
    lastKey entry (otherKey secrets sectionName name (entry.getD "api_key"))) payload

/-! ### The entries of the providers -/

theorem onObject_onObject (f g : JsonObject → JsonObject) (v : Json) :
    onObject f (onObject g v) = onObject (fun o => f (g o)) v := by
  cases v <;> rfl

/-- Two changes of the entries, one after the other. -/
theorem mapEntries_mapEntries (f g : String → String → JsonObject → JsonObject) (o : JsonObject) :
    mapEntries f (mapEntries g o) =
      mapEntries (fun sectionName name entry =>
        f sectionName name (g sectionName name entry)) o := by
  rw [mapEntries, mapEntries, mapEntries, List.map_map]
  refine List.map_congr_left fun sect _ => ?_
  by_cases hsect : sect.1 ∈ secretSections
  · simp only [Function.comp_apply, if_pos hsect]
    rw [onObject_onObject]
    congr 2
    funext fields
    rw [List.map_map]
    refine List.map_congr_left fun field _ => ?_
    by_cases hfield : field.1 = "providers"
    · simp only [Function.comp_apply, if_pos hfield]
      rw [onObject_onObject]
      congr 2
      funext entries
      rw [List.map_map]
      refine List.map_congr_left fun entry _ => ?_
      simp only [Function.comp_apply, onObject_onObject]
    · simp only [Function.comp_apply, if_neg hfield]
  · simp only [Function.comp_apply, if_neg hsect]

theorem lastKey_erase (entry : JsonObject) (key : Json) :
    lastKey (entry.erase "api_key") key = lastKey entry key := by
  rw [lastKey, lastKey, erase_erase]

theorem lastKey_insert (entry : JsonObject) (key value : Json) :
    lastKey (entry.insert "api_key" value) key = lastKey entry key := by
  rw [lastKey, lastKey, erase_insert]

/-- The entry of a provider, whose key has been taken out and filled in again. -/
theorem lastKey_mergeEntry (secrets : Secrets) (sectionName name : String) (entry : JsonObject) :
    lastKey (mergeEntry secrets sectionName name (stripKey entry))
        ((mergeEntry secrets sectionName name (stripKey entry)).getD "api_key") =
      lastKey entry (otherKey secrets sectionName name (entry.getD "api_key")) := by
  by_cases hown : (entry.getD "api_key").truthy = true
  · have hstrip : stripKey entry = entry.erase "api_key" := if_pos hown
    have hnull : ¬ Json.null.truthy = true := Bool.false_ne_true
    rw [hstrip, mergeEntry, otherKey, getD_erase, if_neg hnull]
    rcases secrets.get? sectionName name with _ | key
    · rw [getD_erase, lastKey_erase]
      exact congrArg (lastKey entry) (if_pos hown).symm
    · rw [getD_insert, lastKey_insert, lastKey_erase]
  · have hstrip : stripKey entry = entry := if_neg hown
    rw [hstrip, mergeEntry, otherKey, if_neg hown]
    rcases secrets.get? sectionName name with _ | key
    · exact congrArg (lastKey entry) (if_neg hown).symm
    · rw [getD_insert, lastKey_insert]

/-- **Two documents.** What is read from the first file of a document has the keys of the second
file, whatever keys the document has had. -/
theorem configuration_mergeCredentials (secrets : Secrets) (payload : JsonObject) :
    configuration (mergeCredentials secrets (splitSecrets payload).1) =
      withKeys secrets payload := by
  rw [configuration, mergeCredentials, splitSecrets, mapEntries_mapEntries, mapEntries_mapEntries,
    withKeys]
  congr 1
  funext sectionName name entry
  exact lastKey_mergeEntry secrets sectionName name entry

/-! ### The file of the keys -/

/-- The providers of the second file are those that have a secret key. -/
theorem providers_splitSecrets (payload : JsonObject) {sectionName : String}
    (h : sectionName ∈ secretSections) (version : Json) :
    providers ((splitSecrets payload).2.insert "version" version) sectionName =
      sectionKeys payload sectionName := by
  have hcases : sectionName = "llm" ∨ sectionName = "backend" := by
    simpa [secretSections] using h
  by_cases hllm : sectionKeys payload "llm" = [] <;>
    by_cases hbackend : sectionKeys payload "backend" = [] <;> rcases hcases with rfl | rfl <;>
    simp [splitSecrets, secretSections, hllm, hbackend, JsonObject.insert, providers,
      JsonObject.getD, JsonObject.get?]

/-- The keys of a document are those of its secrets that are texts. -/
theorem keysOf_eq (payload : JsonObject) : keysOf payload =
    secretSections.flatMap fun sectionName =>
      (sectionKeys payload sectionName).filterMap (textKey sectionName) := by
  rw [keysOf]
  congr 1
  funext sectionName
  rw [sectionKeys, List.filterMap_filterMap]
  congr 1
  funext p
  rcases p.2 with _ | _ | _ | _ | _ | _ | entry <;> try rfl
  by_cases htruthy : (JsonObject.getD entry "api_key").truthy = true
  · simp only [if_pos htruthy, Option.bind_some]
  · simp only [if_neg htruthy, Option.bind_none]
    rcases hkey : JsonObject.getD entry "api_key" with _ | b | n | x | key | items | fields <;>
      try rfl
    rw [hkey] at htruthy
    have hempty : key = "" := by simpa [Json.truthy] using htruthy
    exact if_neg (not_not_intro hempty)

/-- The keys that the second file has are those of the document. -/
theorem secretsOf_credentialsFile (payload : JsonObject) :
    secretsOf (credentialsFile payload) = .ok (keysOf payload) := by
  rw [credentialsFile, keysOf_eq]
  split_ifs with hnone
  · have hkeys : ∀ sectionName ∈ secretSections, sectionKeys payload sectionName = [] := by
      intro sectionName hmem
      by_contra hkeys
      have hnot := List.filterMap_eq_nil_iff.mp hnone sectionName hmem
      rw [if_neg hkeys] at hnot
      cases hnot
    have hempty : (secretSections.flatMap fun sectionName =>
        (sectionKeys payload sectionName).filterMap (textKey sectionName)) = [] := by
      refine List.flatMap_eq_nil_iff.mpr fun sectionName hmem => ?_
      rw [hkeys sectionName hmem]
      rfl
    rw [hempty]
    rfl
  · show Except.ok (secretsFromConfig _) = _
    rw [secretsFromConfig]
    congr 1
    refine List.flatMap_congr fun sectionName hmem => ?_
    rw [providers_splitSecrets payload hmem]

/-! ### A document with its own keys -/

/-- A document to which a configuration is serialized: names occur once, and keys are texts. -/
structure Dumped (payload : JsonObject) : Prop where
  sections : (payload.map Prod.fst).Nodup
  fields : ∀ sectionName ∈ secretSections, ∀ sect, (sectionName, Json.obj sect) ∈ payload →
    (sect.map Prod.fst).Nodup
  names : ∀ sectionName ∈ secretSections, ((providers payload sectionName).map Prod.fst).Nodup
  keys : ∀ sectionName ∈ secretSections, ∀ (name : String) (entry : JsonObject),
    (name, Json.obj entry) ∈ providers payload sectionName →
      entry.getD "api_key" = .null ∨ ∃ key, entry.getD "api_key" = .str key

/-- Changes that agree on the entries of the providers change the document in the same way. -/
theorem Dumped.mapEntries_congr {payload : JsonObject} (hdumped : Dumped payload)
    {f g : String → String → JsonObject → JsonObject}
    (h : ∀ sectionName ∈ secretSections, ∀ (name : String) (entry : JsonObject),
      (name, Json.obj entry) ∈ providers payload sectionName →
        f sectionName name entry = g sectionName name entry) :
    mapEntries f payload = mapEntries g payload := by
  rw [mapEntries, mapEntries]
  refine List.map_congr_left fun sect hsect => ?_
  by_cases hmem : sect.1 ∈ secretSections
  · rw [if_pos hmem, if_pos hmem]
    obtain ⟨sectionName, value⟩ := sect
    rcases value with _ | _ | _ | _ | _ | _ | fields <;> try rfl
    have hnodup := hdumped.fields sectionName hmem fields hsect
    refine congrArg (fun o => (sectionName, Json.obj o)) ?_
    refine List.map_congr_left fun field hfield => ?_
    by_cases hname : field.1 = "providers"
    · rw [if_pos hname, if_pos hname]
      obtain ⟨fieldName, value⟩ := field
      obtain rfl : fieldName = "providers" := hname
      rcases value with _ | _ | _ | _ | _ | _ | entries <;> try rfl
      have hproviders : providers payload sectionName = entries := by
        simp [providers, JsonObject.getD, get?_of_mem hdumped.sections hsect,
          get?_of_mem hnodup hfield]
      refine congrArg (fun o => ("providers", Json.obj o)) ?_
      refine List.map_congr_left fun entry hentry => ?_
      obtain ⟨name, value⟩ := entry
      rcases value with _ | _ | _ | _ | _ | _ | entry <;> try rfl
      exact congrArg (fun o => (name, Json.obj o))
        (h sectionName hmem name entry (hproviders ▸ hentry))
    · rw [if_neg hname, if_neg hname]
  · rw [if_neg hmem, if_neg hmem]

theorem textKey_eq_some {sectionName : String} {p : String × Json}
    {secret : (String × String) × String} : textKey sectionName p = some secret ↔
      ∃ key, p.2 = .str key ∧ key ≠ "" ∧ secret = ((sectionName, p.1), key) := by
  obtain ⟨name, value⟩ := p
  constructor
  · intro h
    rcases value with _ | _ | _ | _ | key | _ | _ <;> try cases h
    obtain ⟨hne, hsame⟩ := Option.ite_none_right_eq_some.mp h
    exact ⟨key, rfl, hne, (Option.some.inj hsame).symm⟩
  · rintro ⟨key, hvalue, hne, rfl⟩
    obtain rfl : value = .str key := hvalue
    exact if_pos hne

/-- The keys of a document, one by one. -/
theorem mem_keysOf {payload : JsonObject} {sectionName name key : String} :
    ((sectionName, name), key) ∈ keysOf payload ↔
      sectionName ∈ secretSections ∧
        ∃ entry, (name, Json.obj entry) ∈ providers payload sectionName ∧
          JsonObject.getD entry "api_key" = .str key ∧ key ≠ "" := by
  rw [keysOf, List.mem_flatMap]
  constructor
  · rintro ⟨sectionName', hmem, hkey⟩
    obtain ⟨⟨name', value⟩, hentry, hkey⟩ := List.mem_filterMap.mp hkey
    rcases value with _ | _ | _ | _ | _ | _ | entry <;> try cases hkey
    obtain ⟨key', hvalue, hne, hsame⟩ := textKey_eq_some.mp hkey
    cases hsame
    exact ⟨hmem, entry, hentry, hvalue, hne⟩
  · rintro ⟨hmem, entry, hentry, hvalue, hne⟩
    refine ⟨sectionName, hmem, List.mem_filterMap.mpr ⟨_, hentry, ?_⟩⟩
    exact textKey_eq_some.mpr ⟨key, hvalue, hne, rfl⟩

/-- A document keeps its own keys. -/
theorem withKeys_keysOf {payload : JsonObject} (hdumped : Dumped payload) :
    withKeys (keysOf payload) payload = configuration payload := by
  refine hdumped.mapEntries_congr fun sectionName hmem name entry hentry => ?_
  refine congrArg (lastKey entry) ?_
  have hentries : ∀ entry', (name, Json.obj entry') ∈ providers payload sectionName →
      entry' = entry := by
    intro entry' hentry'
    have hvalue := get?_of_mem (hdumped.names sectionName hmem) hentry
    rw [get?_of_mem (hdumped.names sectionName hmem) hentry'] at hvalue
    cases hvalue
    rfl
  rcases hget : (keysOf payload).get? sectionName name with _ | key
  · rw [otherKey, hget]
    rcases hdumped.keys sectionName hmem name entry hentry with hnull | ⟨key, hkey⟩
    · rw [hnull]
      rfl
    · by_cases hempty : key = ""
      · rw [hkey, hempty]
        rfl
      · have hkeys := mem_keysOf.mpr ⟨hmem, entry, hentry, hkey, hempty⟩
        have hnone := List.find?_eq_none.mp (Option.map_eq_none_iff.mp hget) _ hkeys
        exact absurd (decide_eq_true rfl) hnone
  · rw [otherKey, hget]
    obtain ⟨⟨⟨sectionName', name'⟩, key'⟩, hfind, hsame⟩ := Option.map_eq_some_iff.mp hget
    cases hsame
    have hname : (sectionName', name') = (sectionName, name) := by
      simpa using List.find?_some hfind
    cases hname
    obtain ⟨-, entry', hentry', hvalue, -⟩ := mem_keysOf.mp (List.mem_of_find?_eq_some hfind)
    rw [← hentries entry' hentry', hvalue]

end ConfigStore

end OpenRath
