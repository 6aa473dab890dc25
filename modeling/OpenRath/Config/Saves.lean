import OpenRath.Config.Store
import OpenRath.Library.Events

/-!
# Saves of a configuration

`ConfigStore.save` (`src/rath/config/store.py`) writes the two files of a configuration one after
the other: it replaces `config.json`, and then it replaces `credentials.json`, or removes it if no
key is left. The lock that it holds meanwhile is one of the store. So the saves of different stores
come in between each other, and a save may stop after its first file.

What is loaded afterwards therefore has the entries of one save and the keys of another one, or of
the files before all saves. It is one of the configurations that have been saved, or the one before,
exactly if these do not differ in their keys in a way that the configurations show.

## Main definitions

* `ConfigStore.step`: one of the writes of a save.
* `ConfigStore.Saved`: the configurations that may be loaded.
* `ConfigStore.Interchangeable`: the keys of the saves fit to each other.

## Main results

* `ConfigStore.saved_iff`: when all loads give a configuration that has been saved.
* `ConfigStore.newStore_of_save`: a save that nothing disturbs is loaded again.
* `ConfigStore.saved_of_same_keys`: saves that leave the keys as they are do no harm.
-/

namespace OpenRath

namespace ConfigStore

open JsonObject (get?_append get?_singleton get?_erase_self erase_erase)

/-- How far a save has come. -/
inductive SavePhase
  | waiting
  | configWritten
  | finished
deriving DecidableEq

/-- A call of `save`, on a store whose configuration is serialized to the payload. -/
structure Save where
  store : ℕ
  payload : JsonObject
  phase : SavePhase

/-- The two files of a configuration. -/
structure Files where
  config : Option Document
  credentials : Option Document

/-- The files and the saves that are made on them. -/
structure Saving where
  files : Files
  saves : List Save

/-- A save goes on by one write, or it goes no further: it raises, or its process is killed. -/
inductive SaveEvent
  | write (i : ℕ)
  | stop (i : ℕ)

/-- `_save_lock` of a store is held. -/
def Saving.locked (s : Saving) (store : ℕ) : Prop :=
  ∃ save ∈ s.saves, save.store = store ∧ save.phase = .configWritten

instance (s : Saving) (store : ℕ) : Decidable (s.locked store) :=
  inferInstanceAs (Decidable (∃ save ∈ s.saves, save.store = store ∧ save.phase = .configWritten))

/-- No save has written its first file only. -/
def Saving.Quiet (s : Saving) : Prop := ∀ save ∈ s.saves, save.phase ≠ .configWritten

/-- A save moves on to another phase. -/
def Saving.setPhase (s : Saving) (i : ℕ) (save : Save) (phase : SavePhase) : List Save :=
  s.saves.set i { save with phase }

/-- The writes of `save`. -/
def step (s : Saving) : SaveEvent → Option Saving
  | .write i => do
    let save ← s.saves[i]?
    match save.phase with
    | .waiting =>
      if s.locked save.store then none
      else
        some ⟨⟨some (configFile save.payload), s.files.credentials⟩,
          s.setPhase i save .configWritten⟩
    | .configWritten =>
      some ⟨⟨s.files.config, credentialsFile save.payload⟩, s.setPhase i save .finished⟩
    | .finished => none
  | .stop i => do
    let save ← s.saves[i]?
    some ⟨s.files, s.setPhase i save .finished⟩

/-- Some saves are about to be made, by their stores and payloads. -/
def start (files : Files) (calls : List (ℕ × JsonObject)) : Saving :=
  ⟨files, calls.map fun call => ⟨call.1, call.2, .waiting⟩⟩

variable {Config : Type} (schema : Schema Config) (path : String)

/-- What a new store has, which reads the files. -/
def newStore (files : Files) : Except Exn Config :=
  loadOrDefault schema path files.config files.credentials

/-- What is loaded is the configuration before all saves, or the one that a save has been asked
for. -/
def Saved (files : Files) (calls : List (ℕ × JsonObject)) (config : Except Exn Config) : Prop :=
  config = newStore schema path files ∨ ∃ call ∈ calls, config = modelValidate schema path call.2

/-- The configuration of a payload, with other keys. -/
def validateWithKeys (keys : Except Exn Secrets) (payload : JsonObject) : Except Exn Config := do
  let secrets ← keys
  modelValidate schema path (withKeys secrets payload)

/-- The configuration of a save, with the keys from before or of any of the saves, is that of a save
or the one before. -/
def Interchangeable (files : Files) (calls : List (ℕ × JsonObject)) : Prop :=
  ∀ call ∈ calls,
    Saved schema path files calls
        (validateWithKeys schema path (secretsOf files.credentials) call.2) ∧
      ∀ other ∈ calls,
        Saved schema path files calls
          (validateWithKeys schema path (.ok (keysOf other.2)) call.2)

/-! ### Loads -/

theorem lastKey_lastKey (entry : JsonObject) (key : Json) :
    lastKey (lastKey entry key) ((lastKey entry key).getD "api_key") = lastKey entry key := by
  have hkey : (lastKey entry key).getD "api_key" = key := by
    rw [lastKey, JsonObject.getD, get?_append, get?_erase_self, get?_singleton, if_pos rfl]
    rfl
  have herase : (lastKey entry key).erase "api_key" = entry.erase "api_key" := by
    rw [lastKey, JsonObject.erase, List.filter_append]
    have hsame := erase_erase entry "api_key"
    rw [JsonObject.erase] at hsame
    rw [hsame]
    exact List.append_nil _
  rw [hkey, lastKey, herase, lastKey]

/-- A document with other keys is already written as a configuration. -/
theorem configuration_withKeys (secrets : Secrets) (payload : JsonObject) :
    configuration (withKeys secrets payload) = withKeys secrets payload := by
  rw [configuration, withKeys, mapEntries_mapEntries]
  congr 1
  funext sectionName name entry
  exact lastKey_lastKey entry _

/-- What is loaded after the first file of a save has been written. -/
theorem newStore_configFile (payload : JsonObject) (credentials : Option Document) :
    newStore schema path ⟨some (configFile payload), credentials⟩ =
      validateWithKeys schema path (secretsOf credentials) payload := by
  show (secretsOf credentials).bind _ = (secretsOf credentials).bind _
  congr 1
  funext secrets
  rw [modelValidate, modelValidate, configuration_mergeCredentials, configuration_withKeys]

/-- The keys of a document are those of its configuration. -/
theorem validateWithKeys_keysOf {payload : JsonObject} (hdumped : Dumped payload) :
    validateWithKeys schema path (.ok (keysOf payload)) payload =
      modelValidate schema path payload := by
  show modelValidate schema path (withKeys (keysOf payload) payload) = _
  rw [modelValidate, configuration_withKeys, withKeys_keysOf hdumped, modelValidate]

/-- Saves that leave the keys as they are fit to each other. -/
theorem interchangeable_of_same_keys {files : Files} {calls : List (ℕ × JsonObject)}
    (hdumped : ∀ call ∈ calls, Dumped call.2) {secrets : Secrets}
    (hbefore : secretsOf files.credentials = .ok secrets)
    (hkeys : ∀ call ∈ calls, keysOf call.2 = secrets) :
    Interchangeable schema path files calls := by
  intro call hcall
  have hown := validateWithKeys_keysOf schema path (hdumped call hcall)
  refine ⟨.inr ⟨call, hcall, ?_⟩, fun other hother => .inr ⟨call, hcall, ?_⟩⟩
  · rw [hbefore, ← hkeys call hcall, hown]
  · rw [hkeys other hother, ← hkeys call hcall, hown]

/-! ### The files after some writes -/

variable (files : Files) (calls : List (ℕ × JsonObject))

/-- The first file is that of a save, and the second one is that of a save or has not been
written. -/
structure Written (s : Saving) : Prop where
  config : ∃ call ∈ calls, s.files.config = some (configFile call.2)
  credentials : s.files.credentials = files.credentials ∨
    ∃ call ∈ calls, s.files.credentials = credentialsFile call.2

/-- Nothing has been written yet, or the first file is that of a save. -/
structure Inv (s : Saving) : Prop where
  payloads : ∀ save ∈ s.saves, (save.store, save.payload) ∈ calls
  files : (s.files = files ∧ s.Quiet) ∨
    Written files calls s

variable {files calls} {s s' : Saving}

theorem Inv.payloads_set (hinv : Inv files calls s) {i : ℕ} {save : Save} (phase : SavePhase)
    (hsave : s.saves[i]? = some save) :
    ∀ other ∈ s.setPhase i save phase, (other.store, other.payload) ∈ calls := by
  intro other hother
  rcases List.mem_or_eq_of_mem_set hother with hother | rfl
  · exact hinv.payloads other hother
  · exact hinv.payloads save (List.mem_of_getElem? hsave)

theorem inv_start : Inv files calls (start files calls) := by
  refine ⟨fun save hsave => ?_, .inl ⟨rfl, fun save hsave => ?_⟩⟩
  · obtain ⟨call, hcall, rfl⟩ := List.mem_map.mp hsave
    exact hcall
  · obtain ⟨call, -, rfl⟩ := List.mem_map.mp hsave
    exact SavePhase.noConfusion

/-- What a write does. -/
theorem write_cases {i : ℕ} (h : step s (.write i) = some s') :
    ∃ save, s.saves[i]? = some save ∧
      ((save.phase = .waiting ∧ s'.files = ⟨some (configFile save.payload), s.files.credentials⟩ ∧
          s'.saves = s.setPhase i save .configWritten) ∨
        (save.phase = .configWritten ∧
          s'.files = ⟨s.files.config, credentialsFile save.payload⟩ ∧
          s'.saves = s.setPhase i save .finished)) := by
  obtain ⟨save, hsave, hwrite⟩ := Option.bind_eq_some_iff.mp h
  refine ⟨save, hsave, ?_⟩
  rcases hphase : save.phase with _ | _ | _ <;> rw [hphase] at hwrite
  · by_cases hlocked : s.locked save.store
    · rw [if_pos hlocked] at hwrite
      cases hwrite
    · rw [if_neg hlocked] at hwrite
      cases hwrite
      exact .inl ⟨rfl, rfl, rfl⟩
  · cases hwrite
    exact .inr ⟨rfl, rfl, rfl⟩
  · cases hwrite

theorem inv_step {e : SaveEvent} (hinv : Inv files calls s) (h : step s e = some s') :
    Inv files calls s' := by
  rcases e with i | i
  · obtain ⟨save, hsave, ⟨-, hfiles, hsaves⟩ | ⟨hphase, hfiles, hsaves⟩⟩ := write_cases h
    · have hcall := hinv.payloads save (List.mem_of_getElem? hsave)
      refine ⟨hsaves ▸ hinv.payloads_set _ hsave, .inr ⟨⟨_, hcall, by rw [hfiles]⟩, ?_⟩⟩
      have hcredentials : s'.files.credentials = s.files.credentials := by rw [hfiles]
      rw [hcredentials]
      rcases hinv.files with ⟨hsame, -⟩ | hwritten
      · exact .inl (congrArg Files.credentials hsame)
      · exact hwritten.credentials
    · have hcall := hinv.payloads save (List.mem_of_getElem? hsave)
      refine ⟨hsaves ▸ hinv.payloads_set _ hsave, .inr ?_⟩
      rcases hinv.files with ⟨-, hnone⟩ | hwritten
      · exact absurd hphase (hnone save (List.mem_of_getElem? hsave))
      · obtain ⟨call, hmem, hconfig⟩ := hwritten.config
        refine ⟨⟨call, hmem, by rw [hfiles, hconfig]⟩, .inr ⟨_, hcall, by rw [hfiles]⟩⟩
  · obtain ⟨save, hsave, hstop⟩ := Option.bind_eq_some_iff.mp h
    cases hstop
    refine ⟨hinv.payloads_set _ hsave, ?_⟩
    rcases hinv.files with ⟨hsame, hnone⟩ | hwritten
    · refine .inl ⟨hsame, fun other hother => ?_⟩
      rcases List.mem_or_eq_of_mem_set hother with hother | rfl
      · exact hnone other hother
      · exact SavePhase.noConfusion
    · exact .inr ⟨hwritten.config, hwritten.credentials⟩

/-- All states between the writes keep the invariant. -/
theorem inv_run {events : List SaveEvent}
    (h : Events.final? step (start files calls) events = some s') : Inv files calls s' := by
  have hstep : ∀ (s : Saving) (e : SaveEvent) (s' : Saving), Inv files calls s →
      step s e = some s' → Inv files calls s' := fun _ _ _ hinv hs => inv_step hinv hs
  exact Events.invariant_of_step hstep inv_start h

/-! ### Which files can be there -/

/-- A save can begin if no other one has been begun. -/
theorem step_write_waiting {i : ℕ} {save : Save} (hsave : s.saves[i]? = some save)
    (hphase : save.phase = .waiting) (hquiet : s.Quiet) :
    ∃ s', step s (.write i) = some s' ∧
      s'.files = ⟨some (configFile save.payload), s.files.credentials⟩ ∧
        s'.saves = s.setPhase i save .configWritten := by
  refine ⟨⟨_, _⟩, ?_, rfl, rfl⟩
  have hlocked : ¬ s.locked save.store := by
    rintro ⟨other, hother, -, hwritten⟩
    exact hquiet other hother hwritten
  obtain ⟨store, payload, phase⟩ := save
  obtain rfl : phase = .waiting := hphase
  rw [step, hsave]
  exact if_neg hlocked

/-- A save that has begun can write its second file. -/
theorem step_write_configWritten {i : ℕ} {save : Save} (hsave : s.saves[i]? = some save)
    (hphase : save.phase = .configWritten) :
    ∃ s', step s (.write i) = some s' ∧
      s'.files = ⟨s.files.config, credentialsFile save.payload⟩ ∧
        s'.saves = s.setPhase i save .finished := by
  refine ⟨⟨_, _⟩, ?_, rfl, rfl⟩
  obtain ⟨store, payload, phase⟩ := save
  obtain rfl : phase = .configWritten := hphase
  rw [step, hsave]
  rfl

/-- The states between the writes load what is saved if the saves fit to each other. -/
theorem Inv.saved (schema : Schema Config) (path : String) (hinv : Inv files calls s)
    (hsaves : Interchangeable schema path files calls) :
    Saved schema path files calls (newStore schema path s.files) := by
  rcases hinv.files with ⟨hsame, -⟩ | hwritten
  · exact .inl (congrArg (newStore schema path) hsame)
  · obtain ⟨call, hcall, hconfig⟩ := hwritten.config
    have hload := newStore_configFile schema path call.2 s.files.credentials
    rw [← hconfig] at hload
    rw [show newStore schema path s.files = _ from hload]
    rcases hwritten.credentials with hsame | ⟨other, hother, hcredentials⟩
    · rw [hsame]
      exact (hsaves call hcall).1
    · rw [hcredentials, secretsOf_credentialsFile]
      exact (hsaves call hcall).2 other hother

/-- No save has been begun at the start. -/
theorem quiet_start : (start files calls).Quiet := by
  intro save hsave
  obtain ⟨call, -, rfl⟩ := List.mem_map.mp hsave
  exact SavePhase.noConfusion

theorem getElem?_start {i : ℕ} {call : ℕ × JsonObject} (h : calls[i]? = some call) :
    (start files calls).saves[i]? = some ⟨call.1, call.2, .waiting⟩ := by
  rw [start, List.getElem?_map, h]
  rfl

/-- A save is made to its end, without another one in between. -/
theorem exists_finished {i : ℕ} {save : Save} (hsave : s.saves[i]? = some save)
    (hphase : save.phase = .waiting) (hquiet : s.Quiet) :
    ∃ s', Events.final? step s [.write i, .write i] = some s' ∧
      s'.files = ⟨some (configFile save.payload), credentialsFile save.payload⟩ ∧ s'.Quiet ∧
        ∀ k, k ≠ i → s'.saves[k]? = s.saves[k]? := by
  have hlength : i < s.saves.length := (List.getElem?_eq_some_iff.mp hsave).1
  obtain ⟨t, hbegin, hbegunFiles, hbegunSaves⟩ := step_write_waiting hsave hphase hquiet
  have hbegun : t.saves[i]? = some { save with phase := .configWritten } := by
    rw [hbegunSaves, Saving.setPhase, List.getElem?_set_self hlength]
  obtain ⟨s', hfinish, hfiles, hsaves⟩ := step_write_configWritten hbegun rfl
  have hset : s'.saves = s.saves.set i { save with phase := .finished } := by
    rw [hsaves, Saving.setPhase, hbegunSaves, Saving.setPhase, List.set_set]
  refine ⟨s', ?_, ?_, ?_, ?_⟩
  · rw [Events.final?_cons, hbegin, Option.bind_some, Events.final?_cons, hfinish]
    rfl
  · rw [hfiles, hbegunFiles]
  · intro other hother
    rw [hset] at hother
    rcases List.mem_or_eq_of_mem_set hother with hother | rfl
    · exact hquiet other hother
    · exact SavePhase.noConfusion
  · intro k hk
    rw [hset, List.getElem?_set_ne hk.symm]

/-- A save that is begun, and goes no further, leaves the keys from before. -/
theorem exists_keys_before (files : Files) {call : ℕ × JsonObject} (hcall : call ∈ calls) :
    ∃ events s', Events.final? step (start files calls) events = some s' ∧
      s'.files = ⟨some (configFile call.2), files.credentials⟩ := by
  obtain ⟨i, hi⟩ := List.mem_iff_getElem?.mp hcall
  have hsave : (start files calls).saves[i]? = some ⟨call.1, call.2, .waiting⟩ := getElem?_start hi
  obtain ⟨s', hbegin, hfiles, -⟩ := step_write_waiting hsave rfl quiet_start
  refine ⟨[.write i], s', ?_, hfiles⟩
  rw [Events.final?_cons, hbegin]
  rfl

/-- A save that is begun after another one leaves the keys of that one. -/
theorem exists_keys_of_other (files : Files) {call other : ℕ × JsonObject} (hcall : call ∈ calls)
    (hother : other ∈ calls) :
    ∃ events s', Events.final? step (start files calls) events = some s' ∧
      s'.files = ⟨some (configFile call.2), credentialsFile other.2⟩ := by
  obtain ⟨i, hi⟩ := List.mem_iff_getElem?.mp hcall
  obtain ⟨j, hj⟩ := List.mem_iff_getElem?.mp hother
  have hsave : (start files calls).saves[j]? = some ⟨other.1, other.2, .waiting⟩ :=
    getElem?_start hj
  obtain ⟨s, hs, hfiles, hquiet, hframe⟩ := exists_finished hsave rfl quiet_start
  by_cases hij : i = j
  · subst hij
    cases hi.symm.trans hj
    exact ⟨_, s, hs, hfiles⟩
  · have hsave : s.saves[i]? = some ⟨call.1, call.2, .waiting⟩ :=
      (hframe i hij).trans (getElem?_start hi)
    obtain ⟨s', hbegin, hbegunFiles, -⟩ := step_write_waiting hsave rfl hquiet
    refine ⟨[.write j, .write j] ++ [.write i], s', ?_, ?_⟩
    · rw [Events.final?_append, hs, Option.bind_some, Events.final?_cons, hbegin]
      rfl
    · rw [hbegunFiles, hfiles]

/-- **Two files.** After any of the writes of some saves, in any order and with any of the saves
broken off, a new store has the configuration from before or of one of the saves, exactly if this is
so for the configuration of each save with the keys from before and with those of each save. -/
theorem saved_iff (schema : Schema Config) (path : String) (files : Files)
    (calls : List (ℕ × JsonObject)) :
    (∀ events s', Events.final? step (start files calls) events = some s' →
        Saved schema path files calls (newStore schema path s'.files)) ↔
      Interchangeable schema path files calls := by
  constructor
  · intro h call hcall
    constructor
    · obtain ⟨events, s', hs', hfiles⟩ := exists_keys_before files hcall
      have hsaved := h events s' hs'
      rwa [hfiles, newStore_configFile] at hsaved
    · intro other hother
      obtain ⟨events, s', hs', hfiles⟩ := exists_keys_of_other files hcall hother
      have hsaved := h events s' hs'
      rwa [hfiles, newStore_configFile, secretsOf_credentialsFile] at hsaved
  · intro hsaves events s' hs'
    exact (inv_run hs').saved schema path hsaves

/-- **Round trip.** What was in the files before, and whatever other saves are being made, when a
save has been made to its end with no write of another one in between, its configuration is loaded
again, each key out of the other file. -/
theorem newStore_of_save (schema : Schema Config) (path : String) {i : ℕ} {save : Save}
    (hsave : s.saves[i]? = some save) (hwaiting : save.phase = .waiting)
    (hdumped : Dumped save.payload) (h : Events.final? step s [.write i, .write i] = some s') :
    newStore schema path s'.files = modelValidate schema path save.payload := by
  obtain ⟨t, hbegin, h⟩ := Option.bind_eq_some_iff.mp h
  obtain ⟨t', hfinish, hend⟩ := Option.bind_eq_some_iff.mp h
  cases hend
  obtain ⟨begun, hbegun, ⟨-, hfiles, hsaves⟩ | ⟨hphase, -⟩⟩ := write_cases hbegin
  · cases hsave.symm.trans hbegun
    have hlength : i < s.saves.length := (List.getElem?_eq_some_iff.mp hsave).1
    have hwritten : t.saves[i]? = some { save with phase := .configWritten } := by
      rw [hsaves, Saving.setPhase, List.getElem?_set_self hlength]
    obtain ⟨finished, hfinished, ⟨hphase, -⟩ | ⟨-, hfiles', -⟩⟩ := write_cases hfinish
    · cases hwritten.symm.trans hfinished
      cases hphase
    · cases hwritten.symm.trans hfinished
      rw [hfiles', hfiles, newStore_configFile, secretsOf_credentialsFile,
        validateWithKeys_keysOf schema path hdumped]
  · cases hsave.symm.trans hbegun
    cases hwaiting.symm.trans hphase

/-- **Same keys.** If the keys of all saves are those in the files, then whatever writes of the
saves follow one another, and whichever saves are broken off, a new store has the configuration from
before or that of one of the saves. -/
theorem saved_of_same_keys (schema : Schema Config) (path : String)
    (hdumped : ∀ call ∈ calls, Dumped call.2) {secrets : Secrets}
    (hbefore : secretsOf files.credentials = .ok secrets)
    (hkeys : ∀ call ∈ calls, keysOf call.2 = secrets) {events : List SaveEvent}
    (h : Events.final? step (start files calls) events = some s') :
    Saved schema path files calls (newStore schema path s'.files) :=
  (inv_run h).saved schema path (interchangeable_of_same_keys schema path hdumped hbefore hkeys)

/-! ### A save that is broken off -/

/-- Documents as configurations. -/
def sampleSchema : Schema JsonObject where
  default := [("version", .int 1), ("llm", .obj [("providers", .obj [])])]
  parse raw := .ok raw

/-- A configuration with one provider, which has a key. -/
def samplePayload : JsonObject :=
  [("version", .int 1),
    ("llm", .obj [("providers", .obj [("main", .obj [("api_key", .str "sk-1")])])])]

/-- A later configuration with the same key. -/
def laterPayload : JsonObject :=
  [("version", .int 2),
    ("llm", .obj [("providers", .obj [("main", .obj [("api_key", .str "sk-1")])])])]

theorem dumped_sample {version : ℤ} {payload : JsonObject} (h : payload =
    [("version", .int version),
      ("llm", .obj [("providers", .obj [("main", .obj [("api_key", .str "sk-1")])])])]) :
    Dumped payload := by
  subst h
  refine ⟨by simp, fun sectionName hmem sect hsect => ?_, fun sectionName hmem => ?_,
    fun sectionName hmem name entry hentry => ?_⟩
  · simp only [List.mem_cons, Prod.mk.injEq, reduceCtorEq, and_false, Json.obj.injEq,
      List.not_mem_nil, or_false, false_or] at hsect
    rw [hsect.2]
    simp
  · rcases List.mem_pair.mp hmem with rfl | rfl
    · exact List.nodup_singleton _
    · exact List.nodup_nil
  · rcases List.mem_pair.mp hmem with rfl | rfl
    · cases List.mem_singleton.mp hentry
      exact Or.inr ⟨"sk-1", rfl⟩
    · cases hentry

/-- The first configuration is saved and loaded again. -/
theorem sample_loaded : ∃ s',
    Events.final? step (start ⟨none, none⟩ [(0, samplePayload)]) [.write 0, .write 0] = some s' ∧
      newStore sampleSchema "config.json" s'.files =
        modelValidate sampleSchema "config.json" samplePayload := by
  obtain ⟨s', hrun⟩ : ∃ s', Events.final? step (start ⟨none, none⟩ [(0, samplePayload)])
      [.write 0, .write 0] = some s' := ⟨_, rfl⟩
  have hsave : (start ⟨none, none⟩ [(0, samplePayload)]).saves[0]? =
      some ⟨0, samplePayload, .waiting⟩ := rfl
  exact ⟨s', hrun, newStore_of_save sampleSchema "config.json" hsave rfl (dumped_sample rfl) hrun⟩

/-- Two processes save configurations with the key in the files, and one of them goes no further. -/
theorem sample_saved : ∃ s',
    Events.final? step
        (start ⟨some (configFile samplePayload), credentialsFile samplePayload⟩
          [(0, samplePayload), (1, laterPayload)]) [.write 0, .write 1, .stop 1] = some s' ∧
      Saved sampleSchema "config.json"
        ⟨some (configFile samplePayload), credentialsFile samplePayload⟩
        [(0, samplePayload), (1, laterPayload)] (newStore sampleSchema "config.json" s'.files) := by
  obtain ⟨s', hrun⟩ : ∃ s', Events.final? step
      (start ⟨some (configFile samplePayload), credentialsFile samplePayload⟩
        [(0, samplePayload), (1, laterPayload)]) [.write 0, .write 1, .stop 1] = some s' := ⟨_, rfl⟩
  refine ⟨s', hrun, saved_of_same_keys sampleSchema "config.json" ?_
    (secretsOf_credentialsFile samplePayload) ?_ hrun⟩
  · intro call hcall
    rcases List.mem_pair.mp hcall with rfl | rfl <;> exact dumped_sample rfl
  · intro call hcall
    rcases List.mem_pair.mp hcall with rfl | rfl <;> rfl

/-- The first configuration is saved, and the save is broken off after `config.json`. Its key is
lost. -/
theorem not_saved :
    ¬ ∀ events s', Events.final? step (start ⟨none, none⟩ [(0, samplePayload)]) events = some s' →
      Saved sampleSchema "config.json" ⟨none, none⟩ [(0, samplePayload)]
        (newStore sampleSchema "config.json" s'.files) := by
  intro h
  obtain hsame | ⟨call, hcall, hsame⟩ := h [.write 0] _ rfl
  · exact absurd hsame (by decide)
  · obtain rfl : call = (0, samplePayload) := by simpa using hcall
    exact absurd hsame (by decide)

end ConfigStore

end OpenRath
