import OpenRath.Config.Saves

/-!
# The cache of configurations

`ConfigStore.load` (`src/rath/config/store.py`) keeps the last store that it has built, together
with the stamp of `config.json`, and returns this store as long as the file has the stamp. The stamp
that is kept is the one that the file has after it has been read.

The calls of `load` come in between each other, and other processes replace the two files meanwhile.
The stamp says nothing about `credentials.json`, nor about a file that has been replaced between its
reading and the second look at its stamp. So a store that is returned from the cache is up to date
if the files are not replaced while such a store is held or is being built.

## Main definitions

* `LoadPhase`, `Caching`: the calls of `load`, the cache, and the two files.
* `Caching.step`: one step of a call, or a file is replaced.
* `Caching.Coherent`: what is returned from the cache is what the files say.
* `Caching.Unraced`: files are not replaced at a bad time.

## Main results

* `Caching.coherent_of_unraced`.
-/

namespace OpenRath

/-- How far a call of `load` has come. -/
inductive LoadPhase (Config : Type)
  | stat
  | check (stamp : Option ℕ)
  | readConfig
  | readCredentials (config : Option ConfigStore.Document)
  | restat (value : Config)
  | insert (stamp : Option ℕ) (value : Config)
  | returned (value : Config)
  | raised (e : Exn)

/-- The call is over. -/
def LoadPhase.Ended {Config : Type} : LoadPhase Config → Bool
  | .returned _ | .raised _ => true
  | _ => false

/-- The cache of a process, the calls of `load` in it, and the two files. The stamps of
`config.json` are the numbers of its versions. -/
structure Caching (Config : Type) where
  config : Option (ℕ × ConfigStore.Document)
  credentials : Option ConfigStore.Document
  /-- The stamp of the next version of `config.json`. -/
  version : ℕ
  cached : Option (ℕ × Config)
  loads : List (LoadPhase Config)

/-- A call of `load` begins, makes its next step or raises, or a file is replaced or removed. -/
inductive LoadEvent
  | load
  | advance (i : ℕ)
  | fail (i : ℕ) (e : Exn)
  | replaceConfig (document : Option ConfigStore.Document)
  | replaceCredentials (document : Option ConfigStore.Document)

/-- A file is replaced. -/
def LoadEvent.Replaces : LoadEvent → Bool
  | .replaceConfig _ | .replaceCredentials _ => true
  | _ => false

namespace Caching

open ConfigStore (Document Schema loadOrDefault newStore)

variable {Config : Type}

/-- `_stat_stamp`. -/
def statStamp (s : Caching Config) : Option ℕ := s.config.map Prod.fst

/-- What `config.json` has. -/
def document (s : Caching Config) : Option Document := s.config.map Prod.snd

/-- The value that the cache has for a stamp. -/
def hit (s : Caching Config) (stamp : Option ℕ) : Option Config :=
  (s.cached.filter fun entry => some entry.1 = stamp).map Prod.snd

variable (schema : Schema Config) (path : String)

/-- What a new store would have. -/
def fresh (s : Caching Config) : Except Exn Config :=
  newStore schema path ⟨s.document, s.credentials⟩

/-- The next step of a call of `load`, and the cache after it. -/
def next (s : Caching Config) : LoadPhase Config → Option (LoadPhase Config × Option (ℕ × Config))
  | .stat => some (.check s.statStamp, s.cached)
  | .check stamp =>
    match s.hit stamp with
    | some value => some (.returned value, s.cached)
    | none => some (.readConfig, s.cached)
  | .readConfig => some (.readCredentials s.document, s.cached)
  | .readCredentials config =>
    match loadOrDefault schema path config s.credentials with
    | .ok value => some (.restat value, s.cached)
    | .error e => some (.raised e, s.cached)
  | .restat value => some (.insert s.statStamp value, s.cached)
  | .insert (some stamp) value => some (.returned value, some (stamp, value))
  | .insert none value => some (.returned value, s.cached)
  | .returned _ | .raised _ => none

/-- The steps of the calls of `load`, and the replacements of the files. -/
def step (s : Caching Config) : LoadEvent → Option (Caching Config)
  | .load => some { s with loads := s.loads ++ [.stat] }
  | .advance i => do
    let phase ← s.loads[i]?
    let (phase, cached) ← s.next schema path phase
    some { s with loads := s.loads.set i phase, cached }
  | .fail i e => do
    let phase ← s.loads[i]?
    if phase.Ended then none else some { s with loads := s.loads.set i (.raised e) }
  | .replaceConfig document =>
    some { s with config := document.map fun d => (s.version, d), version := s.version + 1 }
  | .replaceCredentials document => some { s with credentials := document }

/-- The two files, before any call of `load`. -/
def start (config credentials : Option Document) : Caching Config :=
  ⟨config.map fun d => (0, d), credentials, 1, none, []⟩

/-- A call of `load` that returns from the cache has what a new store would have. -/
def Coherent (s : Caching Config) (e : LoadEvent) (s' : Caching Config) : Prop :=
  ∀ i stamp value, e = .advance i → s.loads[i]? = some (.check stamp) →
    s'.loads[i]? = some (.returned value) → s.fresh schema path = .ok value

/-- A call of `load` has the stamp, or would have it. -/
def Wanted (s : Caching Config) (stamp : ℕ) : Prop :=
  s.statStamp = some stamp ∨ .check (some stamp) ∈ s.loads

/-- A value that is, or will be, in the cache for calls of `load` to return. -/
def Live (s : Caching Config) (value : Config) : Prop :=
  .restat value ∈ s.loads ∨
    ∃ stamp, s.Wanted stamp ∧
      (s.cached = some (stamp, value) ∨ .insert (some stamp) value ∈ s.loads)

/-- `config.json` is replaced by something else only when no call of `load` is between reading it
and the second look at its stamp, and none has the stamp of a value that is, or will be, in the
cache. `credentials.json` is replaced by something that makes a difference only when the cache has,
and will have, no value for the stamp. -/
def Unraced (s : Caching Config) (e : LoadEvent) (_ : Caching Config) : Prop :=
  (∀ document, e = .replaceConfig document → document ≠ s.document →
    (∀ config, .readCredentials config ∉ s.loads) ∧ (∀ value, .restat value ∉ s.loads) ∧
      ∀ stamp value, .check (some stamp) ∈ s.loads →
        s.cached ≠ some (stamp, value) ∧ .insert (some stamp) value ∉ s.loads) ∧
  ∀ document, e = .replaceCredentials document →
    newStore schema path ⟨s.document, document⟩ ≠ s.fresh schema path →
      ∀ value, ¬ s.Live value

/-! ### Steps of the calls -/

/-- Stamps are those of versions that have been, values that are still to be returned are up to
date, and what has been read of `config.json` is what it has. -/
structure Inv (s : Caching Config) : Prop where
  version : ∀ stamp, (s.Wanted stamp ∨ (∃ value, s.cached = some (stamp, value)) ∨
    ∃ value, .insert (some stamp) value ∈ s.loads) → stamp < s.version
  document : ∀ config, .readCredentials config ∈ s.loads → config = s.document
  live : ∀ value, s.Live value → s.fresh schema path = .ok value

/-- A phase that a call of `load` may come to. -/
def Allowed (s : Caching Config) (phase : LoadPhase Config) : Prop :=
  (∀ stamp, phase = .check (some stamp) → s.statStamp = some stamp) ∧
  (∀ config, phase = .readCredentials config → config = s.document) ∧
  (∀ value, phase = .restat value → s.fresh schema path = .ok value) ∧
  ∀ stamp value, phase = .insert (some stamp) value →
    s.statStamp = some stamp ∧ s.fresh schema path = .ok value

variable {schema path} {s s' : Caching Config}

theorem hit_eq_some {stamp : Option ℕ} {value : Config} :
    s.hit stamp = some value ↔ ∃ st, stamp = some st ∧ s.cached = some (st, value) := by
  rw [hit, Option.map_eq_some_iff]
  constructor
  · rintro ⟨⟨st, value'⟩, hfilter, rfl⟩
    obtain ⟨hcached, hstamp⟩ := Option.filter_eq_some_iff.mp hfilter
    exact ⟨st, (of_decide_eq_true hstamp).symm, hcached⟩
  · rintro ⟨st, rfl, hcached⟩
    exact ⟨(st, value), Option.filter_eq_some_iff.mpr ⟨hcached, decide_eq_true rfl⟩, rfl⟩

/-- The calls of `load` come to phases that they may come to, and the cache gets a value that it was
about to have. -/
theorem Inv.move (hinv : Inv schema path s) {loads : List (LoadPhase Config)}
    {cached : Option (ℕ × Config)}
    (hloads : ∀ phase ∈ loads, phase ∈ s.loads ∨ Allowed schema path s phase)
    (hcached : cached = s.cached ∨
      ∃ stamp value, .insert (some stamp) value ∈ s.loads ∧ cached = some (stamp, value)) :
    Inv schema path { s with loads, cached } := by
  have hwanted : ∀ stamp, Wanted { s with loads, cached } stamp → s.Wanted stamp := by
    rintro stamp (hstamp | hload)
    · exact .inl hstamp
    · rcases hloads _ hload with hload | hnew
      · exact .inr hload
      · exact .inl (hnew.1 stamp rfl)
  -- A value that the cache or a call is to have, unless it comes with a new phase.
  have hvalue : ∀ stamp value, (cached = some (stamp, value) ∨
        .insert (some stamp) value ∈ loads) →
      (s.cached = some (stamp, value) ∨ .insert (some stamp) value ∈ s.loads) ∨
        s.statStamp = some stamp ∧ s.fresh schema path = .ok value := by
    rintro stamp value (hentry | hload)
    · rcases hcached with hsame | ⟨stamp', value', hload, hnew⟩
      · exact .inl (.inl (hsame.symm.trans hentry))
      · cases hentry.symm.trans hnew
        exact .inl (.inr hload)
    · rcases hloads _ hload with hload | hnew
      · exact .inl (.inr hload)
      · exact .inr (hnew.2.2.2 stamp value rfl)
  constructor
  · have hheld : ∀ stamp value, (cached = some (stamp, value) ∨
        .insert (some stamp) value ∈ loads) → stamp < s.version := by
      intro stamp value h
      rcases hvalue stamp value h with (hentry | hload) | ⟨hstamp, -⟩
      · exact hinv.version stamp (.inr (.inl ⟨value, hentry⟩))
      · exact hinv.version stamp (.inr (.inr ⟨value, hload⟩))
      · exact hinv.version stamp (.inl (.inl hstamp))
    rintro stamp (h | ⟨value, h⟩ | ⟨value, h⟩)
    · exact hinv.version stamp (.inl (hwanted stamp h))
    · exact hheld stamp value (.inl h)
    · exact hheld stamp value (.inr h)
  · intro config hload
    rcases hloads _ hload with hload | hnew
    · exact hinv.document config hload
    · exact hnew.2.1 config rfl
  · rintro value (hload | ⟨stamp, hstamp, hheld⟩)
    · rcases hloads _ hload with hload | hnew
      · exact hinv.live value (.inl hload)
      · exact hnew.2.2.1 value rfl
    · rcases hvalue stamp value hheld with hheld | ⟨-, hfresh⟩
      · exact hinv.live value (.inr ⟨stamp, hwanted stamp hstamp, hheld⟩)
      · exact hfresh

/-- One call of `load` comes to a phase that it may come to. -/
theorem Inv.set (hinv : Inv schema path s) {i : ℕ} {phase : LoadPhase Config}
    {cached : Option (ℕ × Config)} (hphase : Allowed schema path s phase)
    (hcached : cached = s.cached ∨
      ∃ stamp value, .insert (some stamp) value ∈ s.loads ∧ cached = some (stamp, value)) :
    Inv schema path { s with loads := s.loads.set i phase, cached } := by
  refine hinv.move (fun p hp => ?_) hcached
  rcases List.mem_or_eq_of_mem_set hp with hp | rfl
  · exact .inl hp
  · exact .inr hphase

/-- A phase at which a call of `load` has nothing to remember. -/
theorem allowed_of_ne {phase : LoadPhase Config} (hcheck : ∀ stamp, phase ≠ .check stamp)
    (hread : ∀ config, phase ≠ .readCredentials config) (hrestat : ∀ value, phase ≠ .restat value)
    (hinsert : ∀ stamp value, phase ≠ .insert stamp value) : Allowed schema path s phase :=
  ⟨fun _ h => absurd h (hcheck _), fun _ h => absurd h (hread _), fun _ h => absurd h (hrestat _),
    fun _ _ h => absurd h (hinsert _ _)⟩

/-- The next phase of a call of `load` is one that it may come to. -/
theorem Inv.next (hinv : Inv schema path s) {phase phase' : LoadPhase Config}
    {cached : Option (ℕ × Config)} (hphase : phase ∈ s.loads)
    (h : s.next schema path phase = some (phase', cached)) :
    Allowed schema path s phase' ∧ (cached = s.cached ∨
      ∃ stamp value, .insert (some stamp) value ∈ s.loads ∧ cached = some (stamp, value)) := by
  rcases phase with _ | stamp | _ | config | value | ⟨_ | stamp, value⟩ | _ | _
  case stat =>
    cases h
    refine ⟨⟨fun stamp hstamp => ?_, fun _ h => ?_, fun _ h => ?_, fun _ _ h => ?_⟩, .inl rfl⟩
    · exact LoadPhase.check.inj hstamp
    all_goals cases h
  case check =>
    rw [Caching.next] at h
    rcases hhit : s.hit stamp with _ | value <;> rw [hhit] at h <;> cases h <;>
      exact ⟨allowed_of_ne (by simp) (by simp) (by simp) (by simp), .inl rfl⟩
  case readConfig =>
    cases h
    refine ⟨⟨fun _ h => ?_, fun config hconfig => ?_, fun _ h => ?_, fun _ _ h => ?_⟩, .inl rfl⟩
    · cases h
    · exact (LoadPhase.readCredentials.inj hconfig).symm
    all_goals cases h
  case readCredentials =>
    have hconfig : config = s.document := hinv.document config hphase
    rw [Caching.next, hconfig] at h
    rcases hread : loadOrDefault schema path s.document s.credentials with e | value <;>
      rw [hread] at h <;> cases h
    · exact ⟨allowed_of_ne (by simp) (by simp) (by simp) (by simp), .inl rfl⟩
    · refine ⟨⟨fun _ h => ?_, fun _ h => ?_, fun value' hvalue => ?_, fun _ _ h => ?_⟩, .inl rfl⟩
      · cases h
      · cases h
      · cases hvalue
        exact hread
      · cases h
  case restat =>
    cases h
    have hfresh := hinv.live value (.inl hphase)
    refine ⟨⟨fun _ h => ?_, fun _ h => ?_, fun _ h => ?_, fun stamp value' hinsert => ?_⟩, .inl rfl⟩
    · cases h
    · cases h
    · cases h
    · obtain ⟨hstamp, hvalue⟩ := LoadPhase.insert.inj hinsert
      exact ⟨hstamp, hvalue ▸ hfresh⟩
  case insert.none =>
    cases h
    exact ⟨allowed_of_ne (by simp) (by simp) (by simp) (by simp), .inl rfl⟩
  case insert.some =>
    cases h
    exact ⟨allowed_of_ne (by simp) (by simp) (by simp) (by simp), .inr ⟨stamp, value, hphase, rfl⟩⟩
  case returned => cases h
  case raised => cases h

/-! ### Replacements of the files -/

/-- A value that is still to be returned after `config.json` has been replaced was so before, and a
call of `load` has the stamp of it. -/
theorem live_of_replaceConfig (hinv : Inv schema path s) {document : Option Document}
    {value : Config} (h : Live { s with
      config := document.map fun d => (s.version, d), version := s.version + 1 } value) :
    .restat value ∈ s.loads ∨ ∃ stamp, .check (some stamp) ∈ s.loads ∧
      (s.cached = some (stamp, value) ∨ .insert (some stamp) value ∈ s.loads) := by
  rcases h with hload | ⟨stamp, hstamp | hcheck, hheld⟩
  · exact .inl hload
  · -- No value has the stamp of the new version.
    rcases document with _ | d
    · cases hstamp
    · cases hstamp
      rcases hheld with hentry | hload
      · exact absurd (hinv.version _ (.inr (.inl ⟨value, hentry⟩))) (lt_irrefl _)
      · exact absurd (hinv.version _ (.inr (.inr ⟨value, hload⟩))) (lt_irrefl _)
  · exact .inr ⟨stamp, hcheck, hheld⟩

theorem document_replaceConfig (document : Option Document) :
    Caching.document { s with
      config := document.map fun d => (s.version, d), version := s.version + 1 } = document := by
  rcases document with _ | d <;> rfl

theorem inv_replaceConfig (hinv : Inv schema path s) {document : Option Document}
    (hunraced : Unraced schema path s (.replaceConfig document) s') :
    Inv schema path { s with
      config := document.map fun d => (s.version, d), version := s.version + 1 } := by
  have hdocument := document_replaceConfig (s := s) document
  have hraced := hunraced.1 document rfl
  constructor
  · rintro stamp ((hstamp | hcheck) | hheld)
    · rcases document with _ | d
      · cases hstamp
      · cases hstamp
        exact Nat.lt_succ_self _
    · exact Nat.lt_succ_of_lt (hinv.version stamp (.inl (.inr hcheck)))
    · exact Nat.lt_succ_of_lt (hinv.version stamp (.inr hheld))
  · intro config hload
    rw [hdocument]
    by_cases hsame : document = s.document
    · exact (hinv.document config hload).trans hsame.symm
    · exact absurd hload ((hraced hsame).1 config)
  · intro value hlive
    have hbefore := live_of_replaceConfig hinv hlive
    by_cases hsame : document = s.document
    · have hlive : s.Live value := by
        rcases hbefore with hload | ⟨stamp, hcheck, hheld⟩
        · exact .inl hload
        · exact .inr ⟨stamp, .inr hcheck, hheld⟩
      rw [fresh, hdocument, hsame]
      exact hinv.live value hlive
    · obtain ⟨-, hrestat, hcheck⟩ := hraced hsame
      rcases hbefore with hload | ⟨stamp, hload, hentry | hinsert⟩
      · exact absurd hload (hrestat value)
      · exact absurd hentry (hcheck stamp value hload).1
      · exact absurd hinsert (hcheck stamp value hload).2

theorem inv_replaceCredentials (hinv : Inv schema path s) {document : Option Document}
    (hunraced : Unraced schema path s (.replaceCredentials document) s') :
    Inv schema path { s with credentials := document } := by
  refine ⟨hinv.version, hinv.document, fun value hlive => ?_⟩
  by_cases hsame : newStore schema path ⟨s.document, document⟩ = s.fresh schema path
  · exact hsame.trans (hinv.live value hlive)
  · exact absurd hlive (hunraced.2 document rfl hsame value)

/-! ### Runs -/

theorem inv_start (config credentials : Option Document) :
    Inv schema path (start config credentials : Caching Config) := by
  refine ⟨?_, ?_, ?_⟩
  · rintro stamp ((hstamp | hcheck) | ⟨value, hentry⟩ | ⟨value, hload⟩)
    · rcases config with _ | d
      · cases hstamp
      · cases hstamp
        exact Nat.zero_lt_one
    · cases hcheck
    · cases hentry
    · cases hload
  · intro config hload
    cases hload
  · rintro value (hload | ⟨stamp, -, hentry | hload⟩)
    · cases hload
    · cases hentry
    · cases hload

theorem inv_step {e : LoadEvent} (hinv : Inv schema path s) (h : step schema path s e = some s')
    (hunraced : Unraced schema path s e s') : Inv schema path s' := by
  rcases e with _ | i | ⟨i, e⟩ | document | document
  case load =>
    cases h
    have hloads : ∀ phase ∈ s.loads ++ [.stat], phase ∈ s.loads ∨ Allowed schema path s phase := by
      intro phase hphase
      rcases List.mem_append.mp hphase with hphase | hnew
      · exact .inl hphase
      · rw [List.mem_singleton.mp hnew]
        exact .inr (allowed_of_ne (by simp) (by simp) (by simp) (by simp))
    exact hinv.move hloads (.inl rfl)
  case advance =>
    obtain ⟨phase, hphase, hadvance⟩ := Option.bind_eq_some_iff.mp h
    obtain ⟨⟨phase', cached⟩, hnext, hs'⟩ := Option.bind_eq_some_iff.mp hadvance
    cases hs'
    obtain ⟨hallowed, hcached⟩ := hinv.next (List.mem_of_getElem? hphase) hnext
    exact hinv.set hallowed hcached
  case fail =>
    obtain ⟨phase, hphase, hfail⟩ := Option.bind_eq_some_iff.mp h
    obtain ⟨-, hs'⟩ := Option.ite_none_left_eq_some.mp hfail
    cases hs'
    exact hinv.set (allowed_of_ne (by simp) (by simp) (by simp) (by simp)) (.inl rfl)
  case replaceConfig =>
    cases h
    exact inv_replaceConfig hinv hunraced
  case replaceCredentials =>
    cases h
    exact inv_replaceCredentials hinv hunraced

/-- What the cache returns is up to date. -/
theorem Inv.coherent {e : LoadEvent} (hinv : Inv schema path s)
    (h : step schema path s e = some s') : Coherent schema path s e s' := by
  rintro i stamp value rfl hcheck hreturned
  obtain ⟨phase, hphase, hadvance⟩ := Option.bind_eq_some_iff.mp h
  obtain ⟨⟨phase', cached⟩, hnext, hs'⟩ := Option.bind_eq_some_iff.mp hadvance
  cases hs'
  cases hphase.symm.trans hcheck
  have hlength : i < s.loads.length := (List.getElem?_eq_some_iff.mp hphase).1
  rw [List.getElem?_set_self hlength] at hreturned
  cases hreturned
  rw [Caching.next] at hnext
  rcases hhit : s.hit stamp with _ | value' <;> rw [hhit] at hnext <;> cases hnext
  obtain ⟨st, rfl, hcached⟩ := hit_eq_some.mp hhit
  exact hinv.live value (.inr ⟨st, .inr (List.mem_of_getElem? hphase), .inl hcached⟩)

/-- **Unraced runs.** If files are replaced only when no call of `load` holds what it has read of
them, and the keys only when no configuration is kept for the stamp, then what is returned from the
cache is what a new store would read at the moment at which the cache is looked up. -/
theorem coherent_of_unraced (schema : Schema Config) (path : String)
    (config credentials : Option Document) {events : List LoadEvent}
    (h : Events.Along (step schema path) (Unraced schema path) (start config credentials) events) :
    Events.Along (step schema path) (Coherent schema path) (start config credentials) events := by
  have hstep : ∀ (s : Caching Config) (e : LoadEvent) (s' : Caching Config), Inv schema path s →
      step schema path s e = some s' → Unraced schema path s e s' →
        Inv schema path s' ∧ Coherent schema path s e s' :=
    fun _ _ _ hinv hs hunraced => ⟨inv_step hinv hs hunraced, hinv.coherent hs⟩
  exact Events.along_of_invariant hstep (inv_start config credentials) h

/-- While no file is replaced, the calls of `load` do not race. -/
theorem along_unraced {events : List LoadEvent} (h : ∀ e ∈ events, e.Replaces = false) :
    Events.Along (step schema path) (Unraced schema path) s events := by
  induction events generalizing s with
  | nil => trivial
  | cons e events ih =>
    obtain ⟨hevent, hevents⟩ := List.forall_mem_cons.mp h
    refine fun s' _ => ⟨⟨?_, ?_⟩, ih hevents⟩
    · rintro document rfl
      cases hevent
    · rintro document rfl
      cases hevent

/-! ### New keys, and a new file -/

/-- A call of `load` that reads the files, step by step. -/
def sampleLoad : List LoadEvent :=
  [.load, .advance 0, .advance 0, .advance 0, .advance 0, .advance 0, .advance 0]

/-- Another call of `load`, up to the look into the cache. -/
def sampleHit : List LoadEvent := [.load, .advance 1, .advance 1]

/-- The files are read, and then the key is replaced. Or `config.json` is removed after it has been
read, and another one is there before the second look at its stamp. The next call returns what has
been read. -/
theorem not_coherent :
    ¬ Events.Along (step ConfigStore.sampleSchema "config.json")
        (Coherent ConfigStore.sampleSchema "config.json")
        (start (some (ConfigStore.configFile ConfigStore.samplePayload)) none)
        (sampleLoad ++
          .replaceCredentials (ConfigStore.credentialsFile ConfigStore.samplePayload) ::
            sampleHit) ∧
      ¬ Events.Along (step ConfigStore.sampleSchema "config.json")
        (Coherent ConfigStore.sampleSchema "config.json")
        (start (some (ConfigStore.configFile ConfigStore.samplePayload)) none)
        (sampleLoad.take 5 ++ .replaceConfig (some (.json (.obj []))) ::
          [.advance 0, .advance 0] ++ sampleHit) := by
  constructor <;> intro h
  · have hlast := ((Events.along_append.mp h).2 _ rfl _ rfl).2
    have hcoherent := (((hlast _ rfl).2 _ rfl).2 _ rfl).1
    have hfresh := hcoherent 1 (some 0) _ rfl rfl rfl
    exact absurd hfresh (by decide)
  · have hlast := (Events.along_append.mp h).2 _ rfl
    have hcoherent := (((hlast _ rfl).2 _ rfl).2 _ rfl).1
    have hfresh := hcoherent 1 (some 1) _ rfl rfl rfl
    exact absurd hfresh (by decide)

/-- The key is replaced before the files are read, and the next call returns what has been read. -/
theorem coherent_replaced_before :
    Events.Along (step ConfigStore.sampleSchema "config.json")
      (Coherent ConfigStore.sampleSchema "config.json")
      (start (some (ConfigStore.configFile ConfigStore.samplePayload)) none)
      (.replaceCredentials (ConfigStore.credentialsFile ConfigStore.samplePayload) ::
        (sampleLoad ++ sampleHit)) := by
  refine coherent_of_unraced _ _ _ _ fun s' _ => ⟨⟨fun _ h => LoadEvent.noConfusion h, ?_⟩, ?_⟩
  · rintro document - - value (hload | ⟨stamp, -, hentry | hload⟩)
    · cases hload
    · cases hentry
    · cases hload
  · exact along_unraced (by decide)

end Caching

end OpenRath
