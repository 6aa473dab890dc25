import OpenRath.Library.Events
import OpenRath.Library.JsonLexical
import OpenRath.Library.RefCount
import OpenRath.Memory.Models

/-!
# Open stores of the local memory

`MemoryStore` (`src/rath/memory/abc.py`) counts the references to a store, and `LocalMemoryBackend`
(`src/rath/memory/adapters/local.py`) keeps what it needs of an open store, its path and its
options, in a dictionary. The keys are the paths, not the stores.

A store is opened at an explicit path, which is resolved, or at one with a new identifier. What is
read and written while a store is opened and closed is its description, `meta.json`; the operations
on a store do not reach it. The options have values of any type.

## Main definitions

* `LocalHandle`, `MemoryStore`, `LocalMemoryBackend`.
* `LocalMemoryBackend.openStore`, `closeStore`, `release`, `dispatch`, `step`.
* `LocalMemoryBackend.Independent`: open stores do not depend on each other.
* `LocalMemoryBackend.Apart`: no store is opened at the path of an open store.

## Main results

* `LocalMemoryBackend.independent_iff`.
-/

namespace OpenRath

/-! ### The description of a store -/

/-- What becomes of reading `meta.json`. -/
inductive MetaFile
  | missing
  | object (fields : JsonObject)
  /-- A document that is no object, with the name of its class. -/
  | notObject (type : String)
  /-- No JSON document, or one that cannot be read. -/
  | invalid
  | undecodable (message : String)

/-- The fields of a description, none if there is no document. -/
def MetaFile.read : MetaFile → Except Exn JsonObject
  | missing | invalid => .ok []
  | object fields => .ok fields
  | notObject type =>
    .error (.other "AttributeError" s!"'{type}' object has no attribute 'setdefault'")
  | undecodable message => .error (.other "UnicodeDecodeError" message)

/-- `dict.setdefault`. -/
def JsonObject.setDefault (o : JsonObject) (k : String) (v : Json) : JsonObject :=
  if k ∈ o.map Prod.fst then o else o.insert k v

/-- The options of a store. -/
abbrev MemoryOptions (Value : Type) : Type := List (String × Value)

/-- `options.get`. -/
def MemoryOptions.get? {Value : Type} (options : MemoryOptions Value) (k : String) :
    Option Value :=
  (options.find? fun o => o.1 = k).map Prod.snd

/-- What a backend gets from the values of options and from the file system. -/
structure MemorySystem (Value : Type) where
  truthy : Value → Bool
  /-- The text of the path of a value, expanded and resolved. -/
  resolve : Value → Except Exn String
  /-- What of a value is written to a JSON document. -/
  json : Value → Except Exn Json

namespace MemorySystem

variable {Value : Type} (sys : MemorySystem Value)

/-- An option as it is written to a description. -/
def optionJson (options : MemoryOptions Value) (k : String) : Except Exn Json :=
  match options.get? k with
  | some value => sys.json value
  | none => .ok .null

/-- `_touch_meta`, up to the writing. -/
def touchMeta (now : String) (file : MetaFile) (options : MemoryOptions Value)
    (updateOnly : Bool) : Except Exn JsonObject := do
  let fields ← file.read
  let fields := JsonObject.setDefault fields "schema_version" (.int 1)
  let fields := JsonObject.setDefault fields "created_at" (.str now)
  let fields := JsonObject.insert fields "last_used_at" (.str now)
  if updateOnly then pure fields
  else
    let embedding ← sys.optionJson options "embedding_provider"
    let vlm ← sys.optionJson options "vlm_provider"
    pure (JsonObject.insert (JsonObject.insert fields "embedding_provider" embedding)
      "vlm_provider" vlm)

/-- The path at which a store is opened. -/
def openPath (options : MemoryOptions Value) (allocated : String) : Except Exn String :=
  match options.get? "path" with
  | some explicit => if sys.truthy explicit then sys.resolve explicit else .ok allocated
  | none => .ok allocated

end MemorySystem

/-! ### Stores -/

/-- `_LocalHandle`. -/
structure LocalHandle (Value : Type) where
  path : String
  options : MemoryOptions Value
deriving DecidableEq

/-- `MemoryStore`, with the options of its description. -/
structure MemoryStore (Value : Type) where
  handle : String
  options : MemoryOptions Value
  closed : Bool
  refcount : ℤ
deriving DecidableEq

instance {Value : Type} : Counted (MemoryStore Value) where
  count store := ⟨store.closed, store.refcount⟩
  setCount store c := { store with closed := c.closed, refcount := c.refcount }
  count_setCount _ _ := rfl
  setCount_setCount _ _ _ := rfl

/-- What the backend keeps of an open store. -/
def MemoryStore.bound {Value : Type} (store : MemoryStore Value) : LocalHandle Value :=
  ⟨store.handle, store.options⟩

/-- `LocalMemoryBackend`, the stores that it has opened, and their descriptions. -/
structure LocalMemoryBackend (Value : Type) where
  handles : Table fun h : LocalHandle Value => h.path
  stores : List (MemoryStore Value)
  metas : String → MetaFile

/-- An operation that is dispatched. -/
inductive DispatchedOp
  | supported (op : MemoryOp)
  /-- An operation of another type. -/
  | unsupported (type : String)

/-- What dispatching raises before the operation is handled. -/
inductive DispatchError
  /-- `MemoryStoreClosed`. -/
  | storeClosed (handle : String)
  /-- `UnsupportedMemoryOp`. -/
  | unsupportedOp (type : String)
  | keyError (handle : String)
deriving DecidableEq

/-- What is called on a backend and its stores. What the system refuses is an `OSError`. -/
inductive MemoryEvent (Value : Type)
  | open (options : MemoryOptions Value) (allocated now : String) (mkdir write : Except Exn Unit)
  | acquire (i : ℕ)
  | release (i : ℕ) (now : String) (write : Except Exn Unit)
  | dispatch (i : ℕ) (op : DispatchedOp)

namespace LocalMemoryBackend

variable {Value : Type}

/-- The backend before any store is opened. -/
def start (metas : String → MetaFile) : LocalMemoryBackend Value := ⟨Table.empty, [], metas⟩

section Operations

variable (sys : MemorySystem Value) (s : LocalMemoryBackend Value)

/-- `store_count`. -/
def storeCount : ℕ := s.handles.rows.length

/-- The stores that are not closed. -/
def openStores : List (MemoryStore Value) := s.stores.filter fun store => !store.closed

/-- `LocalMemoryBackend.open`. -/
def openStore (options : MemoryOptions Value) (allocated now : String)
    (mkdir write : Except Exn Unit) : Except Exn (LocalMemoryBackend Value) := do
  let path ← sys.openPath options allocated
  mkdir
  let fields ← sys.touchMeta now (s.metas path) options false
  write
  pure {
    handles := s.handles.put ⟨path, options⟩
    stores := s.stores ++ [⟨path, options, false, 0⟩]
    metas := Function.update s.metas path (.object fields) }

/-- `LocalMemoryBackend.close`. An `OSError` of the description does not matter. -/
def closeStore (i : ℕ) (store : MemoryStore Value) (now : String) (write : Except Exn Unit) :
    Except Exn Unit × LocalMemoryBackend Value :=
  if store.closed then (.ok (), s)
  else
    let popped := { s with handles := s.handles.erase store.handle }
    let closed := { popped with stores := s.stores.set i (Counted.close store) }
    match s.handles.find? store.handle with
    | none => (.ok (), closed)
    | some bound =>
      match sys.touchMeta now (s.metas bound.path) bound.options true with
      | .error e => (.error e, popped)
      | .ok fields =>
        match write with
        | .error _ => (.ok (), closed)
        | .ok () =>
          (.ok (), { closed with metas := Function.update s.metas bound.path (.object fields) })

/-- `MemoryStore.acquire`. -/
def acquire (i : ℕ) (store : MemoryStore Value) :
    Except DispatchError Unit × LocalMemoryBackend Value :=
  match Counted.acquire? store with
  | none => (.error (.storeClosed store.handle), s)
  | some store => (.ok (), { s with stores := s.stores.set i store })

/-- `MemoryStore.release`. -/
def release (i : ℕ) (store : MemoryStore Value) (now : String) (write : Except Exn Unit) :
    Except Exn Unit × LocalMemoryBackend Value :=
  let released := Counted.release store
  let s' := { s with stores := s.stores.set i released.1 }
  if released.2 then s'.closeStore sys i released.1 now write else (.ok (), s')

/-- `MemoryStore.dispatch`: what the operation is handled with. -/
def dispatch (store : MemoryStore Value) (op : DispatchedOp) :
    Except DispatchError (LocalHandle Value) :=
  if store.closed then .error (.storeClosed store.handle)
  else
    match op with
    | .unsupported type => .error (.unsupportedOp type)
    | .supported _ =>
      match s.handles.find? store.handle with
      | none => .error (.keyError store.handle)
      | some bound => .ok bound

/-- A call on a backend or on one of its stores. -/
def step : MemoryEvent Value → Option (LocalMemoryBackend Value)
  | .open options allocated now mkdir write =>
    match s.openStore sys options allocated now mkdir write with
    | .ok s' => some s'
    | .error _ => some s
  | .acquire i => s.stores[i]?.map fun store => (s.acquire i store).2
  | .release i now write => s.stores[i]?.map fun store => (s.release sys i store now write).2
  | .dispatch i _ => s.stores[i]?.map fun _ => s

end Operations

/-! ### What is promised -/

/-- Every open store can be dispatched to, and is handled with the options it was opened with; as
many stores are counted as are open; and the release of a store does not change what another one
is handled with. -/
structure Independent (s : LocalMemoryBackend Value) (e : MemoryEvent Value)
    (s' : LocalMemoryBackend Value) : Prop where
  dispatched : ∀ store ∈ s'.openStores, ∀ op, s'.dispatch store (.supported op) = .ok store.bound
  count : s'.storeCount = s'.openStores.length
  others : ∀ i now write, e = .release i now write → ∀ j, j ≠ i →
    ∀ store, s.stores[j]? = some store →
    s'.stores[j]? = some store ∧ ∀ op, s'.dispatch store op = s.dispatch store op

/-- A store that can be opened is opened at a path that no open store has. -/
def Apart (sys : MemorySystem Value) (s : LocalMemoryBackend Value) :
    MemoryEvent Value → LocalMemoryBackend Value → Prop
  | .open options allocated now mkdir write, _ => mkdir = .ok () → write = .ok () →
      ∀ path fields, sys.openPath options allocated = .ok path →
        sys.touchMeta now (s.metas path) options false = .ok fields →
          ∀ store ∈ s.openStores, store.handle ≠ path
  | _, _ => True

/-! ### The handles of the open stores -/

/-- The handles are those of the open stores, and each of these has a description. -/
structure Inv (s : LocalMemoryBackend Value) : Prop where
  bound : s.handles.rows.Perm (s.openStores.map MemoryStore.bound)
  described : ∀ store ∈ s.openStores, ∃ fields, s.metas store.handle = .object fields

variable {sys : MemorySystem Value} {s s' : LocalMemoryBackend Value}

theorem inv_start (metas : String → MetaFile) : Inv (start metas : LocalMemoryBackend Value) :=
  ⟨List.Perm.nil, fun _ h => absurd h List.not_mem_nil⟩

theorem mem_openStores {store : MemoryStore Value} :
    store ∈ s.openStores ↔ store ∈ s.stores ∧ store.closed = false := by
  rw [openStores, List.mem_filter, Bool.not_eq_true']

theorem Inv.find?_handle (h : Inv s) {store : MemoryStore Value} (hstore : store ∈ s.openStores) :
    s.handles.find? store.handle = some store.bound := by
  refine Table.find?_eq_some_iff.mpr ⟨?_, rfl⟩
  exact h.bound.mem_iff.mpr (List.mem_map_of_mem hstore)

theorem Inv.dispatch_eq (h : Inv s) {store : MemoryStore Value} (hstore : store ∈ s.openStores)
    (op : MemoryOp) : s.dispatch store (.supported op) = .ok store.bound := by
  rw [dispatch, (mem_openStores.mp hstore).2, h.find?_handle hstore]
  rfl

theorem Inv.storeCount_eq (h : Inv s) : s.storeCount = s.openStores.length := by
  rw [storeCount, h.bound.length_eq, List.length_map]

theorem openStore_eq_ok {options : MemoryOptions Value} {allocated now : String}
    {mkdir write : Except Exn Unit}
    (h : s.openStore sys options allocated now mkdir write = .ok s') :
    ∃ path fields, sys.openPath options allocated = .ok path ∧ mkdir = .ok () ∧
      sys.touchMeta now (s.metas path) options false = .ok fields ∧ write = .ok () ∧
      s' = ⟨s.handles.put ⟨path, options⟩, s.stores ++ [⟨path, options, false, 0⟩],
        Function.update s.metas path (.object fields)⟩ := by
  obtain ⟨path, hpath, h⟩ := exists_of_bind_eq_ok h
  obtain ⟨⟨⟩, hmkdir, h⟩ := exists_of_bind_eq_ok h
  obtain ⟨fields, hfields, h⟩ := exists_of_bind_eq_ok h
  obtain ⟨⟨⟩, hwrite, h⟩ := exists_of_bind_eq_ok h
  exact ⟨path, fields, hpath, hmkdir, hfields, hwrite, (Except.ok.inj h).symm⟩

/-- An object is described by what is written to it. -/
theorem exists_touchMeta (sys : MemorySystem Value) (now : String) (fields : JsonObject)
    (options : MemoryOptions Value) :
    ∃ fields', sys.touchMeta now (.object fields) options true = .ok fields' := ⟨_, rfl⟩

theorem openStores_append (store : MemoryStore Value) (h : store.closed = false)
    (handles : Table fun h : LocalHandle Value => h.path) (metas : String → MetaFile) :
    openStores ⟨handles, s.stores ++ [store], metas⟩ = s.openStores ++ [store] := by
  rw [openStores, List.filter_append, List.filter_singleton, h]
  rfl

/-- A store that is opened at a path of its own. -/
theorem inv_openStore (hinv : Inv s) {path : String} (options : MemoryOptions Value)
    (fields : JsonObject) (hpath : ∀ store ∈ s.openStores, store.handle ≠ path) :
    Inv ⟨s.handles.put ⟨path, options⟩, s.stores ++ [⟨path, options, false, 0⟩],
      Function.update s.metas path (.object fields)⟩ := by
  constructor
  · have hnew : path ∉ s.handles.rows.map LocalHandle.path := by
      intro hmem
      obtain ⟨r, hr, hrpath⟩ := List.mem_map.mp hmem
      obtain ⟨store, hstore, rfl⟩ := List.mem_map.mp (hinv.bound.mem_iff.mp hr)
      exact hpath store hstore hrpath
    rw [openStores_append _ rfl, List.map_append, Table.put_rows_of_not_mem hnew]
    exact hinv.bound.append_right _
  · intro store hstore
    rw [openStores_append _ rfl, List.mem_append, List.mem_singleton] at hstore
    rcases hstore with hstore | rfl
    · obtain ⟨fields', hfields'⟩ := hinv.described store hstore
      exact ⟨fields', (Function.update_of_ne (hpath store hstore) _ _).trans hfields'⟩
    · exact ⟨fields, Function.update_self _ _ _⟩

/-- A store whose count changes. -/
theorem Inv.set (hinv : Inv s) {i : ℕ} {store : MemoryStore Value} (hi : s.stores[i]? = some store)
    (c : RefCount) (hc : c.closed = store.closed) :
    Inv { s with stores := s.stores.set i (Counted.setCount store c) } := by
  have hmap : ((s.stores.set i (Counted.setCount store c)).filter fun st => !st.closed).map
      MemoryStore.bound = s.openStores.map MemoryStore.bound :=
    map_filter_set _ hi (congrArg Bool.not hc) rfl
  refine ⟨hinv.bound.trans (List.Perm.of_eq hmap.symm), fun store' hstore' => ?_⟩
  have hmem := List.mem_map_of_mem (f := MemoryStore.bound) hstore'
  rw [openStores, hmap] at hmem
  obtain ⟨old, hold, hbound⟩ := List.mem_map.mp hmem
  obtain ⟨fields, hfields⟩ := hinv.described old hold
  exact ⟨fields, (congrArg (fun b => s.metas b.path) hbound).symm.trans hfields⟩

variable (sys) in
/-- The store is closed, and its description stays one. -/
theorem closeStore_eq (hinv : Inv s) {i : ℕ} {store : MemoryStore Value}
    (hi : s.stores[i]? = some store) (hopen : store.closed = false) (now : String)
    (write : Except Exn Unit) : ∃ metas, s.closeStore sys i store now write =
        (.ok (), ⟨s.handles.erase store.handle, s.stores.set i (Counted.close store), metas⟩) ∧
      ∀ path, metas path = s.metas path ∨ ∃ fields, metas path = .object fields := by
  have hstore : store ∈ s.openStores := mem_openStores.mpr ⟨List.mem_of_getElem? hi, hopen⟩
  obtain ⟨fields, hfields⟩ := hinv.described store hstore
  obtain ⟨fields', hfields'⟩ := exists_touchMeta sys now fields store.options
  have hmeta : sys.touchMeta now (s.metas store.bound.path) store.bound.options true =
      .ok fields' := by
    rw [← hfields', ← hfields]
    rfl
  rw [closeStore, hopen, hinv.find?_handle hstore]
  simp only [hmeta, Bool.false_eq_true, if_false]
  cases write with
  | error e => exact ⟨s.metas, rfl, fun _ => Or.inl rfl⟩
  | ok u =>
    refine ⟨_, rfl, fun path => ?_⟩
    by_cases hpath : path = store.handle
    · rw [hpath]
      exact Or.inr ⟨fields', Function.update_self _ _ _⟩
    · exact Or.inl (Function.update_of_ne hpath _ _)

/-- A handle less, for a store that is closed. -/
theorem inv_closed (hinv : Inv s) {i : ℕ} {store : MemoryStore Value}
    (hi : s.stores[i]? = some store) (hopen : store.closed = false) {metas : String → MetaFile}
    (hmetas : ∀ path, metas path = s.metas path ∨ ∃ fields, metas path = .object fields) :
    Inv ⟨s.handles.erase store.handle, s.stores.set i (Counted.close store), metas⟩ := by
  have hperm : s.openStores.Perm
      (store :: openStores ⟨s.handles.erase store.handle, s.stores.set i (Counted.close store),
        metas⟩) :=
    perm_filter_set hi (by rw [hopen]; rfl) rfl
  constructor
  · exact Table.erase_rows_perm (r := store.bound) (hinv.bound.trans (hperm.map MemoryStore.bound))
  · intro store' hstore'
    obtain ⟨fields, hfields⟩ := hinv.described store'
      (hperm.mem_iff.mpr (List.mem_cons_of_mem _ hstore'))
    rcases hmetas store'.handle with hsame | hobject
    · exact ⟨fields, hsame.trans hfields⟩
    · exact hobject

/-- A store that is there before and after is dispatched to in the same way. -/
theorem dispatch_congr (hinv : Inv s) (hinv' : Inv s') {store : MemoryStore Value}
    (hs : store ∈ s.stores) (hs' : store ∈ s'.stores) (op : DispatchedOp) :
    s'.dispatch store op = s.dispatch store op := by
  rcases hclosed : store.closed with _ | _
  · cases op with
    | supported op =>
      rw [hinv.dispatch_eq (mem_openStores.mpr ⟨hs, hclosed⟩),
        hinv'.dispatch_eq (mem_openStores.mpr ⟨hs', hclosed⟩)]
    | unsupported type => rfl
  · cases op <;> simp only [dispatch, hclosed, if_true]

variable (sys) in
/-- After a release the handles are again those of the open stores, and the other stores are as
they were. -/
theorem inv_release (hinv : Inv s) {i : ℕ} {store : MemoryStore Value}
    (hi : s.stores[i]? = some store) (now : String) (write : Except Exn Unit) :
    Inv (s.release sys i store now write).2 ∧
      ∀ j, j ≠ i → (s.release sys i store now write).2.stores[j]? = s.stores[j]? := by
  rcases hclosed : store.closed with _ | _
  · have hrelease : Counted.release store = _ := Counted.release_of_open hclosed
    have hset := hinv.set hi ⟨false, Counted.refcount store - 1⟩ hclosed.symm
    rw [release, hrelease]
    by_cases hlast : Counted.refcount store - 1 ≤ 0
    · have hlength : i < s.stores.length := (List.getElem?_eq_some_iff.mp hi).1
      obtain ⟨metas, hclose, hmetas⟩ := closeStore_eq sys hset
        (List.getElem?_set_self hlength) rfl now write
      simp only [hlast, decide_true, if_true, hclose]
      refine ⟨inv_closed hset (List.getElem?_set_self hlength) rfl hmetas, fun j hj => ?_⟩
      rw [List.getElem?_set_ne hj.symm, List.getElem?_set_ne hj.symm]
    · simp only [hlast, decide_false, Bool.false_eq_true, if_false]
      exact ⟨hset, fun j hj => List.getElem?_set_ne hj.symm⟩
  · have hrelease : Counted.release store = _ := Counted.release_of_closed hclosed
    have hsame : s.release sys i store now write = (.ok (), s) := by
      rw [release, hrelease]
      simp only [Bool.false_eq_true, if_false, set_of_getElem? hi]
    rw [hsame]
    exact ⟨hinv, fun _ _ => rfl⟩

theorem inv_acquire (hinv : Inv s) {i : ℕ} {store : MemoryStore Value}
    (hi : s.stores[i]? = some store) : Inv (s.acquire i store).2 := by
  rw [acquire]
  rcases hclosed : store.closed with _ | _
  · have hacquire : Counted.acquire? store = _ := Counted.acquire?_of_open hclosed
    rw [hacquire]
    exact hinv.set hi _ hclosed.symm
  · have hacquire : Counted.acquire? store = none := Counted.acquire?_of_closed hclosed
    rw [hacquire]
    exact hinv

theorem Inv.independent (hinv : Inv s) (hinv' : Inv s') {e : MemoryEvent Value}
    (hothers : ∀ i now write, e = .release i now write → ∀ j, j ≠ i →
      s'.stores[j]? = s.stores[j]?) : Independent s e s' where
  dispatched _ hstore op := hinv'.dispatch_eq hstore op
  count := hinv'.storeCount_eq
  others i now write he j hj store hstore := by
    have hstore' := (hothers i now write he j hj).trans hstore
    exact ⟨hstore', dispatch_congr hinv hinv' (List.mem_of_getElem? hstore)
      (List.mem_of_getElem? hstore')⟩

/-- A call that opens no store at the path of an open one. -/
theorem inv_step (hinv : Inv s) {e : MemoryEvent Value} (h : s.step sys e = some s')
    (hapart : Apart sys s e s') : Inv s' ∧ Independent s e s' := by
  cases e with
  | «open» options allocated now mkdir write =>
    rw [step] at h
    rcases hopen : s.openStore sys options allocated now mkdir write with e | t
    · rw [hopen] at h
      cases h
      exact ⟨hinv, hinv.independent hinv nofun⟩
    · rw [hopen] at h
      cases h
      obtain ⟨path, fields, hpath, hmkdir, hfields, hwrite, rfl⟩ := openStore_eq_ok hopen
      have hinv' := inv_openStore hinv options fields
        (hapart hmkdir hwrite path fields hpath hfields)
      exact ⟨hinv', hinv.independent hinv' nofun⟩
  | acquire i =>
    obtain ⟨store, hi, rfl⟩ := Option.map_eq_some_iff.mp h
    have hinv' := inv_acquire hinv hi
    exact ⟨hinv', hinv.independent hinv' nofun⟩
  | release i now write =>
    obtain ⟨store, hi, rfl⟩ := Option.map_eq_some_iff.mp h
    obtain ⟨hinv', hothers⟩ := inv_release sys hinv hi now write
    refine ⟨hinv', hinv.independent hinv' fun i' now' write' he => ?_⟩
    cases he
    exact hothers
  | dispatch i op =>
    obtain ⟨store, hi, rfl⟩ := Option.map_eq_some_iff.mp h
    exact ⟨hinv, hinv.independent hinv nofun⟩

/-- If the stores are counted, none has been opened at the path of another one. -/
theorem apart_of_independent (hinv : Inv s) {e : MemoryEvent Value} (h : s.step sys e = some s')
    (hindependent : Independent s e s') : Apart sys s e s' := by
  cases e with
  | «open» options allocated now mkdir write =>
    intro hmkdir hwrite path fields hpath hfields store hstore hhandle
    have hopen : s.openStore sys options allocated now mkdir write = .ok
        ⟨s.handles.put ⟨path, options⟩, s.stores ++ [⟨path, options, false, 0⟩],
          Function.update s.metas path (.object fields)⟩ := by
      rw [openStore, hpath, hmkdir, hwrite]
      change (sys.touchMeta now (s.metas path) options false >>= _) = _
      rw [hfields]
      rfl
    rw [step, hopen] at h
    cases h
    have hcount := hindependent.count
    rw [openStores_append _ rfl, List.length_append, ← hinv.storeCount_eq] at hcount
    have hmem : path ∈ s.handles.rows.map LocalHandle.path := by
      refine List.mem_map.mpr ⟨store.bound, ?_, hhandle⟩
      exact hinv.bound.mem_iff.mpr (List.mem_map_of_mem hstore)
    have hlength : (s.handles.put ⟨path, options⟩).rows.length = s.handles.rows.length :=
      Table.length_put_of_mem hmem
    rw [storeCount, storeCount, hlength, List.length_singleton] at hcount
    omega
  | acquire | release | dispatch => trivial

/-- **Independent stores.** In a run of calls on a backend and its stores, the open stores do not
depend on each other exactly if none is opened at the path of an open store. -/
theorem independent_iff (sys : MemorySystem Value) (metas : String → MetaFile)
    (events : List (MemoryEvent Value)) :
    Events.Along (step sys) Independent (start metas) events ↔
      Events.Along (step sys) (Apart sys) (start metas) events := by
  have hstep : ∀ s e s', Inv s → step sys s e = some s' → Apart sys s e s' →
      Inv s' ∧ Independent s e s' := fun _ _ _ hinv h hapart => inv_step hinv h hapart
  have hback : ∀ s e s', Inv s → step sys s e = some s' → Independent s e s' → Apart sys s e s' :=
    fun _ _ _ hinv h hindependent => apart_of_independent hinv h hindependent
  exact Events.along_iff_of_invariant hstep hback (inv_start metas)

/-! ### Two stores at one path -/

/-- Options with texts for values. -/
def sampleSystem : MemorySystem String where
  truthy value := value ≠ ""
  resolve := .ok
  json value := .ok (.str value)

/-- Two stores are opened at the same path, and the first one is acquired and released. -/
def openedTwice : List (MemoryEvent String) :=
  [.open [("path", "/data"), ("embedding_provider", "small")] "" "2026-01-01" (.ok ()) (.ok ()),
    .open [("path", "/data"), ("embedding_provider", "large")] "" "2026-01-02" (.ok ()) (.ok ()),
    .acquire 0, .release 0 "2026-01-03" (.ok ())]

/-- The second store is open, and dispatching to it raises a `KeyError`. -/
theorem not_independent :
    ¬ Events.Along (step sampleSystem) Independent (start fun _ => .missing) openedTwice := by
  intro h
  have hlast := ((((h _ rfl).2 _ rfl).2 _ rfl).2 _ rfl).1
  have hdispatch := hlast.dispatched _ (List.mem_singleton_self _) (.list "memory://user")
  cases hdispatch

end LocalMemoryBackend

end OpenRath
