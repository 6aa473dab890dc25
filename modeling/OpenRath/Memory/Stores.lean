import OpenRath.Memory.Search

/-!
# The stores that operations lead to

What a store holds depends on the operations only: documents, sidecars, archives of messages and
the bytes of resources, each under a name of its kind. All but the bytes of resources is text.

## Main definitions

* `MemoryHost.Reachable`: the stores after a sequence of operations.
* `StoredFile`, `FileTree.Sound`: the files of such a store.

## Main results

* `MemoryHost.sound_handler`: what an operation does to the files, whether it returns or raises.
* `MemoryHost.sound_of_reachable`: the files of every store.
-/

namespace OpenRath

open TextFile

/-- The name and the bytes of a file that an operation writes. -/
inductive StoredFile : FileName → List UInt8 → Prop
  | document {stem : List Char} (hstem : stem ≠ []) (text : List Char) :
      StoredFile (stem ++ mdSuffix) (encode text)
  | sidecar {stem : List Char} (hstem : stem ≠ []) (text : List Char) :
      StoredFile (stem ++ vecSuffix) (encode text)
  | messages (text : List Char) : StoredFile "messages.json".toList (encode text)
  | blob (originalName : List Char) (data : List UInt8) :
      StoredFile (MemoryHost.blobName originalName) data

/-- Every file of the store is one that an operation writes. -/
def FileTree.Sound (t : FileTree) : Prop :=
  ∀ p data, t.files.lookup p = some data → StoredFile p.name data

theorem StoredFile.name_ne_nil {name : FileName} {data : List UInt8} (h : StoredFile name data) :
    name ≠ [] := by
  cases h with
  | document hstem text => exact List.append_ne_nil_of_left_ne_nil hstem _
  | sidecar hstem text => exact List.append_ne_nil_of_left_ne_nil hstem _
  | messages text => decide
  | blob originalName data => exact List.append_ne_nil_of_left_ne_nil (by decide) _

/-- A handler keeps a condition on the store, whether it returns or raises. -/
abbrev Preserves {α : Type} (I : FileTree → Prop) (x : Handler α) : Prop :=
  Tx.Ends I x (fun _ => I) (fun _ => I)

theorem Preserves.snd {α : Type} {I : FileTree → Prop} {x : Handler α} (h : Preserves I x)
    {t : FileTree} (ht : I t) : I (x t).2 := by
  rcases hx : x t with ⟨e | a, t'⟩
  · exact h.of_eq_error ht hx
  · exact h.of_eq_ok ht hx

theorem FileTree.sound_empty : FileTree.empty.Sound := by
  intro p data h
  rw [show FileTree.empty.files = ∅ from rfl, Finmap.lookup_empty] at h
  cases h

namespace MemoryHost

variable (store : MemoryHost) (world : MemoryWorld) {I : FileTree → Prop} {α : Type}

/-! ### Addresses -/

/-- The segments of an address that leads below a scope of the store. -/
structure IsStorePath (p : TreePath) : Prop where
  scope : p.headD [] ∈ validScopes
  segments : ∀ seg ∈ p.tail, seg ∉ [[], ['.'], ['.', '.']]

/-- The address leads below a scope, up to a character that no name has. -/
structure HasNul (uri : String) : Prop where
  isSome : (memoryUriPrefix uri).isSome
  not_root : ¬ isRootUri uri
  path : IsStorePath ((uriTail uri).splitOn '/')
  mem : ∃ seg ∈ ((uriTail uri).splitOn '/').tail, '\x00' ∈ seg

theorem IsStorePath.ne_nil {p : TreePath} (h : IsStorePath p) : p ≠ [] := by
  rintro rfl
  exact absurd h.scope (by decide)

/-- A path with a scope has a name. -/
theorem IsStorePath.name_ne_nil {p : TreePath} (h : IsStorePath p) : p.name ≠ [] := by
  obtain ⟨scope, rest, rfl⟩ := List.exists_cons_of_ne_nil h.ne_nil
  cases rest using List.reverseRecOn with
  | nil =>
    rintro (rfl : scope = [])
    exact absurd h.scope (by decide)
  | append_singleton rest seg =>
    rw [← List.cons_append, TreePath.name_concat]
    rintro rfl
    exact h.segments [] (List.mem_append_right _ List.mem_cons_self) List.mem_cons_self

/-- An address has a path, or it is refused, or it has a character that no name has. -/
theorem resolveUri_cases (uri : String) :
    (∃ message, store.resolveUri uri = .ok (.error (.failure .invalidUri message)) ∧ ¬ HasNul uri) ∨
    (∃ e, store.resolveUri uri = .error e ∧ HasNul uri) ∨
    (∃ p, store.resolveUri uri = .ok (.ok p) ∧ IsStorePath p ∧ ¬ HasNul uri) := by
  rw [resolveUri]
  cases hscheme : memoryUriPrefix uri with
  | none => exact Or.inl ⟨_, rfl, fun h => by simpa [hscheme] using h.isSome⟩
  | some scheme =>
    simp only []
    by_cases hroot : isRootUri uri = true
    · rw [if_pos hroot]
      exact Or.inl ⟨_, rfl, fun h => h.not_root hroot⟩
    rw [if_neg hroot]
    by_cases htail : uriTail uri = []
    · rw [if_pos htail]
      refine Or.inl ⟨_, rfl, fun h => ?_⟩
      have hscope := h.path.scope
      rw [htail] at hscope
      exact absurd hscope (by decide)
    rw [if_neg htail]
    by_cases hscope : ((uriTail uri).splitOn '/').headD [] ∈ validScopes
    swap
    · rw [if_pos hscope]
      exact Or.inl ⟨_, rfl, fun h => hscope h.path.scope⟩
    rw [if_neg (not_not.mpr hscope)]
    by_cases hforbidden : ∃ seg ∈ ((uriTail uri).splitOn '/').tail, seg ∈ [[], ['.'], ['.', '.']]
    · rw [if_pos hforbidden]
      obtain ⟨seg, hseg, hmem⟩ := hforbidden
      exact Or.inl ⟨_, rfl, fun h => h.path.segments seg hseg hmem⟩
    rw [if_neg hforbidden]
    have hpath : IsStorePath ((uriTail uri).splitOn '/') :=
      ⟨hscope, fun seg hseg hmem => hforbidden ⟨seg, hseg, hmem⟩⟩
    by_cases hnul : ∃ seg ∈ ((uriTail uri).splitOn '/').tail, '\x00' ∈ seg
    · rw [if_pos hnul]
      exact Or.inr (Or.inl ⟨_, rfl, by rw [hscheme]; rfl, hroot, hpath, hnul⟩)
    · rw [if_neg hnul]
      exact Or.inr (Or.inr ⟨_, rfl, hpath, fun h => hnul h.mem⟩)

/-- An address that is accepted has a path with a name. -/
theorem isStorePath_of_resolveUri {uri : String} {p : TreePath}
    (h : store.resolveUri uri = .ok (.ok p)) : IsStorePath p := by
  obtain ⟨message, hfailure, -⟩ | ⟨e, herror, -⟩ | ⟨q, hpath, hq, -⟩ := store.resolveUri_cases uri
  · rw [hfailure] at h
    cases h
  · rw [herror] at h
    cases h
  · rw [hpath] at h
    cases h
    exact hq

/-! ### Statements -/

theorem preserves_pure (a : α) : Preserves I (pure a : Handler α) := Tx.ends_pure fun _ ht => ht

theorem preserves_raise (e : MemoryExn) : Preserves I (Tx.raise e : Handler α) :=
  Tx.ends_raise fun _ ht => ht

theorem preserves_query (f : FileTree → α) : Preserves I (Tx.query f : Handler α) :=
  Tx.ends_query fun _ ht => ht

theorem preserves_bind {β : Type} {x : Handler α} {f : α → Handler β} (hx : Preserves I x)
    (hf : ∀ a, Preserves I (f a)) : Preserves I (x >>= f) := Tx.Ends.bind hx hf

theorem preserves_orRaise (x : Except Exn α) : Preserves I (orRaise x) :=
  Tx.ends_ofExcept (fun _ _ _ ht => ht) fun _ _ _ ht => ht

theorem ends_orRaise_bind {β : Type} {x : Except Exn α} {f : α → Handler β}
    {Q : β → FileTree → Prop} {E : MemoryExn → FileTree → Prop}
    (hok : ∀ a, x = .ok a → Tx.Ends I (f a) Q E)
    (herror : ∀ e, x = .error e → ∀ t, I t → E (.raised e) t) :
    Tx.Ends I (orRaise x >>= f) Q E := by
  cases x with
  | ok a => exact hok a rfl
  | error e => exact Tx.ends_raise (herror e rfl)

theorem preserves_orRaise_bind {β : Type} {x : Except Exn α} {f : α → Handler β}
    (hf : ∀ a, x = .ok a → Preserves I (f a)) : Preserves I (orRaise x >>= f) :=
  ends_orRaise_bind hf fun _ _ _ ht => ht

theorem preserves_onTree {f : FileTree → Except OsError FileTree}
    (h : ∀ t t', I t → f t = .ok t' → I t') : Preserves I (onTree f) := by
  refine Tx.ends_tryExecute (fun t t' ht hf => ?_) fun _ _ ht _ => ht
  cases hres : f t with
  | ok t'' =>
    rw [hres] at hf
    cases hf
    exact h t _ ht hres
  | error e =>
    rw [hres] at hf
    cases hf

theorem preserves_withResolved {uri : String} {handler : TreePath → Handler MemoryResult}
    (h : ∀ p, store.resolveUri uri = .ok (.ok p) → Preserves I (handler p)) :
    Preserves I (store.withResolved uri handler) := by
  refine preserves_orRaise_bind fun r hr => ?_
  cases r with
  | error failure => exact preserves_pure failure
  | ok p => exact h p hr

theorem sound_mkdir (p : TreePath) : Preserves FileTree.Sound (onTree fun t => t.mkdir p) := by
  refine preserves_onTree fun t t' ht hmkdir q data hq => ht q data ?_
  rwa [FileTree.files_of_mkdir hmkdir] at hq

theorem sound_unlink (p : TreePath) : Preserves FileTree.Sound (onTree fun t => t.unlink p) := by
  refine preserves_onTree fun t t' ht hunlink q data hq => ht q data ?_
  rw [FileTree.files_of_unlink hunlink] at hq
  by_cases hqp : q = p
  · rw [hqp, Finmap.lookup_erase] at hq
    cases hq
  · rwa [Finmap.lookup_erase_ne hqp] at hq

theorem sound_write {p : TreePath} {data : List UInt8} (h : StoredFile p.name data) :
    Preserves FileTree.Sound (onTree fun t => t.write p data) := by
  refine preserves_onTree fun t t' ht hwrite q data' hq => ?_
  rw [FileTree.files_of_write hwrite] at hq
  by_cases hqp : q = p
  · rw [hqp, Finmap.lookup_insert] at hq
    cases hq
    rwa [hqp]
  · rw [Finmap.lookup_insert_of_ne _ hqp] at hq
    exact ht q data' hq

theorem sound_atomicWriteText {p : TreePath} {text : List Char} {newline : Bool}
    (h : ∀ text, StoredFile p.name (encode text)) :
    Preserves FileTree.Sound (atomicWriteText p text newline) :=
  (sound_mkdir _).bind fun _ => sound_write (h _)

/-! ### Operations -/

theorem sound_document {p : TreePath} (hp : p.name ≠ []) (text : List Char) :
    StoredFile (p.withSuffix mdSuffix).name (encode text) := by
  rw [TreePath.name_withSuffix]
  exact .document (FileName.stem_ne_nil hp) text

theorem sound_removeSidecar (p : TreePath) (suffix : List Char) :
    Preserves FileTree.Sound (removeSidecar p suffix) :=
  preserves_bind (preserves_query _) fun _ =>
    Tx.ends_ite (fun _ => sound_unlink _) fun _ => preserves_pure _

theorem sound_dispatchWrite (uri content mode : String) :
    Preserves FileTree.Sound (store.dispatchWrite uri content mode) := by
  refine store.preserves_withResolved fun p hp =>
    Tx.ends_ite (fun _ => preserves_pure _) fun _ => ?_
  have hname := (store.isStorePath_of_resolveUri hp).name_ne_nil
  refine preserves_bind (sound_mkdir _) fun _ => ?_
  refine preserves_bind (sound_atomicWriteText (sound_document hname)) fun _ => ?_
  exact preserves_bind (Tx.ends_forEach fun suffix _ => sound_removeSidecar p suffix)
    fun _ => preserves_pure _

theorem preserves_dispatchRead (uri : String) (level : MemoryLevel) (encoding : Option String) :
    Preserves I (store.dispatchRead uri level encoding) := by
  refine store.preserves_withResolved fun p _ => preserves_bind (preserves_query _) fun t => ?_
  cases readTarget? t p with
  | none => exact preserves_pure _
  | some target => exact preserves_bind (preserves_orRaise _) fun _ => preserves_pure _

theorem preserves_dispatchList (uri : String) : Preserves I (store.dispatchList uri) :=
  store.preserves_withResolved fun _ _ => preserves_bind (preserves_query _) fun _ =>
    Tx.ends_ite (fun _ => preserves_pure _) fun _ => preserves_pure _

theorem preserves_dispatchTree (uri : String) (depth : ℤ) :
    Preserves I (store.dispatchTree uri depth) :=
  store.preserves_withResolved fun _ _ => preserves_bind (preserves_query _) fun _ =>
    Tx.ends_ite (fun _ => preserves_pure _) fun _ => preserves_pure _

/-- The documents of a search have names. -/
theorem name_ne_nil_of_searched {t : FileTree} (ht : t.Sound) {scopePath p : TreePath}
    {scopeUri : String} (h : t.Searched scopePath scopeUri p) : p.name ≠ [] := by
  have hvisible : ∀ dir, t.Visible dir p → p.name ≠ [] := fun dir hdir hname => by
    have hsuffix := hdir.isSuffix
    rw [hname] at hsuffix
    exact absurd (List.suffix_nil.mp hsuffix) (by decide)
  rw [FileTree.Searched] at h
  split_ifs at h with hroot hfile
  · obtain ⟨scope, -, hscope⟩ := h
    exact hvisible _ hscope
  · rw [h]
    obtain ⟨data, hdata⟩ := Finmap.mem_iff.mp hfile
    exact (ht _ _ hdata).name_ne_nil
  · exact hvisible _ h

theorem sound_storeVec {p : TreePath} (hp : p.name ≠ []) (model : String)
    (vec : List (BitVec 64)) :
    Preserves FileTree.Sound (store.storeVec (sidecarOf p) model vec) := by
  refine preserves_bind (sound_mkdir _) fun _ => sound_atomicWriteText fun text => ?_
  rw [sidecarOf, TreePath.name_withSuffix]
  exact .sidecar (FileName.stem_ne_nil hp) text

/-- A ranking keeps what is kept when vectors are stored for its documents. -/
theorem preserves_embeddingRank {client : EmbeddingClient} {docs : List DocRow}
    {R : List Char → List (BitVec 64) → Prop}
    (hembed : ∀ bodies vecs, client.embed bodies = .ok vecs → ∀ x ∈ bodies.zip vecs, R x.1 x.2)
    (hstore : ∀ doc ∈ docs, ∀ vec, R doc.body vec →
      Preserves I (store.storeVec (sidecarOf doc.path) client.modelName vec))
    (query : String) (topK : ℤ) : Preserves I (store.embeddingRank client docs query topK) := by
  refine Tx.ends_ite (fun _ => preserves_pure _) fun _ => preserves_bind (preserves_query _) ?_
  intro t
  refine preserves_orRaise_bind fun loaded hloaded => ?_
  generalize hneed : (loaded.filterMap fun d => if d.2 = none then some d.1 else none) = needEmbed
  have hmem : ∀ doc ∈ needEmbed, doc ∈ docs := by
    intro doc hdoc
    rw [← hneed] at hdoc
    obtain ⟨d, hd, hdoc⟩ := List.mem_filterMap.mp hdoc
    obtain ⟨-, hdoc⟩ := Option.ite_none_right_eq_some.mp hdoc
    obtain ⟨doc', hdoc', hload⟩ := exists_mem_of_mapM hloaded hd
    obtain ⟨vec, -, hload⟩ := exists_of_bind_eq_ok hload
    cases hload
    cases hdoc
    exact hdoc'
  refine preserves_orRaise_bind fun newVecs hvecs => ?_
  have hvec : ∀ x ∈ (needEmbed.map DocRow.body).zip newVecs, R x.1 x.2 := by
    rw [EmbeddingClient.embedAll] at hvecs
    split_ifs at hvecs with hnone
    · rw [hnone]
      exact fun x hx => absurd hx List.not_mem_nil
    · exact hembed _ _ hvecs
  refine preserves_bind ?_ fun _ => preserves_bind (preserves_orRaise _) fun _ =>
    preserves_orRaise _
  refine Tx.ends_forEach fun d hd => hstore d.1 (hmem _ (List.of_mem_zip hd).1) d.2 ?_
  refine hvec (d.1.body, d.2) ?_
  rw [List.zip_map_left]
  exact List.mem_map.mpr ⟨d, hd, rfl⟩

/-- A search keeps what its ranking keeps. -/
theorem preserves_dispatchFind {query : String} {targetUri : Option String} {topK : ℤ}
    (h : ∀ t, I t → ∀ client ∈ world.embedding, ∀ scopePath scopeUri docs,
      store.findScope targetUri = .ok (.ok scopePath, scopeUri) →
      store.collectMdDocs t scopePath scopeUri = .ok docs →
      Tx.Ends (fun t' => t' = t) (store.embeddingRank client docs query topK)
        (fun _ => I) (fun _ => I)) :
    Preserves I (store.dispatchFind world query targetUri topK) := by
  refine preserves_orRaise_bind fun scope hscope => ?_
  obtain ⟨_ | scopePath, scopeUri⟩ := scope
  · exact preserves_pure _
  refine Tx.ends_of_forall fun t ht => ?_
  refine Tx.Ends.bind (Q := fun r t' => r = t ∧ t' = t) (Tx.ends_query fun t' ht' => ⟨ht', ht'⟩) ?_
  intro r
  refine Tx.ends_of_forall fun t' ht' => ?_
  obtain ⟨hr, rfl⟩ := ht'
  subst hr
  refine ends_orRaise_bind (fun docs hdocs => ?_) fun _ _ _ ht' => ht' ▸ ht
  refine Tx.ends_ite (fun _ => Tx.ends_pure fun _ ht' => ht' ▸ ht) fun _ => ?_
  cases hclient : world.embedding with
  | none => exact Tx.ends_pure fun _ ht' => ht' ▸ ht
  | some client =>
    have hrank : Tx.Ends (fun t' => t' = r) (store.embeddingRank client docs query topK).attempt
        (fun _ => I) (fun (_ : MemoryExn) => I) :=
      (h r ht client hclient scopePath scopeUri docs hscope hdocs).attempt (fun _ _ ht' => ht')
        fun _ _ ht' => ht'
    refine Tx.Ends.bind hrank fun hits => ?_
    cases hits with
    | ok hits => exact preserves_pure _
    | error e => exact preserves_pure _

theorem sound_dispatchFind (query : String) (targetUri : Option String) (topK : ℤ) :
    Preserves FileTree.Sound (store.dispatchFind world query targetUri topK) := by
  refine store.preserves_dispatchFind world fun t ht client _ scopePath scopeUri docs _ hdocs => ?_
  have hrank : Preserves FileTree.Sound (store.embeddingRank client docs query topK) := by
    refine store.preserves_embeddingRank (R := fun _ _ => True) (fun _ _ _ _ _ => trivial)
      (fun doc hdoc vec _ => store.sound_storeVec ?_ _ vec) query topK
    exact name_ne_nil_of_searched ht (store.mem_of_collectMdDocs hdocs hdoc).1
  exact hrank.consequence (fun t' ht' => ht' ▸ ht) (fun _ _ ht' => ht') fun _ _ ht' => ht'

theorem sound_storeResource (targetUri : String) (targetPath : TreePath)
    (reason instruction : String) (data : List UInt8) (originalName : List Char) (label : String) :
    Preserves FileTree.Sound (store.storeResource targetUri targetPath reason instruction data
      originalName label) := by
  refine preserves_bind (preserves_query _) fun t =>
    Tx.ends_ite (fun _ => preserves_pure _) fun _ => ?_
  refine preserves_bind (sound_mkdir _) fun _ =>
    Tx.ends_ite (fun _ => preserves_raise _) fun _ => ?_
  refine preserves_bind (sound_write ?_) fun _ => preserves_bind ?_ fun _ => preserves_pure _
  · rw [TreePath.name_concat]
    exact .blob originalName data
  · refine sound_atomicWriteText fun text => ?_
    rw [TreePath.name_concat]
    have hmeta : StoredFile ("meta".toList ++ mdSuffix) (encode text) := .document (by decide) text
    exact hmeta

theorem sound_dispatchResource (source : String) (targetUri : Option String)
    (reason instruction : String) :
    Preserves FileTree.Sound
      (store.dispatchResource world source targetUri reason instruction) := by
  refine store.preserves_withResolved fun targetPath _ => ?_
  cases world.fetch source with
  | resource data originalName label => exact store.sound_storeResource _ _ _ _ _ _ _
  | notFound | accessDenied | fetchError => exact preserves_pure _
  | permission | osError | raised => exact preserves_raise _

theorem sound_storeMemo (memo : String × String) :
    Preserves FileTree.Sound (store.storeMemo memo) := by
  refine preserves_orRaise_bind fun r hr => ?_
  cases r with
  | error failure => exact preserves_pure _
  | ok p =>
    have hname := (store.isStorePath_of_resolveUri hr).name_ne_nil
    exact preserves_bind (sound_mkdir _) fun _ => sound_atomicWriteText (sound_document hname)

theorem sound_dispatchCommit (sessionId : String) (messages : List MemoryMessage) (wait : Bool) :
    Preserves FileTree.Sound (store.dispatchCommit world sessionId messages wait) := by
  refine Tx.ends_ite (fun _ => preserves_pure _) fun _ =>
    Tx.ends_ite (fun _ => preserves_pure _) fun _ => ?_
  refine preserves_bind (sound_mkdir _) fun _ => preserves_orRaise_bind fun normalized _ => ?_
  refine preserves_bind (sound_atomicWriteText fun text => ?_) fun _ =>
    Tx.ends_ite (fun _ => preserves_pure _) fun _ => ?_
  · rw [TreePath.name_concat]
    exact .messages text
  cases world.chat with
  | none => exact preserves_pure _
  | some chat =>
    refine preserves_orRaise_bind fun extracted _ => ?_
    exact preserves_bind (Tx.ends_forEach fun memo _ => store.sound_storeMemo memo)
      fun _ => preserves_pure _

/-- Every operation keeps to the files that operations write. -/
theorem sound_handler (op : MemoryOp) : Preserves FileTree.Sound (store.handler world op) := by
  cases op with
  | write uri content mode => exact store.sound_dispatchWrite uri content mode
  | read uri level encoding => exact store.preserves_dispatchRead uri level encoding
  | list uri => exact store.preserves_dispatchList uri
  | tree uri depth => exact store.preserves_dispatchTree uri depth
  | find query targetUri topK => exact store.sound_dispatchFind world query targetUri topK
  | search query targetUri topK => exact store.sound_dispatchFind world query targetUri topK
  | resource source targetUri reason instruction =>
    exact store.sound_dispatchResource world source targetUri reason instruction
  | commit sessionId messages wait =>
    exact store.sound_dispatchCommit world sessionId messages wait

/-! ### Sequences of operations -/

/-- An operation leads from a store to another one. -/
def Step (t t' : FileTree) : Prop := ∃ world op, (store.dispatch world op t).2 = t'

/-- The stores after a sequence of operations. -/
def Reachable (t : FileTree) : Prop := Relation.ReflTransGen store.Step .empty t

/-- An operation leaves behind what its handler does, whether it returns or raises. -/
theorem dispatch_snd (op : MemoryOp) (t : FileTree) :
    (store.dispatch world op t).2 = (store.handler world op t).2 := by
  rw [dispatch]
  rcases store.handler world op t with ⟨e | result, t'⟩ <;> rfl

variable {store} in
/-- What every handler keeps holds of every store. -/
theorem Reachable.induction {t : FileTree} (h : store.Reachable t) (hempty : I .empty)
    (hstep : ∀ world op, Preserves I (store.handler world op)) : I t := by
  induction h with
  | refl => exact hempty
  | tail _ hop ih =>
    obtain ⟨world, op, rfl⟩ := hop
    rw [dispatch_snd]
    exact (hstep world op).snd ih

/-- **Stores.** After any sequence of operations, whatever they return or raise and whatever their
clients answer, every file of the store is a document, a sidecar or an archive of messages, all of
which are text in UTF-8, or it holds the bytes of a resource, each under a name of its kind. -/
theorem sound_of_reachable {t : FileTree} (h : store.Reachable t) : t.Sound :=
  h.induction FileTree.sound_empty fun world op => store.sound_handler world op

end MemoryHost

namespace Sample

/-- A store with a document. -/
def teaStore : FileTree :=
  (memoryHost.dispatch memoryWorld (.write "memory://user/tea" "Likes tea." "write") .empty).2

theorem teaStore_sound : teaStore.files.lookup ["user".toList, "tea.md".toList] =
    some (encode "Likes tea.".toList) ∧ teaStore.Sound :=
  ⟨by decide +kernel, MemoryHost.sound_of_reachable memoryHost (.single ⟨_, _, rfl⟩)⟩

end Sample

end OpenRath
