import OpenRath.Library.Joining
import OpenRath.Memory.Stores

/-!
# Finding what was written

A document that was written is found by a search of the whole store if the search comes to it, and
the address under which it is found leads back to it. The search does not enter directories with
hidden names and takes the suffix of documents off their names, and reading a document takes off
another suffix.

## Main definitions

* `MemoryHost.Wrote`: a document was written and is still there.
* `MemoryHost.Found`: a document is found with its contents, and can be read where it is found.
* `Findable`: the addresses and contents of the documents that are always found.

## Main results

* `MemoryHost.found_iff`.
-/

namespace OpenRath

open TextFile

/-! ### Addresses of documents -/

namespace MemoryHost

/-- The name of a document without the suffix. -/
def displayName (name : FileName) : FileName := name.dropLast.dropLast.dropLast

/-- The address of a document that directories lead to from one with an address. -/
def docUri (uriBase : String) (dirs : TreePath) (name : FileName) : String :=
  entryUri (dirs.foldl entryUri uriBase) (displayName name)

variable {t : FileTree}

/-- The walk gives every document the address of its path. -/
theorem uri_of_mem_walkMd {n : ℕ} {dir : TreePath} {uriBase : String} {doc : String × TreePath}
    (h : doc ∈ walkMd t n dir uriBase) :
    ∃ dirs name, doc.2 = dir ++ dirs ++ [name] ∧ doc.1 = docUri uriBase dirs name := by
  induction n generalizing dir uriBase with
  | zero => exact absurd h List.not_mem_nil
  | succ n ih =>
    rw [walkMd, List.mem_flatMap] at h
    obtain ⟨name, -, hdoc⟩ := h
    split_ifs at hdoc with hhidden hdir hsuffix
    · exact absurd hdoc List.not_mem_nil
    · obtain ⟨dirs, last, hpath, huri⟩ := ih hdoc
      exact ⟨name :: dirs, last, by rw [hpath, List.append_assoc dir, List.singleton_append], huri⟩
    · rw [List.mem_singleton] at hdoc
      rw [hdoc]
      exact ⟨[], name, by rw [List.append_nil], rfl⟩
    · exact absurd hdoc List.not_mem_nil

/-- A search of the whole store gives every document the address of its path. -/
theorem uri_of_mem_docPaths {doc : String × TreePath} (h : doc ∈ docPaths t [] memoryRoot) :
    ∃ scope ∈ validScopes, ∃ dirs name, doc.2 = scope :: dirs ++ [name] ∧
      doc.1 = docUri (memoryPrefix ++ String.ofList scope) dirs name := by
  have hroot : t.Exists [] := Or.inr (Or.inl rfl)
  rw [docPaths, if_neg (not_not.mpr hroot), if_pos (by decide)] at h
  obtain ⟨scope, hscope, hdoc⟩ := List.mem_flatMap.mp h
  split_ifs at hdoc
  · obtain ⟨dirs, name, hpath, huri⟩ := uri_of_mem_walkMd hdoc
    exact ⟨scope, hscope, dirs, name, hpath, huri⟩
  · exact absurd hdoc List.not_mem_nil

/-- The address of a path, by its segments. -/
def addressOf (segments : TreePath) : String :=
  memoryPrefix ++ String.ofList (['/'].intercalate segments)

theorem toList_addressOf (segments : TreePath) :
    (addressOf segments).toList = memoryPrefix.toList ++ ['/'].intercalate segments := by
  rw [addressOf, String.toList_append, String.toList_ofList]

/-- A segment of an address: a name without a slash. -/
def IsSegment (name : FileName) : Prop := name ≠ [] ∧ '/' ∉ name

/-- The end of an address is that of its last segment. -/
theorem withoutSlashes_addressOf {dir : TreePath} {last : FileName} (hlast : IsSegment last) :
    withoutSlashes (addressOf (dir ++ [last])) = (addressOf (dir ++ [last])).toList := by
  obtain ⟨init, c, rfl⟩ : ∃ init c, last = init ++ [c] :=
    ⟨_, _, (List.dropLast_concat_getLast hlast.1).symm⟩
  have hc : c ≠ '/' := fun h => hlast.2 (by simp [h])
  obtain ⟨start, hstart⟩ : ∃ start, (addressOf (dir ++ [init ++ [c]])).toList = start ++ [c] := by
    rw [toList_addressOf]
    rcases eq_or_ne dir [] with rfl | hdir
    · exact ⟨memoryPrefix.toList ++ init, by simp⟩
    · exact ⟨memoryPrefix.toList ++ ['/'].intercalate dir ++ '/' :: init,
        by rw [intercalate_concat hdir]; simp⟩
  rw [withoutSlashes, hstart, List.rdropWhile_concat_neg _ _ _ (by simpa using hc)]

theorem entryUri_addressOf {dir : TreePath} {last : FileName} (hlast : IsSegment last)
    (name : FileName) :
    entryUri (addressOf (dir ++ [last])) name = addressOf (dir ++ [last] ++ [name]) := by
  have hne : dir ++ [last] ≠ [] := by simp
  rw [← String.toList_inj, entryUri, String.toList_ofList, withoutSlashes_addressOf hlast,
    toList_addressOf, toList_addressOf, intercalate_concat hne, List.append_assoc]

/-- The address of a document has its segments, with the name as it is displayed. -/
theorem docUri_addressOf {dir dirs : TreePath} (hdir : dir ≠ [])
    (hsegments : ∀ seg ∈ dir ++ dirs, IsSegment seg) (name : FileName) :
    docUri (addressOf dir) dirs name = addressOf (dir ++ dirs ++ [displayName name]) := by
  obtain ⟨init, last, rfl⟩ : ∃ init last, dir = init ++ [last] :=
    ⟨_, _, (List.dropLast_concat_getLast hdir).symm⟩
  have hfold : dirs.foldl entryUri (addressOf (init ++ [last])) =
      addressOf (init ++ [last] ++ dirs) := by
    induction dirs generalizing init last with
    | nil => rw [List.append_nil, List.foldl_nil]
    | cons seg dirs ih =>
      rw [List.foldl_cons, entryUri_addressOf (hsegments last (by simp)),
        ih (init ++ [last]) seg (by simp) (by simpa using hsegments)]
      simp
  obtain ⟨init', last', hsplit⟩ : ∃ init' last', init ++ [last] ++ dirs = init' ++ [last'] :=
    ⟨_, _, (List.dropLast_concat_getLast (by simp)).symm⟩
  have hlast' : IsSegment last' := hsegments last' (by simp [hsplit])
  rw [docUri, hfold, hsplit, entryUri_addressOf hlast']

variable (store : MemoryHost)

/-- The address of a path has a scheme and segments. -/
theorem uriTail_addressOf (p : TreePath) : uriTail (addressOf p) = ['/'].intercalate p := by
  have hstart : startsWith (addressOf p) memoryPrefix = true := by
    rw [startsWith, toList_addressOf, List.isPrefixOf_iff_prefix]
    exact List.prefix_append _ _
  rw [uriTail, if_pos hstart, toList_addressOf]
  exact List.drop_left' rfl

/-- An address is resolved to its segments, unless one of them is not allowed. -/
theorem resolveUri_addressOf {p : TreePath} (hscope : p.headD [] ∈ validScopes)
    (hslash : ∀ seg ∈ p, '/' ∉ seg) (hnul : ∀ seg ∈ p, '\x00' ∉ seg) (hname : p.name ≠ []) :
    (IsStorePath p → store.resolveUri (addressOf p) = .ok (.ok p)) ∧
      (¬ IsStorePath p → ∃ message, store.resolveUri (addressOf p) =
        .ok (.error (.failure .invalidUri message))) := by
  have hne : p ≠ [] := by
    rintro rfl
    exact hname rfl
  obtain ⟨init, last, rfl⟩ : ∃ init last, p = init ++ [last] :=
    ⟨_, _, (List.dropLast_concat_getLast hne).symm⟩
  have hlast : IsSegment last := ⟨by rwa [TreePath.name_concat] at hname, hslash last (by simp)⟩
  have hprefix : memoryUriPrefix (addressOf (init ++ [last])) = some memoryPrefix := by
    rw [memoryUriPrefix, if_pos]
    rw [startsWith, toList_addressOf, List.isPrefixOf_iff_prefix]
    exact List.prefix_append _ _
  have hroot : isRootUri (addressOf (init ++ [last])) = false := by
    rw [isRootUri, withoutSlashes_addressOf hlast, toList_addressOf, decide_eq_false_iff_not]
    intro hmem
    have hlength : ∀ text ∈ ["memory:".toList, "viking:".toList], text.length < 9 := by decide
    have hlt := hlength _ hmem
    rw [List.length_append] at hlt
    exact absurd hlt (by simp [memoryPrefix])
  have hsplit : (uriTail (addressOf (init ++ [last]))).splitOn '/' = init ++ [last] := by
    rw [uriTail_addressOf, List.splitOn_intercalate _ hslash hne]
  have htail : uriTail (addressOf (init ++ [last])) ≠ [] := by
    intro hnil
    rw [hnil] at hsplit
    rw [← hsplit] at hscope
    exact absurd hscope (by decide)
  have hnone : ¬ ∃ seg ∈ (init ++ [last]).tail, '\x00' ∈ seg := by
    rintro ⟨seg, hseg, hmem⟩
    exact hnul seg (List.mem_of_mem_tail hseg) hmem
  rw [resolveUri, hprefix]
  dsimp only
  rw [if_neg (by simp [hroot]), if_neg htail, hsplit, if_neg (not_not.mpr hscope), if_neg hnone]
  constructor
  · intro hpath
    refine if_neg ?_
    rintro ⟨seg, hseg, hmem⟩
    exact hpath.segments seg hseg hmem
  · intro hpath
    refine ⟨_, if_pos ?_⟩
    by_contra hall
    exact hpath ⟨hscope, fun seg hseg hmem => hall ⟨seg, hseg, hmem⟩⟩

/-! ### What is found -/

/-- Every document that a search of the whole store goes through can be decoded. -/
def Decodable (t : FileTree) : Prop := ∀ p, t.Searched [] memoryRoot p →
  ∃ body, store.bodyOf ((t.files.lookup p).getD []) = .ok body

/-- A search of the whole store comes to a document with these contents, and the same contents are
read under its address. -/
def Found (t : FileTree) (content : String) : Prop :=
  ∃ docs, store.collectMdDocs t [] memoryRoot = .ok docs ∧ ∃ doc ∈ docs,
    doc.body = content.toList ∧ ∀ world level encoding,
      (store.dispatch world (.read doc.uri level encoding) t).1 = .ok (.read doc.uri
        (if encoding = none then .bytes (encode content.toList) else .text content.toList) level)

/-- The contents were written at the address, and were not overwritten since then. -/
def Wrote (uri content : String) (t : FileTree) : Prop :=
  ∃ t₀ t₁ world mode size, store.Reachable t₀ ∧
    store.dispatch world (.write uri content mode) t₀ = (.ok (.written uri size), t₁) ∧
    Relation.ReflTransGen store.Step t₁ t ∧
    ∀ p, store.resolveUri uri = .ok (.ok p) →
      t.files.lookup (p.withSuffix mdSuffix) = some (encode content.toList)

end MemoryHost

/-- The paths and contents of the documents that are always found: the document is below a scope,
the directories to it have no hidden names, its name has at most one suffix, and its contents have
no carriage return. -/
structure Findable (p : TreePath) (content : String) : Prop where
  below : p.tail ≠ []
  directories : ∀ name ∈ p.tail.dropLast, MemoryHost.isHidden name = false
  stem : FileName.stem p.name.stem = p.name.stem
  segment : p.name.stem ∉ [['.'], ['.', '.']]
  content : '\r' ∉ content.toList

namespace MemoryHost

variable {store : MemoryHost} {t : FileTree} {content : String}

/-- The name of a document is not hidden. -/
theorem isHidden_append_mdSuffix (stem : List Char) : isHidden (stem ++ mdSuffix) = false := by
  have hlast : (stem ++ mdSuffix).getLast? = some 'd' := by
    rw [List.getLast?_append]
    rfl
  have hne : ∀ name suffix : List Char, suffix.getLast? ≠ some 'd' → suffix ≠ [] →
      suffix <:+ name → name.getLast? ≠ some 'd' := by
    rintro name suffix hsuffix hnil ⟨init, rfl⟩
    rwa [List.getLast?_append_of_ne_nil _ hnil]
  rw [isHidden]
  simp only [Bool.or_eq_false_iff, decide_eq_false_iff_not]
  refine ⟨⟨fun h => ?_, ?_⟩, ?_⟩
  · rw [h] at hlast
    exact absurd hlast (by decide)
  · rw [← Bool.not_eq_true, List.isSuffixOf_iff_suffix]
    exact fun h => hne _ _ (by decide) (by decide) h hlast
  · rw [← Bool.not_eq_true, List.isSuffixOf_iff_suffix]
    exact fun h => hne _ _ (by decide) (by decide) h hlast

theorem displayName_append_mdSuffix (stem : List Char) : displayName (stem ++ mdSuffix) = stem := by
  have hsuffix : mdSuffix = ['.', 'm', 'd'] := rfl
  rw [displayName, hsuffix, List.dropLast_append_of_ne_nil (by simp)]
  simp

/-- A carriage return is not read back. -/
theorem universalNewlines_eq_self_iff {text : List Char} :
    universalNewlines text = text ↔ '\r' ∉ text := by
  refine ⟨fun h => ?_, universalNewlines_of_not_mem⟩
  suffices hall : '\r' ∉ universalNewlines text by rwa [h] at hall
  clear h
  fun_induction universalNewlines text with
  | case1 => simp
  | case2 t ih => simpa using ih
  | case3 t hnext ih => simpa using ih
  | case4 c t hpair hsingle ih =>
    rw [List.mem_cons, not_or]
    exact ⟨fun h => hsingle h.symm, ih⟩

theorem bodyOf_encode (text : List Char) :
    store.bodyOf (encode text) = .ok (universalNewlines text) := by
  rw [bodyOf, readText, decode_encode]
  rfl

/-- The segments of an address have no slashes, and no characters that names cannot have. -/
theorem segments_of_resolveUri {uri : String} {p : TreePath}
    (h : store.resolveUri uri = .ok (.ok p)) : ∀ seg ∈ p, '/' ∉ seg ∧ '\x00' ∉ seg := by
  rw [resolveUri] at h
  rcases hscheme : memoryUriPrefix uri with _ | scheme
  · simp [hscheme] at h
  simp only [hscheme] at h
  split_ifs at h with hroot htail hscope hforbidden hnul
  · cases h
  · cases h
  · cases h
  · cases h
    intro seg hseg
    refine ⟨not_mem_of_mem_splitOn hseg, fun hmem => ?_⟩
    obtain ⟨first, rest, hparts⟩ := List.exists_cons_of_ne_nil
      (List.splitOn_ne_nil '/' (uriTail uri))
    rw [hparts] at hseg hscope hnul
    rcases List.mem_cons.mp hseg with rfl | hseg
    · have hscopes : ∀ scope ∈ validScopes, '\x00' ∉ scope := by decide
      exact hscopes _ hscope hmem
    · exact hnul ⟨seg, hseg, hmem⟩
  · cases h

/-- The row of a document among those of a search. -/
theorem uri_of_mem_docPaths_withSuffix {p : TreePath}
    (hsegments : ∀ seg ∈ p, seg ≠ [] ∧ '/' ∉ seg) {doc : String × TreePath}
    (h : doc ∈ docPaths t [] memoryRoot) (hdoc : doc.2 = p.withSuffix mdSuffix) :
    p.tail ≠ [] ∧ doc.1 = addressOf (p.dropLast ++ [p.name.stem]) := by
  obtain ⟨scope, hscope, dirs, name, hpath, huri⟩ := uri_of_mem_docPaths h
  obtain ⟨hdirs, hname⟩ : p.dropLast = scope :: dirs ∧ [p.name.stem ++ mdSuffix] = [name] :=
    List.append_inj' (hdoc.symm.trans hpath) rfl
  obtain rfl : p.name.stem ++ mdSuffix = name := List.singleton_inj.mp hname
  have hdirSegments : ∀ seg ∈ [scope] ++ dirs, IsSegment seg := fun seg hseg =>
    hsegments seg (List.dropLast_subset p (by rw [hdirs]; exact hseg))
  have hscopeUri : memoryPrefix ++ String.ofList scope = addressOf [scope] := by
    rw [addressOf, List.intercalate_singleton]
  refine ⟨fun htail => ?_, ?_⟩
  · have hlength := congrArg List.length hdirs
    have htailLength := congrArg List.length htail
    simp only [List.length_dropLast, List.length_cons, List.length_tail, List.length_nil]
      at hlength htailLength
    omega
  · rw [huri, hscopeUri, docUri_addressOf (by simp) hdirSegments,
      displayName_append_mdSuffix, hdirs]
    rfl

/-- What is read under an address with a path. -/
theorem dispatch_read {uri : String} {q : TreePath} (hq : store.resolveUri uri = .ok (.ok q))
    (world : MemoryWorld) (level : MemoryLevel) (encoding : Option String) :
    (store.dispatch world (.read uri level encoding) t).1 =
      match readTarget? t q with
      | none => .ok (.failure .notFound s!"no memory at {uri}")
      | some target => (store.bodyOf ((t.files.lookup target).getD [])).map fun body =>
          .read uri (if encoding = none then .bytes (encode body) else .text body) level := by
  have hresolved : orRaise (store.resolveUri uri) = (pure (.ok q) : Handler _) := by
    rw [hq]
    rfl
  rw [dispatch, handler, dispatchRead, withResolved, hresolved, pure_bind]
  dsimp only
  rw [Tx.bind_of_ok (show (Tx.query id : Handler FileTree) t = (.ok t, t) from rfl)]
  rcases htarget : readTarget? t q with _ | target
  · rfl
  · dsimp only
    rcases store.bodyOf ((t.files.lookup target).getD []) with e | body <;> rfl

theorem yields_onTree {f : FileTree → Except OsError FileTree} {t' : FileTree}
    (h : f t = .ok t') : (onTree f) t = (.ok (), t') := by
  rw [onTree, Tx.tryExecute, h]
  rfl

/-- Sidecars that are not there are not removed. -/
theorem forEach_removeSidecar {p : TreePath} {suffixes : List (List Char)}
    (h : ∀ suffix ∈ suffixes, ¬ t.Exists (p.withSuffix suffix)) :
    Tx.forEach (removeSidecar p) suffixes t = (.ok (), t) := by
  induction suffixes with
  | nil => rfl
  | cons suffix suffixes ih =>
    have hfirst : removeSidecar p suffix t = (.ok (), t) := by
      rw [removeSidecar]
      rw [Tx.bind_of_ok (show (Tx.query id : Handler FileTree) t = (.ok t, t) from rfl),
        if_neg (h suffix List.mem_cons_self)]
      rfl
    rw [Tx.forEach, Tx.bind_of_ok hfirst]
    exact ih fun suffix hsuffix => h suffix (List.mem_cons_of_mem _ hsuffix)

/-- Next to the only file of a tree there is nothing. -/
theorem not_exists_withSuffix {p : TreePath} {s s' : List Char} {data : List UInt8}
    (hfiles : t.files = Finmap.singleton (p.withSuffix s) data) (hmade : t.made = {p.dropLast})
    (hne : s' ≠ s) : ¬ t.Exists (p.withSuffix s') := by
  have hpaths : p.withSuffix s' ≠ p.withSuffix s := fun h => hne (TreePath.withSuffix_inj h)
  rintro (hmem | h | ⟨q, hq, hbelow⟩ | ⟨q, hq, hbelow, -⟩)
  · rw [hfiles, Finmap.mem_singleton] at hmem
    exact hpaths hmem
  · exact TreePath.withSuffix_ne_nil p s' h
  · rw [hmade, Finset.mem_singleton] at hq
    exact TreePath.not_withSuffix_prefix_dropLast p s' (hq ▸ hbelow)
  · rw [Finmap.mem_keys, hfiles, Finmap.mem_singleton] at hq
    rw [hq] at hbelow
    exact hpaths (TreePath.withSuffix_eq_of_prefix hbelow)

/-- A document can be written in an empty store, and is then its only file. -/
theorem exists_write_empty {uri : String} {p : TreePath} (hp : store.resolveUri uri = .ok (.ok p))
    (content : String) (world : MemoryWorld) :
    ∃ size t', store.dispatch world (.write uri content "write") .empty =
      (.ok (.written uri size), t') ∧
      t'.files = Finmap.singleton (p.withSuffix mdSuffix) (encode content.toList) := by
  set target := p.withSuffix mdSuffix with htarget
  have hdrop : target.dropLast = p.dropLast := TreePath.dropLast_withSuffix p mdSuffix
  -- The directory is made twice, and the document is written.
  obtain ⟨t₁, ht₁⟩ := FileTree.exists_mkdir (t := .empty) rfl target.dropLast
  have hfiles₁ : t₁.files = ∅ := FileTree.files_of_mkdir ht₁
  obtain ⟨t₂, ht₂⟩ := FileTree.exists_mkdir hfiles₁ target.dropLast
  have hfiles₂ : t₂.files = ∅ := (FileTree.files_of_mkdir ht₂).trans hfiles₁
  have hmade₂ : t₂.made = {p.dropLast} := by
    rw [FileTree.made_of_mkdir ht₂, FileTree.made_of_mkdir ht₁, hdrop]
    simp [FileTree.empty]
  obtain ⟨t₃, ht₃, hfiles₃, hmade₃⟩ :=
    FileTree.exists_write hfiles₂ hmade₂ mdSuffix (encode content.toList)
  have hsidecars : ∀ suffix ∈ store.hiddenSuffixes, ¬ t₃.Exists (p.withSuffix suffix) := by
    refine fun suffix hsuffix => not_exists_withSuffix hfiles₃ hmade₃ ?_
    rintro rfl
    exact absurd (store.perm_hiddenSuffixes.mem_iff.mp hsuffix) (by decide)
  refine ⟨(encode content.toList).length, t₃, ?_, hfiles₃⟩
  have hresolved : orRaise (store.resolveUri uri) = (pure (.ok p) : Handler _) := by
    rw [hp]
    rfl
  have hmkdir : onTree (fun t => t.mkdir target.dropLast) .empty = (.ok (), t₁) := yields_onTree ht₁
  have hatomic : atomicWriteText target content.toList false t₁ = (.ok (), t₃) := by
    rw [atomicWriteText, Tx.bind_of_ok (yields_onTree ht₂)]
    exact yields_onTree ht₃
  have hhandler : store.handler world (.write uri content "write") .empty =
      (.ok (.written uri (encode content.toList).length), t₃) := by
    rw [handler, dispatchWrite, withResolved, hresolved, pure_bind]
    dsimp only
    rw [if_neg (by decide), Tx.bind_of_ok hmkdir, Tx.bind_of_ok hatomic,
      Tx.bind_of_ok (forEach_removeSidecar hsidecars)]
    rfl
  rw [dispatch, hhandler]

/-- What is written has a path. -/
theorem exists_resolveUri_of_write {uri mode : String} {world : MemoryWorld} {size : ℕ}
    {t₀ t₁ : FileTree}
    (h : store.dispatch world (.write uri content mode) t₀ = (.ok (.written uri size), t₁)) :
    ∃ p, store.resolveUri uri = .ok (.ok p) := by
  obtain ⟨message, hfailure, -⟩ | ⟨e, herror, -⟩ | ⟨p, hp, -⟩ := store.resolveUri_cases uri
  · rw [dispatch, handler, dispatchWrite, withResolved, hfailure] at h
    cases h
  · rw [dispatch, handler, dispatchWrite, withResolved, herror] at h
    cases h
  · exact ⟨p, hp⟩

/-- The path of the row under which a document is found: its name loses the suffix. -/
def foundPath (p : TreePath) : TreePath := p.dropLast ++ [p.name.stem]

theorem foundPath_withSuffix_eq_iff {p : TreePath} :
    (foundPath p).withSuffix mdSuffix = p.withSuffix mdSuffix ↔
      FileName.stem p.name.stem = p.name.stem := by
  rw [TreePath.withSuffix_eq_withSuffix_iff, foundPath, List.dropLast_concat,
    TreePath.name_concat]
  exact and_iff_right rfl

/-- A search of the whole store comes to a document that has no hidden names. -/
theorem searched_withSuffix_iff {p : TreePath} (hp : IsStorePath p)
    (hmem : p.withSuffix mdSuffix ∈ t.files) :
    t.Searched [] memoryRoot (p.withSuffix mdSuffix) ↔
      p.tail ≠ [] ∧ ∀ name ∈ p.tail.dropLast, isHidden name = false := by
  have hroot : isRootUri memoryRoot = true := by decide
  obtain ⟨scope, rest, rfl⟩ := List.exists_cons_of_ne_nil hp.ne_nil
  have hscope : scope ∈ validScopes := hp.scope
  rw [FileTree.Searched, if_pos hroot, List.tail_cons]
  induction rest using List.reverseRecOn with
  | nil =>
    refine iff_of_false ?_ fun h => h.1 rfl
    rintro ⟨scope', -, -, ⟨rest, hrest, hne, -⟩, -⟩
    have hlength := congrArg List.length hrest
    have hpos := List.length_pos_iff.mpr hne
    simp only [TreePath.withSuffix, List.dropLast_singleton, List.nil_append, List.length_singleton,
      List.length_append] at hlength
    omega
  | append_singleton dirs last _ =>
    have htarget : TreePath.withSuffix (scope :: (dirs ++ [last])) mdSuffix =
        scope :: (dirs ++ [FileName.stem last ++ mdSuffix]) := by
      rw [← List.cons_append, TreePath.withSuffix, List.dropLast_concat, TreePath.name_concat,
        List.cons_append]
    rw [htarget] at hmem ⊢
    rw [List.dropLast_concat]
    constructor
    · rintro ⟨scope', -, -, ⟨rest, hrest, -, hhidden⟩, -⟩
      obtain ⟨-, rfl⟩ := List.cons.inj hrest
      exact ⟨by simp, fun name hname => hhidden name (List.mem_append_left _ hname)⟩
    · rintro ⟨-, hdirs⟩
      refine ⟨scope, hscope, hmem, ⟨dirs ++ [FileName.stem last ++ mdSuffix], rfl, by simp, ?_⟩, ?_⟩
      · intro name hname
        rcases List.mem_append.mp hname with hname | hname
        · exact hdirs name hname
        · rw [List.mem_singleton.mp hname]
          exact isHidden_append_mdSuffix _
      · rw [← List.cons_append, TreePath.name_concat]
        exact List.suffix_append _ _

/-- A row of a search is that of a document with the suffix. -/
theorem exists_row_of_collectMdDocs {scopePath : TreePath} {scopeUri : String}
    {docs : List DocRow} (h : store.collectMdDocs t scopePath scopeUri = .ok docs) {doc : DocRow}
    (hdoc : doc ∈ docs) : (doc.uri, doc.path) ∈ docPaths t scopePath scopeUri := by
  obtain ⟨row, hrow, hread⟩ := exists_mem_of_mapM h hdoc
  obtain ⟨body, -, hdoc⟩ := exists_of_bind_eq_ok hread
  cases hdoc
  exact hrow

theorem IsStorePath.forall_ne_nil {p : TreePath} (h : IsStorePath p) : ∀ seg ∈ p, seg ≠ [] := by
  obtain ⟨scope, rest, rfl⟩ := List.exists_cons_of_ne_nil h.ne_nil
  have hscopes : [] ∉ validScopes := by decide
  intro seg hseg
  rcases List.mem_cons.mp hseg with rfl | hseg
  · exact fun hnil => hscopes (hnil ▸ h.scope)
  · exact fun hnil => h.segments seg hseg (by simp [hnil])

/-- What an address is resolved to, if it is that under which a document below a scope is found. -/
theorem resolveUri_foundPath {uri : String} {p : TreePath}
    (hp : store.resolveUri uri = .ok (.ok p)) (hbelow : p.tail ≠ []) :
    (p.name.stem ∉ [['.'], ['.', '.']] →
        store.resolveUri (addressOf (foundPath p)) = .ok (.ok (foundPath p))) ∧
      (p.name.stem ∈ [['.'], ['.', '.']] → ∃ message,
        store.resolveUri (addressOf (foundPath p)) =
          .ok (.error (.failure .invalidUri message))) := by
  have hpath := store.isStorePath_of_resolveUri hp
  have hsegments := segments_of_resolveUri hp
  obtain ⟨scope, rest, rfl⟩ := List.exists_cons_of_ne_nil hpath.ne_nil
  obtain ⟨dirs, last, rfl⟩ : ∃ dirs last, rest = dirs ++ [last] :=
    ⟨_, _, (List.dropLast_concat_getLast hbelow).symm⟩
  have hfound : foundPath (scope :: (dirs ++ [last])) =
      scope :: (dirs ++ [FileName.stem last]) := by
    rw [foundPath, ← List.cons_append, List.dropLast_concat, TreePath.name_concat, List.cons_append]
  have hname : TreePath.name (scope :: (dirs ++ [last])) = last := by
    rw [← List.cons_append, TreePath.name_concat]
  have hlast : last ≠ [] := hname ▸ hpath.name_ne_nil
  have hstem : FileName.stem last ≠ [] := FileName.stem_ne_nil hlast
  have hfoundSegments : ∀ seg ∈ scope :: (dirs ++ [FileName.stem last]),
      '/' ∉ seg ∧ '\x00' ∉ seg := by
    intro seg hseg
    rcases List.mem_append.mp (List.cons_append ▸ hseg :
      seg ∈ (scope :: dirs) ++ [FileName.stem last])
      with hseg | hseg
    · exact hsegments seg (List.mem_append_left [last] hseg)
    · rw [List.mem_singleton.mp hseg]
      have hlastSegment := hsegments last (by simp)
      exact ⟨fun h => hlastSegment.1 (FileName.stem_subset last h),
        fun h => hlastSegment.2 (FileName.stem_subset last h)⟩
  have hfoundName : TreePath.name (scope :: (dirs ++ [FileName.stem last])) ≠ [] := by
    rwa [← List.cons_append, TreePath.name_concat]
  have hscope : List.headD (scope :: (dirs ++ [FileName.stem last])) [] ∈ validScopes := hpath.scope
  have hresolve := resolveUri_addressOf store hscope (fun seg hseg => (hfoundSegments seg hseg).1)
    (fun seg hseg => (hfoundSegments seg hseg).2) hfoundName
  rw [hfound, hname]
  constructor
  · intro hstemSegment
    refine hresolve.1 ⟨hpath.scope, fun seg hseg hmem => ?_⟩
    rcases List.mem_append.mp hseg with hseg | hseg
    · exact hpath.segments seg (List.mem_append_left _ hseg) hmem
    · rw [List.mem_singleton.mp hseg] at hmem
      exact (List.mem_cons.mp hmem).elim hstem hstemSegment
  · intro hstemSegment
    refine hresolve.2 fun hfoundPath => ?_
    exact hfoundPath.segments _ (List.mem_append_right _ List.mem_cons_self)
      (List.mem_cons_of_mem _ hstemSegment)

/-- What was written at an address with these properties is found. -/
theorem found_of_findable {uri : String} {p : TreePath} (hfindable : Findable p content)
    (hp : store.resolveUri uri = .ok (.ok p))
    (hlookup : t.files.lookup (p.withSuffix mdSuffix) = some (encode content.toList))
    (hdecodable : store.Decodable t) : store.Found t content := by
  have hpath := store.isStorePath_of_resolveUri hp
  have hmem : p.withSuffix mdSuffix ∈ t.files := Finmap.mem_of_lookup_eq_some hlookup
  have hsearched := (searched_withSuffix_iff hpath hmem).mpr
    ⟨hfindable.below, hfindable.directories⟩
  obtain ⟨docs, hdocs⟩ := store.exists_collectMdDocs_iff.mpr hdecodable
  obtain ⟨⟨uri', target⟩, hrow, htarget⟩ := List.mem_map.mp (mem_docPaths_iff.mpr hsearched)
  obtain rfl : target = p.withSuffix mdSuffix := htarget
  have hsegments : ∀ seg ∈ p, seg ≠ [] ∧ '/' ∉ seg := fun seg hseg =>
    ⟨hpath.forall_ne_nil seg hseg, (segments_of_resolveUri hp seg hseg).1⟩
  obtain ⟨-, huri⟩ := uri_of_mem_docPaths_withSuffix hsegments hrow rfl
  have hbody : store.bodyOf ((t.files.lookup (p.withSuffix mdSuffix)).getD []) =
      .ok content.toList := by
    rw [hlookup, Option.getD_some, bodyOf_encode, universalNewlines_of_not_mem hfindable.content]
  refine ⟨docs, hdocs, ⟨uri', content.toList, p.withSuffix mdSuffix⟩, ?_, rfl, ?_⟩
  · refine mem_of_mapM hdocs hrow ?_
    rw [hbody]
    rfl
  · intro world level encoding
    have hresolve := (resolveUri_foundPath hp hfindable.below).1 hfindable.segment
    have hread : readTarget? t (foundPath p) = some (p.withSuffix mdSuffix) := by
      rw [readTarget?, foundPath_withSuffix_eq_iff.mpr hfindable.stem]
      exact List.find?_cons_of_pos (by simpa using hmem)
    obtain rfl : uri' = addressOf (foundPath p) := huri
    rw [dispatch_read hresolve, hread]
    dsimp only
    rw [hbody]
    rfl

/-- What is found in a store with a single document was written with these properties. -/
theorem findable_of_found {uri : String} {p : TreePath} (hp : store.resolveUri uri = .ok (.ok p))
    (hfiles : t.files = Finmap.singleton (p.withSuffix mdSuffix) (encode content.toList))
    (hfound : store.Found t content) : Findable p content := by
  have hpath := store.isStorePath_of_resolveUri hp
  have hlookup : t.files.lookup (p.withSuffix mdSuffix) = some (encode content.toList) := by
    rw [hfiles, Finmap.lookup_singleton_eq]
  have hmem : p.withSuffix mdSuffix ∈ t.files := Finmap.mem_of_lookup_eq_some hlookup
  obtain ⟨docs, hdocs, doc, hdoc, hbody, hread⟩ := hfound
  obtain ⟨hsearched, hdata⟩ := store.mem_of_collectMdDocs hdocs hdoc
  have htarget : doc.path = p.withSuffix mdSuffix := by
    have hdocMem := hsearched.mem
    rwa [hfiles, Finmap.mem_singleton] at hdocMem
  rw [htarget] at hsearched hdata
  obtain ⟨hbelow, hdirectories⟩ := (searched_withSuffix_iff hpath hmem).mp hsearched
  have hsegments : ∀ seg ∈ p, seg ≠ [] ∧ '/' ∉ seg := fun seg hseg =>
    ⟨hpath.forall_ne_nil seg hseg, (segments_of_resolveUri hp seg hseg).1⟩
  obtain ⟨-, huri⟩ := uri_of_mem_docPaths_withSuffix hsegments
    (exists_row_of_collectMdDocs hdocs hdoc) htarget
  have huri : doc.uri = addressOf (foundPath p) := huri
  obtain ⟨hresolve, hrefuse⟩ := resolveUri_foundPath hp hbelow
  let world : MemoryWorld := ⟨[], none, none, fun _ => .notFound ""⟩
  have hread := hread world .detail none
  rw [huri] at hread
  have hsegment : p.name.stem ∉ [['.'], ['.', '.']] := fun hstem => by
    obtain ⟨message, hmessage⟩ := hrefuse hstem
    rw [dispatch, handler, dispatchRead, withResolved, hmessage] at hread
    cases hread
  refine ⟨hbelow, hdirectories, ?_, hsegment, ?_⟩
  · rw [dispatch_read (hresolve hsegment)] at hread
    rw [← foundPath_withSuffix_eq_iff]
    rcases htarget? : readTarget? t (foundPath p) with _ | target
    · rw [htarget?] at hread
      cases hread
    have hcandidate := List.mem_of_find?_eq_some htarget?
    have htargetMem : target ∈ t.files := by simpa using List.find?_some htarget?
    rw [hfiles, Finmap.mem_singleton] at htargetMem
    rw [htargetMem] at hcandidate
    rcases List.mem_cons.mp hcandidate with heq | heq
    · exact heq.symm
    · have hsame := congrArg TreePath.name (List.mem_singleton.mp heq)
      rw [TreePath.name_withSuffix, foundPath, TreePath.name_concat] at hsame
      exact absurd (List.append_right_eq_self.mp hsame) (by decide)
  · rw [hlookup, Option.getD_some, bodyOf_encode] at hdata
    rw [← universalNewlines_eq_self_iff]
    exact (Except.ok.inj hdata).trans hbody

/-- A document that is written in an empty store can be decoded. -/
theorem exists_wrote {uri : String} {p : TreePath} (hp : store.resolveUri uri = .ok (.ok p))
    (content : String) : ∃ t, store.Wrote uri content t ∧ store.Decodable t ∧
      t.files = Finmap.singleton (p.withSuffix mdSuffix) (encode content.toList) := by
  let world : MemoryWorld := ⟨[], none, none, fun _ => .notFound ""⟩
  obtain ⟨size, t, hwrite, hfiles⟩ := exists_write_empty hp content world
  refine ⟨t, ⟨.empty, t, world, "write", size, .refl, hwrite, .refl, fun q hq => ?_⟩,
    fun q hq => ⟨universalNewlines content.toList, ?_⟩, hfiles⟩
  · obtain rfl : p = q := by
      rw [hp] at hq
      exact Except.ok.inj (Except.ok.inj hq)
    rw [hfiles, Finmap.lookup_singleton_eq]
  · have hmem := hq.mem
    rw [hfiles, Finmap.mem_singleton] at hmem
    rw [hfiles, hmem, Finmap.lookup_singleton_eq, Option.getD_some, bodyOf_encode]

variable (store) in
/-- What was written is found, as long as the documents can be decoded, if and only if its path and
contents are such that it always is. If a document cannot be decoded nothing is found. -/
theorem found_iff (uri content : String) :
    ((∀ t, store.Wrote uri content t → store.Decodable t → store.Found t content) ↔
      ∀ p, store.resolveUri uri = .ok (.ok p) → Findable p content) ∧
    ∀ t, ¬ store.Decodable t → ¬ store.Found t content := by
  refine ⟨⟨fun h p hp => ?_, fun h t hwrote hdecodable => ?_⟩, fun t hdecodable hfound => ?_⟩
  · obtain ⟨t, hwrote, hdecodable, hfiles⟩ := exists_wrote hp content
    exact findable_of_found hp hfiles (h t hwrote hdecodable)
  · obtain ⟨t₀, t₁, world, mode, size, -, hwrite, -, hlookup⟩ := hwrote
    obtain ⟨p, hp⟩ := exists_resolveUri_of_write hwrite
    exact found_of_findable (h p hp) hp (hlookup p hp) hdecodable
  · obtain ⟨docs, hdocs, -⟩ := hfound
    exact hdecodable (store.exists_collectMdDocs_iff.mp ⟨docs, hdocs⟩)

end MemoryHost

namespace Sample

open MemoryHost

/-- A document in a directory whose name looks like that of a sidecar. -/
def shadowedUri : String := "memory://user/v1.vec/tea"

/-- What is written in a directory with a hidden name is not found. -/
theorem shadowed_not_found : ∃ t, memoryHost.Wrote shadowedUri "Likes tea." t ∧
    memoryHost.Decodable t ∧ ¬ memoryHost.Found t "Likes tea." := by
  have hp : memoryHost.resolveUri shadowedUri =
      .ok (.ok ["user".toList, "v1.vec".toList, "tea".toList]) := by decide +kernel
  obtain ⟨t, hwrote, hdecodable, hfiles⟩ := exists_wrote hp "Likes tea."
  refine ⟨t, hwrote, hdecodable, fun hfound => ?_⟩
  have hhidden := (findable_of_found hp hfiles hfound).directories "v1.vec".toList (by simp)
  exact absurd hhidden (by decide)

end Sample

end OpenRath
