import OpenRath.Library.JsonLexical
import OpenRath.Memory.Local

/-!
# The documents that a search goes through

A search walks through the directories below its scope. The documents it finds are the files whose
names end with the suffix of documents, and that no hidden name leads to.

## Main definitions

* `FileTree.Visible`: a document below a directory.
* `FileTree.Searched`: a document of a search.

## Main results

* `MemoryHost.mem_walkMd_iff`, `MemoryHost.mem_docPaths_iff`: the documents of a search.
* `MemoryHost.exists_collectMdDocs_iff`: a search returns unless it goes through a document that
  cannot be decoded.
-/

namespace OpenRath

open TextFile

/-! ### Documents below a directory -/

namespace FileTree

open MemoryHost

variable (t : FileTree)

theorem mem_names_iff {dir : TreePath} {name : FileName} :
    name ∈ t.names dir ↔ ∃ rest, dir ++ name :: rest ∈ t.made ∪ t.files.keys := by
  rw [names, Finset.mem_image]
  constructor
  · rintro ⟨q, hq, hname⟩
    obtain ⟨hmem, ⟨rest, rfl⟩, hne⟩ := Finset.mem_filter.mp hq
    cases rest with
    | nil => exact absurd (List.append_nil dir).symm hne
    | cons n rest =>
      obtain rfl : n = name := by simpa using hname
      exact ⟨rest, hmem⟩
  · rintro ⟨rest, hmem⟩
    refine ⟨_, Finset.mem_filter.mpr ⟨hmem, List.prefix_append _ _, ?_⟩, by simp⟩
    exact fun h => by simpa using congrArg List.length h

/-- The path is that of a document below a directory, and has no hidden name below it. -/
structure Visible (dir p : TreePath) : Prop where
  mem : p ∈ t.files
  exists_rest : ∃ rest, p = dir ++ rest ∧ rest ≠ [] ∧ ∀ name ∈ rest, isHidden name = false
  isSuffix : mdSuffix <:+ p.name

/-- The path is that of a document among those that a search goes through. -/
def Searched (scopePath : TreePath) (scopeUri : String) (p : TreePath) : Prop :=
  if isRootUri scopeUri then ∃ scope ∈ validScopes, t.Visible (scopePath ++ [scope]) p
  else if scopePath ∈ t.files then p = scopePath
  else t.Visible scopePath p

variable {t} {dir p : TreePath}

theorem Visible.isDir (h : t.Visible dir p) : t.IsDir dir := by
  obtain ⟨rest, rfl, hne, -⟩ := h.exists_rest
  refine Or.inr (Or.inr ⟨_, Finmap.mem_keys.mpr h.mem, List.prefix_append _ _, ?_⟩)
  exact fun heq => hne (List.append_right_eq_self.mp heq.symm)

theorem Searched.mem {scopePath : TreePath} {scopeUri : String}
    (h : t.Searched scopePath scopeUri p) : p ∈ t.files := by
  rw [Searched] at h
  split_ifs at h with hroot hfile
  · obtain ⟨scope, -, hvisible⟩ := h
    exact hvisible.mem
  · exact h ▸ hfile
  · exact h.mem

/-- A document below a directory is in it or below a directory in it. -/
theorem visible_iff : t.Visible dir p ↔ ∃ name ∈ t.names dir, isHidden name = false ∧
    if t.IsDir (dir ++ [name]) then t.Visible (dir ++ [name]) p
    else mdSuffix <:+ name ∧ p = dir ++ [name] := by
  constructor
  · rintro ⟨hmem, ⟨rest, rfl, hne, hhidden⟩, hsuffix⟩
    obtain ⟨name, rest, rfl⟩ := List.exists_cons_of_ne_nil hne
    have hnames : name ∈ t.names dir :=
      t.mem_names_iff.mpr ⟨rest, Finset.mem_union_right _ (Finmap.mem_keys.mpr hmem)⟩
    refine ⟨name, hnames, hhidden name List.mem_cons_self, ?_⟩
    cases rest with
    | nil =>
      rw [if_neg (not_isDir_of_mem hmem)]
      rw [TreePath.name_concat] at hsuffix
      exact ⟨hsuffix, rfl⟩
    | cons n rest =>
      have hvisible : t.Visible (dir ++ [name]) (dir ++ name :: n :: rest) :=
        ⟨hmem, ⟨n :: rest, by simp, by simp, fun m hm => hhidden m (List.mem_cons_of_mem _ hm)⟩,
          hsuffix⟩
      rw [if_pos hvisible.isDir]
      exact hvisible
  · rintro ⟨name, hnames, hhidden, hcases⟩
    split_ifs at hcases with hdir
    · obtain ⟨hmem, ⟨rest, rfl, hne, hrest⟩, hsuffix⟩ := hcases
      refine ⟨hmem, ⟨name :: rest, by simp, by simp, ?_⟩, hsuffix⟩
      exact List.forall_mem_cons.mpr ⟨hhidden, hrest⟩
    · obtain ⟨hsuffix, rfl⟩ := hcases
      obtain ⟨rest, hrest⟩ := t.mem_names_iff.mp hnames
      have hbelow : dir ++ [name] <+: dir ++ name :: rest := by
        rw [List.append_cons dir name rest]
        exact List.prefix_append _ _
      have hkeys : dir ++ name :: rest ∈ t.files.keys := by
        refine (Finset.mem_union.mp hrest).resolve_left fun hmade => hdir ?_
        exact Or.inr (Or.inl ⟨_, hmade, hbelow⟩)
      obtain rfl : rest = [] := by
        by_contra hne
        refine hdir (Or.inr (Or.inr ⟨_, hkeys, hbelow, fun heq => hne ?_⟩))
        simpa using heq
      exact ⟨Finmap.mem_keys.mp hkeys, ⟨[name], rfl, by simp, by simpa using hhidden⟩,
        by rwa [TreePath.name_concat]⟩

end FileTree

/-! ### The walk -/

namespace MemoryHost

variable {t : FileTree}

/-- The walk goes through the documents below the directory. -/
theorem mem_walkMd_iff {n : ℕ} {dir p : TreePath} {uriBase : String} :
    p ∈ (walkMd t n dir uriBase).map Prod.snd ↔ t.Visible dir p ∧ p.length ≤ dir.length + n := by
  induction n generalizing dir uriBase with
  | zero =>
    refine iff_of_false (by simp [walkMd]) ?_
    rintro ⟨⟨-, ⟨rest, rfl, hne, -⟩, -⟩, hlength⟩
    rw [List.length_append] at hlength
    have := List.length_pos_iff.mpr hne
    omega
  | succ n ih =>
    have hentry : ∀ name, (p ∈ (if isHidden name then []
        else if t.IsDir (dir ++ [name]) then walkMd t n (dir ++ [name]) (entryUri uriBase name)
        else if mdSuffix.isSuffixOf name then
          [(entryUri uriBase name.dropLast.dropLast.dropLast, dir ++ [name])]
        else []).map Prod.snd) ↔ isHidden name = false ∧
          (if t.IsDir (dir ++ [name]) then t.Visible (dir ++ [name]) p
            else mdSuffix <:+ name ∧ p = dir ++ [name]) ∧ p.length ≤ dir.length + (n + 1) := by
      intro name
      by_cases hhidden : isHidden name = true
      · simp [hhidden]
      rw [if_neg hhidden]
      by_cases hdir : t.IsDir (dir ++ [name])
      · rw [if_pos hdir, ih, if_pos hdir, List.length_append, List.length_singleton,
          Nat.add_right_comm, Nat.add_assoc]
        simp [hhidden]
      · rw [if_neg hdir, if_neg hdir]
        by_cases hsuffix : mdSuffix <:+ name
        · rw [if_pos (List.isSuffixOf_iff_suffix.mpr hsuffix)]
          constructor
          · intro hp
            obtain rfl : p = dir ++ [name] := by simpa using hp
            exact ⟨by simpa using hhidden, ⟨hsuffix, rfl⟩, by simp⟩
          · rintro ⟨-, ⟨-, rfl⟩, -⟩
            simp
        · rw [if_neg fun h => hsuffix (List.isSuffixOf_iff_suffix.mp h)]
          simp [hsuffix]
    rw [t.visible_iff, walkMd, List.map_flatMap, List.mem_flatMap]
    simp only [hentry, Finset.mem_sort]
    constructor
    · rintro ⟨name, hname, hhidden, hcases, hlength⟩
      exact ⟨⟨name, hname, hhidden, hcases⟩, hlength⟩
    · rintro ⟨⟨name, hname, hhidden, hcases⟩, hlength⟩
      exact ⟨name, hname, hhidden, hcases, hlength⟩

/-- The levels of a tree are enough for a walk. -/
theorem mem_walkMd_levels_iff {dir p : TreePath} {uriBase : String} :
    p ∈ (walkMd t (levels t) dir uriBase).map Prod.snd ↔ t.Visible dir p := by
  rw [mem_walkMd_iff, and_iff_left_iff_imp]
  intro h
  have hle : p.length ≤ (t.made ∪ t.files.keys).sup List.length :=
    Finset.le_sup (f := List.length) (Finset.mem_union_right _ (Finmap.mem_keys.mpr h.mem))
  rw [levels]
  omega

/-- A search goes through the documents below its scope. -/
theorem mem_docPaths_iff {scopePath p : TreePath} {scopeUri : String} :
    p ∈ (docPaths t scopePath scopeUri).map Prod.snd ↔ t.Searched scopePath scopeUri p := by
  have hscope : ∀ scope, p ∈ (if t.IsDir (scopePath ++ [scope]) then
      walkMd t (levels t) (scopePath ++ [scope]) (memoryPrefix ++ String.ofList scope)
      else []).map Prod.snd ↔ t.Visible (scopePath ++ [scope]) p := by
    intro scope
    by_cases hdir : t.IsDir (scopePath ++ [scope])
    · rw [if_pos hdir, mem_walkMd_levels_iff]
    · rw [if_neg hdir]
      exact iff_of_false (by simp) fun h => hdir h.isDir
  have hexists : t.Searched scopePath scopeUri p → t.Exists scopePath := by
    rw [FileTree.Searched]
    intro h
    split_ifs at h with hroot hfile
    · obtain ⟨scope, -, hmem, ⟨rest, hrest, -⟩, -⟩ := h
      refine Or.inr (Or.inr (Or.inr ⟨p, Finmap.mem_keys.mpr hmem, ⟨scope :: rest, ?_⟩, ?_⟩))
      · rw [hrest, List.append_assoc, List.singleton_append]
      · intro heq
        simpa using congrArg List.length (heq.trans hrest)
    · exact Or.inl hfile
    · exact Or.inr h.isDir
  rw [docPaths]
  by_cases h : t.Exists scopePath
  swap
  · rw [if_pos h]
    exact iff_of_false (by simp) fun hsearched => h (hexists hsearched)
  rw [if_neg (not_not.mpr h), FileTree.Searched]
  split_ifs with hroot hfile
  · rw [List.map_flatMap, List.mem_flatMap]
    exact exists_congr fun scope => and_congr_right fun _ => hscope scope
  · simp
  · exact mem_walkMd_levels_iff

variable (store : MemoryHost)

/-- A search reads the documents it goes through. -/
theorem mem_of_collectMdDocs {scopePath : TreePath} {scopeUri : String} {docs : List DocRow}
    (h : store.collectMdDocs t scopePath scopeUri = .ok docs) {doc : DocRow} (hdoc : doc ∈ docs) :
    t.Searched scopePath scopeUri doc.path ∧
      store.bodyOf ((t.files.lookup doc.path).getD []) = .ok doc.body := by
  obtain ⟨row, hrow, hread⟩ := exists_mem_of_mapM h hdoc
  obtain ⟨body, hbody, hdoc⟩ := exists_of_bind_eq_ok hread
  cases hdoc
  exact ⟨mem_docPaths_iff.mp (List.mem_map_of_mem hrow), hbody⟩

/-- A search returns unless it goes through a document that cannot be decoded. -/
theorem exists_collectMdDocs_iff {scopePath : TreePath} {scopeUri : String} :
    (∃ docs, store.collectMdDocs t scopePath scopeUri = .ok docs) ↔
      ∀ p, t.Searched scopePath scopeUri p →
        ∃ body, store.bodyOf ((t.files.lookup p).getD []) = .ok body := by
  rw [collectMdDocs, exists_mapM_iff]
  constructor
  · intro h p hp
    obtain ⟨row, hrow, rfl⟩ := List.mem_map.mp (mem_docPaths_iff.mpr hp)
    obtain ⟨doc, hdoc⟩ := h row hrow
    obtain ⟨body, hbody, -⟩ := exists_of_bind_eq_ok hdoc
    exact ⟨body, hbody⟩
  · intro h row hrow
    obtain ⟨body, hbody⟩ := h row.2 (mem_docPaths_iff.mp (List.mem_map_of_mem hrow))
    exact ⟨_, by rw [hbody]; rfl⟩

end MemoryHost

end OpenRath
