import OpenRath.Library.FileTree

/-!
# Absolute paths

The absolute paths of a system without links, by their components from its root, as `pathlib` makes
them of texts. A path may have components `..` until it is resolved.

A path is below a root if it consists of the root and of names of entries. What is made of such a
path with names and with suffixes stays below the root.

## Main definitions

* `FileName.IsSegment`, `FileName.IsAlphanumeric`: names that an entry of a directory may have.
* `TreePath.components`, `TreePath.joinpath`, `TreePath.resolve`.
* `TreePath.Below`, `TreePath.Within`.

## Main results

* `TreePath.joinpath_of_segments`, `TreePath.resolve_eq_self`: names are joined as they are, and
  nothing has to be resolved.
* `TreePath.Below.withSuffix`, `TreePath.Within.below_concat`, `TreePath.Below.within_dropLast`.
-/

namespace OpenRath

namespace FileName

/-- A name that an entry of a directory may have. -/
def IsSegment (name : FileName) : Prop := name ∉ [[], ['.'], ['.', '.']] ∧ '/' ∉ name

instance (name : FileName) : Decidable name.IsSegment :=
  inferInstanceAs (Decidable (name ∉ [[], ['.'], ['.', '.']] ∧ '/' ∉ name))

theorem IsSegment.ne_nil {name : FileName} (h : name.IsSegment) : name ≠ [] := by
  rintro rfl
  exact h.1 List.mem_cons_self

theorem IsSegment.ne_parent {name : FileName} (h : name.IsSegment) : name ≠ ['.', '.'] := by
  rintro rfl
  exact h.1 (by simp)

theorem isSegment_of_length {name : FileName} (hlength : 2 < name.length) (hslash : '/' ∉ name) :
    name.IsSegment := by
  refine ⟨fun hmem => ?_, hslash⟩
  simp only [List.mem_cons, List.not_mem_nil, or_false] at hmem
  obtain rfl | rfl | rfl := hmem <;> simp at hlength

/-- A text of letters and digits. -/
def IsAlphanumeric (name : FileName) : Prop := name ≠ [] ∧ ∀ c ∈ name, c.isAlphanum = true

theorem IsAlphanumeric.isSegment {name : FileName} (h : name.IsAlphanumeric) : name.IsSegment := by
  have hpoint : '.' ∉ name := fun hmem => absurd (h.2 '.' hmem) (by decide)
  refine ⟨fun hmem => ?_, fun hmem => absurd (h.2 '/' hmem) (by decide)⟩
  simp only [List.mem_cons, List.not_mem_nil, or_false] at hmem
  obtain rfl | rfl | rfl := hmem
  · exact h.1 rfl
  · exact hpoint List.mem_cons_self
  · exact hpoint List.mem_cons_self

/-- A name has a suffix replaced by another one. -/
theorem IsSegment.stem_append {name s : FileName} (h : name.IsSegment) (hs : 1 < s.length)
    (hslash : '/' ∉ s) : IsSegment (stem name ++ s) := by
  have hstem := List.length_pos_of_ne_nil (stem_ne_nil h.ne_nil)
  refine isSegment_of_length ?_ ?_
  · rw [List.length_append]
    omega
  · rw [List.mem_append, not_or]
    exact ⟨fun hmem => h.2 (stem_subset name hmem), hslash⟩

end FileName

namespace TreePath

/-! ### Texts -/

/-- The components that a text adds to a path. -/
def components (text : List Char) : TreePath :=
  (text.splitOn '/').filter fun part => part ∉ [[], ['.']]

/-- `joinpath` of one text, which may be absolute. -/
def join (p : TreePath) (text : List Char) : TreePath :=
  if text.head? = some '/' then components text else p ++ components text

/-- `PurePath.joinpath`. -/
def joinpath (p : TreePath) (texts : List (List Char)) : TreePath := texts.foldl join p

/-- `Path.resolve`. -/
def resolve (p : TreePath) : TreePath :=
  p.foldl
    (fun resolved name => if name = ['.', '.'] then resolved.dropLast else resolved ++ [name]) []

theorem components_of_isSegment {text : FileName} (h : text.IsSegment) :
    components text = [text] := by
  have hkept : text ∉ [[], ['.']] := fun hmem => h.1 (List.mem_append_left [['.', '.']] hmem)
  rw [components, List.splitOn_eq_singleton h.2,
    List.filter_cons_of_pos (by simpa using hkept), List.filter_nil]

theorem join_of_isSegment (p : TreePath) {text : FileName} (h : text.IsSegment) :
    p.join text = p ++ [text] := by
  have hrelative : text.head? ≠ some '/' := fun hhead => h.2 (List.mem_of_head? hhead)
  rw [join, if_neg hrelative, components_of_isSegment h]

/-- Names are joined to a path as they are. -/
theorem joinpath_of_segments (p : TreePath) {texts : List FileName}
    (h : ∀ text ∈ texts, text.IsSegment) : p.joinpath texts = p ++ texts := by
  induction texts generalizing p with
  | nil => exact (List.append_nil p).symm
  | cons text texts ih =>
    obtain ⟨htext, htexts⟩ := List.forall_mem_cons.mp h
    rw [joinpath, List.foldl_cons, join_of_isSegment p htext]
    show joinpath (p ++ [text]) texts = _
    rw [ih (p ++ [text]) htexts, List.append_assoc, List.singleton_append]

/-- A path without `..` is resolved. -/
theorem resolve_eq_self {p : TreePath} (h : ∀ name ∈ p, name ≠ ['.', '.']) : p.resolve = p := by
  induction p using List.reverseRecOn with
  | nil => rfl
  | append_singleton p name ih =>
    have hp : resolve p = p := ih fun n hn => h n (List.mem_append_left _ hn)
    rw [resolve, List.foldl_concat]
    show (if name = ['.', '.'] then (resolve p).dropLast else resolve p ++ [name]) = _
    rw [if_neg (h name (by simp)), hp]

/-! ### Roots -/

/-- The path leads from the root through names of entries to one of them. -/
def Below (root p : TreePath) : Prop :=
  ∃ rest : TreePath, rest ≠ [] ∧ (∀ name ∈ rest, name.IsSegment) ∧ p = root ++ rest

/-- The path is the root or below it. -/
def Within (root p : TreePath) : Prop := p = root ∨ Below root p

theorem Within.exists_append {root p : TreePath} (h : Within root p) :
    ∃ rest : TreePath, (∀ name ∈ rest, name.IsSegment) ∧ p = root ++ rest := by
  obtain rfl | ⟨rest, -, hrest, rfl⟩ := h
  · exact ⟨[], by simp, (List.append_nil _).symm⟩
  · exact ⟨rest, hrest, rfl⟩

theorem Below.of_append {root rest : TreePath} (hne : rest ≠ [])
    (hrest : ∀ name ∈ rest, name.IsSegment) : Below root (root ++ rest) := ⟨rest, hne, hrest, rfl⟩

/-- An entry of a directory that is not outside. -/
theorem Within.below_concat {root p : TreePath} (h : Within root p) {name : FileName}
    (hname : name.IsSegment) : Below root (p ++ [name]) := by
  obtain ⟨rest, hrest, rfl⟩ := h.exists_append
  refine ⟨rest ++ [name], by simp, fun n hn => ?_, List.append_assoc ..⟩
  rcases List.mem_append.mp hn with hn | hn
  · exact hrest n hn
  · exact List.mem_singleton.mp hn ▸ hname

theorem Below.within {root p : TreePath} (h : Below root p) : Within root p := Or.inr h

theorem Below.below_concat {root p : TreePath} (h : Below root p) {name : FileName}
    (hname : name.IsSegment) : Below root (p ++ [name]) := h.within.below_concat hname

/-- A path below the root is a name in a directory that is not outside. -/
theorem Below.exists_concat {root p : TreePath} (h : Below root p) :
    ∃ parent name, Within root parent ∧ FileName.IsSegment name ∧ p = parent ++ [name] := by
  obtain ⟨rest, hne, hrest, rfl⟩ := h
  obtain ⟨dirs, name, rfl⟩ : ∃ dirs name, rest = dirs ++ [name] :=
    ⟨_, _, (List.dropLast_concat_getLast hne).symm⟩
  refine ⟨root ++ dirs, name, ?_, hrest name (by simp), (List.append_assoc ..).symm⟩
  by_cases hdirs : dirs = []
  · exact Or.inl (by rw [hdirs, List.append_nil])
  · exact Or.inr (.of_append hdirs fun n hn => hrest n (List.mem_append_left _ hn))

/-- The directory of a path below the root. -/
theorem Below.within_dropLast {root p : TreePath} (h : Below root p) : Within root p.dropLast := by
  obtain ⟨parent, name, hparent, -, rfl⟩ := h.exists_concat
  rwa [List.dropLast_concat]

theorem Below.withSuffix {root p : TreePath} (h : Below root p) {s : List Char}
    (hs : 1 < s.length) (hslash : '/' ∉ s) : Below root (p.withSuffix s) := by
  obtain ⟨parent, name, hparent, hname, rfl⟩ := h.exists_concat
  rw [TreePath.withSuffix, List.dropLast_concat, name_concat]
  exact hparent.below_concat (hname.stem_append hs hslash)

/-- What is not outside a resolved root is resolved. -/
theorem Within.resolve_eq {root p : TreePath} (h : Within root p)
    (hroot : ∀ name ∈ root, name ≠ ['.', '.']) : p.resolve = p := by
  obtain ⟨rest, hrest, rfl⟩ := h.exists_append
  refine resolve_eq_self fun name hname => ?_
  rcases List.mem_append.mp hname with hname | hname
  · exact hroot name hname
  · exact (hrest name hname).ne_parent

end TreePath

end OpenRath
