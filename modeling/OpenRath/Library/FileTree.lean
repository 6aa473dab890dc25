import Mathlib.Data.Finmap
import Mathlib.Data.Finset.Sort
import Mathlib.Data.Nat.Notation

/-!
# Trees of files

The files and directories below a root, without links. A path is the list of its components. The
operations fail for no other reasons than the shape of the tree: a directory stands where a file
should be, or the other way round.

The name of a file is taken apart as `pathlib` does it: the suffix begins at the last point, unless
this is the first or the last character.

## Main definitions

* `FileName.stem`, `FileName.suffix`, `TreePath.withSuffix`.
* `FileTree`, `FileTree.IsDir`, `FileTree.names`.
* `FileTree.mkdir`, `FileTree.write`, `FileTree.unlink`.

## Main results

* `TreePath.withSuffix_eq_withSuffix_iff`: the paths that a replacement of the suffix takes to the
  same path.
* `FileTree.files_of_mkdir`, `FileTree.files_of_write`, `FileTree.files_of_unlink`: what the
  operations do to the files.
* `FileTree.exists_mkdir`, `FileTree.exists_write`: a first file can be written.
-/

namespace OpenRath

/-! ### Names -/

/-- The name of a file or of a directory. -/
abbrev FileName : Type := List Char

namespace FileName

/-- What a name has before and behind its last point. -/
def aroundPoint? : FileName → Option (List Char × List Char)
  | [] => none
  | c :: name =>
    match aroundPoint? name with
    | some (before, behind) => some (c :: before, behind)
    | none => if c = '.' then some ([], name) else none

/-- `PurePath.stem`. -/
def stem (name : FileName) : List Char :=
  match aroundPoint? name with
  | some (before, behind) => if before ≠ [] ∧ behind ≠ [] then before else name
  | none => name

/-- `PurePath.suffix`. -/
def suffix (name : FileName) : List Char :=
  match aroundPoint? name with
  | some (before, behind) => if before ≠ [] ∧ behind ≠ [] then '.' :: behind else []
  | none => []

theorem aroundPoint?_eq_none_iff {name : FileName} : aroundPoint? name = none ↔ '.' ∉ name := by
  induction name with
  | nil => simp [aroundPoint?]
  | cons c name ih =>
    rw [aroundPoint?]
    cases h : aroundPoint? name with
    | none =>
      rw [h] at ih
      by_cases hc : c = '.'
      · simp [hc]
      · simpa [hc, Ne.symm hc] using ih
    | some parts =>
      rw [h] at ih
      have hmem : '.' ∈ name := not_not.mp fun hmem => nomatch ih.mpr hmem
      simp [hmem]

theorem aroundPoint?_eq_some_iff {name before behind : List Char} :
    aroundPoint? name = some (before, behind) ↔ name = before ++ '.' :: behind ∧ '.' ∉ behind := by
  induction name generalizing before behind with
  | nil => simp [aroundPoint?]
  | cons c name ih =>
    rw [aroundPoint?]
    cases h : aroundPoint? name with
    | none =>
      have hpoint := aroundPoint?_eq_none_iff.mp h
      constructor
      · intro hcut
        obtain ⟨rfl, hparts⟩ : c = '.' ∧ ([], name) = (before, behind) := by
          simpa [Option.ite_none_right_eq_some] using hcut
        cases hparts
        exact ⟨rfl, hpoint⟩
      · rintro ⟨hname, hbehind⟩
        cases before with
        | nil =>
          obtain ⟨rfl, rfl⟩ := List.cons.inj hname
          rfl
        | cons d before =>
          obtain ⟨-, rfl⟩ := List.cons.inj hname
          simp at hpoint
    | some parts =>
      obtain ⟨s, e⟩ := parts
      obtain ⟨hname, hpoint⟩ := ih.mp h
      constructor
      · intro hcut
        obtain ⟨rfl, rfl⟩ : c :: s = before ∧ e = behind := by simpa using hcut
        exact ⟨by rw [hname]; rfl, hpoint⟩
      · rintro ⟨hcons, hbehind⟩
        cases before with
        | nil =>
          obtain ⟨-, rfl⟩ := List.cons.inj hcons
          rw [hname] at hbehind
          simp at hbehind
        | cons d before =>
          obtain ⟨rfl, hrest⟩ := List.cons.inj hcons
          obtain ⟨rfl, rfl⟩ : s = before ∧ e = behind := by
            simpa using h.symm.trans (ih.mpr ⟨hrest, hbehind⟩)
          rfl

theorem stem_append_suffix (name : FileName) : stem name ++ suffix name = name := by
  rw [stem, suffix]
  cases h : aroundPoint? name with
  | none => exact List.append_nil _
  | some parts =>
    obtain ⟨before, behind⟩ := parts
    obtain ⟨hname, -⟩ := aroundPoint?_eq_some_iff.mp h
    by_cases hparts : before ≠ [] ∧ behind ≠ []
    · simp only [if_pos hparts]
      exact hname.symm
    · simp only [if_neg hparts]
      exact List.append_nil _

theorem stem_subset (name : FileName) : stem name ⊆ name := fun c hc => by
  rw [← stem_append_suffix name]
  exact List.mem_append_left _ hc

theorem suffix_subset (name : FileName) : suffix name ⊆ name := fun c hc => by
  rw [← stem_append_suffix name]
  exact List.mem_append_right _ hc

theorem stem_ne_nil {name : FileName} (h : name ≠ []) : stem name ≠ [] := by
  rw [stem]
  cases hcut : aroundPoint? name with
  | none => exact h
  | some parts =>
    by_cases hparts : parts.1 ≠ [] ∧ parts.2 ≠ []
    · simp only [if_pos hparts]
      exact hparts.1
    · simp only [if_neg hparts]
      exact h

end FileName

/-! ### Paths -/

/-- A path below the root of a tree, by its components. -/
abbrev TreePath : Type := List FileName

namespace TreePath

/-- `PurePath.name`. -/
def name (p : TreePath) : FileName := p.getLastD []

/-- `PurePath.with_suffix`, of a path with a name. -/
def withSuffix (p : TreePath) (s : List Char) : TreePath := p.dropLast ++ [p.name.stem ++ s]

@[simp] theorem name_concat (p : TreePath) (n : FileName) : name (p ++ [n]) = n := by
  simp [name]

@[simp] theorem name_withSuffix (p : TreePath) (s : List Char) :
    (p.withSuffix s).name = p.name.stem ++ s := name_concat _ _

@[simp] theorem dropLast_withSuffix (p : TreePath) (s : List Char) :
    (p.withSuffix s).dropLast = p.dropLast := List.dropLast_concat

theorem withSuffix_ne_nil (p : TreePath) (s : List Char) : p.withSuffix s ≠ [] := by
  simp [withSuffix]

theorem not_withSuffix_prefix_dropLast (p : TreePath) (s : List Char) :
    ¬ p.withSuffix s <+: p.dropLast := fun h => by
  have hlength := h.length_le
  rw [withSuffix, List.length_append, List.length_singleton] at hlength
  omega

theorem withSuffix_inj {p : TreePath} {s s' : List Char} (h : p.withSuffix s = p.withSuffix s') :
    s = s' := by
  have hname := congrArg name h
  rw [name_withSuffix, name_withSuffix] at hname
  exact List.append_cancel_left hname

/-- Files that lie next to each other do not lie below each other. -/
theorem withSuffix_eq_of_prefix {p : TreePath} {s s' : List Char}
    (h : p.withSuffix s <+: p.withSuffix s') : p.withSuffix s = p.withSuffix s' :=
  h.eq_of_length (by simp [withSuffix])

/-- Paths that have the same path up to the suffix have it for every suffix. -/
theorem withSuffix_eq_withSuffix_iff {p q : TreePath} {s : List Char} :
    p.withSuffix s = q.withSuffix s ↔ p.dropLast = q.dropLast ∧ p.name.stem = q.name.stem := by
  constructor
  · intro h
    obtain ⟨hparent, hname⟩ := List.append_inj' h rfl
    exact ⟨hparent, List.append_cancel_right (List.cons.inj hname).1⟩
  · rintro ⟨hparent, hname⟩
    rw [withSuffix, withSuffix, hparent, hname]

end TreePath

/-! ### Trees -/

/-- An error of the operating system. -/
inductive OsError
  | isADirectory (p : TreePath)
  | notADirectory (p : TreePath)
  | fileExists (p : TreePath)
  | notFound (p : TreePath)
deriving DecidableEq

/-- The name of the class of an error. -/
def OsError.typeName : OsError → String
  | isADirectory _ => "IsADirectoryError"
  | notADirectory _ => "NotADirectoryError"
  | fileExists _ => "FileExistsError"
  | notFound _ => "FileNotFoundError"

/-- The files below a root and the directories that have been made, from which the directories
above them follow. -/
structure FileTree where
  files : Finmap fun _ : TreePath => List UInt8
  made : Finset TreePath
  root_not_mem : [] ∉ files
  eq_of_prefix : ∀ p ∈ files, ∀ q ∈ files, q <+: p → q = p
  not_prefix_of_made : ∀ p ∈ made, ∀ q ∈ files, ¬ q <+: p

namespace FileTree

/-- The tree of an empty root. -/
def empty : FileTree where
  files := ∅
  made := ∅
  root_not_mem := Finmap.notMem_empty
  eq_of_prefix _ hp := absurd hp Finmap.notMem_empty
  not_prefix_of_made p hp := absurd hp (Finset.notMem_empty p)

variable (t : FileTree) (p : TreePath)

/-- The path is a directory. -/
def IsDir : Prop := p = [] ∨ (∃ q ∈ t.made, p <+: q) ∨ ∃ q ∈ t.files.keys, p <+: q ∧ p ≠ q

instance : Decidable (t.IsDir p) :=
  inferInstanceAs (Decidable (p = [] ∨ (∃ q ∈ t.made, p <+: q) ∨
    ∃ q ∈ t.files.keys, p <+: q ∧ p ≠ q))

/-- What is above the path is a file. -/
def Blocked : Prop := ∃ q ∈ t.files.keys, q <+: p ∧ q ≠ p

instance : Decidable (t.Blocked p) :=
  inferInstanceAs (Decidable (∃ q ∈ t.files.keys, q <+: p ∧ q ≠ p))

/-- The names in a directory. -/
def names : Finset FileName :=
  ((t.made ∪ t.files.keys).filter fun q => p <+: q ∧ p ≠ q).image fun q => q.getD p.length []

/-- `mkdir(parents=True, exist_ok=True)`. -/
def mkdir : Except OsError FileTree :=
  if hfile : p ∈ t.files then .error (.fileExists p)
  else if hblocked : t.Blocked p then .error (.notADirectory p)
  else .ok { t with
    made := insert p t.made
    not_prefix_of_made := by
      intro r hr q hq hbelow
      rcases Finset.mem_insert.mp hr with rfl | hr
      · by_cases hqr : q = r
        · exact hfile (hqr ▸ hq)
        · exact hblocked ⟨q, Finmap.mem_keys.mpr hq, hbelow, hqr⟩
      · exact t.not_prefix_of_made r hr q hq hbelow }

/-- A file is written, whether or not it was there before. -/
def write (data : List UInt8) : Except OsError FileTree :=
  if hdir : t.IsDir p then .error (.isADirectory p)
  else if hblocked : t.Blocked p then .error (.notADirectory p)
  else .ok {
    files := t.files.insert p data
    made := t.made
    root_not_mem := by
      rw [Finmap.mem_insert]
      rintro (h | h)
      · exact hdir (Or.inl h.symm)
      · exact t.root_not_mem h
    eq_of_prefix := by
      intro r hr q hq hbelow
      rw [Finmap.mem_insert] at hr hq
      by_contra hne
      rcases hr with rfl | hr <;> rcases hq with rfl | hq
      · exact hne rfl
      · exact hblocked ⟨q, Finmap.mem_keys.mpr hq, hbelow, hne⟩
      · exact hdir (Or.inr (Or.inr ⟨r, Finmap.mem_keys.mpr hr, hbelow, hne⟩))
      · exact hne (t.eq_of_prefix r hr q hq hbelow)
    not_prefix_of_made := by
      intro r hr q hq hbelow
      rcases Finmap.mem_insert.mp hq with rfl | hq
      · exact hdir (Or.inr (Or.inl ⟨r, hr, hbelow⟩))
      · exact t.not_prefix_of_made r hr q hq hbelow }

/-- A file is removed. -/
def unlink : Except OsError FileTree :=
  if hfile : p ∈ t.files then .ok {
    files := t.files.erase p
    made := insert p.dropLast t.made
    root_not_mem := fun h => t.root_not_mem (Finmap.mem_erase.mp h).2
    eq_of_prefix := fun r hr q hq => t.eq_of_prefix r (Finmap.mem_erase.mp hr).2 q
      (Finmap.mem_erase.mp hq).2
    not_prefix_of_made := by
      intro r hr q hq hbelow
      obtain ⟨hne, hq⟩ := Finmap.mem_erase.mp hq
      rcases Finset.mem_insert.mp hr with rfl | hr
      · exact hne (t.eq_of_prefix p hfile q hq (hbelow.trans (List.dropLast_prefix p)))
      · exact t.not_prefix_of_made r hr q hq hbelow }
  else if t.IsDir p then .error (.isADirectory p)
  else .error (.notFound p)

variable {t p} {t' : FileTree}

theorem not_isDir_of_mem (h : p ∈ t.files) : ¬ t.IsDir p := by
  rintro (rfl | ⟨q, hq, hbelow⟩ | ⟨q, hq, hbelow, hne⟩)
  · exact t.root_not_mem h
  · exact t.not_prefix_of_made q hq p h hbelow
  · exact hne (t.eq_of_prefix q (Finmap.mem_keys.mp hq) p h hbelow)

/-! ### What the operations do to the files -/

theorem mkdir_eq_ok_iff : (∃ t', t.mkdir p = .ok t') ↔ p ∉ t.files ∧ ¬ t.Blocked p := by
  rw [mkdir]
  split_ifs with hfile hblocked <;> simp [*]

theorem made_of_mkdir (h : t.mkdir p = .ok t') : t'.made = insert p t.made := by
  rw [mkdir] at h
  split_ifs at h
  cases h
  rfl

theorem write_eq_ok_iff {data : List UInt8} :
    (∃ t', t.write p data = .ok t') ↔ ¬ t.IsDir p ∧ ¬ t.Blocked p := by
  rw [write]
  split_ifs with hdir hblocked <;> simp [*]

theorem made_of_write {data : List UInt8} (h : t.write p data = .ok t') : t'.made = t.made := by
  rw [write] at h
  split_ifs at h
  cases h
  rfl

theorem files_of_mkdir (h : t.mkdir p = .ok t') : t'.files = t.files := by
  rw [mkdir] at h
  split_ifs at h
  cases h
  rfl

theorem files_of_write {data : List UInt8} (h : t.write p data = .ok t') :
    t'.files = t.files.insert p data := by
  rw [write] at h
  split_ifs at h
  cases h
  rfl

theorem files_of_unlink (h : t.unlink p = .ok t') : t'.files = t.files.erase p := by
  rw [unlink] at h
  split_ifs at h
  cases h
  rfl

/-! ### A first file -/

theorem exists_mkdir (h : t.files = ∅) (p : TreePath) : ∃ t', t.mkdir p = .ok t' := by
  refine mkdir_eq_ok_iff.mpr ⟨by rw [h]; exact Finmap.notMem_empty, ?_⟩
  rintro ⟨q, hq, -⟩
  rw [h] at hq
  exact Finmap.notMem_empty (Finmap.mem_keys.mp hq)

/-- In the only directory of a tree without files one can be written. -/
theorem exists_write (hfiles : t.files = ∅) (hmade : t.made = {p.dropLast}) (s : List Char)
    (data : List UInt8) : ∃ t', t.write (p.withSuffix s) data = .ok t' ∧
      t'.files = Finmap.singleton (p.withSuffix s) data ∧ t'.made = {p.dropLast} := by
  have hmem : ∀ q, q ∉ t.files.keys := fun q hq => by
    rw [hfiles] at hq
    exact Finmap.notMem_empty (Finmap.mem_keys.mp hq)
  have hdir : ¬ t.IsDir (p.withSuffix s) := by
    rintro (h | ⟨q, hq, hbelow⟩ | ⟨q, hq, -⟩)
    · exact TreePath.withSuffix_ne_nil p s h
    · rw [hmade, Finset.mem_singleton] at hq
      exact TreePath.not_withSuffix_prefix_dropLast p s (hq ▸ hbelow)
    · exact hmem q hq
  have hblocked : ¬ t.Blocked (p.withSuffix s) := fun ⟨q, hq, _⟩ => hmem q hq
  obtain ⟨t', ht'⟩ : ∃ t', t.write (p.withSuffix s) data = .ok t' :=
    write_eq_ok_iff.mpr ⟨hdir, hblocked⟩
  refine ⟨t', ht', ?_, (made_of_write ht').trans hmade⟩
  rw [files_of_write ht', hfiles]
  rfl

end FileTree

end OpenRath
