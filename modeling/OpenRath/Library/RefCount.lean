import Mathlib.Algebra.GroupWithZero.Nat
import Mathlib.Data.Int.Notation
import Mathlib.Data.List.Basic
import Mathlib.Data.Nat.Notation

/-!
# Objects with a count of references

An object is acquired by those who use it, and closed when the last one of them releases it. The
count is changed under a lock; whoever takes it to zero closes the object afterwards, without the
lock.

The objects of a system stand in a list, in which an object is replaced by what becomes of it.

## Main definitions

* `RefCount`, `Counted`: the count, and the objects that have one.
* `Counted.acquire?`, `Counted.release`, `Counted.close`.
* `Counted.references`: the references to the objects of a list.
* `Counted.Follows`: how they change when references are given up and taken.

## Main results

* `perm_filter_set`: the objects that satisfy a condition, when one does no more.
-/

namespace OpenRath

/-- The count of the references to an object, and whether the object is closed. -/
structure RefCount where
  closed : Bool
  refcount : ℤ
deriving DecidableEq

/-- Objects with a count of references. -/
class Counted (O : Type) where
  count : O → RefCount
  setCount : O → RefCount → O
  count_setCount : ∀ o c, count (setCount o c) = c
  setCount_setCount : ∀ o c d, setCount (setCount o c) d = setCount o d

namespace Counted

variable {O : Type} [Counted O]

/-- The object is closed. -/
def closed (o : O) : Bool := (count o).closed

/-- The number of references. -/
def refcount (o : O) : ℤ := (count o).refcount

/-- A further reference, unless the object is closed. -/
def acquire? (o : O) : Option O :=
  if closed o then none else some (setCount o ⟨false, refcount o + 1⟩)

/-- A reference less, and whether the object is to be closed. -/
def release (o : O) : O × Bool :=
  if closed o then (o, false)
  else (setCount o ⟨false, refcount o - 1⟩, refcount o - 1 ≤ 0)

/-- The object is closed. -/
def close (o : O) : O := setCount o ⟨true, refcount o⟩

variable {o : O}

@[simp] theorem closed_setCount (o : O) (c : RefCount) : closed (setCount o c) = c.closed :=
  congrArg RefCount.closed (count_setCount o c)

@[simp] theorem refcount_setCount (o : O) (c : RefCount) : refcount (setCount o c) = c.refcount :=
  congrArg RefCount.refcount (count_setCount o c)

@[simp] theorem closed_close (o : O) : closed (close o) = true := closed_setCount _ _

theorem acquire?_of_closed (h : closed o = true) : acquire? o = none := if_pos h

theorem acquire?_of_open (h : closed o = false) :
    acquire? o = some (setCount o ⟨false, refcount o + 1⟩) :=
  if_neg (Bool.not_eq_true _ ▸ h)

theorem release_of_closed (h : closed o = true) : release o = (o, false) := if_pos h

theorem release_of_open (h : closed o = false) :
    release o = (setCount o ⟨false, refcount o - 1⟩, decide (refcount o - 1 ≤ 0)) :=
  if_neg (Bool.not_eq_true _ ▸ h)

/-- The references to an object, of which there are none when it is closed. -/
def live (o : O) : ℤ := if closed o then 0 else refcount o

theorem live_of_closed (h : closed o = true) : live o = 0 := if_pos h

theorem live_of_open (h : closed o = false) : live o = refcount o :=
  if_neg (Bool.not_eq_true _ ▸ h)

theorem live_setCount (o : O) (c : RefCount) :
    live (setCount o c) = if c.closed then 0 else c.refcount := by
  rw [live, closed_setCount, refcount_setCount]

/-- The references to the objects of a list, by their places in it. -/
def references (objects : List O) (i : ℕ) : ℤ := (objects[i]?.map live).getD 0

theorem references_of_getElem? {objects : List O} {i : ℕ} (h : objects[i]? = some o) :
    references objects i = live o := by
  rw [references, h]
  rfl

theorem references_of_length_le {objects : List O} {i : ℕ} (h : objects.length ≤ i) :
    references objects i = 0 := by
  rw [references, List.getElem?_eq_none h]
  rfl

/-- An object of the list is replaced by what becomes of it. -/
theorem references_set {objects : List O} {i : ℕ} (h : objects[i]? = some o) (o' : O) (j : ℕ) :
    references (objects.set i o') j = if i = j then live o' else references objects j := by
  have hlength : i < objects.length := (List.getElem?_eq_some_iff.mp h).1
  rw [references, List.getElem?_set]
  split_ifs with hj
  · rfl
  · rfl

/-- A new object, after those of the list. -/
theorem references_append (objects : List O) (o : O) (j : ℕ) :
    references (objects ++ [o]) j =
      if objects.length = j then live o else references objects j := by
  split_ifs with hj
  · rw [references, ← hj, List.getElem?_concat_length]
    rfl
  · by_cases hlt : j < objects.length
    · rw [references, List.getElem?_append_left hlt]
      rfl
    · have hlength : (objects ++ [o]).length ≤ j := by
        rw [List.length_append, List.length_singleton]
        omega
      rw [references_of_length_le hlength, references_of_length_le (by omega)]

/-- The object at a place is there and not closed. -/
def isOpen (objects : List O) (i : ℕ) : Bool :=
  match objects[i]? with
  | some o => !closed o
  | none => false

theorem isOpen_of_getElem? {objects : List O} {i : ℕ} (h : objects[i]? = some o) :
    isOpen objects i = !closed o := by
  rw [isOpen, h]

theorem exists_of_isOpen {objects : List O} {i : ℕ} (h : isOpen objects i = true) :
    ∃ o, objects[i]? = some o ∧ closed o = false := by
  rw [isOpen] at h
  rcases hi : objects[i]? with _ | o
  · rw [hi] at h
    cases h
  · rw [hi] at h
    exact ⟨o, rfl, (Bool.not_eq_true' _).mp h⟩

/-- Only open objects have references. -/
theorem isOpen_of_references_pos {objects : List O} {i : ℕ} (h : 0 < references objects i) :
    isOpen objects i = true := by
  rcases hi : objects[i]? with _ | o
  · rw [references, hi] at h
    cases h
  · rw [isOpen_of_getElem? hi, Bool.not_eq_true']
    by_contra hclosed
    rw [references_of_getElem? hi, live_of_closed (eq_true_of_ne_false hclosed)] at h
    omega

theorem isOpen_set {objects : List O} {i : ℕ} (h : objects[i]? = some o) (o' : O) (j : ℕ) :
    isOpen (objects.set i o') j = if i = j then !closed o' else isOpen objects j := by
  have hlength : i < objects.length := (List.getElem?_eq_some_iff.mp h).1
  rw [isOpen, List.getElem?_set]
  split_ifs <;> rfl

theorem isOpen_append_of_isOpen {objects : List O} {i : ℕ} (h : isOpen objects i = true) (o : O) :
    isOpen (objects ++ [o]) i = true := by
  obtain ⟨o', hi, hopen⟩ := exists_of_isOpen h
  have hlength : i < objects.length := (List.getElem?_eq_some_iff.mp hi).1
  rw [isOpen_of_getElem? ((List.getElem?_append_left hlength).trans hi), hopen]
  rfl

/-! ### References that are given up and taken -/

/-- The references follow when one is given up and one is taken, and an object is closed when the
last reference to it is given up. -/
structure Follows (objects objects' : List O) (given taken : Option ℕ) : Prop where
  references : ∀ i, references objects' i + (if given = some i then 1 else 0) =
    references objects i + if taken = some i then 1 else 0
  closes : ∀ i, isOpen objects i = true →
    (isOpen objects' i = false ↔ 0 < Counted.references objects i ∧
      Counted.references objects' i = 0)

variable {objects objects' : List O} {given : Option ℕ} {i : ℕ}

theorem Follows.refl (objects : List O) : Follows objects objects none none := by
  refine ⟨fun i => rfl, fun i hopen => ?_⟩
  rw [hopen]
  constructor
  · exact fun h => Bool.noConfusion h
  · omega

/-- A new object without references. -/
theorem Follows.append (objects : List O) (hlive : live o = 0) :
    Follows objects (objects ++ [o]) none none := by
  have hsame : ∀ i, Counted.references (objects ++ [o]) i = Counted.references objects i := by
    intro i
    rw [references_append]
    split_ifs with hi
    · rw [hlive, references_of_length_le (Nat.le_of_eq hi)]
    · rfl
  refine ⟨fun i => by rw [hsame], fun i hopen => ?_⟩
  rw [isOpen_append_of_isOpen hopen, hsame]
  constructor
  · exact fun h => Bool.noConfusion h
  · omega

/-- A reference to an open object is taken. -/
theorem Follows.acquire (h : Follows objects objects' given none) (hi : objects'[i]? = some o)
    (hopen : closed o = false) (hgiven : given ≠ some i) :
    Follows objects (objects'.set i (setCount o ⟨false, refcount o + 1⟩)) given (some i) := by
  have hreferences : Counted.references objects' i = refcount o := by
    rw [references_of_getElem? hi, live_of_open hopen]
  have hlive : live (setCount o ⟨false, refcount o + 1⟩) = refcount o + 1 := live_setCount _ _
  constructor
  · intro j
    have hj := h.references j
    rw [references_set hi, hlive]
    by_cases hij : i = j
    · subst hij
      rw [if_pos rfl, if_pos rfl]
      rw [if_neg hgiven] at hj ⊢
      simp only [reduceCtorEq, if_false] at hj
      omega
    · rw [if_neg hij, if_neg (fun heq => hij (Option.some.inj heq))]
      simpa using hj
  · intro j hjopen
    have hj := h.references j
    have hcloses := h.closes j hjopen
    rw [references_set hi, isOpen_set hi, hlive]
    by_cases hij : i = j
    · subst hij
      rw [if_neg hgiven] at hj
      rw [if_pos rfl, if_pos rfl, closed_setCount]
      simp only [reduceCtorEq, if_false] at hj
      constructor
      · exact fun h => Bool.noConfusion h
      · omega
    · rw [if_neg hij, if_neg hij]
      exact hcloses

/-- A reference to an open object is given up, and the object is closed if it has been the last
one. -/
theorem Follows.release (hi : objects[i]? = some o) (hopen : closed o = false) {o' : O}
    (hlive : live o' = refcount o - 1) (hpos : 0 < refcount o)
    (hcloses : closed o' = true ↔ refcount o ≤ 1) :
    Follows objects (objects.set i o') (some i) none := by
  have hreferences : Counted.references objects i = refcount o := by
    rw [references_of_getElem? hi, live_of_open hopen]
  constructor
  · intro j
    rw [references_set hi, hlive]
    by_cases hij : i = j
    · subst hij
      rw [if_pos rfl, if_pos rfl, hreferences]
      simp only [reduceCtorEq, if_false]
      omega
    · rw [if_neg hij, if_neg (fun heq => hij (Option.some.inj heq))]
      simp only [reduceCtorEq, if_false]
  · intro j hjopen
    rw [references_set hi, isOpen_set hi, hlive]
    by_cases hij : i = j
    · subst hij
      rw [if_pos rfl, if_pos rfl, hreferences, Bool.not_eq_false', hcloses]
      omega
    · rw [if_neg hij, if_neg hij]
      exact (Follows.refl objects).closes j hjopen

end Counted

/-! ### Lists of objects -/

section Lists

variable {α β : Type} {l : List α} {i : ℕ} {a b : α} {p : α → Bool}

/-- An item that is replaced by itself. -/
theorem set_of_getElem? (h : l[i]? = some a) : l.set i a = l := by
  obtain ⟨hi, rfl⟩ := List.getElem?_eq_some_iff.mp h
  exact List.set_getElem_self hi

/-- An item that no longer satisfies a condition is missing among those that do. -/
theorem perm_filter_set (h : l[i]? = some a) (ha : p a = true) (hb : p b = false) :
    (l.filter p).Perm (a :: (l.set i b).filter p) := by
  induction l generalizing i with
  | nil => simp at h
  | cons c l ih =>
    cases i with
    | zero =>
      obtain rfl : c = a := by simpa using h
      simp [ha, hb]
    | succ i =>
      have hperm := ih (i := i) (by simpa using h)
      rw [List.set_cons_succ, List.filter_cons, List.filter_cons]
      split_ifs
      · exact (hperm.cons c).trans (List.Perm.swap a c _)
      · exact hperm

/-- The items that satisfy a condition, when one item changes. -/
theorem countP_set_add (p : α → Bool) (h : l[i]? = some a) :
    (l.set i b).countP p + (if p a then 1 else 0) = l.countP p + if p b then 1 else 0 := by
  induction l generalizing i with
  | nil => simp at h
  | cons c l ih =>
    cases i with
    | zero =>
      obtain rfl : c = a := by simpa using h
      rw [List.set_cons_zero, List.countP_cons, List.countP_cons]
      omega
    | succ i =>
      have hrest := ih (i := i) (by simpa using h)
      rw [List.set_cons_succ, List.countP_cons, List.countP_cons]
      omega

/-- A sum over the items, when one item changes. -/
theorem sum_map_set_add (f : α → ℕ) (h : l[i]? = some a) :
    ((l.set i b).map f).sum + f a = (l.map f).sum + f b := by
  induction l generalizing i with
  | nil => simp at h
  | cons c l ih =>
    cases i with
    | zero =>
      obtain rfl : c = a := by simpa using h
      rw [List.set_cons_zero, List.map_cons, List.map_cons, List.sum_cons, List.sum_cons]
      omega
    | succ i =>
      have hrest := ih (i := i) (by simpa using h)
      rw [List.set_cons_succ, List.map_cons, List.map_cons, List.sum_cons, List.sum_cons]
      omega

/-- An item of a sum is at most the sum. -/
theorem le_sum_map (f : α → ℕ) (h : a ∈ l) : f a ≤ (l.map f).sum := by
  induction l with
  | nil => cases h
  | cons c l ih =>
    rw [List.map_cons, List.sum_cons]
    rcases List.mem_cons.mp h with rfl | h
    · omega
    · have hrest := ih h
      omega

/-- An item whose replacement is the same in a respect. -/
theorem map_filter_set (f : α → β) (h : l[i]? = some a) (hp : p b = p a) (hf : f b = f a) :
    ((l.set i b).filter p).map f = (l.filter p).map f := by
  induction l generalizing i with
  | nil => rfl
  | cons c l ih =>
    cases i with
    | zero =>
      obtain rfl : c = a := by simpa using h
      rw [List.set_cons_zero, List.filter_cons, List.filter_cons, hp]
      split_ifs <;> simp [hf]
    | succ i =>
      have hrest := ih (i := i) (by simpa using h)
      rw [List.set_cons_succ, List.filter_cons, List.filter_cons]
      split_ifs
      · rw [List.map_cons, List.map_cons, hrest]
      · exact hrest

end Lists

end OpenRath
