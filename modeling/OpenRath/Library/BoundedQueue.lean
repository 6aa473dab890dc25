import Mathlib.Data.List.Perm.Subperm

/-!
# Bounded queues

A queue that is fed at its front, served at its back and cut down at its back to a number of items.
What was put in comes out in this order, none of it twice; what is cut off is lost, and it is always
older than the last items that the bound has room for.

## Main definitions

* `BoundedQueue`, with the items that were put in and those that were taken out so far.
* `BoundedQueue.Kept`: what has become of the items.

## Main results

* `BoundedQueue.Kept.push`, `BoundedQueue.Kept.trim`, `BoundedQueue.Kept.pop`.
* `BoundedQueue.Kept.sublist`: order, and nothing twice.
* `perm_filterMap_set`: one more item of a list has a value.
-/

namespace OpenRath

/-- A queue with its last item first, and the items that were put in and those that were taken out
so far, in their order. -/
structure BoundedQueue (α : Type) where
  items : List α
  pushed : List α
  popped : List α

namespace BoundedQueue

variable {α β : Type}

/-- The queue before the first item. -/
def empty : BoundedQueue α := ⟨[], [], []⟩

/-- The queue with an item more. -/
def push (a : α) (q : BoundedQueue α) : BoundedQueue α :=
  ⟨a :: q.items, q.pushed ++ [a], q.popped⟩

/-- The queue that is left by all but the last items. -/
def trim (n : ℕ) (q : BoundedQueue α) : BoundedQueue α := { q with items := q.items.take n }

/-- The first item, and the queue without it. -/
def pop (q : BoundedQueue α) : Option α × BoundedQueue α :=
  (q.items.getLast?, ⟨q.items.dropLast, q.pushed, q.popped ++ q.items.getLast?.toList⟩)

/-- The queue of other items. -/
def map (f : α → β) (q : BoundedQueue α) : BoundedQueue β :=
  ⟨q.items.map f, q.pushed.map f, q.popped.map f⟩

variable (f : α → β) (q : BoundedQueue α)

theorem map_push (a : α) : (q.push a).map f = (q.map f).push (f a) := by
  simp [map, push]

theorem map_trim (n : ℕ) : (q.trim n).map f = (q.map f).trim n := by
  simp [map, trim, List.map_take]

theorem pop_map : (q.map f).pop = (q.pop.1.map f, q.pop.2.map f) := by
  cases h : q.items.getLast? <;> simp [map, pop, h, List.map_dropLast]

/-- What was put in is `old`, then `late` and then what waits; `late` was taken out last, and before
it there were only items of `old`. The bound has room for what was put in behind `old`. -/
def Kept (cap : ℕ) : Prop :=
  ∃ old early late, q.pushed = old ++ (late ++ q.items.reverse) ∧ q.popped = early ++ late ∧
    early.Sublist old ∧ (old = [] ∨ old.length + cap ≤ q.pushed.length)

variable {q} {cap : ℕ}

theorem kept_empty : (empty : BoundedQueue α).Kept cap :=
  ⟨[], [], [], rfl, rfl, .refl _, Or.inl rfl⟩

theorem Kept.push (h : q.Kept cap) (a : α) : (q.push a).Kept cap := by
  obtain ⟨old, early, late, hpushed, hpopped, hsub, hold⟩ := h
  refine ⟨old, early, late, ?_, hpopped, hsub, hold.imp_right fun hroom => ?_⟩
  · simp [BoundedQueue.push, hpushed]
  · simp only [BoundedQueue.push, List.length_append, List.length_singleton]
    omega

/-- What is cut off is old. -/
theorem Kept.trim (h : q.Kept cap) : (q.trim cap).Kept cap := by
  obtain ⟨old, early, late, hpushed, hpopped, hsub, hold⟩ := h
  by_cases hfull : q.items.length ≤ cap
  · rw [BoundedQueue.trim, List.take_of_length_le hfull]
    exact ⟨old, early, late, hpushed, hpopped, hsub, hold⟩
  · have hsplit : q.items.reverse = (q.items.drop cap).reverse ++ (q.items.take cap).reverse := by
      rw [← List.reverse_append, List.take_append_drop]
    refine ⟨old ++ (late ++ (q.items.drop cap).reverse), early ++ late, [], ?_, ?_, ?_, Or.inr ?_⟩
    · simp [BoundedQueue.trim, hpushed, hsplit]
    · simp [BoundedQueue.trim, hpopped]
    · exact hsub.append (List.sublist_append_left _ _)
    · have hlength := congrArg List.length hpushed
      simp only [List.length_append, List.length_reverse, List.length_drop,
        BoundedQueue.trim] at hlength ⊢
      omega

theorem Kept.pop (h : q.Kept cap) : q.pop.2.Kept cap := by
  obtain ⟨old, early, late, hpushed, hpopped, hsub, hold⟩ := h
  rcases hlast : q.items.getLast? with _ | a
  · have hnil : q.items = [] := List.getLast?_eq_none_iff.mp hlast
    refine ⟨old, early, late, ?_, ?_, hsub, hold⟩
    · simpa [BoundedQueue.pop, hnil] using hpushed
    · simpa [BoundedQueue.pop, hnil] using hpopped
  · have hsplit : q.items = q.items.dropLast ++ [a] := (List.dropLast_append_getLast? a hlast).symm
    refine ⟨old, early, late ++ [a], ?_, ?_, hsub, hold⟩
    · rw [hsplit] at hpushed
      simpa [BoundedQueue.pop] using hpushed
    · simp [BoundedQueue.pop, hlast, hpopped]

/-- What was taken out and what waits was put in, in this order. -/
theorem Kept.sublist (h : q.Kept cap) : (q.popped ++ q.items.reverse).Sublist q.pushed := by
  obtain ⟨old, early, late, hpushed, hpopped, hsub, -⟩ := h
  rw [hpushed, hpopped, List.append_assoc]
  exact hsub.append (.refl _)

end BoundedQueue

/-- One more item of a list has a value. -/
theorem perm_filterMap_set {α β : Type} {f : α → Option β} {l : List α} {j : ℕ} {a : α}
    (h : l[j]? = some a) (ha : f a = none) (b : α) :
    ((l.set j b).filterMap f).Perm ((f b).toList ++ l.filterMap f) := by
  induction l generalizing j with
  | nil => cases h
  | cons c l ih =>
    cases j with
    | zero =>
      cases h
      rw [List.set_cons_zero, List.filterMap_cons, List.filterMap_cons, ha]
      cases f b <;> exact .refl _
    | succ j =>
      rw [List.set_cons_succ, List.filterMap_cons, List.filterMap_cons]
      cases hc : f c with
      | none => exact ih h
      | some d => exact ((ih h).cons d).trans List.perm_middle.symm

end OpenRath
