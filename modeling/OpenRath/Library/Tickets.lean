import Mathlib.Data.List.Basic
import Mathlib.Data.Nat.Notation

/-!
# Tickets that are served in order

Tickets are numbers that are given out one after the other. Each has a place in a list, which is
empty until the ticket is served. Those that wait are in a queue.

When tickets are queued as they are given out and served as they are queued, those that have been
served are the first ones, and the queue has the other ones in order.

## Main definitions

* `Tickets.Served`: so many tickets have been served, and the other ones wait.

## Main results

* `Tickets.Served.give`, `Tickets.Served.serve`: giving out a ticket, and serving the first one.
* `Tickets.Served.all`: when none waits, all have been served.
-/

namespace OpenRath

namespace Tickets

variable {α : Type} {items : List (Option α)} {waiting : List ℕ} {k : ℕ}

/-- The first `k` tickets have been served, and the other ones wait. -/
structure Served (items : List (Option α)) (waiting : List ℕ) (k : ℕ) : Prop where
  le : k ≤ items.length
  waiting : waiting = List.range' k (items.length - k)
  served : ∀ i, i < k → ∃ a, items[i]? = some (some a)
  unserved : ∀ i a, items[i]? = some (some a) → i < k

theorem Served.nil : Served ([] : List (Option α)) [] 0 where
  le := Nat.le_refl 0
  waiting := rfl
  served _ h := absurd h (Nat.not_lt_zero _)
  unserved _ _ h := absurd (List.mem_of_getElem? h) List.not_mem_nil

theorem getElem?_append_of_eq_some {β : Type} {l : List β} {i : ℕ} {b : β} (h : l[i]? = some b)
    (l' : List β) : (l ++ l')[i]? = some b :=
  (List.getElem?_append_left (List.getElem?_eq_some_iff.mp h).1).trans h

/-- A ticket is given out. -/
theorem Served.give (h : Served items waiting k) :
    Served (items ++ [none]) (waiting ++ [items.length]) k := by
  have hle := h.le
  have hlength : (items ++ [none]).length - k = items.length - k + 1 := by
    rw [List.length_append, List.length_singleton]
    omega
  refine ⟨by rw [List.length_append]; omega, ?_, fun i hi => ?_, fun i a hi => ?_⟩
  · rw [hlength, List.range'_1_concat, ← h.waiting, Nat.add_sub_cancel' hle]
  · rw [List.getElem?_append_left (by omega)]
    exact h.served i hi
  · by_cases hlt : i < items.length
    · rw [List.getElem?_append_left hlt] at hi
      exact h.unserved i a hi
    · obtain ⟨hi', hitem⟩ := List.getElem?_eq_some_iff.mp hi
      rw [List.getElem_append_right (by omega), List.getElem_singleton] at hitem
      cases hitem

/-- The ticket that waits first is the next one. -/
theorem Served.eq_of_cons {i : ℕ} (h : Served items (i :: waiting) k) :
    i = k ∧ k < items.length := by
  have hwaiting := h.waiting
  rcases hn : items.length - k with _ | n
  · rw [hn] at hwaiting
    cases hwaiting
  · rw [hn, List.range'_succ] at hwaiting
    exact ⟨(List.cons.inj hwaiting).1, by omega⟩

/-- The ticket that waits first is served. -/
theorem Served.serve {i : ℕ} (h : Served items (i :: waiting) k) (a : α) :
    Served (items.set i (some a)) waiting (k + 1) := by
  obtain ⟨rfl, hlt⟩ := h.eq_of_cons
  have hwaiting := h.waiting
  have hlength : items.length - i = items.length - (i + 1) + 1 := by omega
  rw [hlength, List.range'_succ] at hwaiting
  refine ⟨by rw [List.length_set]; omega, ?_, fun j hj => ?_, fun j b hj => ?_⟩
  · rw [List.length_set]
    exact (List.cons.inj hwaiting).2
  · by_cases hij : i = j
    · exact ⟨a, hij ▸ List.getElem?_set_self hlt⟩
    · rw [List.getElem?_set_ne hij]
      exact h.served j (by omega)
  · by_cases hij : i = j
    · omega
    · rw [List.getElem?_set_ne hij] at hj
      have hlt' := h.unserved j b hj
      omega

/-- All tickets have been served when none waits. -/
theorem Served.all (h : Served items [] k) : ∀ o ∈ items, o ≠ none := by
  intro o ho hnone
  have hle := h.le
  have hlength : items.length - k = 0 := by
    have hwaiting := congrArg List.length h.waiting
    rw [List.length_range'] at hwaiting
    exact hwaiting.symm
  obtain ⟨i, hi⟩ := List.mem_iff_getElem?.mp ho
  obtain ⟨hlt, -⟩ := List.getElem?_eq_some_iff.mp hi
  obtain ⟨a, ha⟩ := h.served i (by omega)
  rw [ha, hnone] at hi
  cases hi

end Tickets

end OpenRath
