import OpenRath.Library.Protocol

/-!
# Permits

There is a limited number of permits of every kind. Tasks take them and give them back as they go
from state to state. The permits that are left and those that the tasks hold add up to the capacity,
which is part of the structure: the only ways to change it are to supply a kind that there was not,
and to replace the state of a task, which fails if there is no permit for the new one.

## Main definitions

* `Permits`, `Permits.supply`, `Permits.replace?`.

## Main results

* `Permits.countP_le`: no more tasks hold a permit than there are permits.
* `Permits.value_eq_of_forall`: without tasks that hold a permit, all of them are left.
* `Permits.replace?_eq_some`: the effect of a replacement.
* `Permits.supply_capacity_of_pos`: a kind with permits keeps them.
-/

namespace OpenRath

/-- Tasks with states `T`, which hold permits of the kinds `K`, and the permits that are left. -/
structure Permits {T K : Type} [DecidableEq K] (held? : T → Option K) where
  capacity : K → ℕ
  /-- The permits that are left. -/
  value : K → ℕ
  tasks : List T
  balanced : ∀ k, value k + tasks.countP (fun t => held? t = some k) = capacity k

namespace Permits

variable {T K : Type} [DecidableEq K] {held? : T → Option K}

/-- How many permits of a kind a task holds. -/
def holds (held? : T → Option K) (t : T) (k : K) : ℕ := if held? t = some k then 1 else 0

/-- The permits that are left when the state of a task is replaced. -/
def left (value : K → ℕ) (held? : T → Option K) (t t' : T) (k : K) : ℕ :=
  value k + holds held? t k - holds held? t' k

theorem left_balanced (s : Permits held?) {j : ℕ} {t t' : T} (hj : s.tasks[j]? = some t)
    (h : ∀ k ∈ held? t', 0 < s.value k + holds held? t k) (k : K) :
    left s.value held? t t' k + (s.tasks.set j t').countP (fun t => held? t = some k) =
      s.capacity k := by
  have hcount := Pool.countP_set_add hj t' fun t => decide (held? t = some k)
  have hbalanced := s.balanced k
  simp only [decide_eq_true_eq] at hcount
  rw [left]
  by_cases ht' : held? t' = some k
  · have hpos := h k ht'
    rw [holds, holds, if_pos ht'] at *
    omega
  · rw [holds, holds, if_neg ht'] at *
    omega

/-- The state of a task is replaced, if there is a permit for the new one. -/
def replace? (s : Permits held?) (j : ℕ) (t' : T) : Option (Permits held?) :=
  match hj : s.tasks[j]? with
  | none => none
  | some t =>
    if h : ∀ k ∈ held? t', 0 < s.value k + holds held? t k then
      some ⟨s.capacity, left s.value held? t t', s.tasks.set j t', s.left_balanced hj h⟩
    else none

/-- The effect of a replacement. -/
theorem replace?_eq_some {s s' : Permits held?} {j : ℕ} {t' : T} (h : s.replace? j t' = some s') :
    s'.capacity = s.capacity ∧ s'.tasks = s.tasks.set j t' := by
  unfold replace? at h
  split at h
  · cases h
  · split_ifs at h
    cases h
    exact ⟨rfl, rfl⟩

/-- What the old state and the new one have in common stays as it is. -/
theorem map_tasks_of_replace? {α : Type} {f : T → α} {s s' : Permits held?} {j : ℕ} {t t' : T}
    (hj : s.tasks[j]? = some t) (h : s.replace? j t' = some s') (hf : f t' = f t) :
    s'.tasks.map f = s.tasks.map f := by
  obtain ⟨hlt, hget⟩ := List.getElem?_eq_some_iff.mp hj
  rw [(replace?_eq_some h).2, List.map_set, hf, ← hget, ← List.map_set, List.set_getElem_self]

theorem capacity_eq_zero {s : Permits held?} {k : K} (h : s.capacity k = 0) :
    s.tasks.countP (fun t => held? t = some k) = 0 := by
  have hbalanced := s.balanced k
  omega

theorem supply_balanced (s : Permits held?) {k : K} (n : ℕ) (hk : s.capacity k = 0) (l : K) :
    Function.update s.value k n l + s.tasks.countP (fun t => held? t = some l) =
      Function.update s.capacity k n l := by
  by_cases hl : l = k
  · subst hl
    rw [Function.update_self, Function.update_self, capacity_eq_zero hk]
    omega
  · rw [Function.update_of_ne hl, Function.update_of_ne hl]
    exact s.balanced l

/-- A number of permits of a kind, unless there are some already. -/
def supply (s : Permits held?) (k : K) (n : ℕ) : Permits held? :=
  if hk : s.capacity k = 0 then
    ⟨Function.update s.capacity k n, Function.update s.value k n, s.tasks, s.supply_balanced n hk⟩
  else s

@[simp] theorem supply_tasks (s : Permits held?) (k : K) (n : ℕ) :
    (s.supply k n).tasks = s.tasks := by
  unfold supply
  split_ifs <;> rfl

theorem supply_capacity (s : Permits held?) (k l : K) (n : ℕ) :
    (s.supply k n).capacity l = if l = k ∧ s.capacity k = 0 then n else s.capacity l := by
  unfold supply
  split_ifs with hk hl hl
  · rw [hl.1]
    exact Function.update_self ..
  · exact Function.update_of_ne (fun h => hl ⟨h, hk⟩) ..
  · exact absurd hl.2 hk
  · rfl

/-- A kind with permits keeps them. -/
theorem supply_capacity_of_pos (s : Permits held?) (k : K) (n : ℕ) {l : K}
    (hl : 0 < s.capacity l) : (s.supply k n).capacity l = s.capacity l := by
  rw [supply_capacity, if_neg]
  rintro ⟨rfl, hzero⟩
  omega

/-- There are permits of a kind that has been supplied. -/
theorem supply_capacity_pos (s : Permits held?) (k : K) {n : ℕ} (hn : 0 < n) :
    0 < (s.supply k n).capacity k := by
  rw [supply_capacity]
  split_ifs with hk
  · exact hn
  · exact Nat.pos_of_ne_zero fun hzero => hk ⟨rfl, hzero⟩

/-- No more tasks hold a permit than there are permits. -/
theorem countP_le (s : Permits held?) (k : K) :
    s.tasks.countP (fun t => held? t = some k) ≤ s.capacity k := by
  have hbalanced := s.balanced k
  omega

/-- If no task holds a permit, all of them are left. -/
theorem value_eq_of_forall {s : Permits held?} {k : K} (h : ∀ t ∈ s.tasks, held? t ≠ some k) :
    s.value k = s.capacity k := by
  have hcount : s.tasks.countP (fun t => held? t = some k) = 0 :=
    List.countP_eq_zero.mpr fun t ht => by simpa using h t ht
  have hbalanced := s.balanced k
  omega

end Permits

end OpenRath
