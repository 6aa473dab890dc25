import OpenRath.Library.Numbered
import OpenRath.Library.Table

/-!
# Two tables side by side

Two tables are coupled when their rows stand side by side, each row of the one related to the row of
the other. The keys need not be the same, but a key of the one belongs to one key of the other, so
that queries and updates by corresponding conditions find and change corresponding rows.

## Main definitions

* `Coupled`.

## Main results

* `Coupled.key_eq_iff`, `Coupled.find?_left`, `Coupled.find?_right`: keys that correspond.
* `Coupled.find?_eq`, `Coupled.map_filter_eq`: queries.
* `Coupled.update`, `Coupled.insert`: statements that write.
-/

namespace OpenRath

variable {κ κ' ρ ρ' α : Type} {key : ρ → κ} {key' : ρ' → κ'}

/-- The rows of two tables stand side by side and are related. -/
structure Coupled (R : ρ → ρ' → Prop) (t : Table key) (t' : Table key') (pairs : List (ρ × ρ')) :
    Prop where
  left : t.rows = pairs.map Prod.fst
  right : t'.rows = pairs.map Prod.snd
  related : ∀ p ∈ pairs, R p.1 p.2

namespace Coupled

variable {R R' : ρ → ρ' → Prop} {t : Table key} {t' : Table key'} {pairs : List (ρ × ρ')}

theorem empty : Coupled R (Table.empty : Table key) (Table.empty : Table key') [] :=
  ⟨rfl, rfl, fun _ h => absurd h List.not_mem_nil⟩

theorem mem_left (h : Coupled R t t' pairs) {p : ρ × ρ'} (hp : p ∈ pairs) : p.1 ∈ t.rows := by
  rw [h.left]
  exact List.mem_map_of_mem hp

theorem mem_right (h : Coupled R t t' pairs) {p : ρ × ρ'} (hp : p ∈ pairs) : p.2 ∈ t'.rows := by
  rw [h.right]
  exact List.mem_map_of_mem hp

theorem find?_left [DecidableEq κ] (h : Coupled R t t' pairs) {p : ρ × ρ'} (hp : p ∈ pairs) :
    t.find? (key p.1) = some p.1 :=
  Table.find?_of_mem (h.mem_left hp)

theorem find?_right [DecidableEq κ'] (h : Coupled R t t' pairs) {p : ρ × ρ'} (hp : p ∈ pairs) :
    t'.find? (key' p.2) = some p.2 :=
  Table.find?_of_mem (h.mem_right hp)

theorem key_eq_iff_eq (h : Coupled R t t' pairs) {p q : ρ × ρ'} (hp : p ∈ pairs) (hq : q ∈ pairs) :
    key p.1 = key q.1 ↔ p = q := by
  have hnodup := t.nodup
  rw [h.left, List.map_map] at hnodup
  exact ⟨fun heq => List.inj_on_of_nodup_map hnodup hp hq heq, fun heq => heq ▸ rfl⟩

theorem key_eq_iff_eq' (h : Coupled R t t' pairs) {p q : ρ × ρ'} (hp : p ∈ pairs)
    (hq : q ∈ pairs) : key' p.2 = key' q.2 ↔ p = q := by
  have hnodup := t'.nodup
  rw [h.right, List.map_map] at hnodup
  exact ⟨fun heq => List.inj_on_of_nodup_map hnodup hp hq heq, fun heq => heq ▸ rfl⟩

/-- A key of the one table belongs to one key of the other. -/
theorem key_eq_iff (h : Coupled R t t' pairs) {p q : ρ × ρ'} (hp : p ∈ pairs) (hq : q ∈ pairs) :
    key p.1 = key q.1 ↔ key' p.2 = key' q.2 :=
  (h.key_eq_iff_eq hp hq).trans (h.key_eq_iff_eq' hp hq).symm

variable {P : ρ → Prop} {P' : ρ' → Prop} [DecidablePred P] [DecidablePred P']

/-- Queries for the first row with a condition. -/
theorem find?_eq (h : Coupled R t t' pairs) (P : ρ → Prop) (P' : ρ' → Prop) [DecidablePred P]
    [DecidablePred P'] (hP : ∀ p ∈ pairs, P p.1 ↔ P' p.2) :
    t.rows.find? (fun r => P r) = (pairs.find? fun p => P p.1).map Prod.fst ∧
      t'.rows.find? (fun r => P' r) = (pairs.find? fun p => P p.1).map Prod.snd := by
  have hright : pairs.find? (fun p => P' p.2) = pairs.find? fun p => P p.1 := by
    rw [← List.head?_filter, ← List.head?_filter]
    exact congrArg List.head? (List.filter_congr fun p hp => decide_eq_decide.mpr (hP p hp).symm)
  rw [h.left, h.right, List.find?_map, List.find?_map, ← hright]
  refine ⟨?_, rfl⟩
  rw [hright]
  rfl

/-- Queries for a column of the rows with a condition. -/
theorem map_filter_eq (h : Coupled R t t' pairs) (P : ρ → Prop) (P' : ρ' → Prop) [DecidablePred P]
    [DecidablePred P'] (f : ρ → α) (g : ρ' → α) (hP : ∀ p ∈ pairs, P p.1 ↔ P' p.2)
    (hfg : ∀ p ∈ pairs, f p.1 = g p.2) :
    (t.rows.filter fun r => P r).map f = (t'.rows.filter fun r => P' r).map g := by
  have hright : pairs.filter (fun p => P' p.2) = pairs.filter fun p => P p.1 :=
    List.filter_congr fun p hp => decide_eq_decide.mpr (hP p hp).symm
  rw [h.left, h.right, List.filter_map, List.filter_map, List.map_map, List.map_map]
  calc (pairs.filter fun p => P p.1).map (f ∘ Prod.fst)
    _ = (pairs.filter fun p => P p.1).map (g ∘ Prod.snd) :=
      List.map_congr_left fun p hp => hfg p (List.mem_filter.mp hp).1
    _ = _ := by rw [← hright]; rfl

/-- Updates of rows that correspond. -/
theorem update (h : Coupled R t t' pairs) (hP : ∀ p ∈ pairs, P p.1 ↔ P' p.2) {f : ρ → ρ}
    {f' : ρ' → ρ'} {hf : ∀ r, key (f r) = key r} {hf' : ∀ r, key' (f' r) = key' r}
    (hR : ∀ p ∈ pairs, P p.1 → R' (f p.1) (f' p.2)) (hkeep : ∀ p ∈ pairs, ¬ P p.1 → R' p.1 p.2) :
    Coupled R' (t.update P f hf) (t'.update P' f' hf')
      (pairs.map fun p => if P p.1 then (f p.1, f' p.2) else p) := by
  refine ⟨?_, ?_, fun q hq => ?_⟩
  · rw [Table.update_rows, h.left, List.map_map, List.map_map]
    refine List.map_congr_left fun p _ => ?_
    rw [Function.comp_apply, Function.comp_apply]
    split_ifs <;> rfl
  · rw [Table.update_rows, h.right, List.map_map, List.map_map]
    refine List.map_congr_left fun p hp => ?_
    rw [Function.comp_apply, Function.comp_apply, ← if_congr (hP p hp) rfl rfl]
    split_ifs <;> rfl
  · obtain ⟨p, hp, rfl⟩ := List.mem_map.mp hq
    split_ifs with hcond
    · exact hR p hp hcond
    · exact hkeep p hp hcond

theorem mem_update {p : ρ × ρ'} (hp : p ∈ pairs) (hcond : P p.1) (f : ρ → ρ) (f' : ρ' → ρ') :
    (f p.1, f' p.2) ∈ pairs.map fun p => if P p.1 then (f p.1, f' p.2) else p :=
  List.mem_map.mpr ⟨p, hp, if_pos hcond⟩

/-- Insertions of rows that are related. -/
theorem insert [DecidableEq κ] [DecidableEq κ'] (h : Coupled R t t' pairs) {r : ρ} {r' : ρ'}
    {u : Table key} {u' : Table key'}
    (hu : t.insert? r = some u) (hu' : t'.insert? r' = some u') (hR : R r r') :
    Coupled R u u' (pairs ++ [(r, r')]) := by
  refine ⟨?_, ?_, fun p hp => ?_⟩
  · rw [Table.insert?_rows hu, h.left, List.map_append, List.map_singleton]
  · rw [Table.insert?_rows hu', h.right, List.map_append, List.map_singleton]
  · rcases List.mem_append.mp hp with hp | hp
    · exact h.related p hp
    · rw [List.mem_singleton.mp hp]
      exact hR

/-- Rows with keys that no row has can be inserted. -/
theorem exists_insert [DecidableEq κ] [DecidableEq κ'] (h : Coupled R t t' pairs) {r : ρ} {r' : ρ'}
    (hfresh : ∀ p ∈ pairs, key p.1 ≠ key r) (hfresh' : ∀ p ∈ pairs, key' p.2 ≠ key' r')
    (hR : R r r') : ∃ u u', t.insert? r = some u ∧ t'.insert? r' = some u' ∧
      Coupled R u u' (pairs ++ [(r, r')]) := by
  have hne : t.insert? r ≠ none := by
    intro hnone
    obtain ⟨a, ha⟩ := Table.exists_find?_iff.mp (Table.insert?_eq_none_iff.mp hnone) |>
      List.mem_map.mp
    rw [h.left] at ha
    obtain ⟨p, hp, rfl⟩ := List.mem_map.mp ha.1
    exact hfresh p hp ha.2
  have hne' : t'.insert? r' ≠ none := by
    intro hnone
    obtain ⟨a, ha⟩ := Table.exists_find?_iff.mp (Table.insert?_eq_none_iff.mp hnone) |>
      List.mem_map.mp
    rw [h.right] at ha
    obtain ⟨p, hp, rfl⟩ := List.mem_map.mp ha.1
    exact hfresh' p hp ha.2
  obtain ⟨u, hu⟩ := Option.ne_none_iff_exists'.mp hne
  obtain ⟨u', hu'⟩ := Option.ne_none_iff_exists'.mp hne'
  exact ⟨u, u', hu, hu', h.insert hu hu' hR⟩

end Coupled

end OpenRath
