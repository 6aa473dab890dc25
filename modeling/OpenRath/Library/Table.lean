import Mathlib.Data.List.Nodup
import Mathlib.Data.List.Perm.Basic

/-!
# Tables with a key

A table is a list of rows, in order of insertion, no two of which have the same key. The key is
an arbitrary function of the row, so the primary key of a relation and a key made of several of
its columns are treated alike. Uniqueness is a field of the structure: an insertion that would
break it has no result (`Table.insert?`), and an update has to show that it leaves the key of
every row as it is (`Table.update`).

## Main definitions

* `Table`, `Table.empty`, `Table.find?`, `Table.insert?`, `Table.update`, `Table.rowcount`.

## Main results

* `Table.find?_eq_some_iff`: the row found at a key.
* `Table.find?_insert?`, `Table.find?_update`: the effect of an insertion and of an update on
  every key.
* `Table.rowcount_eq_one_iff`: an update restricted to one key touches a row exactly when the
  row at that key satisfies the condition.
-/

namespace OpenRath

/-- A table with rows `ρ`, in order of insertion, that are told apart by `key`. -/
structure Table {κ ρ : Type} (key : ρ → κ) where
  /-- The rows, the oldest first. -/
  rows : List ρ
  /-- No two rows have the same key. -/
  nodup : (rows.map key).Nodup
deriving DecidableEq

namespace Table

variable {κ ρ : Type} {key : ρ → κ}

/-- The table without rows. -/
def empty : Table key := ⟨[], List.nodup_nil⟩

@[simp] theorem empty_rows : (empty : Table key).rows = [] := rfl

section Find

variable [DecidableEq κ]

/-- The row at a key. -/
def find? (t : Table key) (k : κ) : Option ρ := t.rows.find? fun r => key r = k

@[simp] theorem find?_empty (k : κ) : (empty : Table key).find? k = none := rfl

theorem key_of_find? {t : Table key} {k : κ} {r : ρ} (h : t.find? k = some r) : key r = k := by
  simpa using List.find?_some h

theorem mem_of_find? {t : Table key} {k : κ} {r : ρ} (h : t.find? k = some r) :
    r ∈ t.rows :=
  List.mem_of_find?_eq_some h

omit [DecidableEq κ] in
/-- Rows with the same key are the same row. -/
theorem eq_of_key_eq (t : Table key) {r r' : ρ} (h : r ∈ t.rows) (h' : r' ∈ t.rows)
    (hk : key r = key r') : r = r' :=
  List.inj_on_of_nodup_map t.nodup h h' hk

omit [DecidableEq κ] in
/-- A key among those of some rows is that of one of them. -/
theorem key_mem_map_iff (t : Table key) {rows : List ρ} (hrows : ∀ r ∈ rows, r ∈ t.rows) {r : ρ}
    (hr : r ∈ t.rows) : key r ∈ rows.map key ↔ r ∈ rows := by
  refine ⟨fun h => ?_, fun h => List.mem_map_of_mem h⟩
  obtain ⟨r', hr', hkey⟩ := List.mem_map.mp h
  rwa [← t.eq_of_key_eq (hrows r' hr') hr hkey]

theorem find?_of_mem {t : Table key} {r : ρ} (h : r ∈ t.rows) : t.find? (key r) = some r := by
  rcases hf : t.find? (key r) with _ | r'
  · exact absurd (List.find?_eq_none.mp hf r h) (by simp)
  · exact congrArg some (t.eq_of_key_eq (mem_of_find? hf) h (key_of_find? hf))

theorem find?_eq_some_iff {t : Table key} {k : κ} {r : ρ} :
    t.find? k = some r ↔ r ∈ t.rows ∧ key r = k := by
  constructor
  · intro h
    exact ⟨mem_of_find? h, key_of_find? h⟩
  · rintro ⟨h, rfl⟩
    exact find?_of_mem h

theorem find?_eq_none_iff {t : Table key} {k : κ} :
    t.find? k = none ↔ k ∉ t.rows.map key := by
  simp [find?]

theorem exists_find?_iff {t : Table key} {k : κ} :
    (∃ r, t.find? k = some r) ↔ k ∈ t.rows.map key := by
  simp only [find?_eq_some_iff, List.mem_map]

/-! ### Insertion -/

/-- The table with a further row, unless its key is taken. -/
def insert? (t : Table key) (r : ρ) : Option (Table key) :=
  if h : key r ∈ t.rows.map key then none
  else some ⟨t.rows ++ [r], by
    rw [List.map_append]
    refine t.nodup.append (List.nodup_singleton _) ?_
    simpa [List.disjoint_singleton] using h⟩

theorem insert?_eq_some_iff {t t' : Table key} {r : ρ} :
    t.insert? r = some t' ↔ t.find? (key r) = none ∧ t'.rows = t.rows ++ [r] := by
  rw [find?_eq_none_iff]
  unfold insert?
  split_ifs with h
  · simp [h]
  · simp only [Option.some.injEq, h, not_false_eq_true, true_and]
    constructor
    · rintro rfl
      rfl
    · intro ht
      cases t'
      cases ht
      rfl

theorem insert?_rows {t t' : Table key} {r : ρ} (h : t.insert? r = some t') :
    t'.rows = t.rows ++ [r] := (insert?_eq_some_iff.mp h).2

theorem insert?_eq_none_iff {t : Table key} {r : ρ} :
    t.insert? r = none ↔ ∃ r', t.find? (key r) = some r' := by
  rw [exists_find?_iff]
  unfold insert?
  split_ifs with h <;> simp [h]

/-- An insertion fills its own key and no other. -/
theorem find?_insert? {t t' : Table key} {r : ρ} (h : t.insert? r = some t') (k : κ) :
    t'.find? k = if k = key r then some r else t.find? k := by
  obtain ⟨hnone, hrows⟩ := insert?_eq_some_iff.mp h
  rw [find?, hrows, List.find?_append]
  split_ifs with hk
  · subst hk
    rw [find?] at hnone
    simp [hnone]
  · have hr : ¬ key r = k := fun h => hk h.symm
    simp [find?, hr]

end Find

/-! ### Update -/

section Update

/-- The number of rows that satisfy a condition. -/
def rowcount (t : Table key) (p : ρ → Prop) [DecidablePred p] : ℕ := t.rows.countP p

variable (p : ρ → Prop) [DecidablePred p] (f : ρ → ρ) (hf : ∀ r, key (f r) = key r)

/-- The table in which `f` is applied to every row satisfying `p`; no key changes. -/
def update (t : Table key) : Table key where
  rows := t.rows.map fun r => if p r then f r else r
  nodup := by
    have hmap : (t.rows.map fun r => if p r then f r else r).map key = t.rows.map key := by
      rw [List.map_map]
      refine List.map_congr_left fun r _ => ?_
      by_cases h : p r <;> simp [h, hf]
    rw [hmap]
    exact t.nodup

theorem update_rows (t : Table key) :
    (t.update p f hf).rows = t.rows.map fun r => if p r then f r else r := rfl

variable {p f hf} in
/-- A property of the rows that the update gives to the rows it matches. -/
theorem forall_mem_update {t : Table key} {P : ρ → Prop} (h : ∀ r ∈ t.rows, P r)
    (hpf : ∀ r, p r → P r → P (f r)) : ∀ r ∈ (t.update p f hf).rows, P r := by
  intro r hr
  obtain ⟨r', hr', rfl⟩ := List.mem_map.mp hr
  by_cases hp : p r'
  · rw [if_pos hp]
    exact hpf r' hp (h r' hr')
  · rw [if_neg hp]
    exact h r' hr'

variable [DecidableEq κ]

/-- An update acts on the row at every key separately. -/
theorem find?_update (t : Table key) (k : κ) :
    (t.update p f hf).find? k = (t.find? k).map fun r => if p r then f r else r := by
  rw [find?, find?, update_rows, List.find?_map]
  congr 2
  funext r
  by_cases h : p r <;> simp [h, hf]

/-- An update of the rows at one key leaves every other key as it is. -/
theorem find?_update_of_ne {t : Table key} {k k' : κ} (hp : ∀ r, p r → key r = k)
    (hk : k' ≠ k) : (t.update p f hf).find? k' = t.find? k' := by
  rw [find?_update]
  rcases h : t.find? k' with _ | r
  · rfl
  · have hr : ¬ p r := fun h' => hk ((key_of_find? h).symm.trans (hp r h'))
    simp [hr]

/-- An update of the rows at one key touches exactly one row if the row at that key satisfies
the condition, and none otherwise. -/
theorem rowcount_eq_one_iff {t : Table key} {k : κ} {p : ρ → Prop} [DecidablePred p]
    (hp : ∀ r, p r → key r = k) : t.rowcount p = 1 ↔ ∃ r, t.find? k = some r ∧ p r := by
  have hle : t.rowcount p ≤ 1 := by
    have hcount : t.rowcount p ≤ (t.rows.map key).count k := by
      rw [rowcount, List.count, List.countP_map]
      refine List.countP_mono_left fun r _ h => ?_
      simpa using hp r (by simpa using h)
    exact Nat.le_trans hcount (List.nodup_iff_count_le_one.mp t.nodup k)
  constructor
  · intro h
    have hpos : 0 < t.rowcount p := by omega
    obtain ⟨r, hr, hpr⟩ := List.countP_pos_iff.mp hpos
    have hpr' : p r := by simpa using hpr
    exact ⟨r, find?_eq_some_iff.mpr ⟨hr, hp r hpr'⟩, hpr'⟩
  · rintro ⟨r, hr, hpr⟩
    have hpos : 0 < t.rowcount p :=
      List.countP_pos_iff.mpr ⟨r, mem_of_find? hr, by simpa using hpr⟩
    omega

/-- The first row that satisfies a condition on the rows at one key is the row at that key. -/
theorem rows_find?_eq_some_iff {t : Table key} {k : κ} {p : ρ → Prop} [DecidablePred p]
    (hp : ∀ r, p r → key r = k) {r : ρ} :
    (t.rows.find? fun r => p r) = some r ↔ t.find? k = some r ∧ p r := by
  constructor
  · intro h
    have hpr : p r := by simpa using List.find?_some h
    exact ⟨find?_eq_some_iff.mpr ⟨List.mem_of_find?_eq_some h, hp r hpr⟩, hpr⟩
  · rintro ⟨hr, hpr⟩
    rcases hfind : t.rows.find? fun r => p r with _ | r'
    · exact absurd hpr (by simpa using List.find?_eq_none.mp hfind r (mem_of_find? hr))
    · have hpr' : p r' := by simpa using List.find?_some hfind
      have hkey : key r' = key r := (hp r' hpr').trans (key_of_find? hr).symm
      rw [t.eq_of_key_eq (List.mem_of_find?_eq_some hfind) (mem_of_find? hr) hkey]

end Update

/-! ### Replacement -/

section Replacement

variable [DecidableEq κ]

/-- The table without the row at a key. -/
def erase (t : Table key) (k : κ) : Table key where
  rows := t.rows.filter fun r => key r ≠ k
  nodup := t.nodup.sublist (List.filter_sublist.map key)

/-- The table in which a row takes the place of the one at its key. -/
def put (t : Table key) (r : ρ) : Table key where
  rows := (t.erase (key r)).rows ++ [r]
  nodup := by
    rw [List.map_append]
    refine (t.erase (key r)).nodup.append (List.nodup_singleton _) ?_
    simp [List.disjoint_singleton, erase]

/-- The table in which a row takes the place of the one at its key, where that one stood. -/
def set (t : Table key) (r : ρ) : Table key :=
  if h : key r ∈ t.rows.map key then
    { rows := t.rows.map fun r' => if key r' = key r then r else r'
      nodup := by
        have hmap : (t.rows.map fun r' => if key r' = key r then r else r').map key =
            t.rows.map key := by
          rw [List.map_map]
          refine List.map_congr_left fun r' _ => ?_
          by_cases hr' : key r' = key r <;> simp [hr']
        rw [hmap]
        exact t.nodup }
  else
    { rows := t.rows ++ [r]
      nodup := by
        rw [List.map_append]
        refine t.nodup.append (List.nodup_singleton _) ?_
        simpa [List.disjoint_singleton] using h }

theorem mem_set {t : Table key} {r r' : ρ} :
    r' ∈ (t.set r).rows ↔ (r' ∈ t.rows ∧ key r' ≠ key r) ∨ r' = r := by
  unfold set
  split_ifs with h
  · rw [List.mem_map]
    constructor
    · rintro ⟨r'', hr'', rfl⟩
      by_cases hkey : key r'' = key r
      · rw [if_pos hkey]
        exact Or.inr rfl
      · rw [if_neg hkey]
        exact Or.inl ⟨hr'', hkey⟩
    · rintro (⟨hr', hkey⟩ | rfl)
      · exact ⟨r', hr', if_neg hkey⟩
      · obtain ⟨r'', hr'', hkey⟩ := List.mem_map.mp h
        exact ⟨r'', hr'', if_pos hkey⟩
  · rw [List.mem_append, List.mem_singleton]
    refine or_congr_left ⟨fun hr' => ⟨hr', fun hkey => h ?_⟩, And.left⟩
    rw [← hkey]
    exact List.mem_map_of_mem hr'

theorem mem_erase {t : Table key} {k : κ} {r : ρ} :
    r ∈ (t.erase k).rows ↔ r ∈ t.rows ∧ key r ≠ k := by
  simp [erase]

theorem mem_put {t : Table key} {r r' : ρ} :
    r' ∈ (t.put r).rows ↔ (r' ∈ t.rows ∧ key r' ≠ key r) ∨ r' = r := by
  rw [put, List.mem_append, mem_erase, List.mem_singleton]

/-- A row is put at its own key. -/
theorem find?_put_self (t : Table key) (r : ρ) : (t.put r).find? (key r) = some r :=
  find?_of_mem (mem_put.mpr (Or.inr rfl))

theorem find?_put_of_ne (t : Table key) {r : ρ} {k : κ} (h : k ≠ key r) :
    (t.put r).find? k = t.find? k := by
  refine Option.ext fun r' => ?_
  rw [find?_eq_some_iff, find?_eq_some_iff, mem_put]
  constructor
  · rintro ⟨⟨hr', -⟩ | rfl, hk⟩
    · exact ⟨hr', hk⟩
    · exact absurd hk.symm h
  · rintro ⟨hr', rfl⟩
    exact ⟨Or.inl ⟨hr', h⟩, rfl⟩

/-- Of two rows that are put at a key the second one stays. -/
theorem put_put (t : Table key) {r r' : ρ} (h : key r = key r') : (t.put r).put r' = t.put r' := by
  simp [put, erase, List.filter_append, List.filter_filter, h]

theorem find?_erase_self (t : Table key) (k : κ) : (t.erase k).find? k = none := by
  rw [find?_eq_none_iff, List.mem_map]
  rintro ⟨r, hr, hk⟩
  exact (mem_erase.mp hr).2 hk

/-- Without one of its rows, a table has the others. -/
theorem erase_rows_perm {t : Table key} {r : ρ} {rows : List ρ} (h : t.rows.Perm (r :: rows)) :
    (t.erase (key r)).rows.Perm rows := by
  have hnodup : ((r :: rows).map key).Nodup := (h.map key).nodup_iff.mp t.nodup
  rw [List.map_cons, List.nodup_cons] at hnodup
  have hfilter := h.filter fun r' => decide (key r' ≠ key r)
  rw [List.filter_cons_of_neg (by simp)] at hfilter
  refine hfilter.trans (List.Perm.of_eq (List.filter_eq_self.mpr fun r' hr' => ?_))
  refine decide_eq_true fun hk => hnodup.1 ?_
  rw [← hk]
  exact List.mem_map_of_mem hr'

/-- A row that is put at a key of its own is one more. -/
theorem put_rows_of_not_mem {t : Table key} {r : ρ} (h : key r ∉ t.rows.map key) :
    (t.put r).rows = t.rows ++ [r] := by
  refine congrArg (· ++ [r]) (List.filter_eq_self.mpr fun r' hr' => decide_eq_true fun hk => h ?_)
  rw [← hk]
  exact List.mem_map_of_mem hr'

/-- A row that takes the place of another one is none more. -/
theorem length_put_of_mem {t : Table key} {r : ρ} (h : key r ∈ t.rows.map key) :
    (t.put r).rows.length = t.rows.length := by
  obtain ⟨r', hr', hk⟩ := List.mem_map.mp h
  obtain ⟨before, behind, hsplit⟩ := List.append_of_mem hr'
  have hperm : t.rows.Perm (r' :: (before ++ behind)) := by
    rw [hsplit]
    exact List.perm_middle
  have herase := erase_rows_perm hperm
  rw [hk] at herase
  rw [put, List.length_append, herase.length_eq, hperm.length_eq]
  rfl

end Replacement

end Table

end OpenRath
