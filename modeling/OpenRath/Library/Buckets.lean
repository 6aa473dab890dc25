import OpenRath.Library.Table
import Mathlib.Data.List.Induction
import Mathlib.Data.List.Sort

/-!
# Buckets

Items arrive one after the other, and each of them that has a key is added to the bucket with this
key. What is in a bucket in the end depends on the items with its key only, in their order: how the
items of different buckets are shuffled makes no difference.

## Main definitions

* `Bucketing`, `Bucketing.step`, `Bucketing.items`: the items of a bucket.

## Main results

* `Bucketing.find?_foldl`: what is in a bucket.
* `Bucketing.mergeSort_foldl`: the buckets in the order of their keys.
-/

namespace OpenRath

/-- How items are added to buckets with keys. -/
structure Bucketing (κ β δ : Type) where
  key : δ → Option κ
  /-- A new bucket. -/
  init : β
  add : β → δ → β

namespace Bucketing

variable {κ β δ : Type} [DecidableEq κ] (B : Bucketing κ β δ)

/-- The buckets after an item. -/
def step (t : Table fun b : κ × β => b.1) (d : δ) : Table fun b : κ × β => b.1 :=
  match B.key d with
  | none => t
  | some k => t.put (k, B.add (((t.find? k).map Prod.snd).getD B.init) d)

/-- The items with a key. -/
def items (ds : List δ) (k : κ) : List δ := ds.filter fun d => B.key d = some k

/-- There is a bucket for each key of an item, with what its items amount to. -/
theorem find?_foldl (ds : List δ) (k : κ) :
    (ds.foldl B.step .empty).find? k =
      if B.items ds k = [] then none else some (k, (B.items ds k).foldl B.add B.init) := by
  induction ds using List.reverseRecOn with
  | nil => rfl
  | append_singleton ds d ih =>
    have hitems : B.items (ds ++ [d]) k =
        B.items ds k ++ if B.key d = some k then [d] else [] := by
      rw [items, items, List.filter_append, List.filter_singleton]
      by_cases hk : B.key d = some k <;> simp [hk]
    rw [List.foldl_concat, step, hitems]
    rcases hkey : B.key d with _ | k'
    · simp [ih]
    · by_cases hk : k' = k
      · subst hk
        have hbucket : (((ds.foldl B.step .empty).find? k').map Prod.snd).getD B.init =
            (B.items ds k').foldl B.add B.init := by
          rw [ih]
          split_ifs with hempty
          · rw [hempty]
            rfl
          · rfl
        rw [if_pos rfl, if_neg (by simp), List.foldl_concat, ← hbucket]
        exact Table.find?_put_self _ _
      · rw [if_neg (fun h => hk (Option.some.inj h)), List.append_nil, ← ih]
        exact Table.find?_put_of_ne _ (Ne.symm hk)

/-- The buckets in the order of their keys. -/
theorem mergeSort_foldl [LinearOrder κ] {ds : List δ} {ks : List κ} (hks : ks.Pairwise (· < ·))
    (hkeys : ∀ k, k ∈ ks ↔ B.items ds k ≠ []) :
    ((ds.foldl B.step .empty).rows.mergeSort fun b b' => b.1 ≤ b'.1) =
      ks.map fun k => (k, (B.items ds k).foldl B.add B.init) := by
  set t := ds.foldl B.step .empty with ht
  set bucket : κ → κ × β := fun k => (k, (B.items ds k).foldl B.add B.init) with hbucket
  have hmem : ∀ b, b ∈ t.rows ↔ b ∈ ks.map bucket := by
    intro b
    have hfind : b ∈ t.rows ↔ t.find? b.1 = some b := by
      rw [Table.find?_eq_some_iff, and_iff_left rfl]
    rw [hfind, ht, B.find?_foldl, List.mem_map]
    constructor
    · split_ifs with hitems
      · exact fun h => nomatch h
      · exact fun h => ⟨b.1, (hkeys b.1).mpr hitems, Option.some.inj h⟩
    · rintro ⟨k, hk, rfl⟩
      rw [if_neg ((hkeys k).mp hk)]
  have hnodup : (ks.map bucket).Nodup :=
    List.Nodup.map (fun k k' h => congrArg Prod.fst h) (hks.imp ne_of_lt)
  have hperm : (t.rows.mergeSort fun b b' => b.1 ≤ b'.1).Perm t.rows := List.mergeSort_perm _ _
  have hsame : t.rows.Perm (ks.map bucket) :=
    (List.perm_ext_iff_of_nodup (List.Nodup.of_map _ t.nodup) hnodup).mpr hmem
  refine @List.Perm.eq_of_pairwise _ (fun b b' => b.1 ≤ b'.1) _ _ ?_ ?_ ?_ (hperm.trans hsame)
  · intro b b' hb hb' hle hge
    exact t.eq_of_key_eq (hperm.mem_iff.mp hb) ((hmem b').mpr hb') (le_antisymm hle hge)
  · simpa using @List.pairwise_mergeSort _ (fun b b' : κ × β => decide (b.1 ≤ b'.1))
      (fun a b c => by simpa using le_trans) (fun a b => by simpa using le_total a.1 b.1) t.rows
  · exact List.pairwise_map.mpr (hks.imp le_of_lt)

end Bucketing

end OpenRath
