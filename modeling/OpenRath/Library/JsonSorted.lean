import Mathlib.Data.List.Sort
import Mathlib.Data.String.Basic
import OpenRath.Library.JsonObject
import OpenRath.Library.JsonRoundTrip

/-!
# JSON texts with sorted keys

The text that `json.dumps(value, ensure_ascii=False, sort_keys=True)` writes, with any white space
behind the separators, and what is read from it: the value, with the keys of its objects in order.
Mappings are the same if they are so with their keys in order.

An integer is not written if it has more digits than Python turns into a text.

## Main definitions

* `Json.sortKeys`, `sortFields`.
* `Json.Finite`, `Json.isWritable`, `dumpsSorted`.

## Main results

* `Json.sortKeys_sortKeys`: keys that have been put in order are in order.
* `Json.Finite.eqValue_self`: a value with finite numbers is equal to itself.
* `loads_dumpsSorted`: a value is read as it was written.
* `JsonObject.get?_sortFields`: the fields of an object with its keys in order.
-/

namespace OpenRath

/-! ### Sorted keys -/

/-- The keys of two fields are in order. -/
def fieldLe (f g : String × Json) : Prop := f.1 ≤ g.1

instance : DecidableRel fieldLe := fun f g => inferInstanceAs (Decidable (f.1 ≤ g.1))

mutual

/-- A value whose objects have their keys in order. -/
def Json.sortKeys : Json → Json
  | .arr items => .arr (sortItems items)
  | .obj fields => .obj (sortFields fields)
  | v => v

/-- Items whose objects have their keys in order. -/
def sortItems : List Json → List Json
  | [] => []
  | v :: items => v.sortKeys :: sortItems items

/-- Fields in order, whose objects have their keys in order. -/
def sortFields : List (String × Json) → List (String × Json)
  | [] => []
  | (k, v) :: fields => (sortFields fields).orderedInsert fieldLe (k, v.sortKeys)

end

section Dumps

variable (fl : FloatText) (space : List Char)

mutual

/-- Every integer of the value has a text. -/
def Json.isWritable : Json → Bool
  | .int n => (dumpsInt n).countP Char.isDigit ≤ 4300
  | .arr items => writableItems items
  | .obj fields => writableFields fields
  | .null | .bool _ | .float _ | .str _ => true

/-- Every integer of the items has a text. -/
def writableItems : List Json → Bool
  | [] => true
  | v :: items => v.isWritable && writableItems items

/-- Every integer of the fields has a text. -/
def writableFields : List (String × Json) → Bool
  | [] => true
  | (_, v) :: fields => v.isWritable && writableFields fields

end

/-- `json.dumps(value, ensure_ascii=False, sort_keys=True, separators=("," + space, ":" + space))`,
without its `ValueError`. -/
def dumpsSorted (v : Json) : Option (List Char) :=
  if v.isWritable then some (dumpsSpaced fl space v.sortKeys) else none

theorem writableItems_eq_true {items : List Json} (h : ∀ v ∈ items, v.isWritable = true) :
    writableItems items = true := by
  induction items with
  | nil => rfl
  | cons v items ih =>
    obtain ⟨hv, hitems⟩ := List.forall_mem_cons.mp h
    rw [writableItems, hv, ih hitems, Bool.and_self]

end Dumps

/-! ### The fields of an object with its keys in order -/

theorem perm_sortFields (fields : List (String × Json)) :
    (sortFields fields).Perm (fields.map fun f => (f.1, f.2.sortKeys)) := by
  induction fields with
  | nil => exact .refl []
  | cons field fields ih =>
    rw [sortFields, List.map_cons]
    exact (List.perm_orderedInsert fieldLe _ _).trans (ih.cons _)

theorem keys_sortFields (fields : List (String × Json)) :
    ((sortFields fields).map Prod.fst).Perm (fields.map Prod.fst) := by
  have hperm := (perm_sortFields fields).map Prod.fst
  rwa [List.map_map] at hperm

/-- The value of a key of an object with its keys in order. -/
theorem JsonObject.get?_sortFields {o : JsonObject} (h : (o.map Prod.fst).Nodup) (k : String) :
    JsonObject.get? (sortFields o) k = (o.get? k).map Json.sortKeys := by
  have hnodup := (keys_sortFields o).nodup_iff.mpr h
  by_cases hk : k ∈ o.map Prod.fst
  · obtain ⟨⟨k, v⟩, hv, rfl⟩ := List.mem_map.mp hk
    have hsorted : (k, v.sortKeys) ∈ sortFields o :=
      (perm_sortFields o).mem_iff.mpr (List.mem_map.mpr ⟨(k, v), hv, rfl⟩)
    rw [get?_of_mem h hv, get?_of_mem hnodup hsorted, Option.map_some]
  · have hsorted : k ∉ (sortFields o).map Prod.fst :=
      fun hmem => hk ((keys_sortFields o).mem_iff.mp hmem)
    rw [get?_of_not_mem hk, get?_of_not_mem hsorted, Option.map_none]

/-! ### Keys that are in order -/

instance : IsTrans (String × Json) fieldLe :=
  ⟨fun f g k (h : f.1 ≤ g.1) (h' : g.1 ≤ k.1) => le_trans h h'⟩

instance : Std.Total fieldLe := ⟨fun f g => le_total f.1 g.1⟩

theorem pairwise_sortFields (fields : List (String × Json)) :
    (sortFields fields).Pairwise fieldLe := by
  induction fields with
  | nil => exact .nil
  | cons field fields ih =>
    rw [sortFields]
    exact ih.orderedInsert _ _

/-- Fields that are in order stay as they are. -/
theorem sortFields_eq_self {fields : List (String × Json)} (h : fields.Pairwise fieldLe)
    (hsorted : ∀ f ∈ fields, f.2.sortKeys = f.2) : sortFields fields = fields := by
  induction fields with
  | nil => rfl
  | cons field fields ih =>
    obtain ⟨hle, h⟩ := List.pairwise_cons.mp h
    obtain ⟨hfield, hfields⟩ := List.forall_mem_cons.mp hsorted
    rw [sortFields, hfield, ih h hfields]
    rcases fields with _ | ⟨g, fields⟩
    · rfl
    · exact List.orderedInsert_cons_of_le fieldLe fields (hle g List.mem_cons_self)

mutual

/-- Keys that have been put in order are in order. -/
theorem Json.sortKeys_sortKeys : (v : Json) → v.sortKeys.sortKeys = v.sortKeys
  | .arr items => congrArg Json.arr (sortItems_sortItems items)
  | .obj fields => congrArg Json.obj
    (sortFields_eq_self (pairwise_sortFields fields) (sortKeys_of_mem_sortFields fields))
  | .null | .bool _ | .int _ | .float _ | .str _ => rfl

theorem sortItems_sortItems : (items : List Json) → sortItems (sortItems items) = sortItems items
  | [] => rfl
  | v :: items => congrArg₂ List.cons (Json.sortKeys_sortKeys v) (sortItems_sortItems items)

theorem sortKeys_of_mem_sortFields : (fields : List (String × Json)) →
    ∀ f ∈ sortFields fields, f.2.sortKeys = f.2
  | [], _, h => absurd h List.not_mem_nil
  | (k, v) :: fields, f, h => by
    rcases (List.mem_orderedInsert fieldLe).mp h with rfl | h
    · exact Json.sortKeys_sortKeys v
    · exact sortKeys_of_mem_sortFields fields f h

end

/-! ### Reading -/

section Finite

mutual

/-- The value has no floating-point numbers but finite ones, and no object of it a key twice. -/
def Json.Finite : Json → Prop
  | .float bits => (doubleValue bits).isSome = true
  | .arr items => FiniteItems items
  | .obj fields => (fields.map Prod.fst).Nodup ∧ FiniteFields fields
  | .null | .bool _ | .int _ | .str _ => True

/-- The items have no floating-point numbers but finite ones. -/
def FiniteItems : List Json → Prop
  | [] => True
  | v :: items => v.Finite ∧ FiniteItems items

/-- The fields have no floating-point numbers but finite ones. -/
def FiniteFields : List (String × Json) → Prop
  | [] => True
  | (_, v) :: fields => v.Finite ∧ FiniteFields fields

end

theorem finiteFields_iff {fields : List (String × Json)} :
    FiniteFields fields ↔ ∀ f ∈ fields, f.2.Finite := by
  induction fields with
  | nil => exact iff_of_true trivial fun _ h => absurd h List.not_mem_nil
  | cons field fields ih => rw [FiniteFields, List.forall_mem_cons, ih]

mutual

theorem Json.Finite.sortKeys : (v : Json) → v.Finite → v.sortKeys.Finite
  | .arr items, h => finiteItems_sortItems items h
  | .obj fields, h =>
    ⟨(keys_sortFields fields).nodup_iff.mpr h.1,
      finiteFields_iff.mpr (finite_of_mem_sortFields fields h.2)⟩
  | .null, h | .bool _, h | .int _, h | .float _, h | .str _, h => h

theorem finiteItems_sortItems : (items : List Json) → FiniteItems items →
    FiniteItems (sortItems items)
  | [], h => h
  | v :: items, h => ⟨Json.Finite.sortKeys v h.1, finiteItems_sortItems items h.2⟩

theorem finite_of_mem_sortFields : (fields : List (String × Json)) → FiniteFields fields →
    ∀ f ∈ sortFields fields, f.2.Finite
  | [], _, _, h => absurd h List.not_mem_nil
  | (k, v) :: fields, hv, f, h => by
    rcases (List.mem_orderedInsert fieldLe).mp h with rfl | h
    · exact Json.Finite.sortKeys v hv.1
    · exact finite_of_mem_sortFields fields hv.2 f h

end

mutual

/-- A value with finite numbers is equal to itself. -/
theorem Json.Finite.eqValue_self : (v : Json) → v.Finite → Json.eqValue false v v = true
  | .null, _ => rfl
  | .bool b, _ => by simp [Json.eqValue, Json.number?]
  | .int n, _ => by simp [Json.eqValue, Json.number?]
  | .str s, _ => by simp [Json.eqValue]
  | .float bits, h => by
    obtain ⟨q, hq⟩ := Option.isSome_iff_exists.mp h
    simp [Json.eqValue, hq]
  | .arr items, h => eqItems_self items h
  | .obj fields, h => eqFields_self fields h.2

theorem eqItems_self : (items : List Json) → FiniteItems items →
    Json.eqItems false items items = true
  | [], _ => rfl
  | v :: items, h => by
    rw [Json.eqItems, Json.Finite.eqValue_self v h.1, eqItems_self items h.2, Bool.and_self]

theorem eqFields_self : (fields : List (String × Json)) → FiniteFields fields →
    Json.eqFields false fields fields = true
  | [], _ => rfl
  | (k, v) :: fields, h => by
    rw [Json.eqFields, Json.Finite.eqValue_self v h.1, eqFields_self fields h.2]
    simp

end

variable {fl : FloatText}

mutual

/-- A value is read as it was written if its floating-point numbers are finite and its integers have
texts. -/
theorem Json.Finite.loadable
    (hfl : ∀ bits, (doubleValue bits).isSome = true → fl.Survives bits) : (v : Json) →
    v.Finite → v.isWritable = true → v.Loadable fl
  | .null, _, _ | .bool _, _, _ | .str _, _, _ => trivial
  | .int _, _, hw => by simpa [Json.isWritable, Json.Loadable] using hw
  | .float bits, hv, _ => hfl bits hv
  | .arr items, hv, hw => loadableItems_of_finite hfl items hv hw
  | .obj fields, hv, hw => ⟨hv.1, loadableFields_of_finite hfl fields hv.2 hw⟩

theorem loadableItems_of_finite
    (hfl : ∀ bits, (doubleValue bits).isSome = true → fl.Survives bits) :
    (items : List Json) → FiniteItems items →
    writableItems items = true → LoadableItems fl items
  | [], _, _ => trivial
  | v :: items, hv, hw => by
    rw [writableItems, Bool.and_eq_true] at hw
    exact ⟨Json.Finite.loadable hfl v hv.1 hw.1, loadableItems_of_finite hfl items hv.2 hw.2⟩

theorem loadableFields_of_finite
    (hfl : ∀ bits, (doubleValue bits).isSome = true → fl.Survives bits) :
    (fields : List (String × Json)) → FiniteFields fields →
    writableFields fields = true → LoadableFields fl fields
  | [], _, _ => trivial
  | (_, v) :: fields, hv, hw => by
    rw [writableFields, Bool.and_eq_true] at hw
    exact ⟨Json.Finite.loadable hfl v hv.1 hw.1, loadableFields_of_finite hfl fields hv.2 hw.2⟩

end

end Finite

section RoundTrip

variable (fl : FloatText)

theorem loadableFields_iff {fields : List (String × Json)} :
    LoadableFields fl fields ↔ ∀ f ∈ fields, f.2.Loadable fl := by
  induction fields with
  | nil => exact iff_of_true trivial fun _ h => absurd h List.not_mem_nil
  | cons field fields ih => rw [LoadableFields, List.forall_mem_cons, ih]

mutual

/-- A value is still read as it was written when its keys are put in order. -/
theorem Json.Loadable.sortKeys : (v : Json) → v.Loadable fl → v.sortKeys.Loadable fl
  | .arr items, h => loadableItems_sortItems items h
  | .obj fields, h =>
    ⟨(keys_sortFields fields).nodup_iff.mpr h.1, loadableFields_sortFields fields h.2⟩
  | .null, h | .bool _, h | .int _, h | .float _, h | .str _, h => h

theorem loadableItems_sortItems : (items : List Json) → LoadableItems fl items →
    LoadableItems fl (sortItems items)
  | [], h => h
  | v :: items, h => ⟨Json.Loadable.sortKeys v h.1, loadableItems_sortItems items h.2⟩

theorem loadableFields_sortFields : (fields : List (String × Json)) → LoadableFields fl fields →
    LoadableFields fl (sortFields fields)
  | [], h => h
  | (k, v) :: fields, h => by
    have hrest := (loadableFields_iff fl).mp (loadableFields_sortFields fields h.2)
    refine (loadableFields_iff fl).mpr fun f hf => ?_
    rcases (List.mem_orderedInsert fieldLe).mp hf with rfl | hf
    · exact Json.Loadable.sortKeys v h.1
    · exact hrest f hf

end

variable {fl}

/-- What is written with sorted keys is read with them in order. -/
theorem loads_dumpsSorted {space : List Char} (hspaces : ∀ c ∈ space, isJsonSpace c = true)
    (hfl : ∀ bits, (doubleValue bits).isSome = true → fl.Survives bits) {v : Json}
    (hv : v.Finite) {t : List Char} (h : dumpsSorted fl space v = some t) :
    loads fl t = .ok v.sortKeys := by
  rw [dumpsSorted] at h
  split_ifs at h with hw
  cases h
  exact loads_dumpsSpaced fl hspaces (Json.Loadable.sortKeys fl v
    (Json.Finite.loadable hfl v hv hw))

end RoundTrip

end OpenRath
