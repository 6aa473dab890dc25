import OpenRath.Library.JsonText

/-!
# Objects

An object is a list of fields. A field is found by its key, the first one if the key occurs more
than once, and an object can have a field put into it or taken out of it.

## Main definitions

* `JsonObject.erase`, `JsonObject.getD`.

## Main results

* `JsonObject.get?_of_mem`, `JsonObject.get?_insert_self`, `JsonObject.get?_erase_self`: what is
  found in an object.
* `JsonObject.erase_insert`, `JsonObject.erase_erase`: a field that is taken out.
-/

namespace OpenRath

namespace JsonObject

/-- The object without a field. -/
def erase (o : JsonObject) (k : String) : JsonObject := o.filter fun f => f.1 ≠ k

/-- The value of a key for which `get` is called. -/
def getD (o : JsonObject) (key : String) : Json := (o.get? key).getD .null

theorem get?_append (o o' : JsonObject) (k : String) :
    JsonObject.get? (o ++ o') k = (o.get? k).or (o'.get? k) := by
  rw [JsonObject.get?, JsonObject.get?, JsonObject.get?, List.find?_append]
  cases o.find? fun f => f.1 = k <;> rfl

theorem get?_of_not_mem {o : JsonObject} {k : String} (h : k ∉ o.map Prod.fst) :
    o.get? k = none := by
  rw [JsonObject.get?, Option.map_eq_none_iff, List.find?_eq_none]
  intro f hf hk
  exact h (List.mem_map.mpr ⟨f, hf, by simpa using hk⟩)

theorem get?_singleton (k : String) (v : Json) (l : String) :
    JsonObject.get? [(k, v)] l = if k = l then some v else none := by
  by_cases h : k = l <;> simp [JsonObject.get?, h]

theorem get?_erase_self (o : JsonObject) (k : String) : (o.erase k).get? k = none := by
  have hnone : (o.erase k).find? (fun f => f.1 = k) = none := by
    refine List.find?_eq_none.mpr fun f hf => ?_
    simpa using (List.mem_filter.mp hf).2
  rw [JsonObject.get?, hnone]
  rfl

theorem get?_insert_self (o : JsonObject) (k : String) (v : Json) :
    (o.insert k v).get? k = some v := by
  rw [JsonObject.insert]
  split_ifs with hmem
  · induction o with
    | nil => cases hmem
    | cons f o ih =>
      rw [List.map_cons]
      by_cases hf : f.1 = k
      · simp [JsonObject.get?, hf]
      · have hmem' : k ∈ o.map Prod.fst :=
          (List.mem_cons.mp hmem).resolve_left (Ne.symm hf)
        have hrest := ih hmem'
        rw [JsonObject.get?] at hrest ⊢
        rw [if_neg hf, List.find?_cons_of_neg (by simpa using hf)]
        exact hrest
  · have hnone : o.get? k = none := get?_of_not_mem hmem
    rw [get?_append, hnone, get?_singleton, if_pos rfl]
    rfl

theorem erase_insert (o : JsonObject) (k : String) (v : Json) :
    (o.insert k v).erase k = o.erase k := by
  have hmap : ∀ l : JsonObject,
      JsonObject.erase (l.map fun f => if f.1 = k then (k, v) else f) k = l.erase k := by
    intro l
    induction l with
    | nil => rfl
    | cons f l ih =>
      rw [JsonObject.erase, JsonObject.erase] at ih ⊢
      by_cases hf : f.1 = k
      · simpa [hf] using ih
      · simpa [hf] using ih
  rw [JsonObject.insert]
  split_ifs
  · exact hmap o
  · simp [JsonObject.erase]

theorem erase_erase (o : JsonObject) (k : String) : (o.erase k).erase k = o.erase k := by
  rw [JsonObject.erase, JsonObject.erase, List.filter_filter]
  simp

theorem get?_of_mem {o : JsonObject} (hnodup : (o.map Prod.fst).Nodup) {k : String} {v : Json}
    (h : (k, v) ∈ o) : o.get? k = some v := by
  induction o with
  | nil => cases h
  | cons f o ih =>
    rw [List.map_cons, List.nodup_cons] at hnodup
    rcases List.mem_cons.mp h with rfl | hmem
    · simp [JsonObject.get?]
    · have hne : f.1 ≠ k := fun hf => hnodup.1 (hf ▸ List.mem_map_of_mem hmem)
      have hrest := ih hnodup.2 hmem
      rw [JsonObject.get?] at hrest ⊢
      rwa [List.find?_cons_of_neg (by simpa using hne)]

theorem getD_erase (entry : JsonObject) (k : String) : (entry.erase k).getD k = .null := by
  rw [JsonObject.getD, get?_erase_self]
  rfl

theorem getD_insert (entry : JsonObject) (k : String) (v : Json) :
    (entry.insert k v).getD k = v := by
  rw [JsonObject.getD, get?_insert_self]
  rfl

end JsonObject

end OpenRath
