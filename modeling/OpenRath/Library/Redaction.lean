import Mathlib.Data.String.Basic
import OpenRath.Library.JsonSorted

/-!
# Redaction of JSON values

A value is redacted by a mark in the place of everything that stands under a key that is hidden, at
any depth. The redacted value, up to the order of its keys, tells exactly the rest: two values have
the same one if and only if they agree off the hidden keys.

## Main definitions

* `Json.redact`.
* `Json.AgreesOff`: two values do not differ but under hidden keys, and in the order of keys.

## Main results

* `sortFields_eq_iff`: when two objects are the same up to the order of their keys.
* `Json.sortKeys_redact_eq_iff`.
* `Json.Finite.redact`: what is redacted can be written where the value can.
-/

namespace OpenRath

/-! ### Objects up to the order of their keys -/

/-- Two objects are the same up to the order of their keys if they have the same keys, with the same
values. -/
theorem sortFields_eq_iff {f g : List (String × Json)} (hf : (f.map Prod.fst).Nodup)
    (hg : (g.map Prod.fst).Nodup) :
    sortFields f = sortFields g ↔ (∀ k, k ∈ f.map Prod.fst ↔ k ∈ g.map Prod.fst) ∧
      ∀ k v w, (k, v) ∈ f → (k, w) ∈ g → v.sortKeys = w.sortKeys := by
  constructor
  · intro h
    refine ⟨fun k => ?_, fun k v w hv hw => ?_⟩
    · rw [← (keys_sortFields f).mem_iff, h, (keys_sortFields g).mem_iff]
    · have hget := (JsonObject.get?_sortFields hf k).symm.trans
        ((congrArg (fun o => JsonObject.get? o k) h).trans (JsonObject.get?_sortFields hg k))
      rw [JsonObject.get?_of_mem hf hv, JsonObject.get?_of_mem hg hw] at hget
      exact Option.some.inj hget
  · rintro ⟨hkeys, hvalues⟩
    have hsub : ∀ {f g : List (String × Json)}, (∀ k, k ∈ f.map Prod.fst → k ∈ g.map Prod.fst) →
        (∀ k v w, (k, v) ∈ f → (k, w) ∈ g → v.sortKeys = w.sortKeys) →
        ∀ x ∈ f.map (fun f => (f.1, f.2.sortKeys)), x ∈ g.map fun f => (f.1, f.2.sortKeys) := by
      intro f g hk hv x hx
      obtain ⟨⟨k, v⟩, hmem, rfl⟩ := List.mem_map.mp hx
      obtain ⟨⟨k', w⟩, hmem', hkk⟩ := List.mem_map.mp (hk k (List.mem_map_of_mem hmem))
      obtain rfl : k' = k := hkk
      exact List.mem_map.mpr ⟨(k', w), hmem', by simp [hv k' v w hmem hmem']⟩
    have hnodup : ∀ {f : List (String × Json)}, (f.map Prod.fst).Nodup →
        (f.map fun f => (f.1, f.2.sortKeys)).Nodup := by
      intro f h
      refine List.Nodup.of_map Prod.fst ?_
      rwa [List.map_map]
    have hperm : (f.map fun f => (f.1, f.2.sortKeys)).Perm (g.map fun f => (f.1, f.2.sortKeys)) :=
      (List.perm_ext_iff_of_nodup (hnodup hf) (hnodup hg)).mpr fun x =>
        ⟨hsub (fun k => (hkeys k).mp) hvalues x,
          hsub (fun k => (hkeys k).mpr) (fun k v w hv hw => (hvalues k w v hw hv).symm) x⟩
    have hsorted : (sortFields f).Perm (sortFields g) :=
      (perm_sortFields f).trans (hperm.trans (perm_sortFields g).symm)
    refine hsorted.eq_of_pairwise ?_ (pairwise_sortFields f) (pairwise_sortFields g)
    -- Fields with the same key are the same, since a key has one value.
    rintro ⟨k, v⟩ ⟨k', w⟩ hv hw hle hge
    obtain rfl : k = k' := le_antisymm (α := String) hle hge
    have hkeysNodup := (keys_sortFields g).nodup_iff.mpr hg
    have hget := JsonObject.get?_of_mem hkeysNodup (hsorted.mem_iff.mp hv)
    rw [JsonObject.get?_of_mem hkeysNodup hw] at hget
    rw [Option.some.inj hget]

/-! ### Redaction -/

section Redaction

variable (hidden : String → Bool) (mark : Json)

mutual

/-- The value with the mark under every key that is hidden. -/
def Json.redact : Json → Json
  | .obj fields => .obj (redactFields fields)
  | .arr items => .arr (redactItems items)
  | v => v

/-- The items of an array, redacted. -/
def redactItems : List Json → List Json
  | [] => []
  | v :: items => v.redact :: redactItems items

/-- The fields of an object, redacted. -/
def redactFields : List (String × Json) → List (String × Json)
  | [] => []
  | (k, v) :: fields => (k, if hidden k then mark else v.redact) :: redactFields fields

end

mutual

/-- Two values do not differ but under hidden keys, and in the order of keys. -/
def Json.AgreesOff : Json → Json → Prop
  | .obj fields, w => ∃ fields', w = .obj fields' ∧
      (∀ k, k ∈ fields.map Prod.fst ↔ k ∈ fields'.map Prod.fst) ∧ FieldsAgreeOff fields fields'
  | .arr items, w => ∃ items', w = .arr items' ∧ ItemsAgreeOff items items'
  | v, w => v = w

/-- The items do not differ but under hidden keys, and in the order of keys. -/
def ItemsAgreeOff : List Json → List Json → Prop
  | [], items' => items' = []
  | v :: items, items' =>
    ∃ w rest, items' = w :: rest ∧ v.AgreesOff w ∧ ItemsAgreeOff items rest

/-- Every field whose key is not hidden agrees with the other object. -/
def FieldsAgreeOff : List (String × Json) → List (String × Json) → Prop
  | [], _ => True
  | (k, v) :: fields, fields' =>
    (hidden k = false → ∀ w, (k, w) ∈ fields' → v.AgreesOff w) ∧ FieldsAgreeOff fields fields'

end

variable {hidden mark}

theorem redactFields_eq (fields : List (String × Json)) :
    redactFields hidden mark fields =
      fields.map fun f => (f.1, if hidden f.1 then mark else Json.redact hidden mark f.2) := by
  induction fields with
  | nil => rfl
  | cons field fields ih => rw [redactFields, ih, List.map_cons]

theorem fieldsAgreeOff_iff {fields fields' : List (String × Json)} :
    FieldsAgreeOff hidden fields fields' ↔ ∀ k v w, hidden k = false → (k, v) ∈ fields →
      (k, w) ∈ fields' → v.AgreesOff hidden w := by
  induction fields with
  | nil => exact iff_of_true trivial fun _ _ _ _ h => absurd h List.not_mem_nil
  | cons field fields ih =>
    obtain ⟨k, v⟩ := field
    rw [FieldsAgreeOff, ih]
    constructor
    · rintro ⟨hfirst, hrest⟩ k' v' w hk hv hw
      rcases List.mem_cons.mp hv with heq | hv
      · cases heq
        exact hfirst hk w hw
      · exact hrest k' v' w hk hv hw
    · intro h
      exact ⟨fun hk w hw => h k v w hk List.mem_cons_self hw,
        fun k' v' w hk hv hw => h k' v' w hk (List.mem_cons_of_mem _ hv) hw⟩

/-- Redaction leaves the keys alone. -/
@[simp] theorem keys_redactFields (fields : List (String × Json)) :
    (redactFields hidden mark fields).map Prod.fst = fields.map Prod.fst := by
  rw [redactFields_eq, List.map_map]
  rfl

mutual

/-- What is redacted has finite numbers and no key twice if the value does. -/
theorem Json.Finite.redact (hmark : mark.Finite) : (v : Json) → v.Finite →
    (Json.redact hidden mark v).Finite
  | .obj fields, h => by
    rw [Json.redact, Json.Finite, keys_redactFields]
    exact ⟨h.1, finiteFields_redact hmark fields h.2⟩
  | .arr items, h => finiteItems_redact hmark items h
  | .null, h | .bool _, h | .int _, h | .float _, h | .str _, h => h

theorem finiteItems_redact (hmark : mark.Finite) : (items : List Json) → FiniteItems items →
    FiniteItems (redactItems hidden mark items)
  | [], h => h
  | v :: items, h => ⟨Json.Finite.redact hmark v h.1, finiteItems_redact hmark items h.2⟩

theorem finiteFields_redact (hmark : mark.Finite) : (fields : List (String × Json)) →
    FiniteFields fields → FiniteFields (redactFields hidden mark fields)
  | [], h => h
  | (k, v) :: fields, h => by
    refine ⟨?_, finiteFields_redact hmark fields h.2⟩
    split
    · exact hmark
    · exact Json.Finite.redact hmark v h.1

end

/-- Objects that are redacted are the same up to the order of their keys if and only if they have
the same keys, with values that agree where the key is not hidden. -/
theorem sortFields_redactFields_eq_iff {f g : List (String × Json)} (hf : (f.map Prod.fst).Nodup)
    (hg : (g.map Prod.fst).Nodup) :
    sortFields (redactFields hidden mark f) = sortFields (redactFields hidden mark g) ↔
      (∀ k, k ∈ f.map Prod.fst ↔ k ∈ g.map Prod.fst) ∧ ∀ k v w, hidden k = false → (k, v) ∈ f →
        (k, w) ∈ g → (Json.redact hidden mark v).sortKeys =
          (Json.redact hidden mark w).sortKeys := by
  rw [sortFields_eq_iff (by rwa [keys_redactFields]) (by rwa [keys_redactFields]),
    keys_redactFields, keys_redactFields]
  refine and_congr_right fun _ => ⟨fun h k v w hk hv hw => ?_, fun h k v w hv hw => ?_⟩
  · refine h k _ _ ?_ ?_
    · rw [redactFields_eq]
      exact List.mem_map.mpr ⟨(k, v), hv, by simp [hk]⟩
    · rw [redactFields_eq]
      exact List.mem_map.mpr ⟨(k, w), hw, by simp [hk]⟩
  · rw [redactFields_eq] at hv hw
    obtain ⟨⟨k₁, v₁⟩, hv₁, heq⟩ := List.mem_map.mp hv
    cases heq
    obtain ⟨⟨k₂, w₁⟩, hw₁, heq⟩ := List.mem_map.mp hw
    obtain ⟨rfl, rfl⟩ := Prod.mk.inj heq
    cases hk : hidden k₂ with
    | true => simp
    | false => simpa [hk] using h k₂ v₁ w₁ hk hv₁ hw₁

mutual

/-- **Redaction.** Two values are the same when they are redacted, up to the order of their keys, if
and only if they agree off the hidden keys. -/
theorem Json.sortKeys_redact_eq_iff : (v w : Json) → v.Finite → w.Finite →
    ((Json.redact hidden mark v).sortKeys = (Json.redact hidden mark w).sortKeys ↔
      v.AgreesOff hidden w)
  | .obj fields, w, hv, hw => by
    rw [Json.AgreesOff, Json.redact, Json.sortKeys]
    cases w with
    | obj fields' =>
      rw [Json.redact, Json.sortKeys, Json.obj.injEq, sortFields_redactFields_eq_iff hv.1 hw.1]
      have hfields := forall_sortKeys_redact_eq_iff fields hv.2
      constructor
      · rintro ⟨hkeys, hvalues⟩
        exact ⟨fields', rfl, hkeys, fieldsAgreeOff_iff.mpr fun k v w hk hmem hmem' =>
          (hfields k v hmem w (finiteFields_iff.mp hw.2 _ hmem')).mp
            (hvalues k v w hk hmem hmem')⟩
      · rintro ⟨_, heq, hkeys, hagree⟩
        cases heq
        exact ⟨hkeys, fun k v w hk hmem hmem' =>
          (hfields k v hmem w (finiteFields_iff.mp hw.2 _ hmem')).mpr
            (fieldsAgreeOff_iff.mp hagree k v w hk hmem hmem')⟩
    | null | bool | int | float | str | arr =>
      simp [Json.redact, Json.sortKeys]
  | .arr items, w, hv, hw => by
    rw [Json.AgreesOff, Json.redact, Json.sortKeys]
    cases w with
    | arr items' =>
      rw [Json.redact, Json.sortKeys, Json.arr.injEq,
        sortItems_redactItems_eq_iff items items' hv hw]
      constructor
      · exact fun h => ⟨items', rfl, h⟩
      · rintro ⟨_, heq, h⟩
        cases heq
        exact h
    | null | bool | int | float | str | obj =>
      simp [Json.redact, Json.sortKeys]
  | .null, w, _, _ | .bool _, w, _, _ | .int _, w, _, _ | .float _, w, _, _ | .str _, w, _, _ => by
    rw [Json.AgreesOff]
    · cases w <;> simp [Json.redact, Json.sortKeys]
    · rintro _ ⟨⟩
    · rintro _ ⟨⟩
termination_by structural v => v

theorem sortItems_redactItems_eq_iff : (items items' : List Json) → FiniteItems items →
    FiniteItems items' →
    (sortItems (redactItems hidden mark items) = sortItems (redactItems hidden mark items') ↔
      ItemsAgreeOff hidden items items')
  | [], [], _, _ => by simp [ItemsAgreeOff, redactItems]
  | [], _ :: _, _, _ => by simp [ItemsAgreeOff, redactItems, sortItems]
  | _ :: _, [], _, _ => by simp [ItemsAgreeOff, redactItems, sortItems]
  | v :: items, w :: items', hv, hw => by
    rw [ItemsAgreeOff, redactItems, redactItems, sortItems, sortItems, List.cons.injEq,
      Json.sortKeys_redact_eq_iff v w hv.1 hw.1,
      sortItems_redactItems_eq_iff items items' hv.2 hw.2]
    constructor
    · exact fun h => ⟨w, items', rfl, h⟩
    · rintro ⟨_, _, heq, h⟩
      cases heq
      exact h
termination_by structural items => items

theorem forall_sortKeys_redact_eq_iff : (fields : List (String × Json)) → FiniteFields fields →
    ∀ k v, (k, v) ∈ fields → ∀ w : Json, w.Finite →
      ((Json.redact hidden mark v).sortKeys = (Json.redact hidden mark w).sortKeys ↔
        v.AgreesOff hidden w)
  | [], _, _, _, h, _, _ => absurd h List.not_mem_nil
  | (k, v) :: fields, hfinite, k', v', h, w, hw => by
    rcases List.mem_cons.mp h with heq | h
    · rw [show v' = v from congrArg Prod.snd heq]
      exact Json.sortKeys_redact_eq_iff v w hfinite.1 hw
    · exact forall_sortKeys_redact_eq_iff fields hfinite.2 k' v' h w hw
termination_by structural fields => fields

end

end Redaction

end OpenRath
