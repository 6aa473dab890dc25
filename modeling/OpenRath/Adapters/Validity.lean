import Mathlib.Logic.Relation
import OpenRath.Adapters.Schema

/-!
# Validity against a JSON schema

What the keywords of a JSON schema mean, for those that `validate_json` implements, and how far a
value that it accepts is valid.

`validate_json` compares a value with a schema, and from there on the fields of an object and the
items of an array with the schemas for them (`Compares`). At each of these places it looks at some
of the keywords (`Accepts`) and passes over the others: it looks at `required`, `properties` and
`additionalProperties` only if the type is `object`, at `items` only if it is `array` and at
`maxLength` only if it is `string`. It passes over schemas that are truth values, and the comparison
with the values of an `enum` takes truth values for numbers.

## Main definitions

* `Json.same`, `HasType`, `Valid`: the meaning of a schema.
* `Compares`, `Accepts`: what `validate_json` compares, and what it looks at.
* `Meets`: a value meets the keywords that are passed over.

## Main results

* `validateJson_eq_ok_iff`: the values that `validate_json` accepts.
* `valid_iff_meets`: of the values that it accepts, those that are valid.
* `validateJson_sound_iff`: when every value that it accepts is valid.
-/

namespace OpenRath

namespace Json

/-- The number that a value is. -/
def numeric? : Json → Option ℚ
  | int n => some n
  | float bits => doubleValue bits
  | null | bool _ | str _ | arr _ | obj _ => none

mutual

/-- Equality of JSON values: numbers are equal if they have the same value. -/
def same : (v w : Json) → Bool
  | null, null => true
  | bool a, bool b => a = b
  | str a, str b => a = b
  | arr a, arr b => sameItems a b
  | obj a, obj b => sameFields a b
  | v, w =>
    match v.numeric?, w.numeric? with
    | some x, some y => x = y
    | _, _ => false

/-- Equality of arrays. -/
def sameItems : (v w : List Json) → Bool
  | [], [] => true
  | a :: v, b :: w => same a b && sameItems v w
  | _, _ => false

/-- Equality of objects. -/
def sameFields : (v w : List (String × Json)) → Bool
  | [], [] => true
  | (k, a) :: v, (l, b) :: w => k = l && same a b && sameFields v w
  | _, _ => false

end

end Json

/-! ### The meaning of a schema -/

/-- The value has the type of a name. -/
def HasType : Json → String → Prop
  | .null, name => name = "null"
  | .bool _, name => name = "boolean"
  | .int _, name => name = "integer" ∨ name = "number"
  | .float bits, name => name = "number" ∨ name = "integer" ∧ ∃ n : ℤ, doubleValue bits = some n
  | .str _, name => name = "string"
  | .arr _, name => name = "array"
  | .obj _, name => name = "object"

/-- `type`, if it is a single name. -/
def MeetsType (v : Json) (s : JsonObject) : Prop :=
  ∀ name, s.get? "type" = some (.str name) → HasType v name

/-- `enum`. -/
def MeetsEnum (v : Json) (s : JsonObject) : Prop :=
  ∀ items, s.get? "enum" = some (.arr items) → ∃ item ∈ items, v.same item

/-- `required`. -/
def MeetsRequired (fields : List (String × Json)) (s : JsonObject) : Prop :=
  ∀ keys, s.get? "required" = some (.arr keys) →
    ∀ key, .str key ∈ keys → (JsonObject.get? fields key).isSome

/-- The schemas of the properties, if they are a mapping or absent. -/
def properties? (s : JsonObject) : Option JsonObject :=
  match s.get? "properties" with
  | none => some []
  | some (.obj properties) => some properties
  | some _ => none

/-- The schema of a property. -/
def property? (s : JsonObject) (key : String) : Option Json :=
  (properties? s).bind fun properties => properties.get? key

/-- `additionalProperties`. -/
def MeetsAdditional (fields : List (String × Json)) (s : JsonObject) : Prop :=
  s.get? "additionalProperties" = some (.bool false) →
    ∀ field ∈ fields, (property? s field.1).isSome

/-- `maxLength`. -/
def MeetsLength (text : String) (s : JsonObject) : Prop :=
  ∀ n, s.get? "maxLength" = some (.int n) → (text.length : ℤ) ≤ n

mutual

/-- A value is valid against a schema, which is an object or a truth value. -/
def Valid (v schema : Json) : Prop :=
  match schema with
  | .bool b => b = true
  | .obj s =>
    MeetsType v s ∧ MeetsEnum v s ∧
    match v with
    | .obj fields => MeetsRequired fields s ∧ MeetsAdditional fields s ∧ ValidFields fields s
    | .arr items => ValidItems items (JsonObject.get? s "items")
    | .str text => MeetsLength text s
    | _ => True
  | _ => True

/-- The fields are valid against the schemas of their properties. -/
def ValidFields (fields : List (String × Json)) (s : JsonObject) : Prop :=
  match fields with
  | [] => True
  | (key, item) :: fields =>
    (match property? s key with
    | some child => Valid item child
    | none => True) ∧ ValidFields fields s

/-- The items are valid against the schema for them. -/
def ValidItems (items : List Json) (schema : Option Json) : Prop :=
  match items with
  | [] => True
  | item :: items =>
    (match schema with
    | some child => Valid item child
    | none => True) ∧ ValidItems items schema

end

theorem validFields_iff {fields : List (String × Json)} {s : JsonObject} : ValidFields fields s ↔
    ∀ field ∈ fields, ∀ child ∈ property? s field.1, Valid field.2 child := by
  induction fields with
  | nil => simp [ValidFields]
  | cons field fields ih =>
    obtain ⟨key, item⟩ := field
    rw [ValidFields, ih, List.forall_mem_cons]
    refine and_congr_left fun _ => ?_
    rcases property? s key with _ | child <;> simp

theorem validItems_iff {items : List Json} {schema : Option Json} : ValidItems items schema ↔
    ∀ item ∈ items, ∀ child ∈ schema, Valid item child := by
  induction items with
  | nil => simp [ValidItems]
  | cons item items ih =>
    rw [List.forall_mem_cons]
    rcases schema with _ | child
    · simp [ValidItems, ih]
    · simp only [ValidItems, ih, Option.mem_some_iff, forall_eq']

/-- What a schema says of a value but for its type and its `enum`. -/
def ValidParts (v : Json) (s : JsonObject) : Prop :=
  match v with
  | .obj fields => MeetsRequired fields s ∧ MeetsAdditional fields s ∧
    ∀ field ∈ fields, ∀ child ∈ property? s field.1, Valid field.2 child
  | .arr items => ∀ item ∈ items, ∀ child ∈ s.get? "items", Valid item child
  | .str text => MeetsLength text s
  | _ => True

theorem valid_obj_iff {v : Json} {s : JsonObject} :
    Valid v (.obj s) ↔ MeetsType v s ∧ MeetsEnum v s ∧ ValidParts v s := by
  cases v <;> simp only [Valid, ValidParts, validFields_iff, validItems_iff]

/-! ### What `validate_json` looks at -/

/-- A place at which a value is compared with a schema leads to those of its fields and items. -/
inductive Compares : Json × JsonObject → Json × JsonObject → Prop
  | field {fields : List (String × Json)} {s child : JsonObject} {field : String × Json}
      (htype : s.get? "type" = some (.str "object")) (hfield : field ∈ fields)
      (hchild : property? s field.1 = some (.obj child)) :
        Compares (.obj fields, s) (field.2, child)
  | item {items : List Json} {s child : JsonObject} {item : Json}
      (htype : s.get? "type" = some (.str "array")) (hitem : item ∈ items)
      (hchild : s.get? "items" = some (.obj child)) : Compares (.arr items, s) (item, child)

variable (texts : Texts) (frozen : Bool)

/-- What is looked at in an object of type `object`. -/
structure AcceptsObject (fields : List (String × Json)) (s : JsonObject) : Prop where
  required : ∀ keys, s.get? "required" = some (.arr keys) →
    ∀ key ∈ keys, (JsonObject.get? fields (texts.text key)).isSome
  additional : (properties? s).isSome → s.get? "additionalProperties" = some (.bool false) →
    ∀ field ∈ fields, ∃ child, property? s field.1 = some (.obj child)

/-- What is looked at at a place, by the type in the schema. -/
def AcceptsType (v : Json) (s : JsonObject) : Prop :=
  match s.get? "type" with
  | some (.str "object") => ∃ fields, v = .obj fields ∧ AcceptsObject texts fields s
  | some (.str "array") => ∃ items, v = .arr items
  | some (.str "string") => ∃ text, v = .str text ∧ validateLength text s "$" = .ok ()
  | some (.str "integer") => ∃ n, v = .int n
  | some (.str "number") => (∃ n, v = .int n) ∨ ∃ bits, v = .float bits
  | some (.str "boolean") => ∃ b, v = .bool b
  | some (.str "null") => v = .null
  | none | some .null => True
  | some _ => False

/-- What is looked at at a place is met. -/
def Accepts (v : Json) (s : JsonObject) : Prop :=
  AcceptsType texts v s ∧ validateEnum frozen v s "$" = .ok ()

variable {texts frozen}

theorem unit_bind_eq_ok_iff {ε α : Type} {x : Except ε Unit} {f : Unit → Except ε α} {a : α} :
    x >>= f = .ok a ↔ x = .ok () ∧ f () = .ok a := by
  rcases x with e | u
  · exact iff_of_false (fun h => by cases h) fun h => by cases h.1
  · exact (and_iff_right rfl).symm

theorem validateLength_path {text : String} {s : JsonObject} (path path' : String) :
    validateLength text s path = .ok () ↔ validateLength text s path' = .ok () := by
  simp only [validateLength]
  split_ifs <;> simp

theorem validateEnum_path {v : Json} {s : JsonObject} (path path' : String) :
    validateEnum frozen v s path = .ok () ↔ validateEnum frozen v s path' = .ok () := by
  simp only [validateEnum]
  rcases s.get? "enum" with _ | items
  · exact Iff.rfl
  · cases items with
    | arr items => simp only []; split_ifs <;> simp
    | str text =>
      cases v with
      | str => simp only []; split_ifs <;> simp
      | null | bool | int | float | arr | obj => simp
    | null | bool | int | float | obj => exact Iff.rfl

theorem validateRequired_eq_ok_iff {fields s : JsonObject} {path : String} :
    validateRequired texts fields s path = .ok () ↔
      ∀ keys, s.get? "required" = some (.arr keys) →
        ∀ key ∈ keys, (fields.get? (texts.text key)).isSome := by
  rw [validateRequired]
  rcases s.get? "required" with _ | keys
  · simp
  · cases keys with
    | arr keys =>
      simp only [Option.some.injEq, Json.arr.injEq, forall_eq']
      induction keys with
      | nil => exact iff_of_true rfl fun _ h => absurd h List.not_mem_nil
      | cons key keys ih =>
        rw [List.forall_mem_cons, ← ih]
        refine unit_bind_eq_ok_iff.trans (and_congr_left fun _ => ?_)
        by_cases hkey : (fields.get? (texts.text key)).isSome <;> simp [hkey]
    | null | bool | int | float | str | obj => simp

theorem validateItems_eq_ok_iff {items : List Json} {child : JsonObject} {P : Json → Prop}
    (h : ∀ item ∈ items, ∀ path, validateJson texts frozen item child path = .ok () ↔ P item)
    (path : String) (index : ℕ) :
    validateItems texts frozen items child path index = .ok () ↔ ∀ item ∈ items, P item := by
  induction items generalizing index with
  | nil => simp [validateItems]
  | cons item items ih =>
    rw [validateItems, List.forall_mem_cons, unit_bind_eq_ok_iff,
      ← ih (fun item hitem => h item (List.mem_cons_of_mem _ hitem)) (index + 1),
      ← h item List.mem_cons_self]

theorem validateFields_eq_ok_iff {fields : List (String × Json)} {properties s : JsonObject}
    {P : Json → JsonObject → Prop} (path : String)
    (h : ∀ field ∈ fields, ∀ child, properties.get? field.1 = some (.obj child) →
      ∀ path, validateJson texts frozen field.2 child path = .ok () ↔ P field.2 child) :
    validateFields texts frozen fields properties s path = .ok () ↔
      ∀ field ∈ fields,
        (∀ child, properties.get? field.1 = some (.obj child) → P field.2 child) ∧
        (s.get? "additionalProperties" = some (.bool false) →
          ∃ child, properties.get? field.1 = some (.obj child)) := by
  induction fields with
  | nil => simp [validateFields]
  | cons field fields ih =>
    obtain ⟨key, item⟩ := field
    have hrest := ih fun field hfield => h field (List.mem_cons_of_mem _ hfield)
    rw [List.forall_mem_cons, ← hrest, validateFields]
    split
    · rename_i child hchild
      rw [unit_bind_eq_ok_iff, h (key, item) List.mem_cons_self child hchild]
      simp [hchild]
    · rename_i hnone
      have hchild : ¬ ∃ child, properties.get? key = some (.obj child) := by
        rintro ⟨child, hchild⟩
        exact hnone child hchild
      split_ifs with hadditional
      · simp only [hadditional]
        exact iff_of_false (fun h => by cases h) fun h => hchild (h.1.2 trivial)
      · simp only [hadditional, false_imp_iff, and_true]
        exact (and_iff_right fun child hsome => absurd ⟨child, hsome⟩ hchild).symm

theorem forall_reachable_iff {P : Json × JsonObject → Prop} {x : Json × JsonObject} :
    (∀ y, Relation.ReflTransGen Compares x y → P y) ↔
      P x ∧ ∀ z, Compares x z → ∀ y, Relation.ReflTransGen Compares z y → P y := by
  constructor
  · exact fun h => ⟨h x .refl, fun z hz y hy => h y (.head hz hy)⟩
  · rintro ⟨hx, hrest⟩ y hy
    rcases Relation.ReflTransGen.cases_head hy with rfl | ⟨z, hz, hzy⟩
    · exact hx
    · exact hrest z hz y hzy

/-- What a comparison leads to is smaller. -/
theorem Compares.sizeOf_lt {x y : Json × JsonObject} (h : Compares x y) :
    sizeOf y.1 < sizeOf x.1 := by
  cases h with
  | field htype hfield hchild =>
    have := List.sizeOf_lt_of_mem hfield
    rename_i field
    obtain ⟨key, item⟩ := field
    simp at *
    omega
  | item htype hitem hchild =>
    have := List.sizeOf_lt_of_mem hitem
    simp at *
    omega

/-- The comparison with a schema of type `object`. -/
theorem validateJson_object {v : Json} {s : JsonObject} {path : String}
    (htype : s.get? "type" = some (.str "object")) :
    validateJson texts frozen v s path = .ok () ↔
      ∃ fields, v = .obj fields ∧ validateRequired texts fields s path = .ok () ∧
        (∀ properties ∈ properties? s,
          validateFields texts frozen fields properties s path = .ok ()) ∧
        validateEnum frozen v s path = .ok () := by
  cases v with
  | obj fields =>
    simp only [validateJson, htype, unit_bind_eq_ok_iff, Json.obj.injEq, exists_eq_left']
    refine and_congr_right fun _ => ?_
    rw [properties?]
    rcases s.get? "properties" with _ | properties
    · simp [unit_bind_eq_ok_iff]
    · cases properties <;> simp [unit_bind_eq_ok_iff]
  | null | bool | int | float | str | arr => simp [validateJson, htype, unit_bind_eq_ok_iff]

/-- The comparison with a schema of type `array`. -/
theorem validateJson_array {v : Json} {s : JsonObject} {path : String}
    (htype : s.get? "type" = some (.str "array")) :
    validateJson texts frozen v s path = .ok () ↔
      ∃ items, v = .arr items ∧
        (∀ child, s.get? "items" = some (.obj child) →
          validateItems texts frozen items child path 0 = .ok ()) ∧
        validateEnum frozen v s path = .ok () := by
  cases v with
  | arr items =>
    simp only [validateJson, htype, Json.arr.injEq, exists_eq_left']
    rcases s.get? "items" with _ | child
    · simp [unit_bind_eq_ok_iff]
    · cases child <;> simp [unit_bind_eq_ok_iff]
  | null | bool | int | float | str | obj => simp [validateJson, htype, unit_bind_eq_ok_iff]

/-- The comparison with a schema that leads no further. -/
theorem validateJson_leaf {v : Json} {s : JsonObject} {path : String}
    (hobject : s.get? "type" ≠ some (.str "object"))
    (harray : s.get? "type" ≠ some (.str "array")) :
    validateJson texts frozen v s path = .ok () ↔ Accepts texts frozen v s := by
  rw [Accepts, validateEnum_path "$" path]
  rcases htype : s.get? "type" with _ | t
  · cases v <;> simp [validateJson, AcceptsType, htype, unit_bind_eq_ok_iff]
  · cases t with
    | str name =>
      rw [htype] at hobject harray
      have hname : name = "string" ∨ name = "integer" ∨ name = "number" ∨ name = "boolean" ∨
          name = "null" ∨ (name ≠ "string" ∧ name ≠ "integer" ∧ name ≠ "number" ∧
            name ≠ "boolean" ∧ name ≠ "null") := by
        tauto
      rcases hname with rfl | rfl | rfl | rfl | rfl | hother
      · cases v <;>
          simp [validateJson, AcceptsType, htype, unit_bind_eq_ok_iff, validateLength_path "$" path]
      · cases v <;> simp [validateJson, AcceptsType, htype, unit_bind_eq_ok_iff]
      · cases v <;> simp [validateJson, AcceptsType, htype, unit_bind_eq_ok_iff]
      · cases v <;> simp [validateJson, AcceptsType, htype, unit_bind_eq_ok_iff]
      · cases v <;> simp [validateJson, AcceptsType, htype, unit_bind_eq_ok_iff]
      · simp only [ne_eq, Option.some.injEq, Json.str.injEq] at hobject harray
        have hrefused : ¬ AcceptsType texts v s := by
          rw [AcceptsType, htype]
          split <;> simp_all
        refine iff_of_false ?_ fun h => hrefused h.1
        cases v <;> simp [validateJson, htype, unit_bind_eq_ok_iff, hobject, harray, hother]
    | null | bool | int | float | arr | obj =>
      cases v <;> simp [validateJson, AcceptsType, htype, unit_bind_eq_ok_iff]

/-- One step of a comparison, if it is known what is accepted at the places that it leads to. -/
theorem validateJson_step {v : Json} {s : JsonObject} {path : String} {P : Json × JsonObject → Prop}
    (hchild : ∀ y, Compares (v, s) y → ∀ path,
      validateJson texts frozen y.1 y.2 path = .ok () ↔ P y) :
    validateJson texts frozen v s path = .ok () ↔
      Accepts texts frozen v s ∧ ∀ y, Compares (v, s) y → P y := by
  by_cases hobject : s.get? "type" = some (.str "object")
  · have haccepts : Accepts texts frozen v s ↔ (∃ fields, v = .obj fields ∧
        AcceptsObject texts fields s) ∧ validateEnum frozen v s "$" = .ok () := by
      simp only [Accepts, AcceptsType, hobject]
    rw [validateJson_object hobject, validateEnum_path path "$", haccepts]
    constructor
    · rintro ⟨fields, rfl, hrequired, hfields, henum⟩
      have hmet : ∀ properties ∈ properties? s, ∀ field ∈ fields,
          (∀ child, properties.get? field.1 = some (.obj child) → P (field.2, child)) ∧
          (s.get? "additionalProperties" = some (.bool false) →
            ∃ child, properties.get? field.1 = some (.obj child)) := by
        intro properties hproperties
        refine (validateFields_eq_ok_iff (P := fun item child => P (item, child)) path
          fun field hfield child hget => hchild (field.2, child) (.field hobject hfield ?_)).mp
          (hfields properties hproperties)
        rw [property?, Option.mem_def.mp hproperties, Option.bind_some, hget]
      refine ⟨⟨⟨fields, rfl, validateRequired_eq_ok_iff.mp hrequired, ?_⟩, henum⟩, ?_⟩
      · intro hsome hadditional field hfield
        obtain ⟨properties, hproperties⟩ := Option.isSome_iff_exists.mp hsome
        rw [property?, hproperties]
        exact (hmet properties hproperties field hfield).2 hadditional
      · rintro z (⟨htype, hfield, hget⟩ | ⟨htype, -, -⟩)
        rw [property?] at hget
        obtain ⟨properties, hproperties, hget⟩ := Option.bind_eq_some_iff.mp hget
        exact (hmet properties hproperties _ hfield).1 _ hget
    · rintro ⟨⟨⟨fields, rfl, hfields⟩, henum⟩, hplaces⟩
      refine ⟨fields, rfl, validateRequired_eq_ok_iff.mpr hfields.required, ?_, henum⟩
      intro properties hproperties
      have hget : ∀ key, property? s key = properties.get? key := by
        intro key
        rw [property?, Option.mem_def.mp hproperties, Option.bind_some]
      refine (validateFields_eq_ok_iff (P := fun item child => P (item, child)) path
        fun field hfield child hsome =>
          hchild (field.2, child) (.field hobject hfield ((hget _).trans hsome))).mpr ?_
      intro field hfield
      refine ⟨fun child hsome => ?_, fun hadditional => ?_⟩
      · exact hplaces (field.2, child) (.field hobject hfield ((hget _).trans hsome))
      · rw [← hget]
        exact hfields.additional (Option.isSome_of_mem hproperties) hadditional field hfield
  by_cases harray : s.get? "type" = some (.str "array")
  · have haccepts : Accepts texts frozen v s ↔ (∃ items, v = .arr items) ∧
        validateEnum frozen v s "$" = .ok () := by
      simp only [Accepts, AcceptsType, harray]
    rw [validateJson_array harray, validateEnum_path path "$", haccepts]
    have hitems : ∀ items child, v = .arr items → s.get? "items" = some (.obj child) →
        (validateItems texts frozen items child path 0 = .ok () ↔
          ∀ item ∈ items, P (item, child)) := by
      rintro items child rfl hget
      exact validateItems_eq_ok_iff (fun item hitem =>
        hchild (item, child) (.item harray hitem hget)) path 0
    constructor
    · rintro ⟨items, rfl, hmet, henum⟩
      refine ⟨⟨⟨items, rfl⟩, henum⟩, ?_⟩
      rintro z (⟨htype, -, -⟩ | ⟨htype, hitem, hget⟩)
      exact (hitems items _ rfl hget).mp (hmet _ hget) _ hitem
    · rintro ⟨⟨⟨items, rfl⟩, henum⟩, hplaces⟩
      refine ⟨items, rfl, fun child hget => (hitems items child rfl hget).mpr ?_, henum⟩
      exact fun item hitem => hplaces (item, child) (.item harray hitem hget)
  · rw [validateJson_leaf hobject harray]
    refine (and_iff_left ?_).symm
    rintro z (⟨htype, -, -⟩ | ⟨htype, -, -⟩)
    · exact absurd htype hobject
    · exact absurd htype harray

/-- **Acceptance.** `validate_json` accepts a value if what it looks at is met at all places. -/
theorem validateJson_eq_ok_iff {v : Json} {s : JsonObject} {path : String} :
    validateJson texts frozen v s path = .ok () ↔
      ∀ place, Relation.ReflTransGen Compares (v, s) place →
        Accepts texts frozen place.1 place.2 := by
  induction hn : sizeOf v using Nat.strong_induction_on generalizing v s path with
  | _ n ih =>
    subst hn
    rw [forall_reachable_iff]
    exact validateJson_step fun y hy path => ih _ hy.sizeOf_lt rfl

/-! ### Soundness -/

/-- A value meets what is passed over at a place: the keywords for its kind, if the schema has no
type; that a property or an item that is there may be anything, not nothing; that there are no
additional properties, if `properties` is no mapping; and the `enum`, as values and not as what
compares equal. -/
structure Meets (v : Json) (s : JsonObject) : Prop where
  parts : s.get? "type" = none ∨ s.get? "type" = some .null → ValidParts v s
  fields : s.get? "type" = some (.str "object") → ∀ fields, v = .obj fields →
    (∀ field ∈ fields, property? s field.1 ≠ some (.bool false)) ∧
    (properties? s = none → MeetsAdditional fields s)
  items : s.get? "type" = some (.str "array") → ∀ items, v = .arr items →
    s.get? "items" = some (.bool false) → items = []
  enum : MeetsEnum v s

/-- A value is valid against anything that is a schema but the truth value false if it is valid
against what is an object. -/
theorem valid_iff_of_ne_false {v schema : Json} (h : schema ≠ .bool false) :
    Valid v schema ↔ ∀ s, schema = .obj s → Valid v (.obj s) := by
  cases schema with
  | bool b =>
    cases b with
    | false => exact absurd rfl h
    | true => cases v <;> simp [Valid]
  | obj s => simp
  | null | int | float | str | arr => cases v <;> simp [Valid]

theorem not_valid_false {v : Json} : ¬ Valid v (.bool false) := by
  cases v <;> simp [Valid]

theorem meetsType_of_acceptsType {v : Json} {s : JsonObject} (h : AcceptsType texts v s) :
    MeetsType v s := by
  intro name hname
  rw [AcceptsType, hname] at h
  split at h
  · obtain ⟨fields, rfl, -⟩ := h
    simp_all [HasType]
  · obtain ⟨items, rfl⟩ := h
    simp_all [HasType]
  · obtain ⟨text, rfl, -⟩ := h
    simp_all [HasType]
  · obtain ⟨n, rfl⟩ := h
    simp_all [HasType]
  · rcases h with ⟨n, rfl⟩ | ⟨bits, rfl⟩ <;> simp_all [HasType]
  · obtain ⟨b, rfl⟩ := h
    simp_all [HasType]
  · subst h
    simp_all [HasType]
  · simp_all
  · simp_all
  · exact h.elim

theorem meetsLength_of_validateLength {text : String} {s : JsonObject} {path : String}
    (h : validateLength text s path = .ok ()) : MeetsLength text s := by
  intro n hn
  simp only [validateLength, hn, decide_eq_true_eq] at h
  split_ifs at h with hlong
  exact not_lt.mp hlong

section Places

variable {s : JsonObject}

/-- The parts of an object of type `object`. -/
theorem validParts_object {fields : List (String × Json)}
    (htype : s.get? "type" = some (.str "object")) (h : AcceptsObject texts fields s) :
    ValidParts (.obj fields) s ↔
      ((∀ field ∈ fields, property? s field.1 ≠ some (.bool false)) ∧
        (properties? s = none → MeetsAdditional fields s)) ∧
      ∀ y, Compares (.obj fields, s) y → Valid y.1 (.obj y.2) := by
  rw [ValidParts]
  constructor
  · rintro ⟨-, hadditional, hvalid⟩
    refine ⟨⟨fun field hfield hfalse => ?_, fun _ => hadditional⟩, ?_⟩
    · exact not_valid_false (hvalid field hfield _ hfalse)
    · rintro y (⟨-, hfield, hchild⟩ | ⟨-, -, -⟩)
      exact hvalid _ hfield _ hchild
  · rintro ⟨⟨hfalse, hnone⟩, hplaces⟩
    refine ⟨fun keys hkeys key hkey => ?_, fun hclosed field hfield => ?_, ?_⟩
    · exact texts.text_str key ▸ h.required keys hkeys _ hkey
    · rcases hproperties : properties? s with _ | properties
      · exact hnone hproperties hclosed field hfield
      · have hsome : (properties? s).isSome := by rw [hproperties]; rfl
        obtain ⟨child, hchild⟩ := h.additional hsome hclosed field hfield
        exact Option.isSome_of_mem hchild
    · intro field hfield schema hschema
      refine (valid_iff_of_ne_false fun h => hfalse field hfield (h ▸ hschema)).mpr ?_
      rintro child rfl
      exact hplaces (field.2, child) (.field htype hfield hschema)

/-- The parts of an array of type `array`. -/
theorem validParts_array {items : List Json} (htype : s.get? "type" = some (.str "array")) :
    ValidParts (.arr items) s ↔
      (s.get? "items" = some (.bool false) → items = []) ∧
      ∀ y, Compares (.arr items, s) y → Valid y.1 (.obj y.2) := by
  rw [ValidParts]
  constructor
  · intro hvalid
    refine ⟨fun hfalse => List.eq_nil_iff_forall_not_mem.mpr fun item hitem => ?_, ?_⟩
    · exact not_valid_false (hvalid item hitem _ hfalse)
    · rintro y (⟨-, -, -⟩ | ⟨-, hitem, hchild⟩)
      exact hvalid _ hitem _ hchild
  · rintro ⟨hfalse, hplaces⟩ item hitem schema hschema
    refine (valid_iff_of_ne_false fun h => ?_).mpr ?_
    · exact List.ne_nil_of_mem hitem (hfalse (h ▸ hschema))
    · rintro child rfl
      exact hplaces (item, child) (.item htype hitem hschema)

/-- The parts of any other value whose schema has a type. -/
theorem validParts_leaf {v : Json} (h : AcceptsType texts v s)
    (hobject : s.get? "type" ≠ some (.str "object")) (harray : s.get? "type" ≠ some (.str "array"))
    (htyped : ¬ (s.get? "type" = none ∨ s.get? "type" = some .null)) : ValidParts v s := by
  rw [AcceptsType] at h
  split at h
  · exact absurd ‹_› hobject
  · exact absurd ‹_› harray
  · obtain ⟨text, rfl, hlength⟩ := h
    exact meetsLength_of_validateLength hlength
  · obtain ⟨n, rfl⟩ := h
    trivial
  · rcases h with ⟨n, rfl⟩ | ⟨bits, rfl⟩ <;> trivial
  · obtain ⟨b, rfl⟩ := h
    trivial
  · subst h
    trivial
  · exact absurd (.inl ‹_›) htyped
  · exact absurd (.inr ‹_›) htyped
  · exact h.elim

/-- A step: a value that is accepted at a place is valid there if it meets what is passed over and
is valid at the places that this one leads to. -/
theorem valid_step {v : Json} (h : Accepts texts frozen v s) :
    Valid v (.obj s) ↔
      Meets v s ∧ ∀ y, Compares (v, s) y → Valid y.1 (.obj y.2) := by
  rw [valid_obj_iff, and_iff_right (meetsType_of_acceptsType h.1), and_comm]
  by_cases hobject : s.get? "type" = some (.str "object")
  · have htype := h.1
    simp only [AcceptsType, hobject] at htype
    obtain ⟨fields, rfl, hfields⟩ := htype
    rw [validParts_object hobject hfields]
    constructor
    · rintro ⟨⟨hmeets, hplaces⟩, henum⟩
      refine ⟨⟨by simp [hobject], ?_, by simp [hobject], henum⟩, hplaces⟩
      rintro - fields' ⟨⟩
      exact hmeets
    · rintro ⟨hmeets, hplaces⟩
      exact ⟨⟨hmeets.fields hobject fields rfl, hplaces⟩, hmeets.enum⟩
  by_cases harray : s.get? "type" = some (.str "array")
  · have htype := h.1
    simp only [AcceptsType, harray] at htype
    obtain ⟨items, rfl⟩ := htype
    rw [validParts_array harray]
    constructor
    · rintro ⟨⟨hmeets, hplaces⟩, henum⟩
      refine ⟨⟨by simp [harray], by simp [harray], ?_, henum⟩, hplaces⟩
      rintro - items' ⟨⟩
      exact hmeets
    · rintro ⟨hmeets, hplaces⟩
      exact ⟨⟨hmeets.items harray items rfl, hplaces⟩, hmeets.enum⟩
  · have hplaces : ∀ y, Compares (v, s) y → Valid y.1 (.obj y.2) := by
      rintro y (⟨htype, -, -⟩ | ⟨htype, -, -⟩)
      · exact absurd htype hobject
      · exact absurd htype harray
    rw [and_iff_left hplaces]
    constructor
    · rintro ⟨hparts, henum⟩
      exact ⟨fun _ => hparts, fun h => absurd h hobject, fun h => absurd h harray, henum⟩
    · intro hmeets
      refine ⟨?_, hmeets.enum⟩
      by_cases htyped : s.get? "type" = none ∨ s.get? "type" = some .null
      · exact hmeets.parts htyped
      · exact validParts_leaf h.1 hobject harray htyped

end Places

/-- **Validity.** A value that `validate_json` accepts is valid if and only if it meets what is
passed over, at all places. -/
theorem valid_iff_meets {v : Json} {s : JsonObject}
    (h : ∀ place, Relation.ReflTransGen Compares (v, s) place →
      Accepts texts frozen place.1 place.2) :
    Valid v (.obj s) ↔
      ∀ place, Relation.ReflTransGen Compares (v, s) place → Meets place.1 place.2 := by
  induction hn : sizeOf v using Nat.strong_induction_on generalizing v s with
  | _ n ih =>
    subst hn
    rw [forall_reachable_iff] at h
    rw [forall_reachable_iff, valid_step h.1]
    refine and_congr_right fun _ => forall₂_congr fun y hy => ?_
    exact ih _ hy.sizeOf_lt (h.2 y hy) rfl

/-- **Soundness.** A value that `validate_json` accepts is valid, if and only if it meets at all
places what is passed over there or does not meet at one of them what is looked at. -/
theorem validateJson_sound_iff (texts : Texts) (frozen : Bool) (v : Json) (s : JsonObject)
    (path : String) :
    (validateJson texts frozen v s path = .ok () → Valid v (.obj s)) ↔
      ((∀ place, Relation.ReflTransGen Compares (v, s) place → Meets place.1 place.2) ∨
        ∃ place, Relation.ReflTransGen Compares (v, s) place ∧
          ¬ Accepts texts frozen place.1 place.2) := by
  rw [validateJson_eq_ok_iff]
  constructor
  · intro hsound
    by_cases h : ∀ place, Relation.ReflTransGen Compares (v, s) place →
        Accepts texts frozen place.1 place.2
    · exact .inl ((valid_iff_meets h).mp (hsound h))
    · refine .inr ?_
      simpa only [not_forall, exists_prop] using h
  · rintro (hmeets | ⟨place, hplace, hrefused⟩) h
    · exact (valid_iff_meets h).mpr hmeets
    · exact absurd (h place hplace) hrefused

/-- A required property may be missing if there is no type. -/
theorem validateJson_untyped :
    validateJson ⟨fun _ => "", fun _ => ""⟩ false (.obj []) [("required", .arr [.str "id"])] "$" =
      .ok () ∧
    ¬ Valid (.obj []) (.obj [("required", .arr [.str "id"])]) := by
  refine ⟨by simp [validateJson, validateEnum, JsonObject.get?, unit_bind_eq_ok_iff], fun h => ?_⟩
  have hrequired := (valid_obj_iff.mp h).2.2.1 _ rfl "id" List.mem_cons_self
  cases hrequired

end OpenRath
