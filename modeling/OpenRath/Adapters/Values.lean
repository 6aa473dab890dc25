import OpenRath.Adapters.Schema

/-!
# The values of tools

A tool is a function of the application: its arguments and what it returns may be any objects. They
are checked against a schema (`src/rath/adapters/schema.py`), and frozen where they are stored
(`src/rath/_json.py`): a frozen value is JSON, and what is not JSON cannot be frozen.

A mapping has any objects as keys, in the order in which they were inserted. What the language makes
of an object of some other class is a parameter.

## Main definitions

* `Value`, `Objects`.
* `Value.validate`: `validate_json`.
* `Value.freeze`: `freeze_json`.
-/

namespace OpenRath

/-- The sequences, texts apart. -/
inductive SequenceKind
  | list
  | tuple
  /-- Another one, such as a range. -/
  | other
deriving DecidableEq

/-- A value of the host language. -/
inductive Value
  | null
  | bool (b : Bool)
  | int (n : ℤ)
  | float (bits : BitVec 64)
  | str (s : String)
  | sequence (kind : SequenceKind) (items : List Value)
  | mapping (entries : List (Value × Value))
  /-- An object of another class, by its number. -/
  | object (number : ℕ)

/-- What the language makes of objects. -/
structure Objects where
  /-- The name of the type of a value. -/
  typeName : Value → String
  /-- The text of a value. -/
  text : Value → String
  /-- Whether an object of another class is equal to a JSON value. -/
  equal : ℕ → Json → Bool

namespace Value

/-- The value of a mapping at a text. -/
def get? (entries : List (Value × Value)) (key : String) : Option Value :=
  entries.findSome? fun entry =>
    match entry.1 with
    | .str k => if k = key then some entry.2 else none
    | _ => none

/-- The number that a value is in a comparison. -/
def number? : Value → Option ℚ
  | bool b => some (if b then 1 else 0)
  | int n => some n
  | float bits => doubleValue bits
  | null | str _ | sequence _ _ | mapping _ | object _ => none

variable (o : Objects) (texts : Texts) (frozen : Bool)

/-! ### Comparison -/

mutual

/-- The comparison `value == w` with a value of a schema. If the schema has been frozen, its arrays
are tuples, and otherwise lists. -/
def equals : (value : Value) → (w : Json) → Bool
  | null, .null => true
  | str a, .str b => a = b
  | sequence kind items, .arr b =>
    kind = (if frozen then .tuple else .list) && itemsEqual items b
  | mapping entries, .obj b => entries.length = b.length && entriesEqual entries b
  | float a, .float b =>
    match doubleValue a, doubleValue b with
    | some x, some y => x = y
    -- Of the exceptional values, the infinities are equal to themselves.
    | _, _ => a = b ∧ (a = 0x7FF0000000000000 ∨ a = 0xFFF0000000000000)
  | object number, w => o.equal number w
  | v, w =>
    match v.number?, w.number? with
    | some x, some y => x = y
    | _, _ => false

/-- The comparison of sequences. -/
def itemsEqual : (items : List Value) → (w : List Json) → Bool
  | [], [] => true
  | a :: items, b :: w => equals a b && itemsEqual items w
  | _, _ => false

/-- Whether all entries are fields of an object. -/
def entriesEqual : (entries : List (Value × Value)) → (w : JsonObject) → Bool
  | [], _ => true
  | (.str key, a) :: entries, w =>
    (match w.get? key with
      | some b => equals a b
      | none => false) && entriesEqual entries w
  | _ :: _, _ => false

end

/-! ### Validation -/

/-- The check of `required`. -/
def validateRequired (entries : List (Value × Value)) (schema : JsonObject) (path : String) :
    Except SchemaError Unit :=
  match schema.get? "required" with
  | some (.arr keys) => keys.forM fun key =>
    if (get? entries (texts.text key)).isSome then .ok ()
    else .error (.invalid s!"{path}.{texts.text key} is required")
  | _ => .ok ()

/-- The check of `enum`. -/
def validateEnum (value : Value) (schema : JsonObject) (path : String) : Except SchemaError Unit :=
  match schema.get? "enum" with
  | some (.arr items) =>
    if items.any fun item => value.equals o frozen item then .ok ()
    else .error (.invalid s!"{path} is not an allowed enum value")
  | some (.str s) =>
    match value with
    | .str v =>
      if v.toList <:+: s.toList then .ok ()
      else .error (.invalid s!"{path} is not an allowed enum value")
    | v => .error (.typeError
      s!"'in <string>' requires string as left operand, not {o.typeName v}")
  | _ => .ok ()

/-- The text of a key in a path. -/
def keyText : Value → String
  | .str key => key
  | key => o.text key

/-- The schema of a property. -/
def property? (properties : JsonObject) : (key : Value) → Option JsonObject
  | .str key =>
    match properties.get? key with
    | some (.obj child) => some child
    | _ => none
  | _ => none

mutual

/-- `validate_json`. -/
def validate (value : Value) (schema : JsonObject) (path : String) : Except SchemaError Unit := do
  match schema.get? "type" with
  | some (.str "object") =>
    match value with
    | .mapping entries =>
      validateRequired texts entries schema path
      match schema.get? "properties" with
      | none => validateEntries entries [] schema path
      | some (.obj properties) => validateEntries entries properties schema path
      | some _ => .ok ()
    | _ => .error (.invalid s!"{path} must be an object")
  | some (.str "array") =>
    match value with
    | .sequence _ items =>
      match schema.get? "items" with
      | some (.obj child) => validateItems items child path 0
      | _ => .ok ()
    | _ => .error (.invalid s!"{path} must be an array")
  | some (.str "string") =>
    match value with
    | .str s => validateLength s schema path
    | _ => .error (.invalid s!"{path} must be a string")
  | some (.str "integer") =>
    match value with
    | .int _ => .ok ()
    | _ => .error (.invalid s!"{path} must be an integer")
  | some (.str "number") =>
    match value with
    | .int _ | .float _ => .ok ()
    | _ => .error (.invalid s!"{path} must be a number")
  | some (.str "boolean") =>
    match value with
    | .bool _ => .ok ()
    | _ => .error (.invalid s!"{path} must be a boolean")
  | some (.str "null") =>
    match value with
    | .null => .ok ()
    | _ => .error (.invalid s!"{path} must be null")
  | none | some .null => .ok ()
  | some expected =>
    .error (.invalid s!"{path} uses unsupported schema type {texts.repr expected}")
  validateEnum o frozen value schema path

/-- The entries of a mapping, each against the schema of its property. -/
def validateEntries (entries : List (Value × Value)) (properties schema : JsonObject)
    (path : String) : Except SchemaError Unit :=
  match entries with
  | [] => .ok ()
  | (key, item) :: entries => do
    match property? properties key with
    | some child => validate item child s!"{path}.{keyText o key}"
    | none =>
      if schema.get? "additionalProperties" = some (.bool false) then
        .error (.invalid s!"{path}.{keyText o key} is not allowed")
    validateEntries entries properties schema path

/-- The items of a sequence from a position on. -/
def validateItems (items : List Value) (child : JsonObject) (path : String) (index : ℕ) :
    Except SchemaError Unit :=
  match items with
  | [] => .ok ()
  | item :: items => do
    validate item child s!"{path}[{index}]"
    validateItems items child path (index + 1)

end

/-! ### Freezing -/

mutual

/-- `freeze_json`; the error is the text of a `TypeError`. -/
def freeze (field : String) : (value : Value) → Except String Json
  | null => .ok .null
  | bool b => .ok (.bool b)
  | int n => .ok (.int n)
  | float bits => .ok (.float bits)
  | str s => .ok (.str s)
  | mapping entries => (freezeEntries field [] entries).map .obj
  | sequence kind items =>
    if kind = .other then
      .error s!"{field} must be JSON-compatible, got {o.typeName (.sequence kind items)}"
    else (freezeItems field 0 items).map .arr
  | object number => .error s!"{field} must be JSON-compatible, got {o.typeName (.object number)}"

/-- The entries of a mapping, added to those that are frozen already. -/
def freezeEntries (field : String) (frozen : JsonObject) :
    (entries : List (Value × Value)) → Except String JsonObject
  | [] => .ok frozen
  | (key, item) :: entries =>
    match key with
    | .str key => do
      let item ← freeze s!"{field}.{key}" item
      freezeEntries field (frozen.set key item) entries
    | _ => .error s!"{field} mapping keys must be strings"

/-- The items of a sequence from a position on. -/
def freezeItems (field : String) (index : ℕ) : (items : List Value) → Except String (List Json)
  | [] => .ok []
  | item :: items => do
    let item ← freeze s!"{field}[{index}]" item
    let items ← freezeItems field (index + 1) items
    .ok (item :: items)

end

end Value

end OpenRath
