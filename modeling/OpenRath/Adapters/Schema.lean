import Mathlib.Data.List.Infix
import OpenRath.Library.Values

/-!
# Validation against a JSON schema

The subset of JSON Schema that the runtime checks values against
(`src/rath/adapters/schema.py`). Whether the schema has been frozen matters to the comparison
with the values of an `enum`. Of an object, the first field in key order that is refused is
reported. The texts Python makes of a value that is no string enter two messages and are a
parameter.

## Main definitions

* `Texts`, `SchemaError`.
* `validateJson`.
-/

namespace OpenRath

/-- The texts Python makes of a value, with `str` and with `repr`. -/
structure Texts where
  str : Json → String
  repr : Json → String

/-- What `validate_json` raises. -/
inductive SchemaError
  /-- `SchemaValidationError`, a `ValueError`. -/
  | invalid (message : String)
  | typeError (message : String)
deriving DecidableEq

/-- `str` of a value. -/
def Texts.text (texts : Texts) : Json → String
  | .str s => s
  | v => texts.str v

@[simp] theorem Texts.text_str (texts : Texts) (s : String) : texts.text (.str s) = s := rfl

/-- The name of the Python type of a value. -/
def Json.typeName : Json → String
  | null => "NoneType"
  | bool _ => "bool"
  | int _ => "int"
  | float _ => "float"
  | str _ => "str"
  | arr _ => "list"
  | obj _ => "dict"

variable (texts : Texts) (frozen : Bool)

/-- The check of `required`: anything but an array is ignored. -/
def validateRequired (fields schema : JsonObject) (path : String) : Except SchemaError Unit :=
  match schema.get? "required" with
  | some (.arr keys) => keys.forM fun key =>
    if (fields.get? (texts.text key)).isSome then .ok ()
    else .error (.invalid s!"{path}.{texts.text key} is required")
  | _ => .ok ()

/-- The check of `maxLength`, which a truth value counts for as well. -/
def validateLength (s : String) (schema : JsonObject) (path : String) :
    Except SchemaError Unit :=
  let exceeds : Bool := match schema.get? "maxLength" with
    | some (.int n) => n < (s.length : ℤ)
    | some (.bool b) => (if b then 1 else 0) < s.length
    | _ => false
  if exceeds then .error (.invalid s!"{path} exceeds maxLength") else .ok ()

/-- The check of `enum`, which is made for every type. -/
def validateEnum (value : Json) (schema : JsonObject) (path : String) :
    Except SchemaError Unit :=
  match schema.get? "enum" with
  | some (.arr items) =>
    if items.any fun item => value.eqValue frozen item then .ok ()
    else .error (.invalid s!"{path} is not an allowed enum value")
  | some (.str s) =>
    match value with
    | .str v =>
      if v.toList <:+: s.toList then .ok ()
      else .error (.invalid s!"{path} is not an allowed enum value")
    | v => .error (.typeError
      s!"'in <string>' requires string as left operand, not {v.typeName}")
  | _ => .ok ()

mutual

/-- `validate_json`. -/
def validateJson (value : Json) (schema : JsonObject) (path : String) :
    Except SchemaError Unit := do
  match schema.get? "type" with
  | some (.str "object") =>
    match value with
    | .obj fields =>
      validateRequired texts fields schema path
      match schema.get? "properties" with
      | none => validateFields fields [] schema path
      | some (.obj properties) => validateFields fields properties schema path
      | some _ => .ok ()
    | _ => .error (.invalid s!"{path} must be an object")
  | some (.str "array") =>
    match value with
    | .arr items =>
      match schema.get? "items" with
      | some (.obj child) => validateItems items child path 0
      | _ => .ok ()
    | _ => .error (.invalid s!"{path} must be an array")
  | some (.str "string") =>
    match value with
    | .str s => validateLength s schema path
    | _ => .error (.invalid s!"{path} must be a string")
  | some (.str "integer") =>
    match value with
    | .int _ => .ok ()
    | _ => .error (.invalid s!"{path} must be an integer")
  | some (.str "number") =>
    match value with
    | .int _ | .float _ => .ok ()
    | _ => .error (.invalid s!"{path} must be a number")
  | some (.str "boolean") =>
    match value with
    | .bool _ => .ok ()
    | _ => .error (.invalid s!"{path} must be a boolean")
  | some (.str "null") =>
    match value with
    | .null => .ok ()
    | _ => .error (.invalid s!"{path} must be null")
  | none | some .null => .ok ()
  | some expected =>
    .error (.invalid s!"{path} uses unsupported schema type {texts.repr expected}")
  validateEnum frozen value schema path

/-- The fields of an object, each against the schema of its property. -/
def validateFields (fields : List (String × Json)) (properties schema : JsonObject)
    (path : String) : Except SchemaError Unit :=
  match fields with
  | [] => .ok ()
  | (key, item) :: fields => do
    match properties.get? key with
    | some (.obj child) => validateJson item child s!"{path}.{key}"
    | _ =>
      if schema.get? "additionalProperties" = some (.bool false) then
        .error (.invalid s!"{path}.{key} is not allowed")
    validateFields fields properties schema path

/-- The items of an array from a position on. -/
def validateItems (items : List Json) (child : JsonObject) (path : String) (index : ℕ) :
    Except SchemaError Unit :=
  match items with
  | [] => .ok ()
  | item :: items => do
    validateJson item child s!"{path}[{index}]"
    validateItems items child path (index + 1)

end

end OpenRath
