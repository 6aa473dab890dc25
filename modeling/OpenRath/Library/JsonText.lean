import OpenRath.Library.Values

/-!
# JSON texts

The text that `json.dumps(value, ensure_ascii=False)` writes for a value and the value that
`json.loads` reads in a text. In this module the order of the fields of an object is kept: it is
the order in which they were inserted.

How floating-point numbers are written and read is a parameter (`FloatText`). Texts with unpaired
surrogates are left out, since they are not texts of characters; reading an escape sequence for one
is an error of its own. The depth of a value is not limited.

## Main definitions

* `FloatText`, `dumps`, `dumpsSpaced`, `dumpsWith`, `dumpsIndented`.
* `LoadsError`, `scanString`, `scanNumber`, `scanValue`, `loads`.
-/

namespace OpenRath

/-- Letters, digits, signs and points: the characters of numbers and of the named constants. -/
def isNumeral (c : Char) : Bool := c.isAlphanum || c = '+' || c = '-' || c = '.'

/-- How floating-point numbers are written and read. -/
structure FloatText where
  /-- `float.__repr__`, with the names of the exceptional values. -/
  text : BitVec 64 → List Char
  /-- `float(numeral)`. -/
  read : List Char → BitVec 64
  isNumeral_text : ∀ bits, ∀ c ∈ text bits, isNumeral c = true

/-! ### Writing -/

/-- The text of a character within a string. -/
def escape (c : Char) : List Char :=
  if c = '"' then ['\\', '"']
  else if c = '\\' then ['\\', '\\']
  else if c = '\n' then ['\\', 'n']
  else if c = '\r' then ['\\', 'r']
  else if c = '\t' then ['\\', 't']
  else if c = '\x08' then ['\\', 'b']
  else if c = '\x0c' then ['\\', 'f']
  else if c.toNat < 0x20 then
    ['\\', 'u', '0', '0', Nat.digitChar (c.toNat / 16), Nat.digitChar (c.toNat % 16)]
  else [c]

/-- The text of a string. -/
def dumpsString (s : String) : List Char := '"' :: (s.toList.flatMap escape ++ ['"'])

/-- The text of an integer. -/
def dumpsInt : ℤ → List Char
  | .ofNat n => Nat.toDigits 10 n
  | .negSucc n => '-' :: Nat.toDigits 10 (n + 1)

section Dumps

variable (fl : FloatText)

mutual

/-- `json.dumps(value, ensure_ascii=False, sort_keys=False)`. -/
def dumps : Json → List Char
  | .null => "null".toList
  | .bool true => "true".toList
  | .bool false => "false".toList
  | .int n => dumpsInt n
  | .float bits => fl.text bits
  | .str s => dumpsString s
  | .arr items => '[' :: (dumpsItems true items ++ [']'])
  | .obj fields => '{' :: (dumpsFields true fields ++ ['}'])

/-- The text between the brackets of an array, or of its items but the first ones. -/
def dumpsItems (first : Bool) : List Json → List Char
  | [] => []
  | v :: items => (if first then [] else [',', ' ']) ++ dumps v ++ dumpsItems false items

/-- The text between the braces of an object, or of its fields but the first ones. -/
def dumpsFields (first : Bool) : List (String × Json) → List Char
  | [] => []
  | (k, v) :: fields =>
    (if first then [] else [',', ' ']) ++ dumpsString k ++ ':' :: ' ' :: dumps v ++
      dumpsFields false fields

end

section Spaced

variable (space : List Char)

mutual

/-- `json.dumps(value, ensure_ascii=False, separators=("," + space, ":" + space))`. -/
def dumpsSpaced : Json → List Char
  | .arr items => '[' :: (dumpsSpacedItems true items ++ [']'])
  | .obj fields => '{' :: (dumpsSpacedFields true fields ++ ['}'])
  | v => dumps fl v

/-- The text between the brackets of an array, or of its items but the first ones. -/
def dumpsSpacedItems (first : Bool) : List Json → List Char
  | [] => []
  | v :: items =>
    (if first then [] else ',' :: space) ++ dumpsSpaced v ++ dumpsSpacedItems false items

/-- The text between the braces of an object, or of its fields but the first ones. -/
def dumpsSpacedFields (first : Bool) : List (String × Json) → List Char
  | [] => []
  | (k, v) :: fields =>
    (if first then [] else ',' :: space) ++ dumpsString k ++ ':' :: space ++ dumpsSpaced v ++
      dumpsSpacedFields false fields

end

end Spaced

section Escaped

variable (esc : Char → List Char) (space : List Char)

/-- The text of a string whose characters are written by `esc`. -/
def dumpsStringWith (s : String) : List Char := '"' :: (s.toList.flatMap esc ++ ['"'])

mutual

/-- The text of a value with strings whose characters are written by `esc`. -/
def dumpsWith : Json → List Char
  | .str s => dumpsStringWith esc s
  | .arr items => '[' :: (dumpsItemsWith true items ++ [']'])
  | .obj fields => '{' :: (dumpsFieldsWith true fields ++ ['}'])
  | v => dumps fl v

/-- The text between the brackets of an array, or of its items but the first ones. -/
def dumpsItemsWith (first : Bool) : List Json → List Char
  | [] => []
  | v :: items =>
    (if first then [] else ',' :: space) ++ dumpsWith v ++ dumpsItemsWith false items

/-- The text between the braces of an object, or of its fields but the first ones. -/
def dumpsFieldsWith (first : Bool) : List (String × Json) → List Char
  | [] => []
  | (k, v) :: fields =>
    (if first then [] else ',' :: space) ++ dumpsStringWith esc k ++ ':' :: space ++ dumpsWith v ++
      dumpsFieldsWith false fields

end

end Escaped

/-- A new line within brackets. -/
def newLine (level : ℕ) : List Char := '\n' :: List.replicate (2 * level) ' '

mutual

/-- `json.dumps(value, indent=2, ensure_ascii=False, sort_keys=False)`, within brackets. -/
def dumpsIndented (level : ℕ) : Json → List Char
  | .arr [] => ['[', ']']
  | .arr (v :: items) =>
    '[' :: (dumpsIndentedItems (level + 1) true (v :: items) ++ newLine level ++ [']'])
  | .obj [] => ['{', '}']
  | .obj (f :: fields) =>
    '{' :: (dumpsIndentedFields (level + 1) true (f :: fields) ++ newLine level ++ ['}'])
  | v => dumps fl v

/-- The lines of the items of an array, or of its items but the first ones. -/
def dumpsIndentedItems (level : ℕ) (first : Bool) : List Json → List Char
  | [] => []
  | v :: items => (if first then [] else [',']) ++ newLine level ++ dumpsIndented level v ++
      dumpsIndentedItems level false items

/-- The lines of the fields of an object, or of its fields but the first ones. -/
def dumpsIndentedFields (level : ℕ) (first : Bool) : List (String × Json) → List Char
  | [] => []
  | (k, v) :: fields => (if first then [] else [',']) ++ newLine level ++ dumpsString k ++
      ':' :: ' ' :: dumpsIndented level v ++ dumpsIndentedFields level false fields

end

end Dumps

/-! ### Reading -/

/-- Why a text cannot be read. -/
inductive LoadsError
  /-- `JSONDecodeError`, with what is left of the text at its position. -/
  | decode (message : String) (rest : List Char)
  /-- `ValueError`, of an integer with too many digits. -/
  | tooManyDigits (count : ℕ)
  /-- The text has the escape sequence of an unpaired surrogate. -/
  | surrogate
deriving DecidableEq

/-- The white space between the parts of a text. -/
def isJsonSpace (c : Char) : Bool := c = ' ' || c = '\t' || c = '\n' || c = '\r'

def skipSpace (t : List Char) : List Char := t.dropWhile isJsonSpace

/-- The character that a letter stands for behind a backslash. -/
def unescape? (c : Char) : Option Char :=
  if c = '"' then some '"'
  else if c = '\\' then some '\\'
  else if c = '/' then some '/'
  else if c = 'b' then some '\x08'
  else if c = 'f' then some '\x0c'
  else if c = 'n' then some '\n'
  else if c = 'r' then some '\r'
  else if c = 't' then some '\t'
  else none

/-- The value of a hexadecimal digit. -/
def hexValue? (c : Char) : Option ℕ :=
  if '0' ≤ c ∧ c ≤ '9' then some (c.toNat - '0'.toNat)
  else if 'a' ≤ c ∧ c ≤ 'f' then some (c.toNat - 'a'.toNat + 10)
  else if 'A' ≤ c ∧ c ≤ 'F' then some (c.toNat - 'A'.toNat + 10)
  else none

/-- The number of four hexadecimal digits, which are not the end of the text. -/
def hex4? : List Char → Option (ℕ × List Char)
  | a :: b :: c :: d :: e :: t => do
    let a ← hexValue? a
    let b ← hexValue? b
    let c ← hexValue? c
    let d ← hexValue? d
    some (((a * 16 + b) * 16 + c) * 16 + d, e :: t)
  | _ => none

/-- The character of an escape sequence with the text `t` behind its `u`. -/
def scanUnicode (t : List Char) : Except LoadsError (Char × List Char) :=
  match hex4? t with
  | none => .error (.decode "Invalid \\uXXXX escape" ('u' :: t))
  | some (n, t) =>
    if 0xD800 ≤ n ∧ n ≤ 0xDBFF then
      match t with
      | '\\' :: 'u' :: u =>
        match hex4? u with
        | none =>
          -- The digits of a second sequence are read only where there is room for them.
          if 5 ≤ u.length then .error (.decode "Invalid \\uXXXX escape" ('u' :: u))
          else .error .surrogate
        | some (low, u) =>
          if 0xDC00 ≤ low ∧ low ≤ 0xDFFF then
            .ok (Char.ofNat (0x10000 + (n - 0xD800) * 0x400 + (low - 0xDC00)), u)
          else .error .surrogate
      | _ => .error .surrogate
    else if 0xDC00 ≤ n ∧ n ≤ 0xDFFF then .error .surrogate
    else .ok (Char.ofNat n, t)

/-- A character of the string that begins at `start`, in the text `t` before its end. -/
def scanChar (start : List Char) : (t : List Char) → Except LoadsError (Char × List Char)
  | [] => .error (.decode "Unterminated string starting at" start)
  | '\\' :: [] => .error (.decode "Unterminated string starting at" start)
  | '\\' :: 'u' :: t => scanUnicode t
  | '\\' :: c :: t =>
    match unescape? c with
    | some d => .ok (d, t)
    | none => .error (.decode "Invalid \\escape" ('\\' :: c :: t))
  | c :: t =>
    if c.toNat ≤ 0x1F then .error (.decode "Invalid control character at" (c :: t))
    else .ok (c, t)

/-- The rest of the string that begins at `start`. -/
def scanString (start : List Char) : ℕ → List Char → Except LoadsError (List Char × List Char)
  | _, '"' :: t => .ok ([], t)
  | 0, _ => .error (.decode "Unterminated string starting at" start)
  | n + 1, t => do
    let (c, t) ← scanChar start t
    let (s, t) ← scanString start n t
    .ok (c :: s, t)

/-- The digits at the beginning of a text. -/
def scanDigits (t : List Char) : List Char × List Char :=
  (t.takeWhile Char.isDigit, t.dropWhile Char.isDigit)

/-- The sign of a number, if there is one. -/
def scanSign : List Char → List Char × List Char
  | '-' :: t => (['-'], t)
  | t => ([], t)

/-- The integer part of a number. -/
def scanInteger : List Char → Option (List Char × List Char)
  | '0' :: t => some (['0'], t)
  | c :: t => if c.isDigit then some (c :: (scanDigits t).1, (scanDigits t).2) else none
  | [] => none

/-- The fraction of a number, if there is one. -/
def scanFraction : List Char → List Char × List Char
  | '.' :: c :: t =>
    if c.isDigit then ('.' :: c :: (scanDigits t).1, (scanDigits t).2) else ([], '.' :: c :: t)
  | t => ([], t)

/-- The exponent of a number, if there is one. -/
def scanExponent : List Char → List Char × List Char
  | e :: t =>
    let sign := t.takeWhile (fun c => c = '+' ∨ c = '-') |>.take 1
    let (digits, u) := scanDigits (t.drop sign.length)
    if (e = 'e' ∨ e = 'E') ∧ digits ≠ [] then (e :: (sign ++ digits), u) else ([], e :: t)
  | [] => ([], [])

/-- The numeral of a number at the beginning of a text, and whether it is one of a floating-point
number. -/
def scanNumeral (t : List Char) : Option (List Char × Bool × List Char) :=
  let (sign, u) := scanSign t
  match scanInteger u with
  | none => none
  | some (digits, u) =>
    let (fraction, u) := scanFraction u
    let (exponent, u) := scanExponent u
    some (sign ++ digits ++ fraction ++ exponent, !(fraction ++ exponent).isEmpty, u)

/-- The integer of a numeral. -/
def readInt : List Char → ℤ
  | '-' :: digits => -(Nat.ofDigitChars 10 digits 0 : ℤ)
  | digits => (Nat.ofDigitChars 10 digits 0 : ℤ)

section Loads

variable (fl : FloatText)

/-- The named constants. -/
def constants : List (List Char × Json) :=
  [("null".toList, .null), ("true".toList, .bool true), ("false".toList, .bool false),
    ("NaN".toList, .float (fl.read "NaN".toList)),
    ("Infinity".toList, .float (fl.read "Infinity".toList)),
    ("-Infinity".toList, .float (fl.read "-Infinity".toList))]

/-- The constant at the beginning of a text. -/
def scanConstant (t : List Char) : Option (Json × List Char) :=
  (constants fl).findSome? fun c =>
    if c.1.isPrefixOf t then some (c.2, t.drop c.1.length) else none

/-- A number. -/
def scanNumber (t : List Char) : Except LoadsError (Json × List Char) :=
  match scanNumeral t with
  | none => .error (.decode "Expecting value" t)
  | some (numeral, true, u) => .ok (.float (fl.read numeral), u)
  | some (numeral, false, u) =>
    let count := numeral.countP Char.isDigit
    if 4300 < count then .error (.tooManyDigits count) else .ok (.int (readInt numeral), u)

/-- A constant or a number. -/
def scanScalar (t : List Char) : Except LoadsError (Json × List Char) :=
  match scanConstant fl t with
  | some (v, u) => .ok (v, u)
  | none => scanNumber fl t

/-- The object with a field set, which keeps its place if it is there. -/
def JsonObject.insert (o : JsonObject) (k : String) (v : Json) : JsonObject :=
  if k ∈ o.map Prod.fst then o.map fun f => if f.1 = k then (k, v) else f else o ++ [(k, v)]

mutual

/-- The value at the beginning of a text. -/
def scanValue : ℕ → List Char → Except LoadsError (Json × List Char)
  | 0, t => .error (.decode "Expecting value" t)
  | n + 1, t =>
    match t with
    | '"' :: u => do
      let (s, u) ← scanString t u.length u
      .ok (.str (String.ofList s), u)
    | '[' :: u =>
      match skipSpace u with
      | ']' :: u => .ok (.arr [], u)
      | u => do
        let (items, u) ← scanItems n u
        .ok (.arr items, u)
    | '{' :: u =>
      match skipSpace u with
      | '}' :: u => .ok (.obj [], u)
      | u => do
        let (fields, u) ← scanFields n [] u
        .ok (.obj fields, u)
    | t => scanScalar fl t

/-- The items of an array up to its end. -/
def scanItems : ℕ → List Char → Except LoadsError (List Json × List Char)
  | 0, t => .error (.decode "Expecting value" t)
  | n + 1, t => do
    let (v, t) ← scanValue n t
    match skipSpace t with
    | ']' :: u => .ok ([v], u)
    | ',' :: u => do
      let (items, u) ← scanItems n (skipSpace u)
      .ok (v :: items, u)
    | u => .error (.decode "Expecting ',' delimiter" u)

/-- The fields of an object up to its end, which are added to those that were read. -/
def scanFields : ℕ → JsonObject → List Char → Except LoadsError (JsonObject × List Char)
  | 0, _, t => .error (.decode "Expecting value" t)
  | n + 1, o, t =>
    match t with
    | '"' :: u => do
      let (k, u) ← scanString t u.length u
      match skipSpace u with
      | ':' :: u => do
        let (v, u) ← scanValue n (skipSpace u)
        match skipSpace u with
        | '}' :: u => .ok (o.insert (String.ofList k) v, u)
        | ',' :: u => scanFields n (o.insert (String.ofList k) v) (skipSpace u)
        | u => .error (.decode "Expecting ',' delimiter" u)
      | u => .error (.decode "Expecting ':' delimiter" u)
    | u => .error (.decode "Expecting property name enclosed in double quotes" u)

end

/-- `json.loads(text)`. -/
def loads (t : List Char) : Except LoadsError Json :=
  match t with
  | '\uFEFF' :: _ => .error (.decode "Unexpected UTF-8 BOM (decode using utf-8-sig)" t)
  | t => do
    let u := skipSpace t
    -- Every two calls one within the other go past a character.
    let (v, u) ← scanValue fl (2 * u.length + 1) u
    match skipSpace u with
    | [] => .ok v
    | u => .error (.decode "Extra data" u)

end Loads

end OpenRath
