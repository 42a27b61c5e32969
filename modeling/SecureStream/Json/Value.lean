import SecureStream.Json.Token
import SecureStream.Text.Decimal

/-!
# JSON values

Values, how they are read from the tokens of a text, and how they are written without any blanks. A record may be
written as an object, with its fields in any order, or as an array of its fields in their order.
-/

namespace SecureStream

/-- A JSON value. The names in an object may repeat. -/
inductive JsonValue where
  | null
  | bool (b : Bool)
  /-- A number as it is written. -/
  | number (literal : List Char)
  /-- A string, or nothing if its escapes make no characters. -/
  | string (s : Option String)
  | array (items : List JsonValue)
  | object (members : List (Option String × JsonValue))
  deriving Repr

namespace JsonValue

mutual

/-- Reads a value from the front of the tokens, with so many steps to spend. -/
def read : (steps : Nat) → List JsonToken → Option (JsonValue × List JsonToken)
  | 0, _ => none
  | steps + 1, tokens =>
    match tokens with
    | .null :: rest => some (.null, rest)
    | .bool b :: rest => some (.bool b, rest)
    | .number literal :: rest => some (.number literal, rest)
    | .string s :: rest => some (.string s, rest)
    -- an empty array has no items, and `readItems` reads one at least
    | .openArray :: .closeArray :: rest => some (.array [], rest)
    | .openArray :: rest => (readItems steps rest).map fun (items, rest) => (.array items, rest)
    | .openObject :: .closeObject :: rest => some (.object [], rest)
    | .openObject :: rest => (readMembers steps rest).map fun (members, rest) => (.object members, rest)
    | _ => none

def readItems : (steps : Nat) → List JsonToken → Option (List JsonValue × List JsonToken)
  | 0, _ => none
  | steps + 1, tokens =>
    match read steps tokens with
    | some (item, .comma :: rest) => (readItems steps rest).map fun (items, rest) => (item :: items, rest)
    | some (item, .closeArray :: rest) => some ([item], rest)
    | _ => none

def readMembers : (steps : Nat) → List JsonToken → Option (List (Option String × JsonValue) × List JsonToken)
  | 0, _ => none
  | steps + 1, .string name :: .colon :: tokens =>
    match read steps tokens with
    | some (item, .comma :: rest) =>
      (readMembers steps rest).map fun (members, rest) => ((name, item) :: members, rest)
    | some (item, .closeObject :: rest) => some ([(name, item)], rest)
    | _ => none
  | _ + 1, _ => none

end

/-- The value that a text consists of. Reading a token takes two steps at most. -/
def ofText? (text : String) : Option JsonValue := do
  let tokens ← JsonToken.ofText? text.toList
  match read (2 * tokens.length + 1) tokens with
  | some (value, []) => some value
  | _ => none

/-- A character as it stands in a string. -/
def quotedChar (c : Char) : List Char :=
  match c with
  | '"' => ['\\', '"']
  | '\\' => ['\\', '\\']
  | '\x08' => ['\\', 'b']
  | '\x0c' => ['\\', 'f']
  | '\n' => ['\\', 'n']
  | '\r' => ['\\', 'r']
  | '\t' => ['\\', 't']
  | c =>
    if c.toNat < 0x10 then ['\\', 'u', '0', '0', '0', Nat.digitChar c.toNat]
    else if c.toNat < 0x20 then ['\\', 'u', '0', '0', '1', Nat.digitChar (c.toNat - 0x10)]
    else [c]

/-- A string in quotes. One that makes no characters is written as an empty one. -/
def quoted (s : Option String) : List Char := '"' :: (s.getD "").toList.flatMap quotedChar ++ ['"']

mutual

/-- The text of a value, without blanks. -/
def chars : JsonValue → List Char
  | .null => ['n', 'u', 'l', 'l']
  | .bool true => ['t', 'r', 'u', 'e']
  | .bool false => ['f', 'a', 'l', 's', 'e']
  | .number literal => literal
  | .string s => quoted s
  | .array items => '[' :: itemChars items ++ [']']
  | .object members => '\x7b' :: memberChars members ++ ['\x7d']

def itemChars : List JsonValue → List Char
  | [] => []
  | [item] => item.chars
  | item :: items => item.chars ++ ',' :: itemChars items

def memberChars : List (Option String × JsonValue) → List Char
  | [] => []
  | [(name, item)] => quoted name ++ ':' :: item.chars
  | (name, item) :: members => quoted name ++ ':' :: item.chars ++ ',' :: memberChars members

end

/-- The text of a value, without blanks. -/
def text (v : JsonValue) : String := String.ofList v.chars

def ofNat (n : Nat) : JsonValue := .number (Nat.toDigits 10 n)

/-- An object with the given names, in order. -/
def ofFields (fields : List (String × JsonValue)) : JsonValue :=
  .object (fields.map fun (name, v) => (some name, v))

/-- The number that a value is, if it is written by digits alone and not above `top`. -/
def nat? (top : Nat) : JsonValue → Option Nat
  | .number literal => Text.decimal? top literal
  | _ => none

/-- The values of a name among members. -/
def valuesOf (members : List (Option String × JsonValue)) (name : String) : List JsonValue :=
  (members.filter (·.1 == some name)).map (·.2)

/-- The fields of a record with the given names, in the order of the names. A field may be missing, but it must not
occur twice; other names do not count, as long as they are names. -/
def fields? (names : List String) : JsonValue → Option (List (Option JsonValue))
  | .array items =>
    if items.length ≤ names.length then
      some (items.map some ++ List.replicate (names.length - items.length) none)
    else none
  | .object members =>
    if members.all (·.1.isSome) then
      names.mapM fun name =>
        match valuesOf members name with
        | [] => some none
        | [v] => some (some v)
        | _ => none
    else none
  | _ => none

end JsonValue

end SecureStream
