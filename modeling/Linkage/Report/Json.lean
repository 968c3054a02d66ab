/-
JSON documents and their text: two blanks for every level of nesting, and one
line for every item and field.
-/

namespace Linkage

/-- A JSON value; objects keep the order of their fields. -/
inductive JsonValue where
  | bool (value : Bool)
  | number (value : Int)
  | string (value : String)
  | array (items : List JsonValue)
  | object (fields : List (String × JsonValue))

namespace JsonValue

def hexDigit (value : Nat) : Char :=
  if value < 10 then Char.ofNat (0x30 + value) else Char.ofNat (0x61 + value - 10)

/-- A character inside a quoted text. -/
def escapeChar (c : Char) : List Char :=
  if c = '"' then ['\\', '"']
  else if c = '\\' then ['\\', '\\']
  else if c = '\n' then ['\\', 'n']
  else if c = '\r' then ['\\', 'r']
  else if c = '\t' then ['\\', 't']
  else if c.toNat = 8 then ['\\', 'b']
  else if c.toNat = 12 then ['\\', 'f']
  else if c.toNat < 32 then
    ['\\', 'u', '0', '0', hexDigit (c.toNat / 16), hexDigit (c.toNat % 16)]
  else [c]

def quote (text : String) : String :=
  String.ofList ('"' :: text.toList.flatMap escapeChar ++ ['"'])

/-- The start of a line at a level of nesting. -/
def newLine (level : Nat) : String :=
  String.ofList ('\n' :: List.replicate (2 * level) ' ')

/-- Separates the parts of an array or object at a level of nesting. -/
def enclose (opening closing : String) (level : Nat) : List String → String
  | [] => opening ++ closing
  | parts =>
      opening ++ newLine (level + 1)
        ++ String.intercalate ("," ++ newLine (level + 1)) parts
        ++ newLine level ++ closing

mutual

/-- The text of a value at a level of nesting. -/
def prettyAt (level : Nat) : JsonValue → String
  | bool true => "true"
  | bool false => "false"
  | number value => toString value
  | string value => quote value
  | array items => enclose "[" "]" level (prettyItems (level + 1) items)
  | object fields => enclose "\x7b" "\x7d" level (prettyFields (level + 1) fields)

def prettyItems (level : Nat) : List JsonValue → List String
  | [] => []
  | item :: rest => prettyAt level item :: prettyItems level rest

def prettyFields (level : Nat) : List (String × JsonValue) → List String
  | [] => []
  | (name, value) :: rest =>
      (quote name ++ ": " ++ prettyAt level value) :: prettyFields level rest

end

def pretty (document : JsonValue) : String := prettyAt 0 document

end JsonValue

example : JsonValue.quote "a\"\n\x01" = "\"a\\\"\\n\\u0001\"" := by decide

end Linkage
