/-!
# Written JSON

* `Json.Value.compact`: a value on one line without blanks.
* `Json.Value.indented`: a value with one entry per line and two spaces per level; an empty array
  or object stays closed.
-/

namespace ProgramDiagram.Json

/-- A value that can be written. The fields of an object keep their order. -/
inductive Value where
  | null
  | bool (value : Bool)
  | string (text : String)
  | array (items : List Value)
  | object (fields : List (String × Value))

/-- The four hexadecimal digits of a control character. -/
def controlEscape (c : Char) : List Char :=
  let digits := Nat.toDigits 16 c.toNat
  ['\\', 'u'] ++ List.replicate (4 - digits.length) '0' ++ digits

/-- One character between the quotes of a string. -/
def stringChar (c : Char) : List Char :=
  if c = '"' then ['\\', '"']
  else if c = '\\' then ['\\', '\\']
  else if c = '\x08' then ['\\', 'b']
  else if c = '\x0c' then ['\\', 'f']
  else if c = '\n' then ['\\', 'n']
  else if c = '\r' then ['\\', 'r']
  else if c = '\t' then ['\\', 't']
  else if c.toNat < 0x20 then controlEscape c
  else [c]

/-- A string with its quotes. -/
def stringText (text : String) : String :=
  String.ofList ('"' :: text.toList.flatMap stringChar ++ ['"'])

def boolText : Bool → String
  | true => "true"
  | false => "false"

mutual

/-- A value on one line. -/
def Value.compact : Value → String
  | .null => "null"
  | .bool b => boolText b
  | .string s => stringText s
  | .array items => "[" ++ compactItems items ++ "]"
  | .object fields => "\x7b" ++ compactFields fields ++ "\x7d"

def compactItems : List Value → String
  | [] => ""
  | [item] => item.compact
  | item :: rest => item.compact ++ "," ++ compactItems rest

def compactFields : List (String × Value) → String
  | [] => ""
  | [(key, value)] => stringText key ++ ":" ++ value.compact
  | (key, value) :: rest => stringText key ++ ":" ++ value.compact ++ "," ++ compactFields rest

end

/-- The start of a line at a depth. -/
def lineStart (depth : Nat) : String := "\n" ++ String.ofList (List.replicate (2 * depth) ' ')

mutual

/-- A value whose entries stand on lines of their own, `depth` levels in. -/
def Value.indented (depth : Nat) : Value → String
  | .null => "null"
  | .bool b => boolText b
  | .string s => stringText s
  | .array [] => "[]"
  | .array items => "[" ++ indentedItems (depth + 1) items ++ lineStart depth ++ "]"
  | .object [] => "\x7b\x7d"
  | .object fields => "\x7b" ++ indentedFields (depth + 1) fields ++ lineStart depth ++ "\x7d"

def indentedItems (depth : Nat) : List Value → String
  | [] => ""
  | [item] => lineStart depth ++ item.indented depth
  | item :: rest => lineStart depth ++ item.indented depth ++ "," ++ indentedItems depth rest

def indentedFields (depth : Nat) : List (String × Value) → String
  | [] => ""
  | [(key, value)] => lineStart depth ++ stringText key ++ ": " ++ value.indented depth
  | (key, value) :: rest =>
    lineStart depth ++ stringText key ++ ": " ++ value.indented depth ++ ","
      ++ indentedFields depth rest

end

end ProgramDiagram.Json
