import ProgramDiagram.Json.Literal

/-!
# JSON texts

* `Source.read?`: the structure of a text, none if the text is not JSON. Literals keep what they
  are written as.
-/

namespace ProgramDiagram.Json

/-- The structure of a JSON text. -/
inductive Source where
  | null
  | bool (value : Bool)
  | number (literal : NumberLiteral)
  | string (parts : List StringPart)
  | array (items : List Source)
  | object (fields : List (List StringPart × Source))

/-- A text without the blanks before its next token. -/
def skipBlanks (cs : List Char) : List Char :=
  cs.dropWhile fun c => c = ' ' || c = '\t' || c = '\n' || c = '\r'

def hexValue? (c : Char) : Option Nat :=
  if c.isDigit then some (c.toNat - '0'.toNat)
  else if 'a' ≤ c ∧ c ≤ 'f' then some (c.toNat - 'a'.toNat + 10)
  else if 'A' ≤ c ∧ c ≤ 'F' then some (c.toNat - 'A'.toNat + 10)
  else none

/-- The unit that four hexadecimal digits give. -/
def unit? (a b c d : Char) : Option Nat := do
  let a ← hexValue? a
  let b ← hexValue? b
  let c ← hexValue? c
  let d ← hexValue? d
  some (((a * 16 + b) * 16 + c) * 16 + d)

/-- The character of a short escape. -/
def shortEscape? (c : Char) : Option Char :=
  if c = '"' ∨ c = '\\' ∨ c = '/' then some c
  else if c = 'b' then some '\x08'
  else if c = 'f' then some '\x0c'
  else if c = 'n' then some '\n'
  else if c = 'r' then some '\r'
  else if c = 't' then some '\t'
  else none

/-- The parts of a string whose opening quote is read, and what follows its closing quote. -/
def readString? : List Char → Option (List StringPart × List Char)
  | [] => none
  | '"' :: rest => some ([], rest)
  | '\\' :: 'u' :: a :: b :: c :: d :: rest => do
    let n ← unit? a b c d
    let (parts, rest) ← readString? rest
    some (.unit n :: parts, rest)
  | '\\' :: c :: rest => do
    let escaped ← shortEscape? c
    let (parts, rest) ← readString? rest
    some (.char escaped :: parts, rest)
  | c :: rest => do
    if c.toNat < 0x20 ∨ c = '\\' then none
    else
      let (parts, rest) ← readString? rest
      some (.char c :: parts, rest)

/-- The whole part of a number: one zero, or digits that do not start with one. -/
def readWhole? (cs : List Char) : Option (List Char × List Char) :=
  match cs with
  | '0' :: rest => some (['0'], rest)
  | _ =>
    let (digits, rest) := spanDigits cs
    if digits.isEmpty then none else some (digits, rest)

/-- The fraction of a number, empty if there is no point. -/
def readFraction? (cs : List Char) : Option (List Char × List Char) :=
  match cs with
  | '.' :: rest =>
    let (digits, rest) := spanDigits rest
    if digits.isEmpty then none else some (digits, rest)
  | _ => some ([], cs)

/-- The exponent of a number with its sign, empty if there is none. -/
def readExponent? (cs : List Char) : Option (Bool × List Char × List Char) :=
  match cs with
  | c :: rest =>
    if c = 'e' ∨ c = 'E' then
      let (negative, rest) :=
        match rest with
        | '-' :: r => (true, r)
        | '+' :: r => (false, r)
        | r => (false, r)
      let (digits, rest) := spanDigits rest
      if digits.isEmpty then none else some (negative, digits, rest)
    else some (false, [], cs)
  | [] => some (false, [], cs)

def readNumber? (cs : List Char) : Option (NumberLiteral × List Char) := do
  let (negative, cs) :=
    match cs with
    | '-' :: rest => (true, rest)
    | rest => (false, rest)
  let (whole, cs) ← readWhole? cs
  let (fraction, cs) ← readFraction? cs
  let (exponentNegative, exponent, cs) ← readExponent? cs
  some (⟨negative, whole, fraction, exponentNegative, exponent⟩, cs)

mutual

/-- A value and what follows it. The fuel bounds the steps. -/
def readValue? : Nat → List Char → Option (Source × List Char)
  | 0, _ => none
  | fuel + 1, cs =>
    match skipBlanks cs with
    | 'n' :: 'u' :: 'l' :: 'l' :: rest => some (.null, rest)
    | 't' :: 'r' :: 'u' :: 'e' :: rest => some (.bool true, rest)
    | 'f' :: 'a' :: 'l' :: 's' :: 'e' :: rest => some (.bool false, rest)
    | '"' :: rest => (readString? rest).map fun (parts, rest) => (.string parts, rest)
    | '[' :: rest =>
      match skipBlanks rest with
      | ']' :: rest => some (.array [], rest)
      | rest => (readItems? fuel rest).map fun (items, rest) => (.array items, rest)
    | '{' :: rest =>
      match skipBlanks rest with
      | '}' :: rest => some (.object [], rest)
      | rest => (readFields? fuel rest).map fun (fields, rest) => (.object fields, rest)
    | rest => (readNumber? rest).map fun (literal, rest) => (.number literal, rest)

/-- The items of an array and what follows its closing bracket. -/
def readItems? : Nat → List Char → Option (List Source × List Char)
  | 0, _ => none
  | fuel + 1, cs => do
    let (item, cs) ← readValue? fuel cs
    match skipBlanks cs with
    | ']' :: rest => some ([item], rest)
    | ',' :: rest => (readItems? fuel rest).map fun (items, rest) => (item :: items, rest)
    | _ => none

/-- The fields of an object and what follows its closing brace. -/
def readFields? : Nat → List Char → Option (List (List StringPart × Source) × List Char)
  | 0, _ => none
  | fuel + 1, cs => do
    match skipBlanks cs with
    | '"' :: rest =>
      let (key, cs) ← readString? rest
      match skipBlanks cs with
      | ':' :: rest =>
        let (value, cs) ← readValue? fuel rest
        match skipBlanks cs with
        | '}' :: rest => some ([(key, value)], rest)
        | ',' :: rest =>
          (readFields? fuel rest).map fun (fields, rest) => ((key, value) :: fields, rest)
        | _ => none
      | _ => none
    | _ => none

end

/-- The structure of a text. Every other step takes a character, which bounds their number. -/
def Source.read? (text : String) : Option Source := do
  let (value, rest) ← readValue? (2 * text.length + 2) text.toList
  if (skipBlanks rest).isEmpty then some value else none

end ProgramDiagram.Json
