import ProgramDiagram.Number.Decimal
import ProgramDiagram.Xml.Character

/-!
# References and line ends

In text and attribute values a reference stands for a character. Line ends written as they are
become line feeds in text and spaces in attribute values; characters from references stay.

* `pieces?`: a text with its references resolved, none if one cannot be.
* `textValue`, `attributeValue`: what the pieces stand for.
-/

namespace ProgramDiagram.Xml

/-- A character that is written as it is or as a reference. -/
inductive Piece where
  | plain (c : Char)
  | reference (c : Char)

/-- The value of a run of hexadecimal digits. -/
def hexRun? (cs : List Char) : Option Nat :=
  cs.foldl (fun n? c => do
    let n ← n?
    if c.isDigit then some (16 * n + (c.toNat - '0'.toNat))
    else if 'a' ≤ c ∧ c ≤ 'f' then some (16 * n + (c.toNat - 'a'.toNat + 10))
    else if 'A' ≤ c ∧ c ≤ 'F' then some (16 * n + (c.toNat - 'A'.toNat + 10))
    else none) (if cs.isEmpty then none else some 0)

def digitRun? (cs : List Char) : Option Nat :=
  if cs.isEmpty || !cs.all Char.isDigit then none else some (digitsValue cs)

/-- The character with a code. A code of 32 bits that no character has gives the replacement
character. -/
def ofCode? (n : Nat) : Option Char :=
  if n < twoTo 32 then
    let c := if n.isValidChar then Char.ofNat n else '\uFFFD'
    if isDocumentChar c then some c else none
  else none

/-- The character that a reference stands for, from what is between `&` and `;`. -/
def referenced? : List Char → Option Char
  | '#' :: 'x' :: digits => hexRun? digits >>= ofCode?
  | '#' :: digits => digitRun? digits >>= ofCode?
  | name =>
    if name = "amp".toList then some '&'
    else if name = "lt".toList then some '<'
    else if name = "gt".toList then some '>'
    else if name = "quot".toList then some '"'
    else if name = "apos".toList then some '\''
    else none

/-- A text with its references resolved. -/
def pieces? : List Char → Option (List Piece)
  | [] => some []
  | c :: cs =>
    if c = '&' then
      match h : cs.dropWhile (· ≠ ';') with
      | [] => none
      | _ :: rest => do
        let r ← referenced? (cs.takeWhile (· ≠ ';'))
        have : rest.length < cs.length := length_lt_of_dropWhile h
        let ps ← pieces? rest
        some (.reference r :: ps)
    else do
      let ps ← pieces? cs
      some (.plain c :: ps)
termination_by cs => cs.length

/-- The characters of a text. A carriage return becomes a line feed together with a line feed after
it; it stays if a reference comes next, or if a reference came before it and nothing comes after. -/
def textValue (afterReference : Bool) : List Piece → List Char
  | [] => []
  | .reference c :: rest => c :: textValue true rest
  | .plain '\r' :: [] => if afterReference then ['\r'] else ['\n']
  | .plain '\r' :: .plain '\n' :: rest => '\n' :: textValue false rest
  | .plain '\r' :: .reference c :: rest => '\r' :: c :: textValue true rest
  | .plain '\r' :: rest => '\n' :: textValue false rest
  | .plain c :: rest => c :: textValue false rest

/-- The characters of an attribute value: every line end or tab is a space. -/
def attributeValue : List Piece → List Char
  | [] => []
  | .reference c :: rest => c :: attributeValue rest
  | .plain '\r' :: .plain '\n' :: rest => ' ' :: attributeValue rest
  | .plain c :: rest =>
    (if c = '\t' ∨ c = '\n' ∨ c = '\r' then ' ' else c) :: attributeValue rest

end ProgramDiagram.Xml
