import ProgramDiagram.Text.Extender
import ProgramDiagram.Text.Printable

/-!
# Quoted texts

Messages show a text between double quotes. Quotes, backslashes and common controls have a short
escape; what cannot be shown on its own is given by its code point.
-/

namespace ProgramDiagram

/-- A code point in braces, in hexadecimal. -/
def codeEscape (c : Char) : List Char :=
  ['\\', 'u', '{'] ++ Nat.toDigits 16 c.toNat ++ ['}']

/-- The halfwidth sound marks extend the letter before them, but take a cell of their own. -/
def isSoundMark (c : Char) : Bool := c = '\uFF9E' || c = '\uFF9F'

/-- The fillers of Hangul syllables stand for a letter that is not there and show nothing. -/
def isFiller (c : Char) : Bool :=
  c = '\u115F' || c = '\u1160' || c = '\u3164' || c = '\uFFA0'

/-- Whether a character would not be seen, or not on its own. -/
def isHidden (c : Char) : Bool :=
  (isExtender c && !isSoundMark c) || isFiller c || !isPrintable c

/-- One character of a quoted text. -/
def quotedChar (c : Char) : List Char :=
  if c = '\x00' then ['\\', '0']
  else if c = '\t' then ['\\', 't']
  else if c = '\r' then ['\\', 'r']
  else if c = '\n' then ['\\', 'n']
  else if c = '"' then ['\\', '"']
  else if c = '\\' then ['\\', '\\']
  else if isHidden c then codeEscape c
  else [c]

/-- A text in double quotes. -/
def quoted (text : String) : String :=
  String.ofList ('"' :: text.toList.flatMap quotedChar ++ ['"'])

end ProgramDiagram
