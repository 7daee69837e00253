import ProgramDiagram.Text.Ranges

/-!
# White space

* `isBlank`: the characters with the White_Space property.
* `trim`: a text without the white space at its two ends.
-/

namespace ProgramDiagram

/-- The ranges of the White_Space property. -/
def blankRanges : List (Nat × Nat) :=
  [(0x9, 0xD), (0x20, 0x20), (0x85, 0x85), (0xA0, 0xA0), (0x1680, 0x1680), (0x2000, 0x200A),
   (0x2028, 0x2029), (0x202F, 0x202F), (0x205F, 0x205F), (0x3000, 0x3000)]

def isBlank (c : Char) : Bool := inRanges c.toNat blankRanges

def trimStart (cs : List Char) : List Char := cs.dropWhile isBlank

def trimEnd (cs : List Char) : List Char := (cs.reverse.dropWhile isBlank).reverse

def trim (cs : List Char) : List Char := trimEnd (trimStart cs)

/-- Whether a text holds white space only. -/
def allBlank (text : String) : Bool := text.toList.all isBlank

end ProgramDiagram
