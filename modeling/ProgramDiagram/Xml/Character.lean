import ProgramDiagram.Text.Ranges

/-!
# Characters of XML

The classes of characters that the grammar of XML documents refers to.
-/

namespace ProgramDiagram.Xml

def isSpace (c : Char) : Bool := c = ' ' || c = '\t' || c = '\n' || c = '\r'

/-- The characters that may stand in a document. -/
def isDocumentChar (c : Char) : Bool :=
  if c.toNat < 0x20 then isSpace c else c.toNat != 0xFFFE && c.toNat != 0xFFFF

/-- The ranges of characters beyond ASCII that may start a name. -/
def nameStartRanges : List (Nat × Nat) :=
  [(0xC0, 0xD6), (0xD8, 0xF6), (0xF8, 0x2FF), (0x370, 0x37D), (0x37F, 0x1FFF), (0x200C, 0x200D),
   (0x2070, 0x218F), (0x2C00, 0x2FEF), (0x3001, 0xD7FF), (0xF900, 0xFDCF), (0xFDF0, 0xFFFD),
   (0x10000, 0xEFFFF)]

/-- The ranges of characters beyond ASCII that may stand in a name but not start it. -/
def nameExtraRanges : List (Nat × Nat) := [(0xB7, 0xB7), (0x300, 0x36F), (0x203F, 0x2040)]

def isNameStart (c : Char) : Bool :=
  c.isAlpha || c = ':' || c = '_' || inRanges c.toNat nameStartRanges

def isNameChar (c : Char) : Bool :=
  isNameStart c || c.isDigit || c = '-' || c = '.' || inRanges c.toNat nameExtraRanges

def skipSpaces (cs : List Char) : List Char := cs.dropWhile isSpace

def startsSpace : List Char → Bool
  | [] => false
  | c :: _ => isSpace c

theorem length_dropWhile_le {p : Char → Bool} (cs : List Char) :
    (cs.dropWhile p).length ≤ cs.length :=
  (List.dropWhile_sublist p).length_le

theorem length_lt_of_dropWhile {p : Char → Bool} {cs rest : List Char} {c : Char}
    (h : cs.dropWhile p = c :: rest) : rest.length < cs.length := by
  have h0 := length_dropWhile_le (p := p) cs
  rw [h, List.length_cons] at h0
  exact h0

theorem length_skipSpaces_le (cs : List Char) : (skipSpaces cs).length ≤ cs.length :=
  length_dropWhile_le cs

end ProgramDiagram.Xml
