import ProgramDiagram.Xml.Tree

/-!
# Documents

A document is one element. Comments, processing instructions and white space may stand around it,
and a declaration at the very start; document types are not read.

* `readDocument?`: the root element of a text, none if the text is not a well-formed document.
-/

namespace ProgramDiagram.Xml

/-- An element whose end tag is not read yet, with its content so far, newest first. -/
structure Frame where
  element : OpenElement
  content : List Tree

/-- The state after a part of an element: it is complete, or elements are open, innermost first. -/
inductive Partial where
  | complete (root : Tree)
  | inside (frame : Frame) (outer : List Frame)

/-- A tree put into the innermost open element, or standing on its own. -/
def place (tree : Tree) : List Frame → Partial
  | [] => .complete tree
  | frame :: outer => .inside { frame with content := tree :: frame.content } outer

/-- The prefixes in scope inside the innermost open element. -/
def scopeOf : List Frame → Scope
  | [] => []
  | frame :: _ => frame.element.scope

/-- The effect of a token inside open elements. -/
def Token.apply? (frames : List Frame) : Token → Option Partial
  | .start tag attributes closed => do
    let element ← openElement? (scopeOf frames) tag attributes
    some (if closed then place (element.close []) frames else .inside ⟨element, []⟩ frames)
  | .finish tag =>
    match frames with
    | frame :: outer =>
      if tag = frame.element.tag then
        some (place (frame.element.close frame.content.reverse) outer)
      else none
    | [] => none
  | .text value =>
    match frames with
    | frame :: outer => some (place (.text value) (frame :: outer))
    | [] => none
  | .note =>
    match frames with
    | frame :: outer => some (.inside frame outer)
    | [] => none

/-- Reads on until the outermost open element is complete. -/
def readElement? (frames : List Frame) (cs : List Char) : Option (Tree × List Char) :=
  match h : token? cs with
  | none => none
  | some (t, rest) =>
    have : rest.length < cs.length := length_lt_of_token? h
    match t.apply? frames with
    | none => none
    | some (.complete root) => some (root, rest)
    | some (.inside frame outer) => readElement? (frame :: outer) rest
termination_by cs.length

/-- Whether a text starts with a comment or processing instruction. -/
def startsNote (cs : List Char) : Bool :=
  "<!--".toList.isPrefixOf cs || "<?".toList.isPrefixOf cs

/-- What follows the comments, processing instructions and white space at the start of a text. -/
def afterNotes? (cs : List Char) : Option (List Char) :=
  if startsNote (skipSpaces cs) then
    match h : token? (skipSpaces cs) with
    | none => none
    | some (_, rest) =>
      have : rest.length < cs.length :=
        Nat.lt_of_lt_of_le (length_lt_of_token? h) (length_skipSpaces_le cs)
      afterNotes? rest
  else some (skipSpaces cs)
termination_by cs.length

/-- White space between the parts of a declaration, needed unless the declaration ends. -/
def declarationSpace? (cs : List Char) : Option (List Char) :=
  match cs with
  | c :: _ =>
    if isSpace c then some (skipSpaces cs)
    else if "?>".toList.isPrefixOf cs then some cs
    else none
  | [] => some []

/-- What follows an attribute that a declaration may have. -/
def afterDeclared? (key : List Char) (cs : List Char) : Option (List Char) :=
  if key.isPrefixOf cs then do
    let (_, _, rest) ← rawAttribute? cs
    declarationSpace? rest
  else some cs

/-- What follows a declaration, which gives a version and may give an encoding and whether the
document stands alone. -/
def afterDeclaration? (cs : List Char) : Option (List Char) :=
  if "<?xml ".toList.isPrefixOf cs then do
    let cs := skipSpaces (cs.drop 5)
    if "version".toList.isPrefixOf cs then
      let cs ← afterDeclared? "version".toList cs
      let cs ← afterDeclared? "encoding".toList cs
      let cs ←
        if "standalone".toList.isPrefixOf cs then do
          let (_, _, rest) ← rawAttribute? cs
          some rest
        else some cs
      let cs := skipSpaces cs
      if "?>".toList.isPrefixOf cs then some (cs.drop 2) else none
    else none
  else some cs

/-- A text without a byte order mark at its start. -/
def afterOrderMark : List Char → List Char
  | '\uFEFF' :: cs => cs
  | cs => cs

/-- The root element of a document. -/
def readDocument? (text : String) : Option Tree := do
  let cs ← afterDeclaration? (afterOrderMark text.toList)
  let cs ← afterNotes? cs
  let (root, cs) ← readElement? [] cs
  let cs ← afterNotes? cs
  if cs.isEmpty then some root else none

end ProgramDiagram.Xml
