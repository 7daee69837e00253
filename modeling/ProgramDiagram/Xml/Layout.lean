import ProgramDiagram.Text.Blank
import ProgramDiagram.Xml.Document
import ProgramDiagram.Xml.Markup

/-!
# Compact and indented documents

A document can be written anew without what only lays it out: comments, processing instructions and
white space between elements. An element that holds text keeps all its text as it is.

* `minify?`: the document on one line.
* `prettyPrint?`: one line for each element, indented by two spaces per level.
-/

namespace ProgramDiagram.Xml

/-- The first prefix in scope for a namespace. The default namespace has none. -/
def Scope.prefixFor? (scope : Scope) (space : String) : Option String :=
  if space = xmlSpace then some "xml"
  else ((scope.find? (·.2 = space)).map (·.1)).join

/-- A name with the first prefix in scope for its namespace. -/
def Scope.written (scope : Scope) (name : Name) : String :=
  match name.space.bind scope.prefixFor? with
  | some key => if key.isEmpty then name.localPart else key ++ ":" ++ name.localPart
  | none => name.localPart

/-- The declaration of a prefix as an attribute. -/
def declaration : Option String × String → String × String
  | (some key, space) => ("xmlns:" ++ key, space)
  | (none, space) => ("xmlns", space)

/-- The attributes in a start tag: the declarations that are not in scope around the element, then
the others. -/
def writtenAttributes (outer scope : Scope) (attributes : List (Name × String)) : Attributes :=
  (scope.filter (!outer.contains ·)).map declaration
    ++ attributes.map fun (name, value) => (scope.written name, value)

def Tree.isElement : Tree → Bool
  | .element .. => true
  | .text _ => false

/-- Whether a tree is a text that does not only lay the document out. -/
def Tree.isContent : Tree → Bool
  | .element .. => false
  | .text value => !allBlank value

/-- Whether an element with this content holds text. -/
def holdsText (content : List Tree) : Bool := content.any Tree.isContent

/-- An element, as one tag if it holds nothing. -/
def closedOrElement (name : String) (attributes : Attributes) (content : List Markup) : Markup :=
  if content.isEmpty then .leaf name attributes else .element name attributes content

mutual

/-- A tree without layout. -/
def compact (outer : Scope) : Tree → Markup
  | .text value => .text value
  | .element name scope attributes content =>
    closedOrElement (scope.written name) (writtenAttributes outer scope attributes)
      (compactContent scope (holdsText content) content)

/-- The content of an element that holds text or none. -/
def compactContent (scope : Scope) (keepTexts : Bool) : List Tree → List Markup
  | [] => []
  | tree :: rest =>
    if tree.isElement || keepTexts then
      compact scope tree :: compactContent scope keepTexts rest
    else compactContent scope keepTexts rest

end

/-- The white space at the start of a line. -/
def lineIndent (depth : Nat) : Markup :=
  .text ("\n" ++ String.ofList (List.replicate (2 * depth) ' '))

mutual

/-- A tree with each element on a line of its own, `depth` levels in. -/
def indented (outer : Scope) (depth : Nat) : Tree → Markup
  | .text value => .text value
  | .element name scope attributes content =>
    let tag := scope.written name
    let written := writtenAttributes outer scope attributes
    if holdsText content then
      closedOrElement tag written (compactContent scope true content)
    else
      let lines := indentedContent scope (depth + 1) content
      if lines.isEmpty then .leaf tag written
      else .element tag written (lines ++ [lineIndent depth])

/-- The elements of some content, each after the start of its line. -/
def indentedContent (scope : Scope) (depth : Nat) : List Tree → List Markup
  | [] => []
  | tree :: rest =>
    if tree.isElement then
      lineIndent depth :: indented scope depth tree :: indentedContent scope depth rest
    else indentedContent scope depth rest

end

/-- The document on one line. A blank text stands for no document and stays empty. -/
def minify? (text : String) : Option String :=
  if allBlank text then some ""
  else (readDocument? text).map fun root => (compact [] root).render

/-- The document with one line for each element. -/
def prettyPrint? (text : String) : Option String :=
  if allBlank text then some ""
  else (readDocument? text).map fun root => (indented [] 0 root).render ++ "\n"

end ProgramDiagram.Xml
