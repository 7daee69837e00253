import ProgramDiagram.Xml.Token

/-!
# Element trees

* `Tree`: the elements and texts of a document with their names resolved.
* `Scope.enter`: the prefixes in scope inside an element.
* `openElement?`: a start tag with its names resolved, none if a name or declaration is wrong.
-/

namespace ProgramDiagram.Xml

/-- A name with the namespace it belongs to, if it belongs to one. -/
structure Name where
  space : Option String
  localPart : String
deriving DecidableEq

/-- The prefixes in scope with what they stand for; no prefix gives the default namespace. -/
abbrev Scope := List (Option String × String)

/-- An element with the prefixes in scope inside it, or a text. -/
inductive Tree where
  | element (name : Name) (scope : Scope) (attributes : List (Name × String)) (content : List Tree)
  | text (value : String)

def xmlSpace : String := "http://www.w3.org/XML/1998/namespace"

def xmlnsSpace : String := "http://www.w3.org/2000/xmlns/"

/-- What a prefix stands for. -/
def Scope.lookup (scope : Scope) (key : Option String) : Option String := List.lookup key scope

/-- Own declarations come first, then those around the element that they do not replace. -/
def Scope.enter (declared outer : Scope) : Scope :=
  if declared.isEmpty then outer
  else outer.foldl (fun scope d => if scope.any (·.1 = d.1) then scope else scope ++ [d]) declared

/-- A declaration of `key` as a prefix. The prefix `xml` is fixed and never declared anew. -/
def declarePrefix? (declared : Scope) (key space : String) : Option Scope :=
  if space = xmlnsSpace || (key = "xml") != (space = xmlSpace)
      || declared.any (·.1 = some key) then none
  else some (if space = xmlSpace then declared else declared ++ [(some key, space)])

def declareDefault? (declared : Scope) (space : String) : Option Scope :=
  if space = xmlSpace || space = xmlnsSpace then none else some (declared ++ [(none, space)])

/-- The declarations of a start tag and its other attributes, in order. -/
def separate? (declared : Scope) (kept : List (QName × String)) :
    List (QName × String) → Option (Scope × List (QName × String))
  | [] => some (declared, kept.reverse)
  | (name, value) :: rest =>
    if name.qualifier = "xmlns" then do
      separate? (← declarePrefix? declared name.localPart value) kept rest
    else if name.localPart = "xmlns" then do
      separate? (← declareDefault? declared value) kept rest
    else separate? declared ((name, value) :: kept) rest

/-- The name of an element. The prefix has to be in scope. -/
def elementName? (scope : Scope) (name : QName) : Option Name :=
  if name.qualifier = "xmlns" then none
  else if name.qualifier.isEmpty then some ⟨scope.lookup none, name.localPart⟩
  else (scope.lookup (some name.qualifier)).map fun space => ⟨some space, name.localPart⟩

/-- The name of an attribute. Without a prefix it belongs to no namespace. -/
def attributeName? (scope : Scope) (name : QName) : Option Name :=
  if name.qualifier = "xml" then some ⟨some xmlSpace, name.localPart⟩
  else if name.qualifier.isEmpty then some ⟨none, name.localPart⟩
  else (scope.lookup (some name.qualifier)).map fun space => ⟨some space, name.localPart⟩

/-- Attributes with their names, no two of which are the same. -/
def attributeNames? (scope : Scope) : List (QName × String) → Option (List (Name × String))
  | [] => some []
  | (name, value) :: rest => do
    let name ← attributeName? scope name
    let rest ← attributeNames? scope rest
    if rest.any (·.1 = name) then none else some ((name, value) :: rest)

/-- A start tag whose names are resolved, together with its name as written. -/
structure OpenElement where
  tag : QName
  name : Name
  scope : Scope
  attributes : List (Name × String)

def OpenElement.close (e : OpenElement) (content : List Tree) : Tree :=
  .element e.name e.scope e.attributes content

def openElement? (outer : Scope) (tag : QName) (attributes : List (QName × String)) :
    Option OpenElement := do
  let (declared, kept) ← separate? [] [] attributes
  let scope := Scope.enter declared outer
  let attributes ← attributeNames? scope kept
  let name ← elementName? scope tag
  some ⟨tag, name, scope, attributes⟩

end ProgramDiagram.Xml
