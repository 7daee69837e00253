import ProgramDiagram.Xml.Escape

/-!
# Markup

* `Markup`: elements and texts as they are to be written.
* `Markup.render`: the written form, in which tags are balanced and all strings are escaped.
-/

namespace ProgramDiagram.Xml

/-- An attribute with its name as written and its value. -/
abbrev Attributes := List (String × String)

/-- A `leaf` is written as one tag, an `element` between two tags even if it holds nothing. -/
inductive Markup where
  | leaf (name : String) (attributes : Attributes)
  | element (name : String) (attributes : Attributes) (content : List Markup)
  | text (value : String)

/-- The attributes in a start tag. -/
def attributesText (attributes : Attributes) : String :=
  String.join (attributes.map fun (name, value) => " " ++ name ++ "=\"" ++ escape value ++ "\"")

mutual

/-- The pieces of the written form. -/
def Markup.pieces : Markup → List String
  | .leaf name attributes => ["<" ++ name ++ attributesText attributes ++ "/>"]
  | .element name attributes content =>
    ("<" ++ name ++ attributesText attributes ++ ">")
      :: (contentPieces content ++ ["</" ++ name ++ ">"])
  | .text value => [escape value]

def contentPieces : List Markup → List String
  | [] => []
  | m :: rest => m.pieces ++ contentPieces rest

end

/-- The written form of markup. -/
def Markup.render (m : Markup) : String := String.join m.pieces

/-- The written form of what stands side by side. -/
def renderAll (ms : List Markup) : String := String.join (contentPieces ms)

end ProgramDiagram.Xml
