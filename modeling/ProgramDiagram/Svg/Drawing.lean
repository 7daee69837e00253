import ProgramDiagram.Layout.Page
import ProgramDiagram.Svg.Shapes

/-!
# Drawings

* `fragmentText`: the SVG of a fragment, without a document around it.
* `draw`: the SVG document of a tree; a missing tree has an empty one.
-/

namespace ProgramDiagram.Svg

/-- The SVG of a fragment. -/
def fragmentText (o : Options Binary64) (f : Fragment Binary64) : String :=
  Xml.renderAll (shapesMarkup o f.shapes)

/-- The document of a tree. -/
def drawing (s : Sheet Binary64) (tree : Node) : Xml.Markup :=
  let f := tree.layout s
  let (width, height) := s.canvas f
  document s.options width height (shapesMarkup s.options f.shapes)

/-- The document text of a tree. -/
def draw (s : Sheet Binary64) : Option Node → String
  | none => ""
  | some tree => (drawing s tree).render

end ProgramDiagram.Svg
