import ProgramDiagram.Outline.Reader
import ProgramDiagram.Svg.Drawing
import ProgramDiagram.Xml.Layout

/-!
# Drawings of outlines

* `drawSource`: the document of an outline as it is drawn.
* `compactSource`, `indentedSource`: the same document without and with layout. They can fail on a
  label or option with a character that no document may hold.
-/

namespace ProgramDiagram.Svg

/-- Why an outline has no drawing. -/
inductive Error where
  | outline (error : Outline.Error)
  | notDocument

def drawSource (s : Sheet Binary64) (source : String) : Except Outline.Error String :=
  (Outline.parse source).map (draw s)

/-- A drawing in one of the ways to lay a document out. -/
def drawSourceBy (layOut? : String → Option String) (o : Options Binary64) (source : String) :
    Except Error String :=
  match drawSource ⟨o, cellMeasurer⟩ source with
  | .error e => .error (.outline e)
  | .ok text =>
    match layOut? text with
    | some document => .ok document
    | none => .error .notDocument

def compactSource : Options Binary64 → String → Except Error String := drawSourceBy Xml.minify?

def indentedSource : Options Binary64 → String → Except Error String :=
  drawSourceBy Xml.prettyPrint?

end ProgramDiagram.Svg
