import ProgramDiagram.Layout.Fragment
import ProgramDiagram.Number.Shortest
import ProgramDiagram.Options.Settings
import ProgramDiagram.Text.Lines
import ProgramDiagram.Xml.Markup

/-!
# Shapes as SVG

Every length is written to one decimal place; stroke width and font size keep all their digits.

* `Shape.markup`: the elements of a shape. A label has one text element for each of its lines.
-/

namespace ProgramDiagram.Svg

open Xml (Attributes Markup)

/-- The colour of a fill. -/
def fillColor (color : Option String) : String := color.getD "none"

def strokeAttributes (o : Options Binary64) : Attributes :=
  [("stroke", o.strokeColor), ("stroke-width", o.strokeWidth.plainText)]

def lineMarkup (o : Options Binary64) (x1 y1 x2 y2 : Binary64) : Markup :=
  .leaf "line" ([("x1", x1.fixedText), ("y1", y1.fixedText), ("x2", x2.fixedText),
    ("y2", y2.fixedText)] ++ strokeAttributes o)

def radiusAttributes : Option Binary64 → Attributes
  | none => []
  | some r => [("rx", r.fixedText), ("ry", r.fixedText)]

def boxMarkup (o : Options Binary64) (width height : Binary64) (radius : Option Binary64) :
    Markup :=
  .leaf "rect" ([("x", "0"), ("y", "0"), ("width", width.fixedText), ("height", height.fixedText)]
    ++ radiusAttributes radius ++ strokeAttributes o ++ [("fill", fillColor o.backgroundColor)])

def pointsText (points : List (Binary64 × Binary64)) : String :=
  " ".intercalate (points.map fun (x, y) => x.fixedText ++ "," ++ y.fixedText)

def polygonMarkup (o : Options Binary64) (points : List (Binary64 × Binary64)) : Markup :=
  .leaf "polygon" (("points", pointsText points) :: strokeAttributes o
    ++ [("fill", fillColor o.backgroundColor)])

/-- A line of a label. Its baseline is one font size below the label's top, and `dy` moves the
later lines down. -/
def textMarkup (o : Options Binary64) (x y dy : Binary64) (line : String) : Markup :=
  .element "text"
    [("x", x.fixedText), ("y", (y + o.fontSize).fixedText), ("dy", dy.fixedText),
      ("font-family", o.fontFamily), ("font-size", o.fontSize.plainText), ("fill", o.textColor)]
    [.text line]

def labelMarkup (o : Options Binary64) (text : String) (x y : Binary64) : List Markup :=
  (labelLines text).mapIdx fun i line =>
    textMarkup o x y (.ofNat i * o.fontSize * o.lineHeight) line

/-- Content moved to a point. -/
def groupMarkup (x y : Binary64) (content : List Markup) : Markup :=
  .element "g" [("transform", "translate(" ++ x.fixedText ++ ", " ++ y.fixedText ++ ")")] content

mutual

/-- The elements of a shape. -/
def shapeMarkup (o : Options Binary64) : Shape Binary64 → List Markup
  | .line x1 y1 x2 y2 => [lineMarkup o x1 y1 x2 y2]
  | .box width height radius => [boxMarkup o width height radius]
  | .polygon points => [polygonMarkup o points]
  | .label text x y => labelMarkup o text x y
  | .group x y content => [groupMarkup x y (shapesMarkup o content)]

def shapesMarkup (o : Options Binary64) : List (Shape Binary64) → List Markup
  | [] => []
  | shape :: rest => shapeMarkup o shape ++ shapesMarkup o rest

end

/-- The document of a drawing of the given size: a background and the drawing inside the margin. -/
def document (o : Options Binary64) (width height : Binary64) (content : List Markup) : Markup :=
  let w := width.fixedText
  let h := height.fixedText
  .element "svg"
    [("width", w), ("height", h), ("viewBox", "0 0 " ++ w ++ " " ++ h),
      ("xmlns", "http://www.w3.org/2000/svg")]
    [.leaf "rect" [("x", "0"), ("y", "0"), ("width", w), ("height", h),
        ("fill", fillColor o.baseBackgroundColor)],
      groupMarkup o.margin.left o.margin.top content]

end ProgramDiagram.Svg
