import ProgramDiagram.Layout.Fragment
import ProgramDiagram.Layout.Measure
import ProgramDiagram.Options.Settings

/-!
# Boxes

A box holds a label. What the node owns stands to its right, joined by a line at the top edge.
-/

namespace ProgramDiagram

/-- What the layout of one tree depends on. -/
structure Sheet (α : Type) where
  options : Options α
  measurer : Measurer α

/-- The outline of a box. The round ends of a pill take as much room as the box is high. -/
inductive Border where
  | rectangle
  | pill
  | none

/-- The bars inside the left and right edges. -/
structure Bars where
  left : Bool
  right : Bool

variable {α : Type} [Scalar α]

/-- The extent of a label. -/
def Sheet.measure (s : Sheet α) (text : String) : Extent α :=
  s.measurer ⟨some s.options.fontFamily, s.options.fontSize, s.options.lineHeight⟩ text

/-- The size of a box without what is to its right. -/
def boxSize (s : Sheet α) (text : String) (border : Border) : α × α :=
  let m := s.measure text
  let p := s.options.boxPadding
  match border with
  | .rectangle => (m.width + p.horizontal, m.height + p.vertical)
  | .pill => (m.width + (m.height + p.vertical), m.height + p.vertical)
  | .none => (m.width + p.horizontal, m.height)

/-- The outline of a box of the given size. -/
def boxOutline (width height : α) : Border → List (Shape α)
  | .rectangle => [.box width height none]
  | .pill => [.box width height (some (Scalar.half height))]
  | .none => []

/-- The bars of a box of the given size. -/
def boxBars (s : Sheet α) (width height : α) (bars : Bars) : List (Shape α) :=
  let bar (x : α) : Shape α := .line x (Scalar.ofNat 0) x height
  (if bars.left then [bar s.options.doubleLineWidth] else [])
    ++ if bars.right then [bar (width - s.options.doubleLineWidth)] else []

/-- The label of a box of the given height. -/
def boxLabel (s : Sheet α) (text : String) (height : α) : Border → Shape α
  | .rectangle => .label text s.options.boxPadding.left s.options.boxPadding.top
  | .pill => .label text (Scalar.half height) s.options.boxPadding.top
  | .none => .label text s.options.boxPadding.left (Scalar.ofNat 0)

/-- What a node owns, to the right of its box, and the line to it. -/
def boxChild (s : Sheet α) (width : α) : Option (Fragment α) → List (Shape α)
  | none => []
  | some child =>
    let x := width + s.options.childOffsetWidth
    [.group x (Scalar.ofNat 0) child.shapes, .line width (Scalar.ofNat 0) x (Scalar.ofNat 0)]

/-- A labelled box with what its node owns. -/
def boxFragment (s : Sheet α) (kind : Kind) (text : String) (border : Border) (bars : Bars)
    (child : Option (Fragment α)) : Fragment α :=
  let (width, height) := boxSize s text border
  let (totalWidth, totalHeight) :=
    match child with
    | none => (width, height)
    | some f => (width + (f.width + s.options.childOffsetWidth), Scalar.max height f.height)
  { shapes := boxOutline width height border ++ boxBars s width height bars
      ++ [boxLabel s text height border] ++ boxChild s width child
    width := Scalar.toTenth totalWidth
    height := Scalar.toTenth totalHeight
    kind }

end ProgramDiagram
