import ProgramDiagram.Number.Scalar
import ProgramDiagram.Text.Cells
import ProgramDiagram.Text.Lines

/-!
# Measuring labels

* `Measurer`: the extent of a label in a style.
* `cellMeasurer`: a cell is half as wide as the font is high, and no font is consulted.
-/

namespace ProgramDiagram

/-- The style that a label is measured in. -/
structure TextStyle (α : Type) where
  fontFamily : Option String
  fontSize : α
  lineHeight : α

/-- The room that a label takes. -/
structure Extent (α : Type) where
  width : α
  height : α
  lineCount : Nat

abbrev Measurer (α : Type) := TextStyle α → String → Extent α

/-- Every label takes the same room. -/
def fixedMeasurer {α : Type} (width height : α) : Measurer α := fun _ _ => ⟨width, height, 1⟩

/-- The width of a label is that of its widest line. -/
def cellMeasurer {α : Type} [Scalar α] : Measurer α := fun style text =>
  let widths := (labelLines text).map fun line =>
    Scalar.half (Scalar.ofNat (displayWidth line) * style.fontSize)
  { width := widths.foldl Scalar.max (Scalar.ofNat 0)
    height := Scalar.ofNat widths.length * style.fontSize * style.lineHeight
    lineCount := widths.length }

end ProgramDiagram
