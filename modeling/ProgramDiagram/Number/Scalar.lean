import ProgramDiagram.Number.Tenths

/-!
# Scalars

The layout computes with any numbers that have the operations of a scalar. The program uses
binary64 numbers; other scalars say what the same layout does in exact arithmetic.
-/

namespace ProgramDiagram

class Scalar (α : Type) extends Add α, Sub α, Mul α where
  ofNat : Nat → α
  half : α → α
  less : α → α → Bool
  max : α → α → α
  /-- The nearest multiple of one tenth. -/
  toTenth : α → α

instance : Scalar Binary64 where
  ofNat := Binary64.ofNat
  half := Binary64.half
  less := Binary64.less
  max := Binary64.max
  toTenth := Binary64.toTenth

end ProgramDiagram
