/-!
# Ranges of code points

Properties of characters are given as ascending ranges of code points.
-/

namespace ProgramDiagram

/-- Whether a code point lies in one of the ascending ranges. -/
def inRanges (n : Nat) : List (Nat × Nat) → Bool
  | [] => false
  | (low, high) :: rest => low ≤ n && (n ≤ high || inRanges n rest)

end ProgramDiagram
