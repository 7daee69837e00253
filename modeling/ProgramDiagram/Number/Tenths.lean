import ProgramDiagram.Number.Decimal

/-!
# One decimal place

Lengths are rounded and written to one decimal place.

* `Magnitude.tenths`: the number of tenths nearest to a magnitude. Only an odd number of quarters
  lies halfway between two tenths; it is first moved up to a whole number of tenths, as far as
  binary64 arithmetic can do that.
* `Binary64.fixedText`: the written form, which always has one digit after the point and never
  shows a negative zero.
* `Binary64.toTenth`: the number that the written form reads back as.
-/

namespace ProgramDiagram

namespace Magnitude

/-- An odd number of quarters lies halfway between two tenths. -/
def isHalfway (m : Magnitude) : Bool :=
  m.units * 4 % unitsPerOne == 0 && m.units * 4 / unitsPerOne % 2 == 1

/-- The tenths nearest to the exact value, a half going to the even neighbour. -/
def nearestTenths (m : Magnitude) : Nat := nearestDiv (10 * m.units) unitsPerOne

/-- The least number of tenths that is not below the value, as binary64 arithmetic finds it. -/
def roundedUp (m : Magnitude) : Binary64 :=
  (Binary64.finite false m * Binary64.ofNat 10).ceil / Binary64.ofNat 10

/-- The number of tenths that a magnitude is written as. -/
def tenths (m : Magnitude) : Nat :=
  if m.isHalfway then
    match m.roundedUp with
    | .finite _ up => up.nearestTenths
    | _ => m.nearestTenths
  else m.nearestTenths

end Magnitude

/-- A number of tenths with its point. -/
def tenthsText (t : Nat) : String := Nat.repr (t / 10) ++ "." ++ Nat.repr (t % 10)

namespace Binary64

/-- The text of a length. What is not finite counts as zero. -/
def fixedText : Binary64 → String
  | finite negative m =>
    if negative && m.tenths != 0 then "-" ++ tenthsText m.tenths else tenthsText m.tenths
  | _ => "0.0"

/-- The length rounded to one decimal place, never a negative zero. -/
def toTenth : Binary64 → Binary64
  | finite negative m => ofDecimal (negative && m.tenths != 0) ⟨m.tenths, -1⟩
  | _ => zero

end Binary64

end ProgramDiagram
