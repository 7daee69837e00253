import ProgramDiagram.Number.Decimal

/-!
# Shortest decimal texts

A number is written with the fewest digits that read back as it, positionally from `10 ^ (-6)` up
to below `10 ^ 21` and with a signed exponent elsewhere.

* `Magnitude.shortest`: the fewest digits; of two decimals with as many digits the nearer one, and
  of two equally near ones the even one.
* `Binary64.text`: the text of any number.
* `Binary64.plainText`: the text of a number that has to be finite, zero standing in for the rest.
-/

namespace ProgramDiagram

namespace Decimal

/-- How `d` compares with `n / k` units. -/
def compareUnits (d : Decimal) (n k : Nat) : Ordering :=
  match d.exponent with
  | .ofNat e => compare (d.digits * tenTo e * unitsPerOne * k) n
  | .negSucc e => compare (d.digits * unitsPerOne * k) (n * tenTo (e + 1))

/-- Drops the zeros at the end of a run of digits, at most `fuel` of them. -/
def stripZeros : Nat → Decimal → Decimal
  | 0, d => d
  | fuel + 1, d =>
    if d.digits % 10 = 0 then stripZeros fuel ⟨d.digits / 10, d.exponent + 1⟩ else d

end Decimal

namespace Magnitude

/-- Twice the distance to the next smaller magnitude, which is closer below a power of two. -/
def gapBelow (m : Magnitude) : Nat :=
  if m.units = twoTo m.units.log2 ∧ 1 < lastPlace m.units then lastPlace m.units
  else 2 * lastPlace m.units

/-- Whether a decimal lies among those that round to `m`, the ends included when the significand
is even. -/
def readsBack (m : Magnitude) (d : Decimal) : Bool :=
  let even := m.units / lastPlace m.units % 2 == 0
  let low := d.compareUnits (4 * m.units - m.gapBelow) 4
  let high := d.compareUnits (4 * m.units + 2 * lastPlace m.units) 4
  (low == .gt || (even && low == .eq)) && (high == .lt || (even && high == .eq))

/-- The least power of ten above a positive magnitude, found from its binary logarithm. -/
def scale (m : Magnitude) : Int :=
  let estimate := ((m.units.log2 : Int) - 1074) * 30103 / 100000
  let above (e : Int) := Decimal.compareUnits ⟨1, e⟩ m.units 1 == .gt
  if above estimate then estimate
  else if above (estimate + 1) then estimate + 1
  else estimate + 2

/-- The whole multiples of `10 ^ e` in a magnitude. -/
def floorAt (m : Magnitude) (e : Int) : Nat :=
  match e with
  | .ofNat k => m.units / (tenTo k * unitsPerOne)
  | .negSucc k => m.units * tenTo (k + 1) / unitsPerOne

/-- The decimal on the grid of `10 ^ e` that reads back as `m`, if there is one. -/
def onGrid? (m : Magnitude) (e : Int) : Option Decimal :=
  let below : Decimal := ⟨m.floorAt e, e⟩
  let above : Decimal := ⟨m.floorAt e + 1, e⟩
  match m.readsBack below, m.readsBack above with
  | true, false => some below
  | false, true => some above
  | false, false => none
  | true, true =>
    match Decimal.compareUnits ⟨2 * below.digits + 1, e⟩ (2 * m.units) 1 with
    | .gt => some below
    | .lt => some above
    | .eq => some (if below.digits % 2 = 0 then below else above)

/-- The decimal with the fewest digits that reads back as a positive magnitude. -/
def shortest (m : Magnitude) : Decimal :=
  let found := (List.range 17).findSome? fun (n : Nat) => m.onGrid? (m.scale - (n + 1 : Nat))
  (found.getD ⟨m.floorAt (m.scale - 17), m.scale - 17⟩).stripZeros 17

end Magnitude

namespace Decimal

/-- A decimal in positional or exponent form. -/
def text (d : Decimal) : String :=
  let digits := Nat.toDigits 10 d.digits
  let count : Int := digits.length
  let point := count + d.exponent
  if count ≤ point ∧ point ≤ 21 then
    String.ofList (digits ++ List.replicate (point - count).toNat '0')
  else if 0 < point ∧ point ≤ 21 then
    String.ofList (digits.take point.toNat ++ '.' :: digits.drop point.toNat)
  else if -6 < point ∧ point ≤ 0 then
    "0." ++ String.ofList (List.replicate (-point).toNat '0' ++ digits)
  else
    let mantissa := if digits.length = 1 then digits else digits.take 1 ++ '.' :: digits.drop 1
    let sign := if point - 1 < 0 then "e-" else "e+"
    String.ofList mantissa ++ sign ++ Nat.repr (point - 1).natAbs

end Decimal

namespace Binary64

def unsignedText (m : Magnitude) : String :=
  if m.units = 0 then "0" else m.shortest.text

/-- The text of a number. -/
def text : Binary64 → String
  | nan => "NaN"
  | infinite negative => if negative then "-Infinity" else "Infinity"
  | finite negative m => if negative then "-" ++ unsignedText m else unsignedText m

/-- The text of a number that has to be finite: neither a negative zero nor what is not finite
shows. -/
def plainText (x : Binary64) : String :=
  if x.isFinite && !x.isZero then x.text else "0"

end Binary64

end ProgramDiagram
