import ProgramDiagram.Number.Binary64

/-!
# Decimal texts of numbers

A decimal is a natural scaled by a power of ten. A text reads as the binary64 number nearest to
the decimal it spells.

* `Decimal.read?`: digits with an optional point and an optional exponent.
* `Binary64.read?`: a decimal with an optional sign, or `inf`, `infinity`, `nan` in any case.
-/

namespace ProgramDiagram

/-- The number `digits * 10 ^ exponent`. -/
structure Decimal where
  digits : Nat
  exponent : Int
deriving DecidableEq

/-- The value of a run of digits. -/
def digitsValue (cs : List Char) : Nat := Nat.ofDigitChars 10 cs 0

/-- Splits a text after its leading digits. -/
def spanDigits (cs : List Char) : List Char × List Char :=
  (cs.takeWhile Char.isDigit, cs.dropWhile Char.isDigit)

namespace Decimal

/-- A signed run of digits that takes the whole text. -/
def readExponent? (cs : List Char) : Option Int :=
  match cs with
  | '-' :: r => (natural? r).map fun n => -n
  | '+' :: r => (natural? r).map fun n => n
  | r => (natural? r).map fun n => n
where
  natural? (r : List Char) : Option Int :=
    if r.isEmpty || !r.all Char.isDigit then none else some (digitsValue r)

/-- An unsigned decimal: at least one digit, at most one point, and at most one exponent. -/
def read? (cs : List Char) : Option Decimal :=
  let (whole, afterWhole) := spanDigits cs
  let (fraction, rest) :=
    match afterWhole with
    | '.' :: r => spanDigits r
    | _ => ([], afterWhole)
  if whole.isEmpty && fraction.isEmpty then none
  else
    let exponent? : Option Int :=
      match rest with
      | [] => some 0
      | c :: r => if c = 'e' ∨ c = 'E' then readExponent? r else none
    exponent?.map fun e => ⟨digitsValue (whole ++ fraction), e - fraction.length⟩

end Decimal

namespace Binary64

/-- The number nearest to a decimal. The two comparisons only spare the work of a power of ten
that decides the result by its size. -/
def ofDecimal (negative : Bool) (d : Decimal) : Binary64 :=
  if d.digits = 0 then finite negative Magnitude.zero
  else if 310 < d.exponent then infinite negative
  else if d.exponent < -(400 + d.digits.log2 : Int) then finite negative Magnitude.zero
  else
    match d.exponent with
    | .ofNat e => ofUnits negative (d.digits * tenTo e * unitsPerOne) 1
    | .negSucc e => ofUnits negative (d.digits * unitsPerOne) (tenTo (e + 1))

/-- The names of what has no digits. -/
def readName? (negative : Bool) (cs : List Char) : Option Binary64 :=
  let name := String.ofList (cs.map Char.toLower)
  if name = "inf" ∨ name = "infinity" then some (infinite negative)
  else if name = "nan" then some nan
  else none

def readUnsigned? (negative : Bool) (cs : List Char) : Option Binary64 :=
  match Decimal.read? cs with
  | some d => some (ofDecimal negative d)
  | none => readName? negative cs

/-- The number a text spells. -/
def read? (text : String) : Option Binary64 :=
  match text.toList with
  | '-' :: r => readUnsigned? true r
  | '+' :: r => readUnsigned? false r
  | r => readUnsigned? false r

end Binary64

end ProgramDiagram
