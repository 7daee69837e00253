import ProgramDiagram.Number.Decimal

/-!
# JSON literals

Numbers and strings are kept as they stand in a text and get their meaning when it is asked for.

* `NumberLiteral.value?`: the number of a literal, unless it is too large. The leading digits that
  fit into 64 bits are scaled by one power of ten, so the last bit may differ from that of the
  nearest number.
* `textOf?`: the text of a string, unless half of a surrogate pair stands alone in it.
-/

namespace ProgramDiagram.Json

/-- A number as written. The sign of the exponent stands before its digits. -/
structure NumberLiteral where
  negative : Bool
  whole : List Char
  fraction : List Char
  exponentNegative : Bool
  exponent : List Char

/-- A part of a string: a character, or a 16-bit unit given by its code. -/
inductive StringPart where
  | char (c : Char)
  | unit (n : Nat)

/-- The text of a string. Two units that follow each other may make up one character. -/
def textOf? : List StringPart → Option (List Char)
  | [] => some []
  | .char c :: rest => (textOf? rest).map (c :: ·)
  | .unit high :: .unit low :: rest =>
    if 0xD800 ≤ high ∧ high < 0xDC00 then
      if 0xDC00 ≤ low ∧ low < 0xE000 then
        let code := 0x10000 + (high - 0xD800) * 0x400 + (low - 0xDC00)
        (textOf? rest).map (Char.ofNat code :: ·)
      else none
    else if 0xDC00 ≤ high ∧ high < 0xE000 then none
    else (textOf? (.unit low :: rest)).map (Char.ofNat high :: ·)
  | .unit n :: rest =>
    if 0xD800 ≤ n ∧ n < 0xE000 then none else (textOf? rest).map (Char.ofNat n :: ·)

/-- Appends digits to a natural as long as the result fits into 64 bits. -/
def appendDigits (n : Nat) : List Char → Nat × List Char
  | [] => (n, [])
  | c :: cs =>
    let next := 10 * n + digitsValue [c]
    if next < twoTo 64 then appendDigits next cs else (n, c :: cs)

/-- Divides by a power of ten, by at most `10 ^ 308` at a time. -/
def scaleDown (x : Binary64) (k : Nat) : Binary64 :=
  if k ≤ 308 then x / .ofDecimal false ⟨1, k⟩
  else if x.isZero then x
  else scaleDown (x / .ofDecimal false ⟨1, 308⟩) (k - 308)
termination_by k

/-- A number scaled by a power of ten, unless the result is too large. -/
def scaleBy? (x : Binary64) (e : Int) : Option Binary64 :=
  match e with
  | .negSucc k => some (scaleDown x (k + 1))
  | .ofNat k =>
    if x.isZero then some x
    else if 308 < k then none
    else
      let y := x * .ofDecimal false ⟨1, k⟩
      if y.isFinite then some y else none

/-- The number of a literal. An exponent that does not fit into 31 bits decides alone. -/
def NumberLiteral.value? (l : NumberLiteral) : Option Binary64 :=
  let (head, dropped) := appendDigits 0 l.whole
  let (significand, ignored) := appendDigits head l.fraction
  let point : Int := dropped.length - (l.fraction.length - ignored.length : Nat)
  let exponent := digitsValue l.exponent
  let magnitude? :=
    if twoTo 31 ≤ exponent then
      if significand ≠ 0 && !l.exponentNegative then none else some Binary64.zero
    else
      scaleBy? (.ofNat significand)
        (if l.exponentNegative then point - exponent else point + exponent)
  magnitude?.map fun x => if l.negative then -x else x

end ProgramDiagram.Json
