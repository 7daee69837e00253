import ProgramDiagram.Number.Nearest
import ProgramDiagram.Number.Power

/-!
# Binary64 numbers

A finite number is a sign and a count of units of `2 ^ (-1074)`, the smallest positive number, so
that every operation is an exact one on naturals followed by one rounding.

* `Magnitude.nearest`: the magnitude nearest to a quotient of units, a half going to the even
  significand; none when the result is too large.
* `Binary64.add`, `mul`, `div`, `max`, `less`: arithmetic and comparison with signed zeros,
  infinities and the one not-a-number.
-/

namespace ProgramDiagram

/-- The number of units in one. -/
def unitsPerOne : Nat := twoTo 1074

/-- The first count of units that is too large. -/
def overflowUnits : Nat := twoTo 2098

/-- The weight of the last of the 53 significant bits of a count of units. -/
def lastPlace (n : Nat) : Nat := twoTo (n.log2 - 52)

/-- A magnitude is a count of units with at most 53 significant bits. -/
structure Magnitude where
  units : Nat
  lastPlace_dvd : lastPlace units ∣ units
  units_lt : units < overflowUnits
deriving DecidableEq

/-- A number as the layout computes with it. -/
inductive Binary64 where
  | nan
  | infinite (negative : Bool)
  | finite (negative : Bool) (magnitude : Magnitude)
deriving DecidableEq

namespace Magnitude

@[ext] theorem ext {a b : Magnitude} (h : a.units = b.units) : a = b := by
  cases a
  cases b
  simp_all

/-- `n / d` units rounded to 53 significant bits. -/
def roundUnits (n d : Nat) : Nat :=
  nearestDiv n (d * lastPlace (n / d)) * lastPlace (n / d)

theorem significand_le (n : Nat) {d : Nat} (hd : 0 < d) :
    nearestDiv n (d * lastPlace (n / d)) ≤ twoTo 53 := by
  refine nearestDiv_le_of_le (Nat.mul_pos hd (twoTo_pos _)) ?_
  have hq : n / d < twoTo 53 * lastPlace (n / d) := by
    rw [lastPlace, ← twoTo_add]
    exact Nat.lt_of_lt_of_le (lt_twoTo_log2_succ _) (twoTo_le (by omega))
  calc n ≤ d * (n / d + 1) := Nat.le_of_lt (Nat.lt_mul_div_succ n hd)
    _ ≤ d * (twoTo 53 * lastPlace (n / d)) := Nat.mul_le_mul_left d hq
    _ = twoTo 53 * (d * lastPlace (n / d)) := Nat.mul_left_comm ..

/-- A short significand times a power of two has few significant bits. -/
theorem lastPlace_dvd_mul_twoTo {m s : Nat} (hm : m ≤ twoTo 53) :
    lastPlace (m * twoTo s) ∣ m * twoTo s := by
  by_cases hz : m = 0
  · simp [hz, lastPlace]
  by_cases ht : m = twoTo 53
  · rw [ht, lastPlace, ← twoTo_add, log2_twoTo]
    exact twoTo_dvd (by omega)
  · have hlt : (m * twoTo s).log2 < 53 + s := by
      refine log2_lt_of_lt_twoTo (Nat.mul_ne_zero hz (Nat.ne_of_gt (twoTo_pos s))) ?_
      rw [twoTo_add]
      exact Nat.mul_lt_mul_of_pos_right (Nat.lt_of_le_of_ne hm ht) (twoTo_pos s)
    exact Nat.dvd_trans (twoTo_dvd (by omega)) (Nat.dvd_mul_left ..)

theorem lastPlace_dvd_roundUnits (n : Nat) {d : Nat} (hd : 0 < d) :
    lastPlace (roundUnits n d) ∣ roundUnits n d :=
  lastPlace_dvd_mul_twoTo (significand_le n hd)

/-- The magnitude nearest to `n / d` units for a positive `d`, none when that is too large. -/
def nearest (n d : Nat) : Option Magnitude :=
  if h : 0 < d ∧ roundUnits n d < overflowUnits then
    some ⟨roundUnits n d, lastPlace_dvd_roundUnits n h.1, h.2⟩
  else none

def zero : Magnitude := ⟨0, Nat.dvd_zero _, twoTo_pos 2098⟩

end Magnitude

namespace Binary64

/-- The number of the given sign nearest to `n / d` units. -/
def ofUnits (negative : Bool) (n d : Nat) : Binary64 :=
  match Magnitude.nearest n d with
  | some m => finite negative m
  | none => infinite negative

def zero : Binary64 := finite false Magnitude.zero

def ofNat (n : Nat) : Binary64 := ofUnits false (n * unitsPerOne) 1

def isFinite : Binary64 → Bool
  | finite _ _ => true
  | _ => false

def isNaN : Binary64 → Bool
  | nan => true
  | _ => false

def isZero : Binary64 → Bool
  | finite _ m => m.units == 0
  | _ => false

def neg : Binary64 → Binary64
  | nan => nan
  | infinite s => infinite !s
  | finite s m => finite (!s) m

/-- A difference that is exactly zero is the positive zero. -/
def add : Binary64 → Binary64 → Binary64
  | nan, _ => nan
  | _, nan => nan
  | infinite s, infinite t => if s = t then infinite s else nan
  | infinite s, finite _ _ => infinite s
  | finite _ _, infinite t => infinite t
  | finite s a, finite t b =>
    if s = t then ofUnits s (a.units + b.units) 1
    else if a.units = b.units then zero
    else if b.units < a.units then ofUnits s (a.units - b.units) 1
    else ofUnits t (b.units - a.units) 1

def sub (x y : Binary64) : Binary64 := add x y.neg

def mul : Binary64 → Binary64 → Binary64
  | nan, _ => nan
  | _, nan => nan
  | infinite s, infinite t => infinite (s != t)
  | infinite s, finite t b => if b.units = 0 then nan else infinite (s != t)
  | finite s a, infinite t => if a.units = 0 then nan else infinite (s != t)
  | finite s a, finite t b => ofUnits (s != t) (a.units * b.units) unitsPerOne

def div : Binary64 → Binary64 → Binary64
  | nan, _ => nan
  | _, nan => nan
  | infinite _, infinite _ => nan
  | infinite s, finite t _ => infinite (s != t)
  | finite s _, infinite t => finite (s != t) Magnitude.zero
  | finite s a, finite t b =>
    if b.units = 0 then
      if a.units = 0 then nan else infinite (s != t)
    else ofUnits (s != t) (a.units * unitsPerOne) b.units

/-- The value in units, the infinities standing just outside the finite range. -/
def position : Binary64 → Option Int
  | nan => none
  | infinite s => some (if s then -overflowUnits else overflowUnits)
  | finite s m => some (if s then -m.units else m.units)

/-- Nothing is less than, or greater than, what is not a number. -/
def less (x y : Binary64) : Bool :=
  match x.position, y.position with
  | some a, some b => a < b
  | _, _ => false

/-- The greater of two numbers; what is not a number is ignored, and of equals the second wins. -/
def max (x y : Binary64) : Binary64 :=
  if x.isNaN then y else if y.isNaN || y.less x then x else y

def half (x : Binary64) : Binary64 := x.div (ofNat 2)

/-- The least integer that is not below the number. -/
def ceil : Binary64 → Binary64
  | finite true m => ofUnits true (m.units / unitsPerOne * unitsPerOne) 1
  | finite false m =>
    ofUnits false ((m.units + unitsPerOne - 1) / unitsPerOne * unitsPerOne) 1
  | x => x

instance : Inhabited Binary64 := ⟨zero⟩
instance : Add Binary64 := ⟨add⟩
instance : Sub Binary64 := ⟨sub⟩
instance : Mul Binary64 := ⟨mul⟩
instance : Div Binary64 := ⟨div⟩
instance : Neg Binary64 := ⟨neg⟩

end Binary64

end ProgramDiagram
