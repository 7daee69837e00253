/-!
# Lines

* `splitAt`: the pieces between the occurrences of a character, one more than there are of it.
* `lines`: the lines of a source, which end in a line feed or in a carriage return and line feed.
-/

namespace ProgramDiagram

/-- The pieces of a text between the occurrences of `separator`. -/
def splitAt (separator : Char) : List Char → List (List Char)
  | [] => [[]]
  | c :: cs =>
    if c = separator then [] :: splitAt separator cs
    else
      match splitAt separator cs with
      | [] => [[c]]
      | piece :: rest => (c :: piece) :: rest

/-- A text without one given character at its end. -/
def dropLast? (last : Char) (cs : List Char) : Option (List Char) :=
  if cs.getLast? = some last then some cs.dropLast else none

/-- The lines of a source. -/
def lines (source : String) : List (List Char) :=
  (splitAt '\n' source.toList).map fun l => (dropLast? '\r' l).getD l

/-- The lines of a label. -/
def labelLines (label : String) : List String :=
  (splitAt '\n' label.toList).map String.ofList

theorem splitAt_ne_nil (separator : Char) (cs : List Char) : splitAt separator cs ≠ [] := by
  cases cs with
  | nil => simp [splitAt]
  | cons c cs =>
    simp only [splitAt]
    split
    · simp
    · split <;> simp

end ProgramDiagram
