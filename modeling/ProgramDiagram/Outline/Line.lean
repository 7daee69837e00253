import ProgramDiagram.Text.Blank
import ProgramDiagram.Text.Lines

/-!
# Lines of an outline

* `isCommentLine`: lines that hold no part of a statement.
* `indentation`: the depth of a statement is its number of leading tabs.
* `continued?`: a marker at the end of a line continues the statement on the next line; anywhere
  else it breaks the label.
-/

namespace ProgramDiagram.Outline

/-- The continuation marker. -/
def marker : Char := '@'

/-- A line is a comment if it is blank up to its end or up to a number sign. -/
def isCommentLine (line : List Char) : Bool :=
  match line.dropWhile isBlank with
  | [] => true
  | c :: rest => c = '#' && !rest.contains '\n'

def indentation (line : List Char) : Nat := (line.takeWhile (· = '\t')).length

/-- A line without its leading tabs. -/
def unindented (line : List Char) : List Char := line.dropWhile (· = '\t')

/-- The part of a row before a marker at its end. -/
def continued? (row : List Char) : Option (List Char) := dropLast? marker row

/-- The body that rows spell, the newest row first: every marker is a line break, and so is the end
of every row but the last. -/
def bodyOf (rows : List (List Char)) : List Char :=
  (['\n'].intercalate rows.reverse).map fun c => if c = marker then '\n' else c

end ProgramDiagram.Outline
