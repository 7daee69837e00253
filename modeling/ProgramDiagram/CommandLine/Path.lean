import ProgramDiagram.Text.Lines

/-!
# Paths

A path is a text whose steps stand between slashes.

* `Path.ofText`: the path that a text spells.
* `Location.enter`: the place that a step leads to.
-/

namespace ProgramDiagram.CommandLine

/-- A path from the root, or else from the working folder. -/
structure Path where
  fromRoot : Bool
  steps : List String
  endsInSlash : Bool
deriving DecidableEq

namespace Path

/-- The path that a text spells. Slashes side by side count as one. -/
def ofText (text : String) : Path :=
  { fromRoot := text.toList.head? = some '/'
    steps := ((splitAt '/' text.toList).filter (!·.isEmpty)).map String.ofList
    endsInSlash := text.toList.getLast? = some '/' }

/-- The step that stays in a folder. -/
def here : String := "."

/-- The step to the folder around a folder. -/
def outward : String := ".."

/-- A hyphen names standard input, also if steps follow it that stay where they are. -/
def isStandardInput (p : Path) : Bool :=
  match p.steps with
  | step :: rest => !p.fromRoot && step = "-" && rest.all (· = here)
  | [] => false

end Path

/-- A place on a machine: the names that lead to it, innermost first, from the root or from the
folder that lies `above` levels around the working folder. -/
structure Location where
  fromRoot : Bool
  above : Nat
  names : List String
deriving DecidableEq

namespace Location

/-- Where a path starts. -/
def start (p : Path) : Location := ⟨p.fromRoot, 0, []⟩

/-- The place that a step from a folder leads to. Around the root there is no other folder. -/
def enter (l : Location) (step : String) : Location :=
  if step = Path.here then l
  else if step = Path.outward then
    match l.names with
    | _ :: outer => { l with names := outer }
    | [] => if l.fromRoot then l else { l with above := l.above + 1 }
  else { l with names := step :: l.names }

/-- The place that a path leads to if all its steps can be taken. -/
def ofPath (p : Path) : Location := p.steps.foldl enter (start p)

/-- Whether a place lies inside a folder, at any depth. -/
def isInside (l folder : Location) : Bool :=
  l.fromRoot = folder.fromRoot && l.above = folder.above
    && folder.names.isSuffixOf l.names && folder.names.length < l.names.length

end Location

end ProgramDiagram.CommandLine
