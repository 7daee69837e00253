import ProgramDiagram.CommandLine.Arguments
import ProgramDiagram.Options.Layer

/-!
# Requests

* `Request`: to draw an outline, or to print its tree.
* `Request.ofArguments`: the request of a command line.
-/

namespace ProgramDiagram.CommandLine

/-- A request to draw an outline. Without an input the source is standard input, and without an
output the drawing goes to standard output. -/
structure DrawRequest where
  input : Option String
  output : Option String
  config : Option String
  indented : Bool
  flags : Layer Binary64

/-- A request to print the tree of an outline. -/
structure TreeRequest where
  input : Option String
  indented : Bool

inductive Request where
  | draw (request : DrawRequest)
  | tree (request : TreeRequest)

/-- A value for a field that has none yet. -/
def setOnce {β : Type} (field : Option β) (value? : Option β) : Option (Option β) :=
  if field.isSome then none else value?.map some

/-- A file name is not empty. -/
def path? (value : String) : Option String := if value.isEmpty then none else some value

/-- A switch is given at most once. -/
def turnOn (switch : Bool) : Option Bool := if switch then none else some true

def DrawRequest.start : DrawRequest := ⟨none, none, none, false, .empty⟩

namespace DrawParameter

def input : Parameter DrawRequest :=
  .valued fun v r => (setOnce r.input (path? v)).map fun x => { r with input := x }

def output : Parameter DrawRequest :=
  .valued fun v r => (setOnce r.output (path? v)).map fun x => { r with output := x }

def config : Parameter DrawRequest :=
  .valued fun v r => (setOnce r.config (path? v)).map fun x => { r with config := x }

def indented : Parameter DrawRequest :=
  .switch fun r => (turnOn r.indented).map fun x => { r with indented := x }

/-- A parameter that gives one of the options. -/
def flag {β : Type} (field : Layer Binary64 → Option β) (read? : String → Option β)
    (set : Layer Binary64 → Option β → Layer Binary64) : Parameter DrawRequest :=
  .valued fun v r =>
    (setOnce (field r.flags) (read? v)).map fun x => { r with flags := set r.flags x }

end DrawParameter

open DrawParameter in
/-- The parameters of a request to draw, by name. -/
def drawParameter? (name : String) : Option (Parameter DrawRequest) :=
  match name with
  | "input" => some input
  | "output" => some output
  | "config" => some config
  | "prettyprint" => some indented
  | "font-size" => some (flag (·.fontSize) Binary64.read? fun l x => { l with fontSize := x })
  | "font-family" => some (flag (·.fontFamily) some fun l x => { l with fontFamily := x })
  | "stroke-width" =>
    some (flag (·.strokeWidth) Binary64.read? fun l x => { l with strokeWidth := x })
  | "stroke-color" => some (flag (·.strokeColor) some fun l x => { l with strokeColor := x })
  | "background-color" =>
    some (flag (·.backgroundColor) (some ∘ some) fun l x => { l with backgroundColor := x })
  | "base-background-color" =>
    some (flag (·.baseBackgroundColor) (some ∘ some) fun l x => { l with baseBackgroundColor := x })
  | "text-color" => some (flag (·.textColor) some fun l x => { l with textColor := x })
  | "line-height" =>
    some (flag (·.lineHeight) Binary64.read? fun l x => { l with lineHeight := x })
  | "list-render-type" =>
    some (flag (·.listLayout) ListLayout.ofName? fun l x => { l with listLayout := x })
  | "version" => some (.stop .version)
  | "help" => some (.stop .help)
  | _ => none

def drawGrammar : Grammar DrawRequest where
  byName? := drawParameter?
  byLetter? := fun c =>
    match c with
    | 'i' => some DrawParameter.input
    | 'o' => some DrawParameter.output
    | 'p' => some DrawParameter.indented
    | 'V' => some (.stop .version)
    | 'h' => some (.stop .help)
    | _ => none

namespace TreeParameter

def input : Parameter TreeRequest :=
  .valued fun v r => (setOnce r.input (path? v)).map fun x => { r with input := x }

def indented : Parameter TreeRequest :=
  .switch fun r => (turnOn r.indented).map fun x => { r with indented := x }

end TreeParameter

def treeGrammar : Grammar TreeRequest where
  byName? := fun name =>
    match name with
    | "input" => some TreeParameter.input
    | "pretty" => some TreeParameter.indented
    | "help" => some (.stop .help)
    | _ => none
  byLetter? := fun c =>
    match c with
    | 'i' => some TreeParameter.input
    | 'h' => some (.stop .help)
    | _ => none

/-- Help is for the program or for one of its commands. -/
def helpFor : List String → Reading Request
  | [] => .stop .help
  | [command] => if command = "parse" ∨ command = "help" then .stop .help else .wrong
  | _ => .wrong

/-- The request of a command line. A command word can only come first. -/
def Request.ofArguments : List String → Reading Request
  | "parse" :: rest => (treeGrammar.read ⟨none, false⟩ rest).map .tree
  | "help" :: rest => helpFor rest
  | arguments => (drawGrammar.read .start arguments).map .draw

end ProgramDiagram.CommandLine
