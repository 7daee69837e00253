import ProgramDiagram.Outline.Error
import ProgramDiagram.Text.Blank

/-!
# Statements

The body of a statement is the label of a process or, after a colon, a command word that may be
followed by a space or tab and an argument.

* `Statement.ofBody`: what a body says.
-/

namespace ProgramDiagram.Outline

/-- The commands of the notation. -/
inductive Command where
  | call
  | terminal
  | comment
  | whileLoop
  | doWhileLoop
  | decision
  | switch
  | elseBranch
  | case
deriving DecidableEq

def Command.ofWord? (word : String) : Option Command :=
  match word with
  | "call" => some call
  | "terminal" => some terminal
  | "comment" => some comment
  | "while" => some whileLoop
  | "dowhile" => some doWhileLoop
  | "if" => some decision
  | "switch" => some switch
  | "else" => some elseBranch
  | "case" => some case
  | _ => none

/-- What a body says. A missing argument differs from an empty one. -/
inductive Statement where
  | process (label : String)
  | command (word : Command) (argument : Option String)
  | unknown (word : String)
deriving DecidableEq

def endsWord (c : Char) : Bool := c = ' ' || c = '\t'

/-- The argument after a command word. -/
def argument? : List Char → Option String
  | [] => none
  | rest => some (String.ofList (trim rest))

def Statement.ofBody : List Char → Statement
  | ':' :: directive =>
    let word := String.ofList (directive.takeWhile (!endsWord ·))
    match Command.ofWord? word with
    | some c => .command c (argument? (directive.dropWhile (!endsWord ·)))
    | none => .unknown word
  | body => .process (String.ofList body)

/-- The argument of a command that needs one. -/
def required : Option String → Except Error String
  | some argument => if argument.isEmpty then .error .missingArgument else .ok argument
  | none => .error .missingArgument

end ProgramDiagram.Outline
