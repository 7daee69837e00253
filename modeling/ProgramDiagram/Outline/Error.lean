import ProgramDiagram.Diagram.Node
import ProgramDiagram.Text.Quoted

/-!
# Errors of an outline

* `Outline.Error`: the causes for which a statement is refused.
* `Error.message`: the wording of each cause.
-/

namespace ProgramDiagram.Outline

/-- Ways in which a closing block finds nothing to hold it. -/
inductive Inconsistency where
  | noOwner
  | noPendingCase
  | cannotHold (kind : Kind)
deriving DecidableEq

inductive Error where
  | missingArgument
  | unexpectedArgument
  | illegalIndentation
  | unknownCommand (word : String)
  | misplacedElse
  | misplacedCase
  | duplicateCase (label : String)
  | inconsistent (cause : Inconsistency)
  | interrupted (reason : Option String)
deriving DecidableEq

def Inconsistency.message : Inconsistency → String
  | noOwner => "a nested context has no node to attach to"
  | noPendingCase => "no pending case for a switch body"
  | cannotHold kind => "a " ++ kind.name ++ " node cannot hold children"

namespace Error

def message : Error → String
  | missingArgument => "this command requires an argument"
  | unexpectedArgument => "this command does not take an argument"
  | illegalIndentation => "illegal indentation"
  | unknownCommand word => "unknown command: :" ++ word
  | misplacedElse => "misplaced :else"
  | misplacedCase => "misplaced :case"
  | duplicateCase label => "a case named " ++ quoted label ++ " already exists"
  | inconsistent cause => "internal error: " ++ cause.message
  | interrupted reason => "unexpected error: " ++ reason.getD "unknown panic"

/-- The name of the cause where errors are reported as data. -/
def name : Error → String
  | missingArgument => "MissingRequiredArgument"
  | unexpectedArgument => "UnexpectedArgument"
  | illegalIndentation => "IllegalIndentation"
  | unknownCommand _ => "UnknownDirective"
  | misplacedElse => "MisplacedElse"
  | misplacedCase => "MisplacedCase"
  | duplicateCase _ => "DuplicateCase"
  | inconsistent _ => "InternalInconsistency"
  | interrupted _ => "WrappedUnexpected"

end Error

end ProgramDiagram.Outline
