import ProgramDiagram.Diagram.Node
import ProgramDiagram.Json.Value

/-!
# Written trees

A tree is written as a JSON object that names its kind first. A missing child or branch is `null`,
and the cases of a switch are the fields of an object.
-/

namespace ProgramDiagram

/-- An object that starts with the kind and the label of a node. -/
def labelled (kind : Kind) (text : String) (fields : List (String × Json.Value)) : Json.Value :=
  .object (("type", .string kind.name) :: ("text", .string text) :: fields)

mutual

/-- The JSON form of a tree. -/
def Node.toJson : Node → Json.Value
  | .process t child => labelled .process t [("child", bodyJson child)]
  | .terminal t => labelled .terminal t []
  | .comment t => labelled .comment t []
  | .call t child => labelled .call t [("child", bodyJson child)]
  | .loop t testFirst child =>
    labelled .loop t [("isWhile", .bool testFirst), ("child", bodyJson child)]
  | .decision t onTrue onFalse =>
    labelled .decision t [("trueBranch", bodyJson onTrue), ("falseBranch", bodyJson onFalse)]
  | .switch t cases => labelled .switch t [("cases", .object (casesJson cases))]
  | .list children =>
    .object [("type", .string Kind.list.name), ("children", .array (listJson children))]

/-- The JSON form of what a node may lack. -/
def bodyJson : Option Node → Json.Value
  | none => .null
  | some node => node.toJson

def casesJson : List (String × Option Node) → List (String × Json.Value)
  | [] => []
  | (label, body) :: rest => (label, bodyJson body) :: casesJson rest

def listJson : List Node → List Json.Value
  | [] => []
  | node :: rest => node.toJson :: listJson rest

end

end ProgramDiagram
