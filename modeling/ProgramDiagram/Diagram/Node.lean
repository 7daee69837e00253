/-!
# Diagram nodes

A structured program is a tree of labelled nodes.

* `Node`: the tree.
* `insertCase`: cases keep the order in which their labels first came.
* `Node.preorder`: the kinds and labels of all nodes, owners before what they own.
-/

namespace ProgramDiagram

/-- The kinds of nodes. -/
inductive Kind where
  | process
  | terminal
  | comment
  | call
  | loop
  | decision
  | switch
  | list
deriving DecidableEq

/-- The name of a kind in a written tree. -/
def Kind.name : Kind → String
  | process => "process"
  | terminal => "terminal"
  | comment => "comment"
  | call => "call"
  | loop => "loop"
  | decision => "if"
  | switch => "switch"
  | list => "nodeList"

/-- A node with what it owns. A loop tests its condition before its body or after it; a list holds
nodes that follow each other. -/
inductive Node where
  | process (text : String) (child : Option Node)
  | terminal (text : String)
  | comment (text : String)
  | call (text : String) (child : Option Node)
  | loop (text : String) (testFirst : Bool) (child : Option Node)
  | decision (text : String) (onTrue onFalse : Option Node)
  | switch (text : String) (cases : List (String × Option Node))
  | list (children : List Node)

/-- The cases of a switch, in order. -/
abbrev Cases := List (String × Option Node)

/-- Sets the body of a label, which keeps its place if it has one and else comes last. -/
def insertCase (label : String) (body : Option Node) : Cases → Cases
  | [] => [(label, body)]
  | (l, b) :: rest => if l = label then (l, body) :: rest else (l, b) :: insertCase label body rest

/-- The labels of cases. -/
def Cases.labels (cases : Cases) : List String := List.map Prod.fst cases

/-- Cases put in one after the other. -/
def casesOf (entries : List (String × Option Node)) : Cases :=
  entries.foldl (fun cases entry => insertCase entry.1 entry.2 cases) []

namespace Node

def kind : Node → Kind
  | process .. => .process
  | terminal .. => .terminal
  | comment .. => .comment
  | call .. => .call
  | loop .. => .loop
  | decision .. => .decision
  | switch .. => .switch
  | list .. => .list

/-- The label of a node. A list has none. -/
def text? : Node → Option String
  | process t _ => some t
  | terminal t => some t
  | comment t => some t
  | call t _ => some t
  | loop t _ _ => some t
  | decision t _ _ => some t
  | switch t _ => some t
  | list _ => none

/-- Gives a node its one child. Kinds without a child stay as they are. -/
def withChild (node child : Node) : Node :=
  match node with
  | process t _ => process t (some child)
  | call t _ => call t (some child)
  | loop t first _ => loop t first (some child)
  | other => other

/-- One node stands for itself and several for a list. -/
def ofBlock : List Node → Option Node
  | [] => none
  | [node] => some node
  | nodes => some (list nodes)

end Node

mutual

/-- The kinds and labels of a tree, owners before what they own. -/
def Node.preorder : Node → List (Kind × Option String)
  | .process t child => (.process, some t) :: bodyPreorder child
  | .terminal t => [(.terminal, some t)]
  | .comment t => [(.comment, some t)]
  | .call t child => (.call, some t) :: bodyPreorder child
  | .loop t _ child => (.loop, some t) :: bodyPreorder child
  | .decision t onTrue onFalse =>
    (.decision, some t) :: (bodyPreorder onTrue ++ bodyPreorder onFalse)
  | .switch t cases => (.switch, some t) :: casesPreorder cases
  | .list children => (.list, none) :: listPreorder children

def bodyPreorder : Option Node → List (Kind × Option String)
  | none => []
  | some node => node.preorder

def casesPreorder : List (String × Option Node) → List (Kind × Option String)
  | [] => []
  | (_, body) :: rest => bodyPreorder body ++ casesPreorder rest

def listPreorder : List Node → List (Kind × Option String)
  | [] => []
  | node :: rest => node.preorder ++ listPreorder rest

end

end ProgramDiagram
