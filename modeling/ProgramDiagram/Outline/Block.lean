import ProgramDiagram.Outline.Statement

/-!
# Blocks of nodes

While an outline is read, the nodes of a block that is still open are collected.

* `Block.accept`: a statement adds a node to a block or prepares its last node.
* `Block.closeInto`: a block that closes goes to the last node of the block around it.
-/

namespace ProgramDiagram.Outline

/-- Where the next nested block goes in the last node of a block. -/
inductive Slot where
  | body
  | elseBranch
  | case (label : String)
deriving DecidableEq

/-- The nodes of an open block, newest first. -/
structure Block where
  nodes : List Node
  slot : Slot

namespace Block

def empty : Block := ⟨[], .body⟩

def add (b : Block) (node : Node) : Block := ⟨node :: b.nodes, .body⟩

/-- A case that no nested block has followed gets no body. -/
def commit (b : Block) : Block :=
  match b.nodes, b.slot with
  | .switch t cases :: rest, .case label => ⟨.switch t (insertCase label none cases) :: rest, .body⟩
  | _, _ => b

/-- Puts the body of a closed block into the last node. -/
def attach (b : Block) (body : Node) : Except Error Block :=
  match b.nodes with
  | [] => .error (.inconsistent .noOwner)
  | .process t _ :: rest => .ok ⟨.process t (some body) :: rest, .body⟩
  | .call t _ :: rest => .ok ⟨.call t (some body) :: rest, .body⟩
  | .loop t first _ :: rest => .ok ⟨.loop t first (some body) :: rest, .body⟩
  | .switch t cases :: rest =>
    match b.slot with
    | .case label => .ok ⟨.switch t (insertCase label (some body) cases) :: rest, .body⟩
    | _ => .error (.inconsistent .noPendingCase)
  | .decision t onTrue onFalse :: rest =>
    match b.slot, onFalse with
    | .elseBranch, some _ => .error .misplacedElse
    | .elseBranch, none => .ok ⟨.decision t onTrue (some body) :: rest, .body⟩
    | _, _ => .ok ⟨.decision t (some body) onFalse :: rest, .body⟩
  | node :: _ => .error (.inconsistent (.cannotHold node.kind))

/-- An `else` belongs to a decision that has no false branch yet and awaits none. -/
def acceptElse (b : Block) (argument : Option String) : Except Error Block :=
  match b.nodes, b.slot with
  | .decision _ _ none :: _, .elseBranch => .error .misplacedElse
  | .decision _ _ none :: _, _ =>
    if argument.isSome then .error .unexpectedArgument else .ok ⟨b.nodes, .elseBranch⟩
  | _, _ => .error .misplacedElse

/-- A `case` belongs to a switch that does not have its label yet. -/
def acceptCase (b : Block) (argument : Option String) : Except Error Block :=
  match b.nodes with
  | .switch _ cases :: _ => do
    let label ← required argument
    if (Cases.labels cases).contains label then .error (.duplicateCase label)
    else .ok ⟨b.nodes, .case label⟩
  | _ => .error .misplacedCase

/-- Adds the node that a command makes of its argument. -/
def addLabelled (b : Block) (argument : Option String) (node : String → Node) :
    Except Error Block := do
  let label ← required argument
  .ok (b.add (node label))

/-- The effect of a statement on a block in which no case is pending. -/
def accept (b : Block) : Statement → Except Error Block
  | .process label => .ok (b.add (.process label none))
  | .unknown word => .error (.unknownCommand word)
  | .command .call argument => b.addLabelled argument fun t => .call t none
  | .command .terminal argument => b.addLabelled argument .terminal
  | .command .comment argument => b.addLabelled argument .comment
  | .command .whileLoop argument => b.addLabelled argument fun t => .loop t true none
  | .command .doWhileLoop argument => b.addLabelled argument fun t => .loop t false none
  | .command .decision argument => b.addLabelled argument fun t => .decision t none none
  | .command .switch argument => b.addLabelled argument fun t => .switch t []
  | .command .elseBranch argument => b.acceptElse argument
  | .command .case argument => b.acceptCase argument

/-- Whether a nested block may follow the last node. -/
def canNest (b : Block) : Bool :=
  match b.nodes, b.slot with
  | .comment _ :: _, _ => false
  | .switch .. :: _, .case _ => true
  | .switch .. :: _, _ => false
  | _, _ => true

/-- The parent of a closing block with that block's nodes attached. -/
def closeInto (block parent : Block) : Except Error Block :=
  match Node.ofBlock block.commit.nodes.reverse with
  | none => .ok parent
  | some body => parent.attach body

end Block

end ProgramDiagram.Outline
