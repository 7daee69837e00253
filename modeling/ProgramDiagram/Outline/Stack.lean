import ProgramDiagram.Outline.Block

/-!
# The stack of open blocks

While an outline is read, every depth down to the current one has an open block.

* `Stack.moveTo`: the indentation of a statement opens one block or closes some.
* `Stack.accept`: the effect of a statement on the current block.
* `Stack.closeAll`: the end of an outline closes what is open.
-/

namespace ProgramDiagram.Outline

/-- An open block with its depth. -/
structure Context where
  depth : Nat
  block : Block

/-- The open blocks, from the current one outwards. -/
abbrev Stack := List Context

/-- A refusal leaves changed blocks behind. -/
structure Failure (σ : Type) where
  error : Error
  blocks : σ

/-- Why an attempt does not succeed. A panic ends the reading. -/
inductive Setback (σ : Type) where
  | refused (failure : Failure σ)
  | panicked (message : String)

def Setback.error {σ : Type} : Setback σ → Error
  | refused failure => failure.error
  | panicked message => .interrupted (some message)

/-- What comes of an attempt to change the open blocks. -/
abbrev Attempt (σ : Type) := Except (Setback σ) σ

/-- What a reading does with open blocks, however they are kept. -/
class Nesting (σ : Type) where
  start : σ
  moveTo : σ → Nat → Attempt σ
  accept : σ → Statement → Attempt σ
  closeAll : σ → Except Error (Option Node)

namespace Stack

def start : Stack := [⟨0, .empty⟩]

/-- The stack is left behind by a refusal. -/
def refuse (s : Stack) (error : Error) : Attempt Stack := .error (.refused ⟨error, s⟩)

/-- The current block of an empty stack is looked for at the index before zero. -/
def panic : Attempt Stack := .error (.panicked "attempt to subtract with overflow")

/-- Closes the current block, which has to have another one around it. A block that cannot be
attached is lost. -/
def close : Stack → Attempt Stack
  | current :: parent :: outer =>
    match current.block.closeInto parent.block with
    | .ok block => .ok ({ parent with block } :: outer)
    | .error e => refuse (parent :: outer) e
  | s => s.refuse .illegalIndentation

/-- Closes the current block, and so on outwards, for as long as there are `more` to close. -/
def closeWhile (more : Context → List Context → Bool) (current : Context) :
    List Context → Attempt Stack
  | [] => if more current [] then close [current] else .ok [current]
  | parent :: outer =>
    if more current (parent :: outer) then
      match close (current :: parent :: outer) with
      | .ok (parent :: _) => closeWhile more parent outer
      | attempt => attempt
    else .ok (current :: parent :: outer)

/-- Closes the blocks that are deeper than `depth`. -/
def closeTo (s : Stack) (depth : Nat) : Attempt Stack :=
  match s with
  | [] => panic
  | current :: outer => closeWhile (fun current _ => depth < current.depth) current outer

/-- Closes all blocks but the outermost one. -/
def closeOuter (s : Stack) : Attempt Stack :=
  match s with
  | [] => .ok []
  | current :: outer => closeWhile (fun _ outer => !outer.isEmpty) current outer

/-- Opens a block for a statement that is deeper than the current block, by one level at most. -/
def openTo (s : Stack) (depth : Nat) : Attempt Stack :=
  match s with
  | [] => panic
  | current :: _ =>
    if depth ≤ current.depth then .ok s
    else if current.depth + 1 < depth || !current.block.canNest then s.refuse .illegalIndentation
    else .ok (⟨current.depth + 1, .empty⟩ :: s)

/-- Brings the stack to the depth of the next statement. Only the first statement of the outermost
block may stand without one before it. -/
def moveTo (s : Stack) (depth : Nat) : Attempt Stack :=
  match s with
  | [] => panic
  | current :: _ =>
    if 0 < depth && current.block.nodes.isEmpty then s.refuse .illegalIndentation
    else
      match s.openTo depth with
      | .ok opened => opened.closeTo depth
      | attempt => attempt

/-- The effect of a statement on the current block. A pending case is settled first, even if the
statement is then refused. -/
def accept (s : Stack) (statement : Statement) : Attempt Stack :=
  match s with
  | [] => panic
  | current :: outer =>
    match current.block.commit.accept statement with
    | .ok block => .ok ({ current with block } :: outer)
    | .error e => refuse ({ current with block := current.block.commit } :: outer) e

/-- The tree of an outline: the list of its outermost nodes, if there are any. -/
def closeAll (s : Stack) : Except Error (Option Node) :=
  match s.closeOuter with
  | .error setback => .error setback.error
  | .ok [] => .ok none
  | .ok (root :: _) =>
    match root.block.commit.nodes with
    | [] => .ok none
    | nodes => .ok (some (.list nodes.reverse))

instance : Nesting Stack := ⟨start, moveTo, accept, closeAll⟩

end Stack

end ProgramDiagram.Outline
