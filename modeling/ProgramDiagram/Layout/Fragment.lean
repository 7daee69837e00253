import ProgramDiagram.Diagram.Node

/-!
# Fragments

A laid-out tree is a list of shapes in a space of its own, with the room that they take. What holds
a fragment places it as a group, so a fragment does not depend on where it goes.
-/

namespace ProgramDiagram

/-- A shape of a drawing. A box stands at the origin; a label is given by its top left corner. -/
inductive Shape (α : Type) where
  | line (x1 y1 x2 y2 : α)
  | box (width height : α) (radius : Option α)
  | polygon (points : List (α × α))
  | label (text : String) (x y : α)
  | group (x y : α) (content : List (Shape α))

/-- The shapes of a tree, the room they take, and the kind of the tree's root. -/
structure Fragment (α : Type) where
  shapes : List (Shape α)
  width : α
  height : α
  kind : Kind

def Fragment.isTerminal {α : Type} (f : Fragment α) : Bool := f.kind = .terminal

end ProgramDiagram
