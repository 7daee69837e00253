import ProgramDiagram.Layout.Tree

/-!
# Pages

A fragment stands on a page with a margin around it.
-/

namespace ProgramDiagram

variable {α : Type} [Scalar α]

/-- The width and height of the page of a fragment. -/
def Sheet.canvas (s : Sheet α) (f : Fragment α) : α × α :=
  (f.width + s.options.margin.horizontal, f.height + s.options.margin.vertical)

end ProgramDiagram
