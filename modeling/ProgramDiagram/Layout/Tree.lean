import ProgramDiagram.Layout.Branches
import ProgramDiagram.Layout.Stack

/-!
# Trees

* `Node.layout`: the fragment of a tree, from the fragments of what its root owns.
-/

namespace ProgramDiagram

variable {α : Type} [Scalar α]

mutual

/-- The fragment of a tree. -/
def Node.layout (s : Sheet α) : Node → Fragment α
  | .process t child =>
    boxFragment s .process t .rectangle ⟨false, false⟩ (bodyLayout s child)
  | .terminal t => boxFragment s .terminal t .pill ⟨false, false⟩ none
  | .comment t => boxFragment s .comment ("(" ++ t ++ ")") .none ⟨false, false⟩ none
  | .call t child => boxFragment s .call t .rectangle ⟨true, true⟩ (bodyLayout s child)
  | .loop t testFirst child =>
    boxFragment s .loop t .rectangle ⟨testFirst, !testFirst⟩ (bodyLayout s child)
  | .decision t onTrue onFalse =>
    branchesFragment s .decision t [("", bodyLayout s onTrue), ("", bodyLayout s onFalse)]
  | .switch t cases => branchesFragment s .switch t (casesLayout s cases)
  | .list children => stackFragment s (listLayout s children)

def bodyLayout (s : Sheet α) : Option Node → Option (Fragment α)
  | none => none
  | some node => some (node.layout s)

def casesLayout (s : Sheet α) : List (String × Option Node) → List (String × Option (Fragment α))
  | [] => []
  | (label, body) :: rest => (label, bodyLayout s body) :: casesLayout s rest

def listLayout (s : Sheet α) : List Node → List (Fragment α)
  | [] => []
  | node :: rest => node.layout s :: listLayout s rest

end

end ProgramDiagram
