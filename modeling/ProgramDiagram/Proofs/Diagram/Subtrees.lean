import ProgramDiagram.Diagram.Node

/-!
# The subtrees of a tree

* `Node.owned`: the nodes that a node owns, in order;
* `Node.subtrees`: a tree and all trees in it, owners before what they own;
* `Node.of_owned`: what a node has if those that it owns have it, every tree has.
-/

namespace ProgramDiagram

/-- The bodies of cases that have one. -/
def Cases.bodies (cases : Cases) : List Node := List.filterMap Prod.snd cases

/-- The nodes that a node owns. -/
def Node.owned : Node → List Node
  | .process _ child => child.toList
  | .terminal _ => []
  | .comment _ => []
  | .call _ child => child.toList
  | .loop _ _ child => child.toList
  | .decision _ onTrue onFalse => onTrue.toList ++ onFalse.toList
  | .switch _ cases => Cases.bodies cases
  | .list children => children

mutual

/-- A tree and all trees in it. -/
def Node.subtrees : Node → List Node
  | .process t child => .process t child :: bodySubtrees child
  | .terminal t => [.terminal t]
  | .comment t => [.comment t]
  | .call t child => .call t child :: bodySubtrees child
  | .loop t testFirst child => .loop t testFirst child :: bodySubtrees child
  | .decision t onTrue onFalse =>
    .decision t onTrue onFalse :: (bodySubtrees onTrue ++ bodySubtrees onFalse)
  | .switch t cases => .switch t cases :: casesSubtrees cases
  | .list children => .list children :: listSubtrees children

def bodySubtrees : Option Node → List Node
  | none => []
  | some node => node.subtrees

def casesSubtrees : List (String × Option Node) → List Node
  | [] => []
  | (_, body) :: rest => bodySubtrees body ++ casesSubtrees rest

def listSubtrees : List Node → List Node
  | [] => []
  | node :: rest => node.subtrees ++ listSubtrees rest

end

theorem bodySubtrees_eq (body : Option Node) :
    bodySubtrees body = body.toList.flatMap Node.subtrees := by
  cases body with
  | none => rfl
  | some node => simp [bodySubtrees]

theorem casesSubtrees_eq (cases : Cases) :
    casesSubtrees cases = cases.bodies.flatMap Node.subtrees := by
  induction cases with
  | nil => rfl
  | cons c cases ih =>
    obtain ⟨label, body⟩ := c
    rw [casesSubtrees, bodySubtrees_eq, ih]
    cases body with
    | none => simp [Cases.bodies]
    | some node => simp [Cases.bodies]

theorem listSubtrees_eq (nodes : List Node) : listSubtrees nodes = nodes.flatMap Node.subtrees := by
  induction nodes with
  | nil => rfl
  | cons node nodes ih => rw [listSubtrees, ih, List.flatMap_cons]

/-- The trees in a tree are those in what its root owns. -/
theorem Node.subtrees_eq (node : Node) :
    node.subtrees = node :: node.owned.flatMap Node.subtrees := by
  cases node with
  | process | call | loop => rw [subtrees, bodySubtrees_eq]; rfl
  | terminal | comment => rfl
  | decision t onTrue onFalse =>
    rw [subtrees, bodySubtrees_eq, bodySubtrees_eq, ← List.flatMap_append]
    rfl
  | switch t cases => rw [subtrees, casesSubtrees_eq]; rfl
  | list children => rw [subtrees, listSubtrees_eq]; rfl

theorem Node.forall_subtrees_iff {P : Node → Prop} {node : Node} :
    (∀ m ∈ node.subtrees, P m) ↔ P node ∧ ∀ child ∈ node.owned, ∀ m ∈ child.subtrees, P m := by
  rw [subtrees_eq, List.forall_mem_cons, List.forall_mem_flatMap]

mutual

/-- What a node has if all nodes that it owns have it, every node has. -/
theorem Node.of_owned {P : Node → Prop}
    (h : ∀ node : Node, (∀ child ∈ node.owned, P child) → P node) : (node : Node) → P node
  | .process _ child => h _ (body_of_owned h child)
  | .terminal _ => h _ (List.forall_mem_nil P)
  | .comment _ => h _ (List.forall_mem_nil P)
  | .call _ child => h _ (body_of_owned h child)
  | .loop _ _ child => h _ (body_of_owned h child)
  | .decision _ onTrue onFalse =>
    h _ (List.forall_mem_append.2 ⟨body_of_owned h onTrue, body_of_owned h onFalse⟩)
  | .switch _ cases => h _ (cases_of_owned h cases)
  | .list children => h _ (list_of_owned h children)

theorem body_of_owned {P : Node → Prop}
    (h : ∀ node : Node, (∀ child ∈ node.owned, P child) → P node) :
    (body : Option Node) → ∀ child ∈ body.toList, P child
  | none => List.forall_mem_nil P
  | some node => List.forall_mem_singleton.2 (node.of_owned h)

theorem cases_of_owned {P : Node → Prop}
    (h : ∀ node : Node, (∀ child ∈ node.owned, P child) → P node) :
    (cases : List (String × Option Node)) → ∀ child ∈ Cases.bodies cases, P child
  | [] => List.forall_mem_nil P
  | (_, none) :: rest => cases_of_owned h rest
  | (_, some node) :: rest =>
    List.forall_mem_cons.2 ⟨node.of_owned h, cases_of_owned h rest⟩

theorem list_of_owned {P : Node → Prop}
    (h : ∀ node : Node, (∀ child ∈ node.owned, P child) → P node) :
    (nodes : List Node) → ∀ child ∈ nodes, P child
  | [] => List.forall_mem_nil P
  | node :: rest => List.forall_mem_cons.2 ⟨node.of_owned h, list_of_owned h rest⟩

end

end ProgramDiagram
