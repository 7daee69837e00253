import ProgramDiagram.Layout.Tree
import ProgramDiagram.Proofs.Diagram.Subtrees

/-!
# Placed fragments

A fragment has one group for each child that its node owns.

* `Placed`: a child's fragment with the point that it is moved to;
* `Node.placed`: the children of a node as its layout places them;
* `layout_groups`, `placed_fragments`: these are all groups of the layout, and each holds the whole
  layout of a child.
-/

namespace ProgramDiagram

variable {α : Type}

def Shape.isGroup : Shape α → Bool
  | .group .. => true
  | _ => false

/-- The groups among shapes. -/
def groups (shapes : List (Shape α)) : List (Shape α) := shapes.filter Shape.isGroup

theorem groups_append (a b : List (Shape α)) : groups (a ++ b) = groups a ++ groups b :=
  List.filter_append ..

theorem groups_eq_nil {shapes : List (Shape α)} (h : ∀ shape ∈ shapes, shape.isGroup = false) :
    groups shapes = [] :=
  List.filter_eq_nil_iff.2 (by simpa using h)

/-- The fragment of a child and where it is placed. -/
structure Placed (α : Type) where
  x : α
  y : α
  fragment : Fragment α

/-- The group that draws a placed fragment. -/
def Placed.shape (p : Placed α) : Shape α := .group p.x p.y p.fragment.shapes

/-- The bodies of branches at their heights. -/
def bodiesPlaced (x : α) (branches : List (α × Branch α)) : List (Placed α) :=
  branches.flatMap fun branch => branch.2.body.toList.map (⟨x, branch.1, ·⟩)

theorem bodyShapes_groups (right x : α) (branches : List (α × Branch α)) :
    groups (branches.flatMap fun (y, b) => bodyShapes right x y b.body)
      = (bodiesPlaced x branches).map Placed.shape := by
  induction branches with
  | nil => rfl
  | cons branch rest ih =>
    rw [bodiesPlaced, List.flatMap_cons, groups_append, ih, List.flatMap_cons, List.map_append]
    obtain ⟨y, b⟩ := branch
    cases hbody : b.body <;> simp only [hbody] <;> rfl

theorem bodiesPlaced_fragments (x : α) (branches : List (α × Branch α)) :
    (bodiesPlaced x branches).map Placed.fragment = branches.flatMap (·.2.body.toList) := by
  rw [bodiesPlaced, List.map_flatMap]
  apply congrArg (branches.flatMap ·)
  funext branch
  cases branch.2.body <;> rfl

theorem mem_bodiesPlaced {x : α} {branches : List (α × Branch α)} {p : Placed α}
    (h : p ∈ bodiesPlaced x branches) :
    p.x = x ∧ ∃ branch ∈ branches, p.fragment ∈ branch.2.body := by
  obtain ⟨branch, hbranch, hp⟩ := List.mem_flatMap.1 h
  obtain ⟨f, hf, rfl⟩ := List.mem_map.1 hp
  exact ⟨rfl, branch, hbranch, Option.mem_toList.1 hf⟩

theorem length_padded (entries : List (String × Option (Fragment α))) :
    (padded entries).length = max 2 entries.length := by
  rw [padded, List.length_append, List.length_replicate]
  omega

variable [Scalar α]

/-- A child to the right of a box. -/
def boxPlaced (s : Sheet α) (width : α) (child : Option (Fragment α)) : List (Placed α) :=
  child.toList.map (⟨width + s.options.childOffsetWidth, Scalar.ofNat 0, ·⟩)

/-- The nodes of a list from height `y` on. -/
def stackPlaced (s : Sheet α) (cols : Columns α) (isFirst : Bool) (y : α) :
    List (Fragment α) → List (Placed α)
  | [] => []
  | [f] => [⟨if isFirst then cols.first else cols.last, y, f⟩]
  | f :: next :: rest =>
    ⟨if isFirst then cols.first else cols.line, y, f⟩
      :: stackPlaced s cols false (Scalar.toTenth (y + f.height + s.options.nodeListSpacing))
        (next :: rest)

/-- The bodies to the right of a condition. -/
def branchesPlaced (s : Sheet α) (text : String) (entries : List (String × Option (Fragment α))) :
    List (Placed α) :=
  let bs := branchesOf s entries
  bodiesPlaced (bodyColumn s text bs) (anchored s text bs)

/-- The children of a node, where its layout places them. -/
def Node.placed (s : Sheet α) : Node → List (Placed α)
  | .process t child => boxPlaced s (boxSize s t .rectangle).1 (bodyLayout s child)
  | .terminal _ => []
  | .comment _ => []
  | .call t child => boxPlaced s (boxSize s t .rectangle).1 (bodyLayout s child)
  | .loop t _ child => boxPlaced s (boxSize s t .rectangle).1 (bodyLayout s child)
  | .decision t onTrue onFalse =>
    branchesPlaced s t [("", bodyLayout s onTrue), ("", bodyLayout s onFalse)]
  | .switch t cases => branchesPlaced s t (casesLayout s cases)
  | .list children =>
    let fs := listLayout s children
    stackPlaced s (columns s fs) true (Scalar.ofNat 0) fs

/-! ## The groups of a fragment -/

theorem boxFragment_groups (s : Sheet α) (kind : Kind) (text : String) (border : Border)
    (bars : Bars) (child : Option (Fragment α)) :
    groups (boxFragment s kind text border bars child).shapes
      = (boxPlaced s (boxSize s text border).1 child).map Placed.shape := by
  have houtline : ∀ w h : α, groups (boxOutline w h border) = [] := by
    intro w h
    cases border <;> rfl
  have hbars : ∀ w h : α, groups (boxBars s w h bars) = [] := by
    intro w h
    obtain ⟨left, right⟩ := bars
    cases left <;> cases right <;> rfl
  have hlabel : ∀ h : α, groups [boxLabel s text h border] = [] := by
    intro h
    cases border <;> rfl
  have hchild : ∀ w : α, groups (boxChild s w child) = (boxPlaced s w child).map Placed.shape := by
    intro w
    cases child <;> rfl
  simp only [boxFragment, groups_append, houtline, hbars, hlabel, hchild, List.nil_append]

theorem stackShapes_groups (s : Sheet α) (cols : Columns α) (fs : List (Fragment α)) :
    ∀ (isFirst : Bool) (y : α),
      groups (stackShapes s cols isFirst y fs)
        = (stackPlaced s cols isFirst y fs).map Placed.shape := by
  induction fs with
  | nil => exact fun _ _ => rfl
  | cons f fs ih =>
    intro isFirst y
    cases fs with
    | nil => rfl
    | cons next rest =>
      rw [stackPlaced, List.map_cons, ← ih]
      rfl

theorem stackFragment_groups (s : Sheet α) (fs : List (Fragment α)) :
    groups (stackFragment s fs).shapes
      = (stackPlaced s (columns s fs) true (Scalar.ofNat 0) fs).map Placed.shape := by
  cases fs with
  | nil => rfl
  | cons f fs => exact stackShapes_groups s _ _ true _

theorem conditionShapes_groups (s : Sheet α) (text : String) (bs : List (Branch α)) :
    groups (conditionShapes s text bs) = [] := by
  apply groups_eq_nil
  intro shape hshape
  simp only [conditionShapes, List.cons_append, List.mem_cons, List.mem_append, List.mem_map,
    List.not_mem_nil, or_false] at hshape
  obtain rfl | ⟨branch, -, rfl⟩ | rfl := hshape <;> rfl

theorem branchesFragment_groups (s : Sheet α) (kind : Kind) (text : String)
    (entries : List (String × Option (Fragment α))) :
    groups (branchesFragment s kind text entries).shapes
      = (branchesPlaced s text entries).map Placed.shape := by
  rw [branchesFragment, groups_append, bodyShapes_groups, conditionShapes_groups, List.append_nil]
  rfl

/-- The groups of a layout are the placed children of the node. -/
theorem layout_groups (s : Sheet α) (node : Node) :
    groups (node.layout s).shapes = (node.placed s).map Placed.shape := by
  cases node with
  | process | terminal | comment | call | loop => exact boxFragment_groups ..
  | decision | switch => exact branchesFragment_groups ..
  | list => exact stackFragment_groups ..

theorem layout_kind (s : Sheet α) (node : Node) : (node.layout s).kind = node.kind := by
  cases node with
  | process | terminal | comment | call | loop | decision | switch => rfl
  | list children =>
    rw [Node.layout, stackFragment]
    split <;> rfl

theorem isTerminal_layout (s : Sheet α) (node : Node) :
    (node.layout s).isTerminal = decide (node.kind = .terminal) := by
  rw [Fragment.isTerminal, layout_kind]

/-! ## The fragments of what a node owns -/

theorem bodyLayout_toList (s : Sheet α) (body : Option Node) :
    (bodyLayout s body).toList = body.toList.map (Node.layout s) := by
  cases body <;> rfl

theorem listLayout_eq (s : Sheet α) (nodes : List Node) :
    listLayout s nodes = nodes.map (Node.layout s) := by
  induction nodes with
  | nil => rfl
  | cons node nodes ih => rw [listLayout, ih, List.map_cons]

theorem casesLayout_bodies (s : Sheet α) (cases : Cases) :
    (casesLayout s cases).flatMap (·.2.toList) = cases.bodies.map (Node.layout s) := by
  induction cases with
  | nil => rfl
  | cons c cases ih =>
    obtain ⟨label, body⟩ := c
    rw [casesLayout, List.flatMap_cons, ih, bodyLayout_toList]
    cases body <;> rfl

theorem boxPlaced_fragments (s : Sheet α) (width : α) (child : Option (Fragment α)) :
    (boxPlaced s width child).map Placed.fragment = child.toList := by
  cases child <;> rfl

theorem stackPlaced_fragments (s : Sheet α) (cols : Columns α) (fs : List (Fragment α)) :
    ∀ (isFirst : Bool) (y : α), (stackPlaced s cols isFirst y fs).map Placed.fragment = fs := by
  induction fs with
  | nil => exact fun _ _ => rfl
  | cons f fs ih =>
    intro isFirst y
    cases fs with
    | nil => rfl
    | cons next rest => rw [stackPlaced, List.map_cons, ih]

theorem length_branchesOf (s : Sheet α) (entries : List (String × Option (Fragment α))) :
    (branchesOf s entries).length = max 2 entries.length := by
  rw [branchesOf, List.length_mapIdx, length_padded]

theorem length_descents (s : Sheet α) (minHeight : α) (bs : List (Branch α)) :
    ∀ d : Descent α, (descents s minHeight d bs).length = bs.length := by
  induction bs with
  | nil => exact fun _ => rfl
  | cons b bs ih => exact fun d => congrArg (· + 1) (ih _)

theorem length_anchorHeights (s : Sheet α) (text : String) (bs : List (Branch α)) :
    (anchorHeights s text bs).length = bs.length := by
  rw [anchorHeights, anchors, List.length_map, List.length_map, length_descents]

theorem anchored_branches (s : Sheet α) (text : String) (bs : List (Branch α)) :
    (anchored s text bs).map Prod.snd = bs :=
  List.map_snd_zip (Nat.le_of_eq (length_anchorHeights s text bs).symm)

/-- Branches are made of the entries one by one. -/
theorem map_branchesOf {β : Type} (s : Sheet α) (entries : List (String × Option (Fragment α)))
    (f : Branch α → β) (g : String × Option (Fragment α) → β)
    (h : ∀ place entry, f ⟨place, entry.1, (s.measurePadded entry.1).1,
      (s.measurePadded entry.1).2, entry.2⟩ = g entry) :
    (branchesOf s entries).map f = (padded entries).map g := by
  apply List.ext_getElem
  · simp [branchesOf]
  · intro i _ _
    simp only [branchesOf, List.getElem_map, List.getElem_mapIdx]
    exact h _ _

/-- The bodies of branches are those of the entries. -/
theorem branchesOf_bodies (s : Sheet α) (entries : List (String × Option (Fragment α))) :
    (branchesOf s entries).flatMap (·.body.toList) = entries.flatMap (·.2.toList) := by
  have hmap := map_branchesOf s entries (·.body.toList) (·.2.toList) fun _ _ => rfl
  have hnone : (List.replicate (2 - entries.length) ("", (none : Option (Fragment α)))).flatMap
      (·.2.toList) = [] := by
    simp
  rw [List.flatMap_def, hmap, ← List.flatMap_def, padded, List.flatMap_append, hnone,
    List.append_nil]

theorem anchored_bodies (s : Sheet α) (text : String)
    (entries : List (String × Option (Fragment α))) :
    (anchored s text (branchesOf s entries)).flatMap (·.2.body.toList)
      = entries.flatMap (·.2.toList) := by
  let bs := branchesOf s entries
  calc (anchored s text bs).flatMap (·.2.body.toList)
      = ((anchored s text bs).map Prod.snd).flatMap (·.body.toList) := by rw [List.flatMap_map]
    _ = bs.flatMap (·.body.toList) := by rw [anchored_branches]
    _ = entries.flatMap (·.2.toList) := branchesOf_bodies s entries

theorem branchesPlaced_fragments (s : Sheet α) (text : String)
    (entries : List (String × Option (Fragment α))) :
    (branchesPlaced s text entries).map Placed.fragment = entries.flatMap (·.2.toList) := by
  rw [branchesPlaced, bodiesPlaced_fragments, anchored_bodies]

/-- The placed children are laid out as they are on their own. -/
theorem placed_fragments (s : Sheet α) (node : Node) :
    (node.placed s).map Placed.fragment = node.owned.map (Node.layout s) := by
  cases node with
  | process t child => rw [Node.placed, boxPlaced_fragments, bodyLayout_toList, Node.owned]
  | terminal | comment => rfl
  | call t child => rw [Node.placed, boxPlaced_fragments, bodyLayout_toList, Node.owned]
  | loop t testFirst child => rw [Node.placed, boxPlaced_fragments, bodyLayout_toList, Node.owned]
  | decision t onTrue onFalse =>
    rw [Node.placed, branchesPlaced_fragments, Node.owned, List.map_append, ← bodyLayout_toList,
      ← bodyLayout_toList, List.flatMap_cons, List.flatMap_cons, List.flatMap_nil, List.append_nil]
  | switch t cases => rw [Node.placed, branchesPlaced_fragments, casesLayout_bodies, Node.owned]
  | list children => rw [Node.placed, stackPlaced_fragments, listLayout_eq, Node.owned]

end ProgramDiagram
