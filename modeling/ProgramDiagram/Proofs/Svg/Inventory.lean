import Mathlib.Data.List.Perm.Basic
import ProgramDiagram.Proofs.Layout.Placed
import ProgramDiagram.Proofs.Svg.Elements

/-!
# What a drawing has

* `Node.elements`: the elements that are drawn for a node itself;
* `layout_elements`: a layout has these for each node of the tree and no others;
* `elements_layout`: so has the written drawing.
-/

namespace ProgramDiagram

open Svg (Element shapeElements shapesElements textElements)

/-- A group for each thing that is owned, and a line to it. -/
def joined {β : Type} (owned : List β) : List Element := owned.flatMap fun _ => [.group, .line]

/-- What is drawn for a condition: a polygon with two corners for each branch and one more, its
text, the labels of the branches, of which there are at least two, and the bodies. -/
def conditionElements {β : Type} (text : String) (labels : List String) (bodies : List β) :
    List Element :=
  .polygon (2 * max 2 labels.length + 1) :: textElements text
    ++ (labels ++ List.replicate (2 - labels.length) "").flatMap textElements ++ joined bodies

/-- What is drawn for a node, without what is drawn for the nodes that it owns. -/
def Node.elements : Node → List Element
  | .process t child => .rect :: textElements t ++ joined child.toList
  | .terminal t => .rect :: textElements t
  | .comment t => textElements ("(" ++ t ++ ")")
  | .call t child => .rect :: .line :: .line :: textElements t ++ joined child.toList
  | .loop t _ child => .rect :: .line :: textElements t ++ joined child.toList
  | .decision t onTrue onFalse => conditionElements t ["", ""] (onTrue.toList ++ onFalse.toList)
  | .switch t cases => conditionElements t (Cases.labels cases) (Cases.bodies cases)
  | .list children =>
    List.replicate children.length .group ++ List.replicate (children.length - 1) .line

variable {α : Type}

/-! ## Groups and what they hold -/

/-- The elements of a shape without what a group holds. -/
def ownElements : Shape α → List Element
  | .group .. => [.group]
  | shape => shapeElements shape

/-- The elements that a group holds. -/
def heldElements : Shape α → List Element
  | .group _ _ content => shapesElements content
  | _ => []

theorem shapesElements_perm (shapes : List (Shape α)) :
    (shapesElements shapes).Perm
      (shapes.flatMap ownElements ++ (groups shapes).flatMap heldElements) := by
  induction shapes with
  | nil => exact .nil
  | cons shape rest ih =>
    have hshape : shapeElements shape = ownElements shape ++ heldElements shape := by
      cases shape <;> simp [shapeElements, ownElements, heldElements]
    have hgroups : (groups (shape :: rest)).flatMap heldElements
        = heldElements shape ++ (groups rest).flatMap heldElements := by
      cases shape <;> rfl
    rw [shapesElements, hshape, hgroups, List.flatMap_cons, List.append_assoc, List.append_assoc]
    apply List.Perm.append_left
    exact (ih.append_left _).trans (List.perm_append_comm_assoc ..)

theorem joined_map {β γ : Type} (f : β → γ) (owned : List β) :
    joined (owned.map f) = joined owned :=
  List.flatMap_map ..

theorem conditionElements_map {β γ : Type} (f : β → γ) (text : String) (labels : List String)
    (bodies : List β) :
    conditionElements text labels (bodies.map f) = conditionElements text labels bodies := by
  rw [conditionElements, joined_map]
  rfl

theorem bodyShapes_elements (right x : α) (branches : List (α × Branch α)) :
    (branches.flatMap fun (y, b) => bodyShapes right x y b.body).flatMap ownElements
      = joined (branches.flatMap (·.2.body.toList)) := by
  induction branches with
  | nil => rfl
  | cons branch rest ih =>
    obtain ⟨y, b⟩ := branch
    rw [List.flatMap_cons, List.flatMap_append, ih, joined, joined, List.flatMap_cons,
      List.flatMap_append]
    cases hbody : b.body <;> simp only [hbody] <;> rfl

/-! ## Boxes -/

def Border.elements : Border → List Element
  | .rectangle => [.rect]
  | .pill => [.rect]
  | .none => []

def Bars.elements (bars : Bars) : List Element :=
  (if bars.left then [.line] else []) ++ if bars.right then [.line] else []

variable [Scalar α]

theorem boxFragment_elements (s : Sheet α) (kind : Kind) (text : String) (border : Border)
    (bars : Bars) (child : Option (Fragment α)) :
    (boxFragment s kind text border bars child).shapes.flatMap ownElements
      = border.elements ++ bars.elements ++ textElements text ++ joined child.toList := by
  have houtline : ∀ w h : α, (boxOutline w h border).flatMap ownElements = border.elements := by
    intro w h
    cases border <;> rfl
  have hbars : ∀ w h : α, (boxBars s w h bars).flatMap ownElements = bars.elements := by
    intro w h
    obtain ⟨left, right⟩ := bars
    cases left <;> cases right <;> rfl
  have hlabel : ∀ h : α, ownElements (boxLabel s text h border) = textElements text := by
    intro h
    cases border <;> rfl
  have hchild : ∀ w : α, (boxChild s w child).flatMap ownElements = joined child.toList := by
    intro w
    cases child <;> rfl
  simp only [boxFragment, List.flatMap_append, List.flatMap_singleton, houtline, hbars, hlabel,
    hchild]

/-! ## Lists -/

theorem stackShapes_elements (s : Sheet α) (cols : Columns α) (fs : List (Fragment α)) :
    ∀ isFirst y, ((stackShapes s cols isFirst y fs).flatMap ownElements).Perm
      (List.replicate fs.length .group ++ List.replicate (fs.length - 1) .line) := by
  induction fs with
  | nil => exact fun _ _ => .nil
  | cons f fs ih =>
    intro isFirst y
    cases fs with
    | nil => exact .refl _
    | cons next rest =>
      have hrest := ih false (Scalar.toTenth (y + f.height + s.options.nodeListSpacing))
      have hshapes : (stackShapes s cols isFirst y (f :: next :: rest)).flatMap ownElements
          = .group :: .line :: (stackShapes s cols false
              (Scalar.toTenth (y + f.height + s.options.nodeListSpacing))
              (next :: rest)).flatMap ownElements := rfl
      rw [hshapes]
      exact ((hrest.cons .line).trans List.perm_middle.symm).cons .group

theorem stackFragment_elements (s : Sheet α) (fs : List (Fragment α)) :
    ((stackFragment s fs).shapes.flatMap ownElements).Perm
      (List.replicate fs.length .group ++ List.replicate (fs.length - 1) .line) := by
  cases fs with
  | nil => exact .nil
  | cons f fs => exact stackShapes_elements s _ _ true _

/-! ## Conditions -/

theorem length_edgePoints (right notch : α) (y : α) (ys : List α) :
    (edgePoints right notch (y :: ys)).length = 2 * ys.length + 1 := by
  induction ys generalizing y with
  | nil => rfl
  | cons next rest ih =>
    rw [edgePoints, List.length_cons, List.length_cons, ih, List.length_cons]
    omega

theorem length_conditionOutline (s : Sheet α) (text : String)
    (entries : List (String × Option (Fragment α))) :
    (conditionOutline s text (branchesOf s entries)).length = 2 * max 2 entries.length + 1 := by
  have hlength : (anchorHeights s text (branchesOf s entries)).length = max 2 entries.length := by
    rw [length_anchorHeights, length_branchesOf]
  unfold conditionOutline
  cases hys : anchorHeights s text (branchesOf s entries) with
  | nil =>
    rw [hys, List.length_nil] at hlength
    omega
  | cons y ys =>
    rw [hys, List.length_cons] at hlength
    simp only [List.length_append, List.length_cons, List.length_nil, length_edgePoints]
    omega

theorem labels_elements (s : Sheet α) (text : String) (right : α)
    (entries : List (String × Option (Fragment α))) :
    ((anchored s text (branchesOf s entries)).map fun (y, b) => labelShape s right y b).flatMap
        ownElements
      = (entries.map Prod.fst ++ List.replicate (2 - entries.length) "").flatMap textElements := by
  let bs := branchesOf s entries
  have hlabels : bs.map Branch.label = (padded entries).map Prod.fst :=
    map_branchesOf s entries Branch.label Prod.fst fun _ _ => rfl
  calc ((anchored s text bs).map fun (y, b) => labelShape s right y b).flatMap ownElements
      = (((anchored s text bs).map Prod.snd).map Branch.label).flatMap textElements := by
        rw [List.flatMap_map, List.flatMap_map, List.flatMap_map]
        rfl
    _ = ((padded entries).map Prod.fst).flatMap textElements := by rw [anchored_branches, hlabels]
    _ = _ := by rw [padded, List.map_append, List.map_replicate]

theorem branchesFragment_elements (s : Sheet α) (kind : Kind) (text : String)
    (entries : List (String × Option (Fragment α))) :
    ((branchesFragment s kind text entries).shapes.flatMap ownElements).Perm
      (conditionElements text (entries.map Prod.fst) (entries.flatMap (·.2.toList))) := by
  have hpolygon : ∀ points : List (α × α),
      ownElements (.polygon points) = [.polygon points.length] := fun _ => rfl
  have htext : ∀ x y : α, ownElements (.label text x y) = textElements text := fun _ _ => rfl
  rw [branchesFragment, List.flatMap_append, bodyShapes_elements, anchored_bodies, conditionShapes,
    List.flatMap_append, List.flatMap_cons, hpolygon, length_conditionOutline, labels_elements,
    List.flatMap_singleton, conditionLabel, htext, conditionElements, List.length_map]
  exact List.perm_append_comm.trans ((List.perm_append_comm.cons _).append_right _)

/-! ## Nodes -/

theorem casesLayout_labels (s : Sheet α) (cases : Cases) :
    (casesLayout s cases).map Prod.fst = cases.labels := by
  induction cases with
  | nil => rfl
  | cons c cases ih =>
    obtain ⟨label, body⟩ := c
    rw [casesLayout, List.map_cons, ih]
    rfl

theorem Node.own_elements (s : Sheet α) (node : Node) :
    ((node.layout s).shapes.flatMap ownElements).Perm node.elements := by
  have hbox : ∀ kind text border bars child,
      (boxFragment s kind text border bars (bodyLayout s child)).shapes.flatMap ownElements
        = border.elements ++ bars.elements ++ textElements text ++ joined child.toList := by
    intro kind text border bars child
    rw [boxFragment_elements, bodyLayout_toList, joined_map]
  have hbranches : ∀ kind text entries (bodies : List Node),
      entries.flatMap (·.2.toList) = bodies.map (Node.layout s) →
        ((branchesFragment s kind text entries).shapes.flatMap ownElements).Perm
          (conditionElements text (entries.map Prod.fst) bodies) := by
    intro kind text entries bodies hbodies
    have helements := branchesFragment_elements s kind text entries
    rwa [hbodies, conditionElements_map] at helements
  have hplaced := placed_fragments s node
  cases node with
  | process t child => exact .of_eq (hbox ..)
  | terminal t =>
    exact .of_eq ((hbox .terminal t .pill ⟨false, false⟩ none).trans (List.append_nil _))
  | comment t =>
    exact .of_eq ((hbox .comment ("(" ++ t ++ ")") .none ⟨false, false⟩ none).trans
      (List.append_nil _))
  | call t child => exact .of_eq (hbox ..)
  | loop t testFirst child =>
    cases testFirst <;> exact .of_eq (hbox ..)
  | decision t onTrue onFalse =>
    rw [Node.placed, branchesPlaced_fragments] at hplaced
    exact hbranches _ _ _ _ hplaced
  | switch t cases =>
    rw [Node.placed, branchesPlaced_fragments] at hplaced
    have helements := hbranches .switch t _ _ hplaced
    rwa [casesLayout_labels] at helements
  | list children =>
    have helements := stackFragment_elements s (listLayout s children)
    have hlength : (listLayout s children).length = children.length := by
      rw [listLayout_eq, List.length_map]
    rwa [hlength] at helements

/-- A layout draws for each node of the tree what is drawn for such a node, and nothing else. -/
theorem layout_elements (s : Sheet α) (node : Node) :
    (shapesElements (node.layout s).shapes).Perm (node.subtrees.flatMap Node.elements) := by
  induction node using Node.of_owned with
  | h node ih =>
    have hheld : (groups (node.layout s).shapes).flatMap heldElements
        = node.owned.flatMap fun child => shapesElements (child.layout s).shapes := by
      calc (groups (node.layout s).shapes).flatMap heldElements
          = ((node.placed s).map Placed.fragment).flatMap (shapesElements ·.shapes) := by
            rw [layout_groups, List.flatMap_map, List.flatMap_map]
            rfl
        _ = _ := by rw [placed_fragments, List.flatMap_map]
    rw [Node.subtrees_eq, List.flatMap_cons, List.flatMap_assoc]
    refine (shapesElements_perm _).trans ((node.own_elements s).append ?_)
    rw [hheld]
    exact List.Perm.flatMap_left _ ih

namespace Svg

/-- For each node of a tree the written drawing has what is drawn for such a node, and nothing
else. For a label that is a text element with each of the lines that give the label when they are
put together with line feeds. -/
theorem elements_layout (s : Sheet Binary64) (node : Node) :
    (elements (fragmentText s.options (node.layout s))).Perm
        (node.subtrees.flatMap Node.elements) ∧
      ∀ label ls, HasLines label ls →
        textElements label = ls.map fun line => .text (Xml.escape line) := by
  refine ⟨?_, fun label ls hlines => by rw [textElements, hlines.eq_feedPieces]⟩
  rw [elements_fragmentText]
  exact layout_elements s node

/-- A label of two lines, a child, a comment and a switch with one case. -/
theorem elements_layout_lines :
    let tree := Node.list
      [.process "a\n<b" (some (.terminal "t")), .comment "c", .switch "s" [("k", none)]]
    let written := fragmentText .standard (tree.layout ⟨.standard, cellMeasurer⟩)
    (elements written).Perm
        [.group, .group, .group, .line, .line,
          .rect, .text "a", .text "&lt;b", .group, .line, .rect, .text "t",
          .text "(c)",
          .polygon 5, .text "s", .text "k", .text ""] ∧
      HasLines "a\n<b" ["a", "<b"] ∧ textElements "a\n<b" = [.text "a", .text "&lt;b"] := by
  intro tree written
  obtain ⟨helements, hlabel⟩ := elements_layout ⟨.standard, cellMeasurer⟩ tree
  have hlines : HasLines "a\n<b" ["a", "<b"] := ⟨by decide, by decide, by decide⟩
  exact ⟨helements, hlines, hlabel _ _ hlines⟩

end Svg

end ProgramDiagram
