import Mathlib.Data.List.Forall2
import ProgramDiagram.Proofs.Layout.Placed

/-!
# Comparing two layouts of a tree

The list layout is asked for only where a list is put together.

* `Sheet.under`: a sheet with another list layout;
* `boxFragment_under`, `branchesFragment_under`: boxes and conditions do not depend on it;
* `layout_related`: what the three ways of putting fragments together keep holds between the
  layouts of every tree.
-/

namespace ProgramDiagram

variable {α : Type}

/-- A sheet with a list layout in place of its own. -/
def Sheet.under (s : Sheet α) (l : ListLayout) : Sheet α :=
  { s with options := { s.options with listLayout := l } }

theorem Sheet.under_nodeListSpacing (s : Sheet α) (l : ListLayout) :
    (s.under l).options.nodeListSpacing = s.options.nodeListSpacing :=
  rfl

/-- Entries of a condition with the same label and related bodies. -/
def EntriesRelated (R : Fragment α → Fragment α → Prop) (e e' : String × Option (Fragment α)) :
    Prop :=
  e.1 = e'.1 ∧ Option.Rel R e.2 e'.2

/-- Branches in the same place, with labels of the same extent and related bodies. -/
structure Branch.Related (R : Fragment α → Fragment α → Prop) (b b' : Branch α) : Prop where
  place : b.place = b'.place
  labelWidth : b.labelWidth = b'.labelWidth
  labelHeight : b.labelHeight = b'.labelHeight
  body : Option.Rel R b.body b'.body

/-- What related members of two lists agree on, the lists agree on. -/
theorem map_eq_of_related {β γ : Type} {P : β → β → Prop} {f : β → γ}
    {bs bs' : List β} (h : List.Forall₂ P bs bs') (hf : ∀ {b b'}, P b b' → f b = f b') :
    bs.map f = bs'.map f := by
  rw [← List.forall₂_eq_eq_eq, List.forall₂_map_left_iff, List.forall₂_map_right_iff]
  exact h.imp fun _ _ => hf

variable {R : Fragment α → Fragment α → Prop}

theorem padded_related {entries entries' : List (String × Option (Fragment α))}
    (h : List.Forall₂ (EntriesRelated R) entries entries') :
    List.Forall₂ (EntriesRelated R) (padded entries) (padded entries') := by
  rw [padded, padded, h.length_eq]
  refine List.rel_append h (List.forall₂_same.2 fun e he => ?_)
  rw [List.eq_of_mem_replicate he]
  exact ⟨rfl, .none⟩

variable [Scalar α] {s s' : Sheet α}

/-! ## Boxes and conditions -/

theorem boxFragment_under (s : Sheet α) (l : ListLayout) (kind : Kind) (text : String)
    (border : Border) (bars : Bars) (child : Option (Fragment α)) :
    boxFragment (s.under l) kind text border bars child
      = boxFragment s kind text border bars child :=
  rfl

theorem descents_under (s : Sheet α) (l : ListLayout) (minHeight : α) (bs : List (Branch α)) :
    ∀ d : Descent α, descents (s.under l) minHeight d bs = descents s minHeight d bs := by
  induction bs with
  | nil => exact fun _ => rfl
  | cons b bs ih => exact fun d => congrArg (d.next s minHeight b :: ·) (ih _)

theorem branchesFragment_under (s : Sheet α) (l : ListLayout) (kind : Kind) (text : String)
    (entries : List (String × Option (Fragment α))) :
    branchesFragment (s.under l) kind text entries = branchesFragment s kind text entries := by
  simp only [branchesFragment, conditionShapes, conditionOutline, conditionLabel, anchored,
    anchorHeights, anchors, branchesHeight, descents_under]
  rfl

theorem branchesOf_related {entries entries' : List (String × Option (Fragment α))}
    (h : List.Forall₂ (EntriesRelated R) entries entries') :
    List.Forall₂ (Branch.Related R) (branchesOf s entries) (branchesOf s entries') := by
  obtain ⟨hlength, hentries⟩ := List.forall₂_iff_get.1 (padded_related h)
  refine List.forall₂_iff_get.2 ⟨by simpa [branchesOf] using hlength, fun i hi hi' => ?_⟩
  have hi₁ : i < (padded entries).length := by simpa [branchesOf] using hi
  obtain ⟨hlabel, hbody⟩ := hentries i hi₁ (hlength ▸ hi₁)
  simp only [List.get_eq_getElem] at hlabel hbody
  simp only [branchesOf, List.get_eq_getElem, List.getElem_mapIdx]
  constructor
  case place => simp only [hlength]
  case labelWidth => simp only [hlabel]
  case labelHeight => simp only [hlabel]
  case body => exact hbody

/-! ## What the layouts of a node's children have in common -/

theorem bodyLayout_related {body : Option Node}
    (h : ∀ node ∈ body.toList, R (node.layout s) (node.layout s')) :
    Option.Rel R (bodyLayout s body) (bodyLayout s' body) := by
  cases body with
  | none => exact .none
  | some node => exact .some (h node (List.mem_singleton_self node))

theorem casesLayout_related {cases : Cases}
    (h : ∀ node ∈ cases.bodies, R (node.layout s) (node.layout s')) :
    List.Forall₂ (EntriesRelated R) (casesLayout s cases) (casesLayout s' cases) := by
  induction cases with
  | nil => exact .nil
  | cons c cases ih =>
    obtain ⟨label, body⟩ := c
    have hbodies : Cases.bodies ((label, body) :: cases) = body.toList ++ Cases.bodies cases := by
      cases body <;> rfl
    rw [hbodies, List.forall_mem_append] at h
    exact .cons ⟨rfl, bodyLayout_related h.1⟩ (ih h.2)

theorem listLayout_related {nodes : List Node}
    (h : ∀ node ∈ nodes, R (node.layout s) (node.layout s')) :
    List.Forall₂ R (listLayout s nodes) (listLayout s' nodes) := by
  rw [listLayout_eq, listLayout_eq, List.forall₂_map_left_iff, List.forall₂_map_right_iff,
    List.forall₂_same]
  exact h

/-- If boxes and conditions are related that are put together from related fragments, and so are
the lists that occur in a tree, its layouts are related. -/
theorem layout_related {l l' : ListLayout}
    (box : ∀ kind text border bars child child', Option.Rel R child child' →
      R (boxFragment s kind text border bars child) (boxFragment s kind text border bars child'))
    (branches : ∀ kind text entries entries', List.Forall₂ (EntriesRelated R) entries entries' →
      R (branchesFragment s kind text entries) (branchesFragment s kind text entries'))
    {node : Node}
    (stack : ∀ children, Node.list children ∈ node.subtrees →
      let fs := listLayout (s.under l) children
      let fs' := listLayout (s.under l') children
      List.Forall₂ R fs fs' → R (stackFragment (s.under l) fs) (stackFragment (s.under l') fs')) :
    R (node.layout (s.under l)) (node.layout (s.under l')) := by
  induction node using Node.of_owned with
  | h node ih =>
    rw [node.subtrees_eq] at stack
    have hchildren : ∀ child ∈ node.owned,
        R (child.layout (s.under l)) (child.layout (s.under l')) := fun child hchild =>
      ih child hchild fun children hmem =>
        stack children (List.mem_cons_of_mem _ (List.mem_flatMap.2 ⟨child, hchild, hmem⟩))
    cases node with
    | process t child | call t child | loop t testFirst child =>
      simp only [Node.layout, boxFragment_under]
      exact box _ _ _ _ _ _ (bodyLayout_related hchildren)
    | terminal t | comment t =>
      simp only [Node.layout, boxFragment_under]
      exact box _ _ _ _ _ _ .none
    | decision t onTrue onFalse =>
      obtain ⟨hTrue, hFalse⟩ := List.forall_mem_append.1 hchildren
      simp only [Node.layout, branchesFragment_under]
      exact branches _ _ _ _ (.cons ⟨rfl, bodyLayout_related hTrue⟩
        (.cons ⟨rfl, bodyLayout_related hFalse⟩ .nil))
    | switch t cases =>
      simp only [Node.layout, branchesFragment_under]
      exact branches _ _ _ _ (casesLayout_related hchildren)
    | list children =>
      exact stack children List.mem_cons_self (listLayout_related hchildren)

end ProgramDiagram
