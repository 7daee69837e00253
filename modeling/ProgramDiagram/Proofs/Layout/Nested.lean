import ProgramDiagram.Proofs.Layout.Branching
import ProgramDiagram.Svg.Drawing

/-!
# Layouts of trees

* `layout_step`: a node arranges the layouts of what it owns inside its own;
* `corners_layout`: so all that a layout draws, at any depth, is inside it;
* `layout_inside`: both, with the page around the whole tree.
-/

namespace ProgramDiagram

variable {s : Sheet ℚ}

/-- Where what a node owns has a size, the node has one and arranges it. -/
theorem layout_step (h : s.Nonneg) (node : Node)
    (hs : ∀ f ∈ (node.placed s).map Placed.fragment, f.Sized) :
    (node.layout s).Sized ∧ Arranged (node.layout s) (node.placed s) := by
  have hbox : ∀ kind text border bars child, (∀ f ∈ child, f.Sized) →
      (boxFragment s kind text border bars child).Sized ∧
        Arranged (boxFragment s kind text border bars child)
          (boxPlaced s (boxSize s text border).1 child) :=
    fun _ _ _ _ _ hchild =>
      ⟨boxFragment_sized h _ _ _ _ hchild, boxFragment_arranged h _ _ _ _ hchild⟩
  have hbranches : ∀ kind text entries, (∀ f ∈ entries.flatMap (·.2.toList), f.Sized) →
      (branchesFragment s kind text entries).Sized ∧
        Arranged (branchesFragment s kind text entries) (branchesPlaced s text entries) :=
    fun _ _ _ hbodies =>
      ⟨branchesFragment_sized h _ _ hbodies, branchesFragment_arranged h _ _ hbodies⟩
  cases node with
  | process | call | loop =>
    rw [Node.placed, boxPlaced_fragments] at hs
    exact hbox _ _ .rectangle _ _ (by simpa using hs)
  | terminal t => exact hbox .terminal t .pill _ none (by simp)
  | comment t => exact hbox .comment ("(" ++ t ++ ")") .none _ none (by simp)
  | decision | switch =>
    rw [Node.placed, branchesPlaced_fragments] at hs
    exact hbranches _ _ _ hs
  | list children =>
    rw [Node.placed, stackPlaced_fragments] at hs
    exact ⟨stackFragment_sized h hs, stackFragment_arranged h hs⟩

theorem sized_placed {node : Node} (hs : ∀ child ∈ node.owned, (child.layout s).Sized) :
    ∀ f ∈ (node.placed s).map Placed.fragment, f.Sized := by
  rw [placed_fragments]
  exact List.forall_mem_map.2 hs

theorem layout_sized (h : s.Nonneg) (node : Node) : (node.layout s).Sized := by
  induction node using Node.of_owned with
  | h node ih => exact (layout_step h node (sized_placed ih)).1

theorem layout_arranged (h : s.Nonneg) (node : Node) :
    Arranged (node.layout s) (node.placed s) :=
  (layout_step h node (sized_placed fun child _ => layout_sized h child)).2

/-- The layout of a list ends where that of its last node does. -/
theorem layout_ends (h : s.Nonneg) (children : List Node) :
    ∀ p ∈ ((Node.list children).placed s).getLast?,
      ((Node.list children).layout s).height = p.bottom := by
  apply stackFragment_ends h
  rw [listLayout_eq]
  exact List.forall_mem_map.2 fun child _ => layout_sized h child

/-- What stands inside a placed fragment stands inside the fragment that holds it. -/
theorem Arranged.holds {f : Fragment ℚ} {ps : List (Placed ℚ)} (h : Arranged f ps) {p : Placed ℚ}
    (hp : p ∈ ps) {c : ℚ × ℚ} (hc : p.fragment.Holds c) : f.Holds (p.left + c.1, p.top + c.2) := by
  obtain ⟨⟨hleft, hright⟩, htop, hbottom⟩ := h.inside p hp
  obtain ⟨⟨hx0, hx⟩, hy0, hy⟩ := hc
  rw [Placed.right] at hright
  rw [Placed.bottom] at hbottom
  exact ⟨⟨add_nonneg hleft hx0, by linarith⟩, add_nonneg htop hy0, by linarith⟩

/-- All boxes and polygons of a layout are inside it, at any depth. -/
theorem corners_layout (h : s.Nonneg) (node : Node) :
    ∀ c ∈ shapesCorners (node.layout s).shapes, (node.layout s).Holds c := by
  induction node using Node.of_owned with
  | h node ih =>
    have harranged := layout_arranged h node
    intro c hc
    rcases mem_shapesCorners_iff.1 hc with hc | ⟨g, hg, hc⟩
    · exact harranged.outlined c hc
    -- the group is that of a child, whose own corners are inside the child's fragment
    · rw [harranged.groups] at hg
      obtain ⟨p, hp, rfl⟩ := List.mem_map.1 hg
      obtain ⟨inner, hinner, rfl⟩ := List.mem_map.1 hc
      have hfragment : p.fragment ∈ node.owned.map (Node.layout s) :=
        placed_fragments s node ▸ List.mem_map_of_mem hp
      obtain ⟨child, hchild, hlayout⟩ := List.mem_map.1 hfragment
      apply harranged.holds hp
      rw [← hlayout] at hinner ⊢
      exact ih child hchild inner hinner

/-- A fragment moved inside the margin. -/
def Sheet.onPage {α : Type} (s : Sheet α) (f : Fragment α) : Shape α :=
  .group s.options.margin.left s.options.margin.top f.shapes

/-- Drawings show just that, on a background of the size of the page. -/
theorem drawing_onPage (s : Sheet Binary64) (tree : Node) :
    let w := (s.canvas (tree.layout s)).1.fixedText
    let h := (s.canvas (tree.layout s)).2.fixedText
    Svg.drawing s tree = .element "svg"
      [("width", w), ("height", h), ("viewBox", "0 0 " ++ w ++ " " ++ h),
        ("xmlns", "http://www.w3.org/2000/svg")]
      (.leaf "rect" [("x", "0"), ("y", "0"), ("width", w), ("height", h),
          ("fill", s.options.baseBackgroundColor.getD "none")]
        :: Svg.shapeMarkup s.options (s.onPage (tree.layout s))) :=
  rfl

/-- The margins of a page leave room for what stands on it. -/
theorem corners_onPage (h : s.Nonneg) {f : Fragment ℚ} (hf : f.Sized)
    (hcorners : ∀ c ∈ shapesCorners f.shapes, f.Holds c) :
    ∀ c ∈ (s.onPage f).corners,
      (0 ≤ c.1 ∧ c.1 ≤ tenth (s.canvas f).1) ∧ 0 ≤ c.2 ∧ c.2 ≤ tenth (s.canvas f).2 := by
  have hroom : ∀ {size near far : ℚ}, 0 ≤ size → IsTenth size → 0 ≤ near → 0 ≤ far →
      tenth near + size ≤ tenth (size + (near + far)) := by
    intro size near far hsize htenth hnear hfar
    rw [add_comm size, tenth_add (add_nonneg hnear hfar) hsize htenth]
    exact add_le_add_left (tenth_mono (le_add_of_nonneg_right hfar)) size
  have hwidth := hroom hf.width_nonneg hf.width h.margin.left h.margin.right
  have hheight := hroom hf.height_nonneg hf.height h.margin.top h.margin.bottom
  refine List.forall_mem_map.2 fun c hc => ?_
  obtain ⟨⟨hx0, hx⟩, hy0, hy⟩ := hcorners c hc
  have hleft := tenth_nonneg h.margin.left
  have htop := tenth_nonneg h.margin.top
  refine ⟨⟨add_nonneg hleft hx0, ?_⟩, add_nonneg htop hy0, ?_⟩
  · exact (add_le_add_right hx _).trans hwidth
  · exact (add_le_add_right hy _).trans hheight

/-- In exact arithmetic, where no length is negative: the layout of a node places the layouts of
what it owns, and no others, inside itself, below each other and to the right of the node's own
outline; a list ends where its last node does; and all boxes and polygons of a page are on it. -/
theorem layout_inside (h : s.Nonneg) (node : Node) :
    (node.placed s).map Placed.fragment = node.owned.map (Node.layout s) ∧
      Arranged (node.layout s) (node.placed s) ∧
      (node.kind = .list → ∀ p ∈ (node.placed s).getLast?, (node.layout s).height = p.bottom) ∧
      ∀ c ∈ (s.onPage (node.layout s)).corners,
        (0 ≤ c.1 ∧ c.1 ≤ tenth (s.canvas (node.layout s)).1) ∧
          0 ≤ c.2 ∧ c.2 ≤ tenth (s.canvas (node.layout s)).2 := by
  refine ⟨placed_fragments s node, layout_arranged h node, fun hlist => ?_,
    corners_onPage h (layout_sized h node) (corners_layout h node)⟩
  cases node with
  | list children => exact layout_ends h children
  | process | terminal | comment | call | loop | decision | switch => cases hlist

/-- A sheet with lengths that need rounding. -/
def fractionSheet : Sheet ℚ where
  options :=
    { fontSize := 14, fontFamily := "sans-serif", margin := .uniform 20
      boxPadding := .uniform (41 / 4), branchPadding := .uniform (21 / 4)
      strokeWidth := 1, strokeColor := "#000000", backgroundColor := none
      baseBackgroundColor := none, textColor := "#000000", lineHeight := 6 / 5
      doubleLineWidth := 5, caseNotchWidth := 1 / 25, nodeListSpacing := 1 / 20
      childOffsetWidth := 81 / 4, listLayout := .terminalOffset }
  measurer := fixedMeasurer (163 / 12) (67 / 4)

theorem fractionSheet_nonneg : fractionSheet.Nonneg where
  margin := .uniform (by norm_num)
  boxPadding := .uniform (by norm_num)
  branchPadding := .uniform (by norm_num)
  notch := by norm_num [fractionSheet]
  spacing := by norm_num [fractionSheet]
  offset := by norm_num [fractionSheet]
  extent := by norm_num [fractionSheet, fixedMeasurer]

theorem layout_inside_fractions :
    let node := Node.list [.terminal "a", .decision "b" (some (.process "c" none)) none]
    fractionSheet.Nonneg ∧ Arranged (node.layout fractionSheet) (node.placed fractionSheet) ∧
      ∀ p ∈ (node.placed fractionSheet).getLast?,
        (node.layout fractionSheet).height = p.bottom := by
  intro node
  obtain ⟨-, harranged, hends, -⟩ := layout_inside fractionSheet_nonneg node
  exact ⟨fractionSheet_nonneg, harranged, hends rfl⟩

end ProgramDiagram
