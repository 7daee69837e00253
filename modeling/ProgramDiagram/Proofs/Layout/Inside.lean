import ProgramDiagram.Proofs.Layout.Exact
import ProgramDiagram.Proofs.Layout.Placed

/-!
# What stands inside a fragment

In exact arithmetic, with positions as they are printed:

* `Arranged`: the children of a fragment and its outlines stand inside it, the children below each
  other and to the right of the outlines;
* `Descending`: placed fragments below each other between two heights;
* `boxFragment_arranged`: what a box is arranged as.
-/

namespace ProgramDiagram

/-! ## Sheets -/

structure Spacing.Nonneg (p : Spacing ℚ) : Prop where
  top : 0 ≤ p.top
  right : 0 ≤ p.right
  bottom : 0 ≤ p.bottom
  left : 0 ≤ p.left

/-- No length that positions are made of is negative. -/
structure Sheet.Nonneg (s : Sheet ℚ) : Prop where
  margin : s.options.margin.Nonneg
  boxPadding : s.options.boxPadding.Nonneg
  branchPadding : s.options.branchPadding.Nonneg
  notch : 0 ≤ s.options.caseNotchWidth
  spacing : 0 ≤ s.options.nodeListSpacing
  offset : 0 ≤ s.options.childOffsetWidth
  extent : ∀ style text, 0 ≤ (s.measurer style text).width ∧ 0 ≤ (s.measurer style text).height

theorem Spacing.Nonneg.uniform {x : ℚ} (h : 0 ≤ x) : (Spacing.uniform x).Nonneg := ⟨h, h, h, h⟩

theorem Spacing.Nonneg.horizontal {p : Spacing ℚ} (h : p.Nonneg) : 0 ≤ p.horizontal :=
  add_nonneg h.left h.right

theorem Spacing.Nonneg.vertical {p : Spacing ℚ} (h : p.Nonneg) : 0 ≤ p.vertical :=
  add_nonneg h.top h.bottom

variable {s : Sheet ℚ}

theorem Sheet.Nonneg.boxSize (h : s.Nonneg) (text : String) (border : Border) :
    0 ≤ (boxSize s text border).1 ∧ 0 ≤ (boxSize s text border).2 := by
  obtain ⟨hwidth, hheight⟩ : 0 ≤ (s.measure text).width ∧ 0 ≤ (s.measure text).height :=
    h.extent _ _
  have hhorizontal := h.boxPadding.horizontal
  have hvertical := h.boxPadding.vertical
  cases border with
  | rectangle => exact ⟨add_nonneg hwidth hhorizontal, add_nonneg hheight hvertical⟩
  | pill =>
    exact ⟨add_nonneg hwidth (add_nonneg hheight hvertical), add_nonneg hheight hvertical⟩
  | none => exact ⟨add_nonneg hwidth hhorizontal, hheight⟩

theorem Sheet.Nonneg.measurePadded (h : s.Nonneg) (text : String) :
    0 ≤ (s.measurePadded text).1 ∧ 0 ≤ (s.measurePadded text).2 :=
  have hextent := h.extent _ _
  ⟨add_nonneg hextent.1 h.branchPadding.horizontal, add_nonneg hextent.2 h.branchPadding.vertical⟩

/-! ## Positions -/

namespace Placed

/-- The left edge of a placed fragment, as it is printed. -/
def left (p : Placed ℚ) : ℚ := tenth p.x

def top (p : Placed ℚ) : ℚ := tenth p.y

def right (p : Placed ℚ) : ℚ := p.left + p.fragment.width

def bottom (p : Placed ℚ) : ℚ := p.top + p.fragment.height

end Placed

mutual

/-- The corners of the boxes and polygons of a shape, as they are printed, in the space that the
shape stands in. Opposite corners stand for a box. -/
def Shape.corners : Shape ℚ → List (ℚ × ℚ)
  | .line .. => []
  | .box width height _ => [(0, 0), (tenth width, tenth height)]
  | .polygon points => points.map fun (x, y) => (tenth x, tenth y)
  | .label .. => []
  | .group x y content => (shapesCorners content).map fun c => (tenth x + c.1, tenth y + c.2)

def shapesCorners : List (Shape ℚ) → List (ℚ × ℚ)
  | [] => []
  | shape :: rest => shape.corners ++ shapesCorners rest

end

/-- The corners of the shapes that are not groups. -/
def outlines (shapes : List (Shape ℚ)) : List (ℚ × ℚ) :=
  (shapes.filter (!·.isGroup)).flatMap Shape.corners

theorem outlines_append (a b : List (Shape ℚ)) : outlines (a ++ b) = outlines a ++ outlines b := by
  rw [outlines, List.filter_append, List.flatMap_append]
  rfl

/-- A corner is one of the shapes themselves or stands in a group. -/
theorem mem_shapesCorners_iff {shapes : List (Shape ℚ)} {c : ℚ × ℚ} :
    c ∈ shapesCorners shapes ↔ c ∈ outlines shapes ∨ ∃ g ∈ groups shapes, c ∈ g.corners := by
  have hcorners : shapesCorners shapes = shapes.flatMap Shape.corners := by
    induction shapes with
    | nil => rfl
    | cons shape shapes ih => rw [shapesCorners, ih, List.flatMap_cons]
  simp only [hcorners, outlines, groups, List.mem_flatMap, List.mem_filter, Bool.not_eq_true']
  constructor
  · rintro ⟨shape, hmem, hc⟩
    by_cases hgroup : shape.isGroup
    · exact .inr ⟨shape, ⟨hmem, hgroup⟩, hc⟩
    · exact .inl ⟨shape, ⟨hmem, by simpa using hgroup⟩, hc⟩
  · rintro (⟨shape, ⟨hmem, -⟩, hc⟩ | ⟨shape, ⟨hmem, -⟩, hc⟩) <;> exact ⟨shape, hmem, hc⟩

/-! ## Fragments -/

/-- The size of a fragment is a number of tenths and not negative. -/
structure Fragment.Sized (f : Fragment ℚ) : Prop where
  width : IsTenth f.width
  height : IsTenth f.height
  width_nonneg : 0 ≤ f.width
  height_nonneg : 0 ≤ f.height

/-- A point inside a fragment. -/
def Fragment.Holds (f : Fragment ℚ) (c : ℚ × ℚ) : Prop :=
  (0 ≤ c.1 ∧ c.1 ≤ f.width) ∧ 0 ≤ c.2 ∧ c.2 ≤ f.height

/-- The groups of a fragment are those of placed fragments. These stand inside it, below each other
and to the right of all outlines, which are inside it too. -/
structure Arranged (f : Fragment ℚ) (ps : List (Placed ℚ)) : Prop where
  groups : groups f.shapes = ps.map Placed.shape
  inside : ∀ p ∈ ps, (0 ≤ p.left ∧ p.right ≤ f.width) ∧ 0 ≤ p.top ∧ p.bottom ≤ f.height
  below : ps.Pairwise fun p q => p.bottom ≤ q.top
  outlined : ∀ c ∈ outlines f.shapes, f.Holds c
  beside : ∀ c ∈ outlines f.shapes, ∀ p ∈ ps, c.1 ≤ p.left

/-- Fragments that stand below each other between two heights. -/
inductive Descending : ℚ → List (Placed ℚ) → ℚ → Prop
  | nil {y z : ℚ} (h : y ≤ z) : Descending y [] z
  | cons {y z : ℚ} {p : Placed ℚ} {ps : List (Placed ℚ)} (htop : y ≤ p.top)
      (hheight : 0 ≤ p.fragment.height) (h : Descending p.bottom ps z) : Descending y (p :: ps) z

namespace Descending

variable {y y' z : ℚ} {ps : List (Placed ℚ)}

theorem of_le (h : Descending y ps z) (hy : y' ≤ y) : Descending y' ps z := by
  cases h with
  | nil h => exact .nil (hy.trans h)
  | cons htop hheight h => exact .cons (hy.trans htop) hheight h

theorem le (h : Descending y ps z) : y ≤ z := by
  induction h with
  | nil h => exact h
  | cons htop hheight _ ih =>
    rw [Placed.bottom] at ih
    linarith

theorem between (h : Descending y ps z) : ∀ p ∈ ps, y ≤ p.top ∧ p.bottom ≤ z := by
  induction h with
  | nil => exact List.forall_mem_nil _
  | cons htop hheight h ih =>
    refine List.forall_mem_cons.2 ⟨⟨htop, h.le⟩, fun q hq => ?_⟩
    obtain ⟨hbelow, hbottom⟩ := ih q hq
    rw [Placed.bottom] at hbelow
    exact ⟨by linarith, hbottom⟩

theorem pairwise (h : Descending y ps z) : ps.Pairwise fun p q => p.bottom ≤ q.top := by
  induction h with
  | nil => exact .nil
  | cons _ _ h ih => exact .cons (fun q hq => (h.between q hq).1) ih

end Descending

/-! ## Boxes -/

theorem Fragment.Sized.of_tenth {f : Fragment ℚ} {w h : ℚ} (hwidth : f.width = tenth w)
    (hheight : f.height = tenth h) (hw : 0 ≤ w) (hh : 0 ≤ h) : f.Sized :=
  ⟨hwidth ▸ isTenth_tenth w, hheight ▸ isTenth_tenth h, hwidth ▸ tenth_nonneg hw,
    hheight ▸ tenth_nonneg hh⟩

theorem boxFragment_sized (h : s.Nonneg) (kind : Kind) (text : String) (border : Border)
    (bars : Bars) {child : Option (Fragment ℚ)} (hchild : ∀ f ∈ child, f.Sized) :
    (boxFragment s kind text border bars child).Sized := by
  obtain ⟨hwidth, hheight⟩ := h.boxSize text border
  cases child with
  | none => exact .of_tenth rfl rfl hwidth hheight
  | some f =>
    have hf := hchild f rfl
    exact .of_tenth rfl rfl (add_nonneg hwidth (add_nonneg hf.width_nonneg h.offset))
      (le_max_of_le_left hheight)

theorem boxFragment_outlines (s : Sheet ℚ) (kind : Kind) (text : String) (border : Border)
    (bars : Bars) (child : Option (Fragment ℚ)) :
    outlines (boxFragment s kind text border bars child).shapes
      = outlines (boxOutline (boxSize s text border).1 (boxSize s text border).2 border) := by
  have hbars : ∀ w h : ℚ, outlines (boxBars s w h bars) = [] := by
    intro w h
    obtain ⟨left, right⟩ := bars
    cases left <;> cases right <;> rfl
  have hlabel : ∀ h : ℚ, outlines [boxLabel s text h border] = [] := by
    intro h
    cases border <;> rfl
  have hchild : ∀ w : ℚ, outlines (boxChild s w child) = [] := by
    intro w
    cases child <;> rfl
  simp only [boxFragment, outlines_append, hbars, hlabel, hchild, List.append_nil]

theorem mem_outlines_boxOutline {w h : ℚ} {border : Border} {c : ℚ × ℚ}
    (hc : c ∈ outlines (boxOutline w h border)) : c = (0, 0) ∨ c = (tenth w, tenth h) := by
  cases border with
  | rectangle | pill =>
    simpa [outlines, boxOutline, Shape.isGroup, Shape.corners] using hc
  | none => cases hc

/-- The room to the right of a box is just that of its child. -/
theorem boxFragment_width (h : s.Nonneg) (kind : Kind) (text : String) (border : Border)
    (bars : Bars) {f : Fragment ℚ} (hf : f.Sized) :
    (boxFragment s kind text border bars (some f)).width
      = tenth ((boxSize s text border).1 + s.options.childOffsetWidth) + f.width := by
  have hwidth := (h.boxSize text border).1
  calc (boxFragment s kind text border bars (some f)).width
      = tenth ((boxSize s text border).1 + (f.width + s.options.childOffsetWidth)) := rfl
    _ = tenth ((boxSize s text border).1 + s.options.childOffsetWidth + f.width) := by
      rw [add_comm f.width, add_assoc]
    _ = _ := tenth_add (add_nonneg hwidth h.offset) hf.width_nonneg hf.width

theorem boxFragment_arranged (h : s.Nonneg) (kind : Kind) (text : String) (border : Border)
    (bars : Bars) {child : Option (Fragment ℚ)} (hchild : ∀ f ∈ child, f.Sized) :
    Arranged (boxFragment s kind text border bars child)
      (boxPlaced s (boxSize s text border).1 child) := by
  have hgroups := boxFragment_groups s kind text border bars child
  have houtlines := boxFragment_outlines s kind text border bars child
  obtain ⟨hwidth, hheight⟩ := h.boxSize text border
  have hw := tenth_nonneg hwidth
  have hh := tenth_nonneg hheight
  cases child with
  | none =>
    constructor
    case groups => exact hgroups
    case inside => exact List.forall_mem_nil _
    case below => exact .nil
    case outlined =>
      intro c hc
      obtain rfl | rfl := mem_outlines_boxOutline (houtlines ▸ hc)
      · exact ⟨⟨le_rfl, hw⟩, le_rfl, hh⟩
      · exact ⟨⟨hw, le_rfl⟩, hh, le_rfl⟩
    case beside => exact fun _ _ => List.forall_mem_nil _
  | some f =>
    have hf := hchild f rfl
    have hright := boxFragment_width h kind text border bars hf
    have hleft : tenth (boxSize s text border).1
        ≤ tenth ((boxSize s text border).1 + s.options.childOffsetWidth) :=
      tenth_mono (le_add_of_nonneg_right h.offset)
    have htall : tenth (boxSize s text border).2
        ≤ (boxFragment s kind text border bars (some f)).height :=
      tenth_mono (le_max_left ..)
    have hchildTall : f.height ≤ (boxFragment s kind text border bars (some f)).height :=
      le_tenth hf.height (le_max_right ..)
    constructor
    case groups => exact hgroups
    case inside =>
      refine List.forall_mem_singleton.2 ⟨⟨hw.trans hleft, hright.ge⟩, ?_⟩
      simpa [Placed.bottom, Placed.top, Scalar.ofNat] using hchildTall
    case below => exact List.pairwise_singleton ..
    case outlined =>
      intro c hc
      have hroom := hf.width_nonneg
      obtain rfl | rfl := mem_outlines_boxOutline (houtlines ▸ hc)
      · exact ⟨⟨le_rfl, by linarith⟩, le_rfl, hh.trans htall⟩
      · exact ⟨⟨hw, by linarith⟩, hh, htall⟩
    case beside =>
      intro c hc
      refine List.forall_mem_singleton.2 ?_
      obtain rfl | rfl := mem_outlines_boxOutline (houtlines ▸ hc)
      · exact hw.trans hleft
      · exact hleft

end ProgramDiagram
