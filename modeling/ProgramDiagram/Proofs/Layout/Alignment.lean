import ProgramDiagram.Proofs.Layout.Nested

/-!
# Children of a list on one line

Where terminals are centered:

* `Meets`, `Aligned`: what it is for children and connectors to be on a line;
* `Columns.Centers`: what the columns of a list are chosen for;
* `stackPlaced_column`, `stackShapes_line`: where the children and the connectors stand;
* `meets_first`, `meets_middle`, `meets_last`: when a child is on the line of the connectors.

A last child that is no terminal stays at the left edge, where the line may not be.
-/

namespace ProgramDiagram

variable {s : Sheet ℚ} {children : List Node} {first last : Node} {x : ℚ} {i : ℕ}

/-- The part of a child that stands to the left of the line: half of a terminal at either end of the
list, nothing of other children. -/
def leftPart (s : Sheet ℚ) (children : List Node) (i : ℕ) (node : Node) : ℚ :=
  if (i = 0 ∨ i + 1 = children.length) ∧ node.kind = .terminal then
    tenth ((node.layout s).width / 2)
  else 0

/-- The child number `i` of a list is placed on the line at `x`. -/
def Meets (s : Sheet ℚ) (children : List Node) (x : ℚ) (i : ℕ) : Prop :=
  ∃ node p, children[i]? = some node ∧ ((Node.list children).placed s)[i]? = some p ∧
    p.fragment = node.layout s ∧ p.left + leftPart s children i node = x

/-- All connectors of a list and its first `n` children are on the line at `x`, and no child stands
to the left of the edge. -/
structure Aligned (s : Sheet ℚ) (children : List Node) (n : ℕ) (x : ℚ) : Prop where
  connectors : ∀ x₁ y₁ x₂ y₂, .line x₁ y₁ x₂ y₂ ∈ ((Node.list children).layout s).shapes →
    tenth x₁ = x ∧ tenth x₂ = x
  meets : ∀ i < n, Meets s children x i
  nonneg : ∀ p ∈ (Node.list children).placed s, 0 ≤ p.left

/-! ## Columns -/

/-- The columns of a list are chosen for the nodes at its ends. The line leaves room for half of the
wider one; the first node is on the line, and so is the last one if it is a terminal. Any other last
node stands at the left edge. -/
structure Columns.Centers (cols : Columns ℚ) (first last : Fragment ℚ) : Prop where
  tenths : IsTenth cols.first ∧ IsTenth cols.last
  line : cols.line = max (overhang first) (overhang last)
  first : cols.first + overhang first = cols.line
  last : cols.last + overhang last = if last.isTerminal then cols.line else 0

theorem Columns.Centers.centered {first last : Fragment ℚ} (hfirst : first.Sized)
    (hlast : last.Sized) : (Columns.centered first last).Centers first last := by
  obtain ⟨hstart, hstart0⟩ := overhang_sized hfirst
  have hend := (overhang_sized hlast).1
  unfold Columns.centered
  by_cases hterminal : last.isTerminal
  · rw [if_pos hterminal]
    by_cases hless : overhang first < overhang last
    · rw [if_pos ((less_iff _ _).2 hless)]
      refine ⟨⟨isTenth_tenth _, isTenth_zero⟩, (max_eq_right hless.le).symm, ?_, ?_⟩
      · show tenth (overhang last - overhang first) + overhang first = overhang last
        rw [(hend.sub hstart).tenth_eq, sub_add_cancel]
      · rw [if_pos hterminal]
        exact zero_add _
    · rw [if_neg (mt (less_iff _ _).1 hless)]
      refine ⟨⟨isTenth_zero, isTenth_tenth _⟩, (max_eq_left (not_lt.1 hless)).symm, zero_add _, ?_⟩
      rw [if_pos hterminal]
      show tenth (overhang first - overhang last) + overhang last = overhang first
      rw [(hstart.sub hend).tenth_eq, sub_add_cancel]
  · have hnone : overhang last = 0 := if_neg hterminal
    rw [if_neg hterminal]
    refine ⟨⟨isTenth_zero, isTenth_zero⟩, ?_, zero_add _, ?_⟩
    · rw [hnone, max_eq_left hstart0]
    · rw [if_neg hterminal, hnone]
      exact zero_add 0

/-- The column of node number `i` of `n`. -/
def Columns.column (cols : Columns ℚ) (i n : ℕ) : ℚ :=
  if i = 0 then cols.first else if i + 1 = n then cols.last else cols.line

theorem stackPlaced_column (s : Sheet ℚ) (cols : Columns ℚ) (fs : List (Fragment ℚ)) :
    ∀ isFirst y i, ∀ p ∈ (stackPlaced s cols isFirst y fs)[i]?,
      p.x = if isFirst ∧ i = 0 then cols.first
        else if i + 1 = fs.length then cols.last else cols.line := by
  induction fs with
  | nil => exact fun _ _ _ _ hp => nomatch hp
  | cons f fs ih =>
    intro isFirst y i p hp
    cases fs with
    | nil =>
      obtain ⟨hi, rfl⟩ := List.getElem?_eq_some_iff.1 hp
      obtain rfl : i = 0 := Nat.lt_one_iff.1 hi
      simp [stackPlaced]
    | cons next rest =>
      cases i with
      | zero =>
        obtain rfl := Option.some.inj hp
        simp
      | succ j =>
        rw [ih false _ j p hp]
        simp

theorem stackShapes_line (s : Sheet ℚ) (cols : Columns ℚ) {x₁ y₁ x₂ y₂ : ℚ}
    (fs : List (Fragment ℚ)) :
    ∀ isFirst y, .line x₁ y₁ x₂ y₂ ∈ stackShapes s cols isFirst y fs →
      x₁ = cols.line ∧ x₂ = cols.line := by
  induction fs with
  | nil => exact fun _ _ hline => nomatch hline
  | cons f fs ih =>
    intro isFirst y hline
    cases fs with
    | nil => simp [stackShapes] at hline
    | cons next rest =>
      simp only [stackShapes, List.mem_cons, reduceCtorEq, Shape.line.injEq, false_or] at hline
      obtain ⟨rfl, -, rfl, -⟩ | hrest := hline
      · exact ⟨rfl, rfl⟩
      · exact ih false _ hrest

/-! ## Children -/

/-- The columns that the children of a list are placed in. -/
def listColumns (s : Sheet ℚ) (children : List Node) : Columns ℚ :=
  columns s (listLayout s children)

theorem columns_of_ends (hlayout : s.options.listLayout = .terminalOffset)
    (hfirst : children.head? = some first) (hlast : children.getLast? = some last) :
    listColumns s children = .centered (first.layout s) (last.layout s) := by
  simp only [listColumns, columns, hlayout, listLayout_eq, List.head?_map, List.getLast?_map,
    hfirst, hlast, Option.map_some]

theorem leftPart_end {node : Node} (hend : i = 0 ∨ i + 1 = children.length) :
    leftPart s children i node = overhang (node.layout s) := by
  simp only [leftPart, hend, true_and, overhang, isTerminal_layout, decide_eq_true_eq]
  rfl

/-- A child is on a line or not by its column alone. -/
theorem meets_iff {node : Node} (hnode : children[i]? = some node) :
    Meets s children x i ↔
      tenth ((listColumns s children).column i children.length) + leftPart s children i node
        = x := by
  have hplaced :
      ((Node.list children).placed s)[i]?.map Placed.fragment = some (node.layout s) := by
    rw [← List.getElem?_map, placed_fragments, List.getElem?_map]
    exact congrArg (Option.map (Node.layout s)) hnode
  obtain ⟨p, hp, hfragment⟩ := Option.map_eq_some_iff.1 hplaced
  have hcolumn := stackPlaced_column s (listColumns s children) _ true 0 i p hp
  have hlength : (listLayout s children).length = children.length := by
    rw [listLayout_eq, List.length_map]
  simp only [true_and, hlength] at hcolumn
  rw [Columns.column, ← hcolumn]
  constructor
  · rintro ⟨node', p', hnode', hp', -, hmeets⟩
    obtain rfl := Option.some.inj (hnode.symm.trans hnode')
    obtain rfl := Option.some.inj (hp.symm.trans hp')
    exact hmeets
  · exact fun hmeets => ⟨node, p, hnode, hp, hfragment, hmeets⟩

section Ends

variable (hcenters : (listColumns s children).Centers (first.layout s) (last.layout s))
  (hfirst : children.head? = some first) (hlast : children.getLast? = some last)
include hcenters hfirst

theorem meets_first : Meets s children x 0 ↔ (listColumns s children).line = x := by
  have hnode : children[0]? = some first := List.head?_eq_getElem? ▸ hfirst
  rw [meets_iff hnode, Columns.column, if_pos rfl, leftPart_end (.inl rfl),
    hcenters.tenths.1.tenth_eq, hcenters.first]

include hlast

/-- A last terminal is on the line, even if it is the only child. -/
theorem last_position (hi : i + 1 = children.length) :
    tenth ((listColumns s children).column i children.length) + overhang (last.layout s)
      = if (last.layout s).isTerminal then (listColumns s children).line else 0 := by
  cases i with
  | zero =>
    obtain ⟨only, rfl⟩ := List.length_eq_one_iff.1 hi.symm
    obtain rfl : only = first := Option.some.inj hfirst
    obtain rfl : only = last := Option.some.inj hlast
    rw [Columns.column, if_pos rfl, hcenters.tenths.1.tenth_eq, hcenters.first]
    split
    · rfl
    · next hterminal => rw [hcenters.line, max_self, overhang, if_neg hterminal]; rfl
  | succ j =>
    rw [Columns.column, if_neg j.succ_ne_zero, if_pos hi, hcenters.tenths.2.tenth_eq, hcenters.last]

/-- The last child is on the line if it is a terminal or the line is at the left edge. -/
theorem meets_last (h : s.Nonneg) (hi : i + 1 = children.length) :
    Meets s children (listColumns s children).line i ↔
      last.kind = .terminal ∨ overhang (first.layout s) = 0 := by
  have hnode : children[i]? = some last := by
    rw [← hlast, List.getLast?_eq_getElem?, ← hi, Nat.add_sub_cancel]
  have hterminal : (last.layout s).isTerminal = decide (last.kind = .terminal) :=
    isTerminal_layout s last
  rw [meets_iff hnode, leftPart_end (.inr hi), last_position hcenters hfirst hlast hi]
  by_cases hkind : last.kind = .terminal
  · simp [hterminal, hkind]
  · have hnone : overhang (last.layout s) = 0 := by simp [overhang, hterminal, hkind, Scalar.ofNat]
    have hline : (listColumns s children).line = overhang (first.layout s) := by
      rw [hcenters.line, hnone, max_eq_left (overhang_sized (layout_sized h first)).2]
    simp [hterminal, hkind, hline, eq_comm]

end Ends

theorem meets_middle (hpos : 0 < i) (hi : i + 1 < children.length)
    (hline : IsTenth (listColumns s children).line) :
    Meets s children (listColumns s children).line i := by
  have hend : ¬(i = 0 ∨ i + 1 = children.length) := by omega
  have hnode := List.getElem?_eq_getElem (Nat.lt_of_succ_lt hi)
  rw [meets_iff hnode, Columns.column, if_neg hpos.ne', if_neg hi.ne, hline.tenth_eq, leftPart,
    if_neg fun hterminal => hend hterminal.1, add_zero]

/-! ## Lists -/

theorem list_connectors (hline : IsTenth (listColumns s children).line) {x₁ y₁ x₂ y₂ : ℚ}
    (hmem : .line x₁ y₁ x₂ y₂ ∈ ((Node.list children).layout s).shapes) :
    tenth x₁ = (listColumns s children).line ∧ tenth x₂ = (listColumns s children).line := by
  obtain ⟨rfl, rfl⟩ : x₁ = (listColumns s children).line ∧ x₂ = (listColumns s children).line := by
    rw [Node.layout, stackFragment] at hmem
    split at hmem
    · cases hmem
    · exact stackShapes_line s (listColumns s children) _ true _ hmem
  exact ⟨hline.tenth_eq, hline.tenth_eq⟩

theorem aligned_of_meets (h : s.Nonneg) (hline : IsTenth (listColumns s children).line)
    {n : ℕ} (hmeets : ∀ i < n, Meets s children (listColumns s children).line i) :
    Aligned s children n (listColumns s children).line where
  connectors := fun _ _ _ _ hmem => list_connectors hline hmem
  meets := hmeets
  nonneg := fun p hp => ((layout_arranged h (.list children)).inside p hp).1.1

theorem list_centers (h : s.Nonneg) (hlayout : s.options.listLayout = .terminalOffset)
    (hfirst : children.head? = some first) (hlast : children.getLast? = some last) :
    (listColumns s children).Centers (first.layout s) (last.layout s) := by
  rw [columns_of_ends hlayout hfirst hlast]
  exact .centered (layout_sized h first) (layout_sized h last)

/-- The first child is on the line of the connectors, so that a last one that is not a terminal is
there only if nothing of the first one stands to the left of it. -/
theorem Aligned.ends (haligned : Aligned s children children.length x) (h : s.Nonneg)
    (hlayout : s.options.listLayout = .terminalOffset)
    (hfirst : children.head? = some first) (hlast : children.getLast? = some last) :
    last.kind = .terminal ∨ overhang (first.layout s) = 0 := by
  have hlength : 0 < children.length := List.length_pos_of_mem (List.mem_of_head? hfirst)
  have hcenters := list_centers h hlayout hfirst hlast
  obtain rfl : (listColumns s children).line = x :=
    (meets_first hcenters hfirst).1 (haligned.meets 0 hlength)
  exact (meets_last hcenters hfirst hlast h (Nat.sub_add_cancel hlength)).1
    (haligned.meets _ (Nat.sub_one_lt_of_lt hlength))

/-- Where terminals are centered, one line has all connectors of a list and all its children but the
last. The last one is on it too exactly if it is a terminal, or the first one is not, or is one of
no width. -/
theorem list_aligned_iff (h : s.Nonneg) (hlayout : s.options.listLayout = .terminalOffset)
    (hne : children ≠ []) :
    (∃ x, Aligned s children (children.length - 1) x) ∧
      ((∃ x, Aligned s children children.length x) ↔
        ∀ first ∈ children.head?, ∀ last ∈ children.getLast?,
          last.kind = .terminal ∨ overhang (first.layout s) = 0) := by
  obtain ⟨first, hfirst⟩ : ∃ first, children.head? = some first :=
    ⟨_, List.head?_eq_some_head hne⟩
  obtain ⟨last, hlast⟩ : ∃ last, children.getLast? = some last :=
    ⟨_, List.getLast?_eq_some_getLast hne⟩
  have hlength : 0 < children.length := List.length_pos_iff.2 hne
  have hcenters := list_centers h hlayout hfirst hlast
  have hline : IsTenth (listColumns s children).line := by
    rw [hcenters.line]
    exact (overhang_sized (layout_sized h first)).1.max (overhang_sized (layout_sized h last)).1
  have hbefore : ∀ i < children.length - 1, Meets s children (listColumns s children).line i := by
    intro i hi
    cases i with
    | zero => exact (meets_first hcenters hfirst).2 rfl
    | succ j => exact meets_middle j.succ_pos (Nat.add_lt_of_lt_sub hi) hline
  refine ⟨⟨_, aligned_of_meets h hline hbefore⟩, ?_, ?_⟩
  · rintro ⟨x, haligned⟩ first' hfirst' last' hlast'
    exact haligned.ends h hlayout hfirst' hlast'
  · intro hends
    refine ⟨_, aligned_of_meets h hline fun i hi => ?_⟩
    obtain hlt | rfl := Nat.lt_or_eq_of_le (Nat.le_sub_one_of_lt hi)
    · exact hbefore i hlt
    · exact (meets_last hcenters hfirst hlast h (Nat.sub_add_cancel hlength)).2
        (hends first hfirst last hlast)

theorem list_aligned_framed :
    let children : List Node := [.terminal "a", .process "b" none, .terminal "ccc"]
    fractionSheet.Nonneg ∧ fractionSheet.options.listLayout = .terminalOffset ∧ children ≠ [] ∧
      ∃ x, Aligned fractionSheet children children.length x := by
  intro children
  have hne : children ≠ [] := List.cons_ne_nil _ _
  refine ⟨fractionSheet_nonneg, rfl, hne, (list_aligned_iff fractionSheet_nonneg rfl hne).2.2 ?_⟩
  intro first _ last hlast
  obtain rfl := Option.some.inj hlast
  exact .inl rfl

/-- A sheet with the lengths of the standard options, on which all texts have one size. -/
def plainSheet : Sheet ℚ where
  options :=
    { fontSize := 14, fontFamily := "sans-serif", margin := .uniform 20
      boxPadding := .uniform 10, branchPadding := .uniform 5
      strokeWidth := 1, strokeColor := "#000000", backgroundColor := some "#ffffff"
      baseBackgroundColor := none, textColor := "#000000", lineHeight := 6 / 5
      doubleLineWidth := 5, caseNotchWidth := 20, nodeListSpacing := 10
      childOffsetWidth := 20, listLayout := .terminalOffset }
  measurer := fixedMeasurer 20 10

theorem plainSheet_nonneg : plainSheet.Nonneg where
  margin := .uniform (by norm_num)
  boxPadding := .uniform (by norm_num)
  branchPadding := .uniform (by norm_num)
  notch := by norm_num [plainSheet]
  spacing := by norm_num [plainSheet]
  offset := by norm_num [plainSheet]
  extent := by norm_num [plainSheet, fixedMeasurer]

/-- The terminal's middle is at 25, and so is the connector, but the process stands at 0. -/
theorem list_not_aligned :
    plainSheet.Nonneg ∧ plainSheet.options.listLayout = .terminalOffset ∧
      ¬∃ x, Aligned plainSheet [.terminal "A", .process "B" none] 2 x := by
  refine ⟨plainSheet_nonneg, rfl, ?_⟩
  rintro ⟨x, haligned⟩
  have hwidth : tenth 50 = 50 := IsTenth.tenth_eq ⟨500, by norm_num⟩
  have hmiddle : tenth 25 = 25 := IsTenth.tenth_eq ⟨250, by norm_num⟩
  have hoverhang : overhang ((Node.terminal "A").layout plainSheet) = 25 := by
    show tenth (tenth (20 + (10 + (10 + 10))) / 2) = 25
    norm_num [hwidth, hmiddle]
  obtain hkind | hnone := haligned.ends plainSheet_nonneg rfl rfl rfl
  · cases hkind
  · norm_num [hoverhang] at hnone

end ProgramDiagram
