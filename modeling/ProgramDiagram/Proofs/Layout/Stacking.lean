import ProgramDiagram.Proofs.Layout.Inside

/-!
# Lists are arranged

* `stackHeight_eq`: heights and spaces are added in another order than the nodes are placed, with
  the same result;
* `stackFragment_arranged`, `stackFragment_ends`: the nodes of a list stand below each other, and
  the list ends where the last of them does.
-/

namespace ProgramDiagram

variable {s : Sheet ℚ} {fs : List (Fragment ℚ)}

/-! ## Heights -/

/-- The height of nodes and of the spaces between them. -/
def stackExtent (s : Sheet ℚ) (fs : List (Fragment ℚ)) : ℚ :=
  (fs.map Fragment.height).sum + fs.tail.length * tenth s.options.nodeListSpacing

theorem stackExtent_cons_cons (s : Sheet ℚ) (f next : Fragment ℚ) (rest : List (Fragment ℚ)) :
    stackExtent s (f :: next :: rest)
      = f.height + tenth s.options.nodeListSpacing + stackExtent s (next :: rest) := by
  simp only [stackExtent, List.map_cons, List.sum_cons, List.tail_cons, List.length_cons,
    Nat.cast_add, Nat.cast_one]
  ring

theorem sum_heights (hs : ∀ f ∈ fs, f.Sized) :
    IsTenth (fs.map Fragment.height).sum ∧ 0 ≤ (fs.map Fragment.height).sum :=
  ⟨isTenth_sum (List.forall_mem_map.2 fun f hf => (hs f hf).height),
    List.sum_nonneg (List.forall_mem_map.2 fun f hf => (hs f hf).height_nonneg)⟩

theorem stackExtent_sized (h : s.Nonneg) (hs : ∀ f ∈ fs, f.Sized) :
    IsTenth (stackExtent s fs) ∧ 0 ≤ stackExtent s fs := by
  obtain ⟨htenth, hnonneg⟩ := sum_heights hs
  have hspace := tenth_nonneg h.spacing
  exact ⟨htenth.add ((isTenth_tenth _).natCast_mul _),
    add_nonneg hnonneg (mul_nonneg (Nat.cast_nonneg _) hspace)⟩

/-- The next node starts where the last one ends and a rounded space has been left. -/
theorem tenth_below (h : s.Nonneg) {y : ℚ} (hy : 0 ≤ y) (hty : IsTenth y) {f : Fragment ℚ}
    (hf : f.Sized) :
    tenth (y + f.height + s.options.nodeListSpacing)
      = y + f.height + tenth s.options.nodeListSpacing := by
  rw [add_comm, tenth_add h.spacing (add_nonneg hy hf.height_nonneg) (hty.add hf.height), add_comm]

theorem foldl_heights (hs : ∀ f ∈ fs, f.Sized) :
    ∀ y, IsTenth y → fs.foldl (fun y f => tenth (y + f.height)) y
      = y + (fs.map Fragment.height).sum := by
  induction fs with
  | nil => simp
  | cons f fs ih =>
    intro y hy
    have hstep := hy.add (hs f List.mem_cons_self).height
    rw [List.foldl_cons, hstep.tenth_eq, ih (fun g hg => hs g (List.mem_cons_of_mem _ hg)) _ hstep,
      List.map_cons, List.sum_cons, add_assoc]

theorem foldl_spaces {x : ℚ} (hx : 0 ≤ x) (fs : List (Fragment ℚ)) :
    ∀ y, 0 ≤ y → IsTenth y → fs.foldl (fun y _ => tenth (y + x)) y = y + fs.length * tenth x := by
  induction fs with
  | nil => simp
  | cons f fs ih =>
    intro y hy hty
    have hstep : tenth (y + x) = y + tenth x := by rw [add_comm, tenth_add hx hy hty, add_comm]
    rw [List.foldl_cons, hstep, ih _ (add_nonneg hy (tenth_nonneg hx)) (hty.add (isTenth_tenth x)),
      List.length_cons]
    push_cast
    ring

theorem stackHeight_eq (h : s.Nonneg) (hs : ∀ f ∈ fs, f.Sized) :
    stackHeight s fs = stackExtent s fs := by
  have hnodes : fs.foldl (fun y f => tenth (y + f.height)) 0 = (fs.map Fragment.height).sum := by
    rw [foldl_heights hs 0 isTenth_zero, zero_add]
  obtain ⟨htenth, hnonneg⟩ := sum_heights hs
  calc stackHeight s fs
      = fs.tail.foldl (fun y _ => tenth (y + s.options.nodeListSpacing))
          (fs.foldl (fun y f => tenth (y + f.height)) 0) := rfl
    _ = stackExtent s fs := by rw [hnodes, foldl_spaces h.spacing _ _ hnonneg htenth]; rfl

/-! ## Columns -/

/-- The columns of nodes are not to the right of the line. -/
structure Columns.Fit (cols : Columns ℚ) : Prop where
  line : IsTenth cols.line
  line_nonneg : 0 ≤ cols.line
  first : 0 ≤ cols.first ∧ cols.first ≤ cols.line
  last : 0 ≤ cols.last ∧ cols.last ≤ cols.line

theorem Columns.Fit.flush : (Columns.flush : Columns ℚ).Fit :=
  ⟨isTenth_zero, le_rfl, ⟨le_rfl, le_rfl⟩, le_rfl, le_rfl⟩

theorem overhang_sized {f : Fragment ℚ} (hf : f.Sized) :
    IsTenth (overhang f) ∧ 0 ≤ overhang f := by
  unfold overhang
  split
  · exact ⟨isTenth_tenth _, tenth_nonneg (div_nonneg hf.width_nonneg (by norm_num))⟩
  · exact ⟨isTenth_zero, le_rfl⟩

theorem Columns.Fit.centered {first last : Fragment ℚ} (hfirst : first.Sized)
    (hlast : last.Sized) : (Columns.centered first last).Fit := by
  obtain ⟨hstart, hstart0⟩ := overhang_sized hfirst
  obtain ⟨hend, hend0⟩ := overhang_sized hlast
  unfold Columns.centered
  by_cases hterminal : last.isTerminal
  · rw [if_pos hterminal]
    by_cases hless : overhang first < overhang last
    · rw [if_pos ((less_iff _ _).2 hless)]
      have hcolumn : 0 ≤ overhang last - overhang first := by linarith
      exact ⟨hend, hend0, ⟨tenth_nonneg hcolumn, tenth_le (by linarith) hend⟩, le_rfl, hend0⟩
    · rw [if_neg (mt (less_iff _ _).1 hless)]
      have hcolumn : 0 ≤ overhang first - overhang last := by linarith
      exact ⟨hstart, hstart0, ⟨le_rfl, hstart0⟩, tenth_nonneg hcolumn,
        tenth_le (by linarith) hstart⟩
  · rw [if_neg hterminal]
    exact ⟨hstart, hstart0, ⟨le_rfl, hstart0⟩, le_rfl, hstart0⟩

theorem columns_fit (hs : ∀ f ∈ fs, f.Sized) : (columns s fs).Fit := by
  unfold columns
  split
  · next first last _ hfirst hlast =>
    exact .centered (hs first (List.mem_of_head? hfirst)) (hs last (List.mem_of_getLast? hlast))
  · exact .flush

/-! ## Widths -/

theorem le_foldl_max {β : Type} (width : β → ℚ) (bs : List β) :
    ∀ w, w ≤ bs.foldl (fun w b => max w (width b)) w ∧
      ∀ b ∈ bs, width b ≤ bs.foldl (fun w b => max w (width b)) w := by
  induction bs with
  | nil => simp
  | cons b bs ih =>
    intro w
    obtain ⟨hstart, hrest⟩ := ih (max w (width b))
    exact ⟨(le_max_left ..).trans hstart,
      List.forall_mem_cons.2 ⟨(le_max_right ..).trans hstart, hrest⟩⟩

theorem isTenth_foldl_max {β : Type} {width : β → ℚ} {bs : List β}
    (hbs : ∀ b ∈ bs, IsTenth (width b)) :
    ∀ w, IsTenth w → IsTenth (bs.foldl (fun w b => max w (width b)) w) := by
  induction bs with
  | nil => exact fun _ hw => hw
  | cons b bs ih =>
    intro w hw
    exact ih (fun c hc => hbs c (List.mem_cons_of_mem b hc)) _ (hw.max (hbs b List.mem_cons_self))

theorem foldl_tenth_max (hs : ∀ f ∈ fs, f.Sized) :
    ∀ w, IsTenth w → fs.foldl (fun w f => tenth (max w f.width)) w
      = fs.foldl (fun w f => max w f.width) w := by
  induction fs with
  | nil => exact fun _ _ => rfl
  | cons f fs ih =>
    intro w hw
    have hstep := hw.max (hs f List.mem_cons_self).width
    rw [List.foldl_cons, List.foldl_cons, hstep.tenth_eq,
      ih (fun g hg => hs g (List.mem_cons_of_mem f hg)) _ hstep]

/-- The width of a list is a tenth that no node is wider than. -/
theorem stackWidth_spec (hs : ∀ f ∈ fs, f.Sized) :
    IsTenth (stackWidth fs) ∧ 0 ≤ stackWidth fs ∧ ∀ f ∈ fs, f.width ≤ stackWidth fs := by
  have heq : stackWidth fs = fs.foldl (fun w f => max w f.width) 0 :=
    foldl_tenth_max hs 0 isTenth_zero
  rw [heq]
  exact ⟨isTenth_foldl_max (fun f hf => (hs f hf).width) 0 isTenth_zero,
    le_foldl_max Fragment.width fs 0⟩

/-! ## Nodes -/

/-- Nodes from height `y` on stand below each other, the last one at the end of their extent. -/
theorem stackPlaced_spec (h : s.Nonneg) (cols : Columns ℚ) (hs : ∀ f ∈ fs, f.Sized) :
    ∀ isFirst y, 0 ≤ y → IsTenth y →
      Descending y (stackPlaced s cols isFirst y fs) (y + stackExtent s fs) ∧
        ∀ p ∈ (stackPlaced s cols isFirst y fs).getLast?, y + stackExtent s fs = p.bottom := by
  induction fs with
  | nil =>
    intro isFirst y _ _
    exact ⟨.nil (by simp [stackExtent]), fun p hp => nomatch hp⟩
  | cons f fs ih =>
    intro isFirst y hy hty
    have hf := hs f List.mem_cons_self
    have htop : ∀ x, (⟨x, y, f⟩ : Placed ℚ).top = y := fun _ => hty.tenth_eq
    cases fs with
    | nil =>
      have hend : y + stackExtent s [f] = y + f.height := by simp [stackExtent]
      rw [hend]
      refine ⟨.cons (htop _).ge hf.height_nonneg (.nil (by rw [Placed.bottom, htop])), ?_⟩
      intro p hp
      obtain rfl : ⟨if isFirst then cols.first else cols.last, y, f⟩ = p := Option.some.inj hp
      rw [Placed.bottom, htop]
    | cons next rest =>
      have hbelow := tenth_below h hy hty hf
      have hend : tenth (y + f.height + s.options.nodeListSpacing) + stackExtent s (next :: rest)
          = y + stackExtent s (f :: next :: rest) := by
        rw [hbelow, stackExtent_cons_cons]
        ring
      -- the height of the next node is a tenth again, so it is printed as it is
      obtain ⟨hrest, hlast⟩ := ih (fun g hg => hs g (List.mem_cons_of_mem f hg)) false _
        (tenth_nonneg (add_nonneg (add_nonneg hy hf.height_nonneg) h.spacing)) (isTenth_tenth _)
      rw [hend] at hrest hlast
      constructor
      · refine .cons (htop _).ge hf.height_nonneg (hrest.of_le ?_)
        rw [hbelow, Placed.bottom, htop]
        exact le_add_of_nonneg_right (tenth_nonneg h.spacing)
      · intro p hp
        apply hlast p
        cases rest <;> exact hp

theorem stackPlaced_x (s : Sheet ℚ) {cols : Columns ℚ} (hcols : cols.Fit)
    (fs : List (Fragment ℚ)) :
    ∀ isFirst y, ∀ p ∈ stackPlaced s cols isFirst y fs, 0 ≤ p.x ∧ p.x ≤ cols.line := by
  have hline : 0 ≤ cols.line ∧ cols.line ≤ cols.line := ⟨hcols.line_nonneg, le_rfl⟩
  induction fs with
  | nil => exact fun _ _ => List.forall_mem_nil _
  | cons f fs ih =>
    intro isFirst y
    cases fs with
    | nil =>
      refine List.forall_mem_singleton.2 ?_
      cases isFirst
      · exact hcols.last
      · exact hcols.first
    | cons next rest =>
      refine List.forall_mem_cons.2 ⟨?_, ih false _⟩
      cases isFirst
      · exact hline
      · exact hcols.first

/-! ## Lists -/

theorem stackFragment_width (s : Sheet ℚ) (hs : ∀ f ∈ fs, f.Sized) :
    (stackFragment s fs).width = stackWidth fs + (columns s fs).line := by
  cases fs with
  | nil =>
    have hline : (columns s []).line = 0 := by
      unfold columns
      split <;> first | rfl | contradiction
    rw [hline, add_zero]
    rfl
  | cons f fs => exact ((stackWidth_spec hs).1.add (columns_fit hs).line).tenth_eq

theorem stackFragment_height (h : s.Nonneg) (hs : ∀ f ∈ fs, f.Sized) :
    (stackFragment s fs).height = stackExtent s fs := by
  rw [← stackHeight_eq h hs]
  cases fs <;> rfl

theorem stackFragment_sized (h : s.Nonneg) (hs : ∀ f ∈ fs, f.Sized) :
    (stackFragment s fs).Sized := by
  obtain ⟨hwidth, hwidth0, -⟩ := stackWidth_spec hs
  obtain ⟨hheight, hheight0⟩ := stackExtent_sized h hs
  have hcols : (columns s fs).Fit := columns_fit hs
  rw [← stackFragment_height h hs] at hheight hheight0
  refine ⟨?_, hheight, ?_, hheight0⟩
  · exact stackFragment_width s hs ▸ hwidth.add hcols.line
  · exact stackFragment_width s hs ▸ add_nonneg hwidth0 hcols.line_nonneg

theorem stackFragment_outlines (s : Sheet ℚ) (fs : List (Fragment ℚ)) :
    outlines (stackFragment s fs).shapes = [] := by
  have hshapes : ∀ cols isFirst y, outlines (stackShapes s cols isFirst y fs) = [] := by
    intro cols
    induction fs with
    | nil => exact fun _ _ => rfl
    | cons f fs ih =>
      intro isFirst y
      cases fs with
      | nil => rfl
      | cons next rest => exact ih false _
  cases fs with
  | nil => rfl
  | cons f fs => exact hshapes _ _ _

theorem stackFragment_arranged (h : s.Nonneg) (hs : ∀ f ∈ fs, f.Sized) :
    Arranged (stackFragment s fs) (stackPlaced s (columns s fs) true 0 fs) := by
  have hcols : (columns s fs).Fit := columns_fit hs
  have houtlines := stackFragment_outlines s fs
  obtain ⟨hdescending, -⟩ := stackPlaced_spec h (columns s fs) hs true 0 le_rfl isTenth_zero
  constructor
  case groups => exact stackFragment_groups s fs
  case inside =>
    intro p hp
    constructor
    · obtain ⟨hx, hline⟩ := stackPlaced_x s hcols fs true 0 p hp
      have hfragment : p.fragment ∈ fs :=
        stackPlaced_fragments s (columns s fs) fs true 0 ▸ List.mem_map_of_mem hp
      have hwidth := (stackWidth_spec hs).2.2 _ hfragment
      have hleft : p.left ≤ (columns s fs).line := tenth_le hline hcols.line
      refine ⟨tenth_nonneg hx, ?_⟩
      rw [stackFragment_width s hs, Placed.right]
      linarith
    · rw [stackFragment_height h hs, ← zero_add (stackExtent s fs)]
      exact hdescending.between p hp
  case below => exact hdescending.pairwise
  case outlined =>
    rw [houtlines]
    exact List.forall_mem_nil _
  case beside =>
    rw [houtlines]
    exact List.forall_mem_nil _

/-- A list ends where its last node does. -/
theorem stackFragment_ends (h : s.Nonneg) (hs : ∀ f ∈ fs, f.Sized) :
    ∀ p ∈ (stackPlaced s (columns s fs) true 0 fs).getLast?,
      (stackFragment s fs).height = p.bottom := by
  rw [stackFragment_height h hs, ← zero_add (stackExtent s fs)]
  exact (stackPlaced_spec h (columns s fs) hs true 0 le_rfl isTenth_zero).2

end ProgramDiagram
