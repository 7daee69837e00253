import ProgramDiagram.Proofs.Layout.Stacking

/-!
# Conditions are arranged

* `Descent.Reaches`: what the anchors that follow a state keep clear of;
* `bodiesPlaced_descending`: the bodies of branches stand below each other;
* `branchesFragment_arranged`: what a condition is arranged as.
-/

namespace ProgramDiagram

variable {s : Sheet ℚ} {bs : List (Branch ℚ)} {minHeight v : ℚ} {d : Descent ℚ}

/-- The label of a branch has no negative height, and its body has a size. -/
structure Branch.Sized (b : Branch ℚ) : Prop where
  label : 0 ≤ b.labelHeight
  body : ∀ f ∈ b.body, f.Sized

theorem le_raise (x bound : ℚ) : x ≤ raise x bound := by
  unfold raise
  split
  · next hless => exact ((less_iff _ _).1 hless).le
  · exact le_rfl

theorem Branch.Sized.labelRoom {b : Branch ℚ} (hb : b.Sized) : 0 ≤ b.labelRoom.2 := by
  unfold Branch.labelRoom
  split
  · exact hb.label
  · exact le_rfl
  · exact tenth_nonneg (div_nonneg hb.label (by norm_num))

theorem height_le_bodyRoom (h : s.Nonneg) {b : Branch ℚ} {f : Fragment ℚ} (hf : f ∈ b.body) :
    f.height ≤ b.bodyRoom s := by
  have hbody : b.body = some f := hf
  simp only [Branch.bodyRoom, hbody]
  split
  · exact le_rfl
  · exact le_add_of_nonneg_right h.spacing

/-! ## Anchors -/

/-- There is room for the label and the body of a branch below its anchor. -/
theorem Descent.room_next (s : Sheet ℚ) (minHeight : ℚ) (d : Descent ℚ) (b : Branch ℚ) :
    b.labelRoom.2 ≤ (d.next s minHeight b).room ∧ b.bodyRoom s ≤ (d.next s minHeight b).room := by
  have hroom : max b.labelRoom.2 (b.bodyRoom s) ≤ (d.next s minHeight b).room := by
    show _ ≤ if b.place = .last then max b.labelRoom.2 (b.bodyRoom s)
      else raise (max b.labelRoom.2 (b.bodyRoom s)) minHeight
    split
    · exact le_rfl
    · exact le_raise ..
  exact max_le_iff.1 hroom

/-- What the next anchor is not above: a tenth in the room below a state. -/
structure Descent.Reaches (d : Descent ℚ) (v : ℚ) : Prop where
  isTenth : IsTenth v
  le : v ≤ d.height + d.room

namespace Descent.Reaches

theorem start : (Descent.start : Descent ℚ).Reaches 0 := ⟨isTenth_zero, (add_zero (0 : ℚ)).ge⟩

theorem le_next (h : d.Reaches v) (s : Sheet ℚ) (minHeight : ℚ) (b : Branch ℚ) :
    v ≤ (d.next s minHeight b).height := by
  show v ≤ tenth (d.height + raise (raise d.room b.labelRoom.1) _)
  apply le_tenth h.isTenth
  exact h.le.trans (add_le_add_right ((le_raise ..).trans (le_raise ..)) _)

/-- An anchor itself is reached. -/
theorem anchor (s : Sheet ℚ) (minHeight : ℚ) (d : Descent ℚ) {b : Branch ℚ} (hb : b.Sized) :
    (d.next s minHeight b).Reaches (d.next s minHeight b).height :=
  ⟨isTenth_tenth _,
    le_add_of_nonneg_right (hb.labelRoom.trans (room_next s minHeight d b).1)⟩

theorem next (h : d.Reaches v) {b : Branch ℚ} (hb : b.Sized) :
    (d.next s minHeight b).Reaches v :=
  ⟨h.isTenth, (h.le_next s minHeight b).trans (anchor s minHeight d hb).le⟩

/-- The end of a body at its anchor is reached. -/
theorem body (h : s.Nonneg) (minHeight : ℚ) (d : Descent ℚ) {b : Branch ℚ} {f : Fragment ℚ}
    (hbody : f ∈ b.body) (hf : f.Sized) :
    (d.next s minHeight b).Reaches ((d.next s minHeight b).height + f.height) :=
  ⟨(isTenth_tenth _).add hf.height,
    add_le_add_right ((height_le_bodyRoom h hbody).trans (room_next s minHeight d b).2) _⟩

end Descent.Reaches

/-- The height down to the end of branches from a state on. -/
def bottomFrom (s : Sheet ℚ) (minHeight : ℚ) (d : Descent ℚ) (bs : List (Branch ℚ)) : ℚ :=
  let last := (descents s minHeight d bs).getLastD d
  tenth (last.height + last.room)

theorem bottomFrom_cons (s : Sheet ℚ) (minHeight : ℚ) (d : Descent ℚ) (b : Branch ℚ)
    (bs : List (Branch ℚ)) :
    bottomFrom s minHeight d (b :: bs) = bottomFrom s minHeight (d.next s minHeight b) bs := by
  simp only [bottomFrom, descents, List.getLastD_cons]

theorem branchesHeight_eq (s : Sheet ℚ) (minHeight : ℚ) (bs : List (Branch ℚ)) :
    branchesHeight s minHeight bs = bottomFrom s minHeight .start bs := by
  cases bs with
  | nil =>
    have hstart : bottomFrom s minHeight .start [] = tenth (0 + 0) := rfl
    rw [hstart, add_zero, tenth_zero]
    rfl
  | cons b bs =>
    rw [bottomFrom, List.getLastD_eq_getLast?, branchesHeight]
    cases hlast : (descents s minHeight .start (b :: bs)).getLast? with
    | none => simp [descents] at hlast
    | some last => rfl

theorem Descent.Reaches.le_bottomFrom (hbs : ∀ b ∈ bs, b.Sized) :
    ∀ {d : Descent ℚ}, d.Reaches v → v ≤ bottomFrom s minHeight d bs := by
  induction bs with
  | nil => exact fun h => le_tenth h.isTenth h.le
  | cons b bs ih =>
    intro d h
    rw [bottomFrom_cons]
    exact ih (fun c hc => hbs c (List.mem_cons_of_mem b hc)) (h.next (hbs b List.mem_cons_self))

/-- Anchors are tenths between what is reached and the bottom. -/
theorem anchors_between (hbs : ∀ b ∈ bs, b.Sized) :
    ∀ {d : Descent ℚ}, d.Reaches v → ∀ e ∈ descents s minHeight d bs,
      IsTenth e.height ∧ v ≤ e.height ∧ e.height ≤ bottomFrom s minHeight d bs := by
  induction bs with
  | nil => exact fun _ => List.forall_mem_nil _
  | cons b bs ih =>
    intro d h
    have hb := hbs b List.mem_cons_self
    have hrest : ∀ c ∈ bs, c.Sized := fun c hc => hbs c (List.mem_cons_of_mem b hc)
    have hanchor := Descent.Reaches.anchor s minHeight d hb
    rw [bottomFrom_cons]
    exact List.forall_mem_cons.2
      ⟨⟨hanchor.isTenth, h.le_next .., hanchor.le_bottomFrom hrest⟩, ih hrest (h.next hb)⟩

/-- The bodies of branches stand below each other. -/
theorem bodiesPlaced_descending (h : s.Nonneg) (x minHeight : ℚ) (hbs : ∀ b ∈ bs, b.Sized) :
    ∀ (d : Descent ℚ) (v : ℚ), d.Reaches v →
      Descending v
        (bodiesPlaced x ((((descents s minHeight d bs).map Descent.height).map tenth).zip bs))
        (bottomFrom s minHeight d bs) := by
  induction bs with
  | nil => exact fun _ _ hreaches => .nil (le_tenth hreaches.isTenth hreaches.le)
  | cons b bs ih =>
    intro d v hreaches
    have hb := hbs b List.mem_cons_self
    have hrest := ih fun c hc => hbs c (List.mem_cons_of_mem b hc)
    -- anchors are tenths, so neither rounding them again nor printing them moves them
    let y := (d.next s minHeight b).height
    have hanchor : tenth y = y := (isTenth_tenth _).tenth_eq
    have htop : tenth (tenth y) = y := by rw [hanchor, hanchor]
    rw [bottomFrom_cons]
    show Descending v (b.body.toList.map (⟨x, tenth y, ·⟩) ++ _) _
    cases hbody : b.body with
    | none => exact hrest _ _ (hreaches.next hb)
    | some f =>
      have hf := hb.body f hbody
      refine .cons ?_ hf.height_nonneg ?_
      · exact (hreaches.le_next s minHeight b).trans htop.ge
      · rw [Placed.bottom, Placed.top, htop]
        exact hrest _ _ (.body h minHeight d hbody hf)

/-! ## Branches -/

theorem branchesOf_sized (h : s.Nonneg) {entries : List (String × Option (Fragment ℚ))}
    (hs : ∀ f ∈ entries.flatMap (·.2.toList), f.Sized) : ∀ b ∈ branchesOf s entries, b.Sized := by
  intro b hb
  constructor
  · have hmap := map_branchesOf s entries Branch.labelHeight (fun e => (s.measurePadded e.1).2)
      fun _ _ => rfl
    obtain ⟨entry, -, hentry⟩ := List.mem_map.1 (hmap ▸ List.mem_map_of_mem hb)
    exact hentry ▸ (h.measurePadded entry.1).2
  · intro f hf
    apply hs
    rw [← branchesOf_bodies s]
    exact List.mem_flatMap.2 ⟨b, hb, Option.mem_toList.2 hf⟩

theorem Branch.Sized.bodyWidth {b : Branch ℚ} (hb : b.Sized) :
    IsTenth b.bodyWidth ∧ ∀ f ∈ b.body, b.bodyWidth = f.width := by
  unfold Branch.bodyWidth
  cases hbody : b.body with
  | none => exact ⟨isTenth_zero, fun f hf => nomatch hf⟩
  | some f =>
    refine ⟨(hb.body f hbody).width, fun g hg => ?_⟩
    rw [Option.some.inj hg]

/-- The widest body has a tenth as its width. -/
theorem bodiesWidth_spec (hbs : ∀ b ∈ bs, b.Sized) :
    IsTenth (bodiesWidth bs) ∧ 0 ≤ bodiesWidth bs ∧
      ∀ b ∈ bs, ∀ f ∈ b.body, f.width ≤ bodiesWidth bs := by
  obtain ⟨hnonneg, hle⟩ := le_foldl_max Branch.bodyWidth bs 0
  refine ⟨isTenth_foldl_max (fun b hb => (hbs b hb).bodyWidth.1) 0 isTenth_zero, hnonneg,
    fun b hb f hf => ?_⟩
  rw [← (hbs b hb).bodyWidth.2 f hf]
  exact hle b hb

/-! ## Edges -/

theorem labelsRight_nonneg (h : s.Nonneg) (text : String) (bs : List (Branch ℚ)) :
    0 ≤ labelsRight s text bs :=
  add_nonneg (h.measurePadded text).1 (le_foldl_max Branch.labelWidth bs 0).1

theorem conditionRight_nonneg (h : s.Nonneg) (text : String) (bs : List (Branch ℚ)) :
    0 ≤ conditionRight s text bs :=
  tenth_nonneg (add_nonneg (labelsRight_nonneg h text bs) h.notch)

/-- The notches of a condition do not reach beyond its left edge. The right edge may have been
rounded down, but by less than what is rounded to nothing. -/
theorem notch_between (h : s.Nonneg) (text : String) (bs : List (Branch ℚ)) :
    0 ≤ tenth (conditionRight s text bs - s.options.caseNotchWidth) ∧
      tenth (conditionRight s text bs - s.options.caseNotchWidth) ≤ conditionRight s text bs := by
  have hlabels := labelsRight_nonneg h text bs
  have hrounded : labelsRight s text bs + s.options.caseNotchWidth - conditionRight s text bs
      < 1 / 20 := sub_tenth_lt (add_nonneg hlabels h.notch)
  constructor
  · by_cases hnotch : 0 ≤ conditionRight s text bs - s.options.caseNotchWidth
    · exact tenth_nonneg hnotch
    · exact (tenth_eq_zero (by linarith) (not_le.1 hnotch).le).ge
  · exact tenth_le (sub_le_self _ h.notch) (isTenth_tenth _)

theorem mem_edgePoints {right notch z : ℚ} (hz : IsTenth z) {ys : List ℚ}
    (hys : ∀ y ∈ ys, 0 ≤ y ∧ y ≤ z) :
    ∀ p ∈ edgePoints right notch ys, (p.1 = right ∨ p.1 = notch) ∧ 0 ≤ p.2 ∧ p.2 ≤ z := by
  induction ys with
  | nil => exact List.forall_mem_nil _
  | cons y ys ih =>
    have hy := hys y List.mem_cons_self
    cases ys with
    | nil => exact List.forall_mem_singleton.2 ⟨.inl rfl, hy⟩
    | cons next rest =>
      have hnext := hys next (List.mem_cons_of_mem y List.mem_cons_self)
      have hmiddle : 0 ≤ tenth ((y + next) / 2) ∧ tenth ((y + next) / 2) ≤ z :=
        ⟨tenth_nonneg (by linarith [hy.1, hnext.1]), tenth_le (by linarith [hy.2, hnext.2]) hz⟩
      exact List.forall_mem_cons.2 ⟨⟨.inl rfl, hy⟩, List.forall_mem_cons.2 ⟨⟨.inr rfl, hmiddle⟩,
        ih fun w hw => hys w (List.mem_cons_of_mem y hw)⟩⟩

theorem anchorHeights_between (text : String) (hbs : ∀ b ∈ bs, b.Sized) :
    ∀ y ∈ anchorHeights s text bs,
      0 ≤ y ∧ y ≤ branchesHeight s (s.measurePadded text).2 bs := by
  intro y hy
  simp only [anchorHeights, anchors, List.mem_map, exists_exists_and_eq_and] at hy
  obtain ⟨e, he, rfl⟩ := hy
  obtain ⟨htenth, hnonneg, hbottom⟩ := anchors_between hbs .start e he
  rw [branchesHeight_eq]
  show 0 ≤ tenth e.height ∧ tenth e.height ≤ _
  rw [htenth.tenth_eq]
  exact ⟨hnonneg, hbottom⟩

theorem branchesHeight_sized (s : Sheet ℚ) (minHeight : ℚ) (hbs : ∀ b ∈ bs, b.Sized) :
    IsTenth (branchesHeight s minHeight bs) ∧ 0 ≤ branchesHeight s minHeight bs := by
  rw [branchesHeight_eq]
  exact ⟨isTenth_tenth _, Descent.Reaches.start.le_bottomFrom hbs⟩

theorem mem_conditionOutline (h : s.Nonneg) (text : String) (hbs : ∀ b ∈ bs, b.Sized) :
    ∀ p ∈ conditionOutline s text bs, (0 ≤ p.1 ∧ p.1 ≤ conditionRight s text bs) ∧
      0 ≤ p.2 ∧ p.2 ≤ branchesHeight s (s.measurePadded text).2 bs := by
  obtain ⟨htenth, hheight⟩ := branchesHeight_sized s (s.measurePadded text).2 hbs
  have hright := conditionRight_nonneg h text bs
  have hys := anchorHeights_between (s := s) text hbs
  have hlast : ∀ y ∈ (0 : ℚ) :: anchorHeights s text bs,
      0 ≤ y ∧ y ≤ branchesHeight s (s.measurePadded text).2 bs :=
    List.forall_mem_cons.2 ⟨⟨le_rfl, hheight⟩, hys⟩
  obtain ⟨hlast0, hlastHeight⟩ := hlast _ (List.getLastD_mem_cons ..)
  intro p hp
  rcases List.mem_append.1 hp with hp | hp
  · obtain rfl | hp := List.mem_cons.1 hp
    · exact ⟨⟨le_rfl, hright⟩, le_rfl, hheight⟩
    · obtain ⟨hx | hx, hy⟩ := mem_edgePoints htenth hys p hp
      · exact ⟨⟨hx ▸ hright, hx.le⟩, hy⟩
      · rw [hx]
        exact ⟨notch_between h text bs, hy⟩
  · obtain rfl := List.mem_singleton.1 hp
    exact ⟨⟨le_rfl, hright⟩, tenth_nonneg hlast0, tenth_le hlastHeight htenth⟩

/-! ## Conditions -/

variable {entries : List (String × Option (Fragment ℚ))}

theorem branchesFragment_outlines (s : Sheet ℚ) (kind : Kind) (text : String)
    (entries : List (String × Option (Fragment ℚ))) :
    outlines (branchesFragment s kind text entries).shapes
      = (conditionOutline s text (branchesOf s entries)).map fun (x, y) => (tenth x, tenth y) := by
  have hbodies : ∀ right x (branches : List (ℚ × Branch ℚ)),
      outlines (branches.flatMap fun (y, b) => bodyShapes right x y b.body) = [] := by
    intro right x branches
    induction branches with
    | nil => rfl
    | cons branch rest ih =>
      obtain ⟨y, b⟩ := branch
      rw [List.flatMap_cons, outlines_append, ih]
      cases hbody : b.body <;> simp only [hbody] <;> rfl
  have hlabels : ∀ right x y (branches : List (ℚ × Branch ℚ)),
      outlines ((branches.map fun (y, b) => labelShape s right y b) ++ [.label text x y]) = [] := by
    intro right x y branches
    induction branches with
    | nil => rfl
    | cons branch rest ih => exact ih
  have hpolygon : ∀ points rest, outlines (.polygon points :: rest)
      = (points.map fun (x, y) => (tenth x, tenth y)) ++ outlines rest := fun _ _ => rfl
  rw [branchesFragment, outlines_append, hbodies, List.nil_append, conditionShapes,
    List.cons_append, hpolygon, conditionLabel, hlabels, List.append_nil]

/-- The width of a condition leaves room for the widest body. -/
theorem le_branchesFragment_width (h : s.Nonneg) (kind : Kind) (text : String)
    (hs : ∀ f ∈ entries.flatMap (·.2.toList), f.Sized) :
    conditionRight s text (branchesOf s entries) + bodiesWidth (branchesOf s entries)
      ≤ (branchesFragment s kind text entries).width := by
  obtain ⟨htenth, -⟩ := bodiesWidth_spec (branchesOf_sized h hs)
  apply le_tenth ((isTenth_tenth _).add htenth)
  apply le_add_of_nonneg_right
  split
  · exact h.offset
  · exact le_rfl

theorem branchesPlaced_between (h : s.Nonneg) (kind : Kind) (text : String)
    (hs : ∀ f ∈ entries.flatMap (·.2.toList), f.Sized) :
    ∀ p ∈ branchesPlaced s text entries, conditionRight s text (branchesOf s entries) ≤ p.left ∧
      p.right ≤ (branchesFragment s kind text entries).width := by
  intro p hp
  let bs := branchesOf s entries
  obtain ⟨htenth, hnonneg, hbodies⟩ := bodiesWidth_spec (branchesOf_sized h hs)
  obtain ⟨hx, branch, hbranch, hbody⟩ := mem_bodiesPlaced hp
  have hmem : branch.2 ∈ bs := anchored_branches s text bs ▸ List.mem_map_of_mem hbranch
  have hright := conditionRight_nonneg h text bs
  have hrightTenth : IsTenth (conditionRight s text bs) := isTenth_tenth _
  have hleft : p.left = tenth s.options.childOffsetWidth + conditionRight s text bs := by
    rw [Placed.left, hx, bodyColumn]
    show tenth (tenth (conditionRight s text bs + s.options.childOffsetWidth)) = _
    rw [(isTenth_tenth _).tenth_eq, add_comm, tenth_add h.offset hright hrightTenth]
  -- a body stands there, so the width has room for the line to it
  have hwidth : (branchesFragment s kind text entries).width
      = tenth s.options.childOffsetWidth + (conditionRight s text bs + bodiesWidth bs) := by
    have hany : bs.any (·.body.isSome) = true :=
      List.any_eq_true.2 ⟨branch.2, hmem, Option.isSome_of_mem hbody⟩
    rw [branchesFragment, if_pos hany]
    show tenth (conditionRight s text bs + bodiesWidth bs + s.options.childOffsetWidth) = _
    rw [add_comm, tenth_add h.offset (add_nonneg hright hnonneg) (hrightTenth.add htenth)]
  have hoffset := tenth_nonneg h.offset
  have hfits := hbodies branch.2 hmem p.fragment hbody
  rw [Placed.right, hleft, hwidth]
  exact ⟨by linarith, by linarith⟩

theorem branchesFragment_sized (h : s.Nonneg) (kind : Kind) (text : String)
    (hs : ∀ f ∈ entries.flatMap (·.2.toList), f.Sized) :
    (branchesFragment s kind text entries).Sized := by
  have hbs := branchesOf_sized h hs
  obtain ⟨hheight, hheight0⟩ := branchesHeight_sized s (s.measurePadded text).2 hbs
  have hright := conditionRight_nonneg h text (branchesOf s entries)
  have hbodies := (bodiesWidth_spec hbs).2.1
  have hwidth := le_branchesFragment_width h kind text hs
  exact ⟨isTenth_tenth _, hheight, by linarith, hheight0⟩

theorem branchesFragment_arranged (h : s.Nonneg) (kind : Kind) (text : String)
    (hs : ∀ f ∈ entries.flatMap (·.2.toList), f.Sized) :
    Arranged (branchesFragment s kind text entries) (branchesPlaced s text entries) := by
  have hbs := branchesOf_sized h hs
  have hwidth := le_branchesFragment_width h kind text hs
  have hbodies := (bodiesWidth_spec hbs).2.1
  have hplaced := branchesPlaced_between h kind text hs
  have hright := conditionRight_nonneg h text (branchesOf s entries)
  have hrightTenth : IsTenth (conditionRight s text (branchesOf s entries)) := isTenth_tenth _
  have hheight := (branchesHeight_sized s (s.measurePadded text).2 hbs).1
  have hdescending := bodiesPlaced_descending h (bodyColumn s text (branchesOf s entries))
    (s.measurePadded text).2 hbs .start 0 .start
  rw [← branchesHeight_eq] at hdescending
  have houtlines := branchesFragment_outlines s kind text entries
  have houtlined : ∀ c ∈ outlines (branchesFragment s kind text entries).shapes,
      (0 ≤ c.1 ∧ c.1 ≤ conditionRight s text (branchesOf s entries)) ∧
        0 ≤ c.2 ∧ c.2 ≤ (branchesFragment s kind text entries).height := by
    rw [houtlines]
    refine List.forall_mem_map.2 fun c hc => ?_
    obtain ⟨⟨hx0, hx⟩, hy0, hy⟩ := mem_conditionOutline h text hbs c hc
    exact ⟨⟨tenth_nonneg hx0, tenth_le hx hrightTenth⟩, tenth_nonneg hy0, tenth_le hy hheight⟩
  constructor
  case groups => exact branchesFragment_groups ..
  case inside =>
    intro p hp
    obtain ⟨hleft, hfits⟩ := hplaced p hp
    exact ⟨⟨hright.trans hleft, hfits⟩, hdescending.between p hp⟩
  case below => exact hdescending.pairwise
  case outlined =>
    intro c hc
    obtain ⟨⟨hx0, hx⟩, hy⟩ := houtlined c hc
    exact ⟨⟨hx0, by linarith⟩, hy⟩
  case beside =>
    intro c hc p hp
    obtain ⟨⟨_, hx⟩, _⟩ := houtlined c hc
    exact hx.trans (hplaced p hp).1

end ProgramDiagram
