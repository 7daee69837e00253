import ProgramDiagram.Proofs.Layout.Nested

/-!
# Branches keep clear of each other

* `Follows`: how far an anchor is below the one before it;
* `Descent.follows`, `descents_chain`: one step of the descent leaves that room, and so do all;
* `body_le_bottomFrom`: no body reaches below the end of its condition;
* `centered_within`, `label_within`: where the texts of a condition stand;
* `branches_clear`: all of it, for every condition.

One rounding may take half of a tenth away from the room that a text needs, never from a body.
-/

namespace ProgramDiagram

variable {s : Sheet ℚ} {bs : List (Branch ℚ)} {minHeight : ℚ}

/-- The height of the body of a branch, zero if it has none. -/
def Branch.bodyHeight (b : Branch ℚ) : ℚ :=
  match b.body with
  | some f => f.height
  | none => 0

/-- A branch at its anchor and the next one: the next anchor is below the body, and far enough below
for both labels and for the text of the condition. -/
structure Follows (minHeight : ℚ) (p q : ℚ × Branch ℚ) : Prop where
  body : p.1 + p.2.bodyHeight ≤ q.1
  labels : p.2.labelRoom.2 + q.2.labelRoom.1 ≤ q.1 - p.1 + 1 / 20
  condition : minHeight ≤ q.1 - p.1 + 1 / 20

/-- What the anchors and the texts of a condition keep clear of. A text stands in its padding. -/
structure ClearBranches (s : Sheet ℚ) (text : String) (bs : List (Branch ℚ)) (height : ℚ) :
    Prop where
  first : (anchorHeights s text bs).head? = some 0
  follow : (anchored s text bs).IsChain (Follows (s.measurePadded text).2)
  bottom : ∀ p ∈ anchored s text bs, p.1 + p.2.bodyHeight ≤ height
  condition : ∃ top,
    conditionLabel s text bs
      = .label text s.options.branchPadding.left (top + s.options.branchPadding.top) ∧
    0 ≤ top ∧ top + (s.measurePadded text).2 ≤ (anchorHeights s text bs).getLastD 0 + 1 / 20
  labels : ∀ p ∈ anchored s text bs, ∃ left top,
    labelShape s (labelsRight s text bs) p.1 p.2
      = .label p.2.label (left + s.options.branchPadding.left)
          (top + s.options.branchPadding.top) ∧
    (s.measurePadded text).1 - 1 / 20 ≤ left ∧
    left + p.2.labelWidth ≤ conditionRight s text bs - s.options.caseNotchWidth + 1 / 10

/-! ## One step -/

theorem Branch.Sized.bodyHeight {b : Branch ℚ} (hb : b.Sized) :
    IsTenth b.bodyHeight ∧ 0 ≤ b.bodyHeight := by
  unfold Branch.bodyHeight
  cases hbody : b.body with
  | none => exact ⟨isTenth_zero, le_rfl⟩
  | some f => exact ⟨(hb.body f hbody).height, (hb.body f hbody).height_nonneg⟩

theorem bodyHeight_le_room (h : s.Nonneg) (minHeight : ℚ) (d : Descent ℚ) (b : Branch ℚ) :
    b.bodyHeight ≤ (d.next s minHeight b).room := by
  refine le_trans ?_ (Descent.room_next s minHeight d b).2
  unfold Branch.bodyHeight
  cases hbody : b.body with
  | none =>
    simp only [Branch.bodyRoom, hbody]
    split
    · exact le_rfl
    · exact add_nonneg le_rfl h.spacing
  | some f => exact height_le_bodyRoom h hbody

theorem bound_le_raise (x bound : ℚ) : bound ≤ raise x bound := by
  unfold raise
  split
  · exact le_rfl
  · next hless => exact not_lt.1 (mt (less_iff x bound).2 hless)

/-- Below all branches but the last there is room for the text of the condition. -/
theorem minHeight_le_room (s : Sheet ℚ) (minHeight : ℚ) (d : Descent ℚ) {b : Branch ℚ}
    (hplace : b.place ≠ .last) : minHeight ≤ (d.next s minHeight b).room := by
  show minHeight ≤ if b.place = .last then _ else raise (max b.labelRoom.2 (b.bodyRoom s)) minHeight
  rw [if_neg hplace]
  exact bound_le_raise ..

/-- The room between two anchors, as the greater of two labels needs it on both sides. -/
def labelsRoom (down up : ℚ) : ℚ := tenth (if up < down then down * 2 else up * 2)

theorem add_le_labelsRoom (down up : ℚ) : down + up ≤ labelsRoom down up + 1 / 20 := by
  have hdouble : down + up ≤ if up < down then down * 2 else up * 2 := by
    split <;> linarith
  have hround := (abs_le.1 (abs_tenth_sub_le (if up < down then down * 2 else up * 2))).1
  rw [labelsRoom]
  linarith

/-- The way down to the next anchor is no less than the room that the last branch needs below its
anchor and the labels need between both. -/
theorem Descent.next_height (s : Sheet ℚ) (minHeight : ℚ) (d : Descent ℚ) (b : Branch ℚ) :
    ∃ way, (d.next s minHeight b).height = tenth (d.height + way) ∧ d.room ≤ way ∧
      labelsRoom d.labelRoom b.labelRoom.1 ≤ way := by
  refine ⟨raise (raise d.room b.labelRoom.1) (labelsRoom d.labelRoom b.labelRoom.1), ?_,
    (le_raise ..).trans (le_raise ..), bound_le_raise ..⟩
  simp only [Descent.next, labelsRoom, less_iff]
  rfl

theorem Descent.follows (h : s.Nonneg) (minHeight : ℚ) (d : Descent ℚ) {b : Branch ℚ}
    (hb : b.Sized) (hplace : b.place ≠ .last) (next : Branch ℚ) :
    Follows minHeight ((d.next s minHeight b).height, b)
      (((d.next s minHeight b).next s minHeight next).height, next) := by
  let e := d.next s minHeight b
  obtain ⟨way, hheight, hroom, hlabels⟩ := Descent.next_height s minHeight e next
  have hanchor : IsTenth e.height := isTenth_tenth _
  constructor
  case body =>
    rw [hheight]
    have hbody := bodyHeight_le_room h minHeight d b
    exact le_tenth (hanchor.add hb.bodyHeight.1) (add_le_add_right (hbody.trans hroom) _)
  case labels =>
    have hbelow : e.height + labelsRoom e.labelRoom next.labelRoom.1 ≤ tenth (e.height + way) :=
      le_tenth (hanchor.add (isTenth_tenth _)) (add_le_add_right hlabels _)
    have hneeded := add_le_labelsRoom e.labelRoom next.labelRoom.1
    rw [hheight]
    show e.labelRoom + next.labelRoom.1 ≤ tenth (e.height + way) - e.height + 1 / 20
    linarith
  case condition =>
    have hneeded : minHeight ≤ e.room := minHeight_le_room s minHeight d hplace
    have hround := (abs_le.1 (abs_tenth_sub_le (e.height + way))).1
    rw [hheight]
    show minHeight ≤ tenth (e.height + way) - e.height + 1 / 20
    linarith

/-! ## All branches -/

theorem descents_chain (h : s.Nonneg) (minHeight : ℚ) (hbs : ∀ b ∈ bs, b.Sized)
    (hplaces : ∀ b ∈ bs.dropLast, b.place ≠ .last) :
    ∀ d, (((descents s minHeight d bs).map Descent.height).zip bs).IsChain (Follows minHeight) := by
  induction bs with
  | nil => exact fun _ => .nil
  | cons b bs ih =>
    intro d
    cases bs with
    | nil => exact .singleton _
    | cons next rest =>
      have hfollows := d.follows h minHeight (hbs b List.mem_cons_self)
        (hplaces b List.mem_cons_self) next
      have hrest := ih (fun c hc => hbs c (List.mem_cons_of_mem b hc))
        (fun c hc => hplaces c (List.mem_cons_of_mem b hc)) (d.next s minHeight b)
      exact .cons_cons hfollows hrest

theorem body_le_bottomFrom (h : s.Nonneg) (minHeight : ℚ) (hbs : ∀ b ∈ bs, b.Sized) :
    ∀ d, ∀ p ∈ ((descents s minHeight d bs).map Descent.height).zip bs,
      p.1 + p.2.bodyHeight ≤ bottomFrom s minHeight d bs := by
  induction bs with
  | nil => exact fun _ => List.forall_mem_nil _
  | cons b bs ih =>
    intro d
    have hb := (hbs b List.mem_cons_self).bodyHeight
    have hrest : ∀ c ∈ bs, c.Sized := fun c hc => hbs c (List.mem_cons_of_mem b hc)
    let e := d.next s minHeight b
    have hend : e.Reaches (e.height + b.bodyHeight) :=
      ⟨(isTenth_tenth _).add hb.1, add_le_add_right (bodyHeight_le_room h minHeight d b) _⟩
    rw [bottomFrom_cons]
    exact List.forall_mem_cons.2 ⟨hend.le_bottomFrom hrest, ih hrest e⟩

/-- Anchors are tenths, so that rounding them again does not move them. -/
theorem anchorHeights_eq (text : String) (hbs : ∀ b ∈ bs, b.Sized) :
    anchorHeights s text bs = anchors s (s.measurePadded text).2 bs := by
  refine (List.map_congr_left fun y hy => ?_).trans (List.map_id _)
  obtain ⟨e, he, rfl⟩ := List.mem_map.1 hy
  exact (anchors_between hbs .start e he).1.tenth_eq

theorem first_anchor (s : Sheet ℚ) (minHeight : ℚ) {b : Branch ℚ} (hfirst : b.place = .first) :
    (Descent.start.next s minHeight b).height = 0 := by
  have hroom : b.labelRoom.1 = 0 := by
    rw [Branch.labelRoom, hfirst]
    rfl
  show tenth (0 + raise (raise 0 b.labelRoom.1)
    (tenth (if Scalar.less b.labelRoom.1 (0 : ℚ) then 0 * 2 else b.labelRoom.1 * 2))) = 0
  simp [hroom, raise]

/-- Above the last anchor there is room for the text of the condition. -/
theorem condition_le_last {ys : List ℚ} (hys : ∀ y ∈ ys, 0 ≤ y) (htwo : 2 ≤ ys.length)
    (hchain : ys.IsChain fun y z => minHeight ≤ z - y + 1 / 20) :
    minHeight ≤ ys.getLastD 0 + 1 / 20 := by
  have hne : ys.dropLast ≠ [] := by
    apply List.ne_nil_of_length_pos
    rw [List.length_dropLast]
    omega
  have hlast := hchain.rel_getLast_dropLast hne
  have hbefore := hys _ (List.mem_of_mem_dropLast (List.getLast_mem hne))
  have hend : ys.getLastD 0 = ys.getLast (List.ne_nil_of_length_pos (by omega)) := by
    rw [List.getLastD_eq_getLast?, List.getLast?_eq_some_getLast]
    rfl
  rw [hend]
  linarith

/-- Only the last branch is at the last place, and the first one at the first. -/
theorem places_branchesOf (s : Sheet ℚ) (entries : List (String × Option (Fragment ℚ))) :
    (∀ b ∈ (branchesOf s entries).head?, b.place = .first) ∧
      ∀ b ∈ (branchesOf s entries).dropLast, b.place ≠ .last := by
  have hplace : ∀ i (hi : i < (branchesOf s entries).length), (branchesOf s entries)[i].place
      = if i = 0 then .first else if i + 1 = (padded entries).length then .last else .middle := by
    intro i hi
    simp only [branchesOf, List.getElem_mapIdx]
  constructor
  · intro b hb
    obtain ⟨hi, rfl⟩ := List.getElem?_eq_some_iff.1 (List.head?_eq_getElem? ▸ hb)
    rw [hplace, if_pos rfl]
  · intro b hb
    obtain ⟨i, hi, rfl⟩ := List.getElem_of_mem hb
    have hbefore : i + 1 ≠ (padded entries).length := by
      rw [List.length_dropLast, branchesOf, List.length_mapIdx] at hi
      omega
    rw [List.getElem_dropLast, hplace, if_neg hbefore]
    split <;> simp

/-! ## Texts -/

/-- A text that is nearly as high as what it stands in the middle of does not stick out of it by
more than half a tenth. -/
theorem centered_within {height text : ℚ} (hfits : text ≤ height + 1 / 20) :
    0 ≤ tenth (height / 2 - text / 2) ∧
      tenth (height / 2 - text / 2) + text ≤ height + 1 / 20 := by
  by_cases hgap : text ≤ height
  · have hround := (abs_le.1 (abs_tenth_sub_le (height / 2 - text / 2))).2
    exact ⟨tenth_nonneg (by linarith), by linarith⟩
  · have hzero : tenth (height / 2 - text / 2) = 0 := tenth_eq_zero (by linarith) (by linarith)
    rw [hzero]
    exact ⟨le_rfl, by linarith⟩

/-- A label keeps to its column: between the text of the condition and the notches. -/
theorem label_within (s : Sheet ℚ) (text : String) {b : Branch ℚ} (hb : b ∈ bs) :
    (s.measurePadded text).1 - 1 / 20 ≤ tenth (labelsRight s text bs - b.labelWidth) ∧
      tenth (labelsRight s text bs - b.labelWidth) + b.labelWidth
        ≤ conditionRight s text bs - s.options.caseNotchWidth + 1 / 10 := by
  have hwidest := (le_foldl_max Branch.labelWidth bs 0).2 b hb
  have hcolumn : labelsRight s text bs
      = (s.measurePadded text).1 + bs.foldl (fun w c => max w c.labelWidth) 0 := rfl
  obtain ⟨hlow, hhigh⟩ := abs_le.1 (abs_tenth_sub_le (labelsRight s text bs - b.labelWidth))
  have hright : -(1 / 20) ≤ conditionRight s text bs
      - (labelsRight s text bs + s.options.caseNotchWidth) := (abs_le.1 (abs_tenth_sub_le _)).1
  constructor <;> linarith

/-! ## Conditions -/

theorem clearBranches (h : s.Nonneg) (text : String) (hbs : ∀ b ∈ bs, b.Sized)
    (htwo : 2 ≤ bs.length) (hfirst : ∀ b ∈ bs.head?, b.place = .first)
    (hplaces : ∀ b ∈ bs.dropLast, b.place ≠ .last) :
    ClearBranches s text bs (branchesHeight s (s.measurePadded text).2 bs) := by
  let minHeight := (s.measurePadded text).2
  have hheights := anchorHeights_eq (s := s) text hbs
  have hanchored : anchored s text bs
      = ((descents s minHeight .start bs).map Descent.height).zip bs := by
    rw [anchored, hheights]
    rfl
  have hchain : (anchored s text bs).IsChain (Follows minHeight) := by
    rw [hanchored]
    exact descents_chain h minHeight hbs hplaces .start
  have hways : (anchorHeights s text bs).IsChain fun y z => minHeight ≤ z - y + 1 / 20 := by
    have hfst : (anchored s text bs).map Prod.fst = anchorHeights s text bs :=
      List.map_fst_zip (length_anchorHeights s text bs).le
    rw [← hfst, List.isChain_map]
    exact hchain.imp fun _ _ hfollows => hfollows.condition
  constructor
  case first =>
    rw [hheights]
    cases bs with
    | nil => simp at htwo
    | cons b rest => exact congrArg some (first_anchor s minHeight (hfirst b rfl))
  case follow => exact hchain
  case bottom =>
    rw [hanchored, branchesHeight_eq]
    exact body_le_bottomFrom h minHeight hbs .start
  case condition =>
    have hfits := condition_le_last (fun y hy => (anchorHeights_between text hbs y hy).1)
      (htwo.trans_eq (length_anchorHeights s text bs).symm) hways
    exact ⟨_, rfl, centered_within hfits⟩
  case labels =>
    intro p hp
    have hmem : p.2 ∈ bs := anchored_branches s text bs ▸ List.mem_map_of_mem hp
    exact ⟨_, _, rfl, label_within s text hmem⟩

/-- The branches of every condition keep clear of each other, of its text and of its edges. -/
theorem branches_clear (h : s.Nonneg) (kind : Kind) (text : String) (cases : Cases) :
    ClearBranches s text (branchesOf s (casesLayout s cases))
      (branchesFragment s kind text (casesLayout s cases)).height := by
  have hbodies : ∀ f ∈ (casesLayout s cases).flatMap (·.2.toList), f.Sized := by
    rw [casesLayout_bodies]
    exact List.forall_mem_map.2 fun node _ => layout_sized h node
  obtain ⟨hfirst, hplaces⟩ := places_branchesOf s (casesLayout s cases)
  have htwo : 2 ≤ (branchesOf s (casesLayout s cases)).length := by
    rw [length_branchesOf]
    exact le_max_left ..
  exact clearBranches h text (branchesOf_sized h hbodies) htwo hfirst hplaces

theorem branches_clear_fractions :
    let cases := casesLayout fractionSheet
      [("b", some (.process "c" none)), ("", none), ("d", some (.terminal "e"))]
    fractionSheet.Nonneg ∧
      ClearBranches fractionSheet "a" (branchesOf fractionSheet cases)
        (branchesFragment fractionSheet .switch "a" cases).height :=
  ⟨fractionSheet_nonneg, branches_clear fractionSheet_nonneg .switch "a" _⟩

end ProgramDiagram
