import ProgramDiagram.Proofs.Layout.Comparison
import ProgramDiagram.Proofs.Layout.Nested

/-!
# The list layout moves nodes sideways only

* `shapesTops`: the heights of all groups of a fragment, at any depth;
* `layout_level`: they are the same in both list layouts, and so is the height of the fragment;
* `layout_width_le`: centering terminals makes nothing narrower.
-/

namespace ProgramDiagram

variable {α : Type}

mutual

/-- The groups of a shape at any depth, in the order in which they are drawn: how deep each of them
is nested, and the height that it stands at. -/
def Shape.tops (depth : Nat) : Shape α → List (Nat × α)
  | .line .. => []
  | .box .. => []
  | .polygon _ => []
  | .label .. => []
  | .group _ y content => (depth, y) :: shapesTops (depth + 1) content

def shapesTops (depth : Nat) : List (Shape α) → List (Nat × α)
  | [] => []
  | shape :: rest => shape.tops depth ++ shapesTops depth rest

end

theorem shapesTops_append (depth : Nat) (a b : List (Shape α)) :
    shapesTops depth (a ++ b) = shapesTops depth a ++ shapesTops depth b := by
  induction a with
  | nil => rfl
  | cons shape a ih => rw [List.cons_append, shapesTops, shapesTops, ih, List.append_assoc]

theorem shapesTops_eq_nil (depth : Nat) {shapes : List (Shape α)} (h : groups shapes = []) :
    shapesTops depth shapes = [] := by
  induction shapes with
  | nil => rfl
  | cons shape shapes ih =>
    cases shape with
    | group => cases h
    | line | box | polygon | label => exact ih h

/-- Fragments of the same height whose groups stand at the same heights. -/
structure Fragment.Level (f g : Fragment α) : Prop where
  height : f.height = g.height
  tops : ∀ depth, shapesTops depth f.shapes = shapesTops depth g.shapes

/-- Bodies at the same anchors stand at the same heights. -/
theorem bodyShapes_tops {bs bs' : List (Branch α)}
    (h : List.Forall₂ (Branch.Related Fragment.Level) bs bs') (depth : Nat)
    (right x right' x' : α) :
    ∀ ys : List α,
      shapesTops depth ((ys.zip bs).flatMap fun (y, b) => bodyShapes right x y b.body)
        = shapesTops depth ((ys.zip bs').flatMap fun (y, b) => bodyShapes right' x' y b.body) := by
  induction h with
  | nil => simp
  | @cons b b' bs bs' hb _ ih =>
    intro ys
    cases ys with
    | nil => rfl
    | cons y ys =>
      simp only [List.zip_cons_cons, List.flatMap_cons, shapesTops_append, ih]
      have hbody := hb.body
      generalize b.body = body, b'.body = body' at hbody ⊢
      congr 1
      cases hbody with
      | none => rfl
      | some h => simp only [bodyShapes, shapesTops, Shape.tops, h.tops]

variable [Scalar α] {s : Sheet α}

/-! ## Heights -/

theorem boxFragment_level (kind : Kind) (text : String) (border : Border) (bars : Bars)
    {child child' : Option (Fragment α)} (h : Option.Rel Fragment.Level child child') :
    (boxFragment s kind text border bars child).Level
      (boxFragment s kind text border bars child') := by
  cases h with
  | none => exact ⟨rfl, fun _ => rfl⟩
  | some h =>
    constructor
    case height => simp only [boxFragment, h.height]
    case tops =>
      intro depth
      simp only [boxFragment, boxChild, shapesTops_append, shapesTops, Shape.tops, h.tops]

theorem Branch.Related.bodyRoom {b b' : Branch α} (h : b.Related Fragment.Level b')
    (s : Sheet α) : b.bodyRoom s = b'.bodyRoom s := by
  obtain ⟨hplace, -, -, hbody⟩ := h
  simp only [Branch.bodyRoom, hplace]
  generalize b.body = body, b'.body = body' at hbody ⊢
  cases hbody with
  | none => rfl
  | some h => simp only [h.height]

theorem Descent.next_related {b b' : Branch α} (h : b.Related Fragment.Level b') (minHeight : α)
    (d : Descent α) : d.next s minHeight b = d.next s minHeight b' := by
  have hlabel : b.labelRoom = b'.labelRoom := by
    simp only [Branch.labelRoom, h.place, h.labelHeight]
  simp only [Descent.next, hlabel, h.bodyRoom, h.place]

theorem descents_related {bs bs' : List (Branch α)}
    (h : List.Forall₂ (Branch.Related Fragment.Level) bs bs') (minHeight : α) :
    ∀ d, descents s minHeight d bs = descents s minHeight d bs' := by
  induction h with
  | nil => exact fun _ => rfl
  | cons hb _ ih =>
    intro d
    rw [descents, descents, Descent.next_related hb, ih]

theorem branchesFragment_level (kind : Kind) (text : String)
    {entries entries' : List (String × Option (Fragment α))}
    (h : List.Forall₂ (EntriesRelated Fragment.Level) entries entries') :
    (branchesFragment s kind text entries).Level (branchesFragment s kind text entries') := by
  have hbs := branchesOf_related (s := s) h
  constructor
  case height => simp only [branchesFragment, branchesHeight, descents_related hbs]
  case tops =>
    intro depth
    have hcondition := fun bs => shapesTops_eq_nil depth (conditionShapes_groups s text bs)
    simp only [branchesFragment, shapesTops_append, hcondition, anchored, anchorHeights, anchors,
      descents_related hbs, List.append_nil]
    exact bodyShapes_tops hbs ..

theorem stackHeight_related {fs gs : List (Fragment α)} (h : List.Forall₂ Fragment.Level fs gs) :
    stackHeight s fs = stackHeight s gs := by
  have hheights := map_eq_of_related h Fragment.Level.height
  have hfold : ∀ hs : List (Fragment α),
      stackHeight s hs = ((hs.map Fragment.height).tail.foldl
        (fun y _ => Scalar.toTenth (y + s.options.nodeListSpacing))
        ((hs.map Fragment.height).foldl (fun y h => Scalar.toTenth (y + h)) (Scalar.ofNat 0))) := by
    intro hs
    rw [← List.map_tail, List.foldl_map, List.foldl_map, stackHeight]
  rw [hfold, hfold, hheights]

/-- Nodes of the same heights stand at the same heights in all columns. -/
theorem stackShapes_tops {fs gs : List (Fragment α)} (h : List.Forall₂ Fragment.Level fs gs)
    (l l' : ListLayout) (cols cols' : Columns α) (depth : Nat) :
    ∀ (isFirst : Bool) (y : α), shapesTops depth (stackShapes (s.under l) cols isFirst y fs)
      = shapesTops depth (stackShapes (s.under l') cols' isFirst y gs) := by
  induction h with
  | nil => exact fun _ _ => rfl
  | cons hf hrest ih =>
    intro isFirst y
    cases hrest with
    | nil => simp only [stackShapes, shapesTops, Shape.tops, hf.tops]
    | cons hnext hrest =>
      simp only [stackShapes, Sheet.under_nodeListSpacing, hf.height] at ih ⊢
      simp only [shapesTops, Shape.tops, hf.tops, List.nil_append]
      rw [ih]

theorem stackFragment_level {fs gs : List (Fragment α)} (h : List.Forall₂ Fragment.Level fs gs)
    (l l' : ListLayout) :
    (stackFragment (s.under l) fs).Level (stackFragment (s.under l') gs) := by
  cases h with
  | nil => exact ⟨rfl, fun _ => rfl⟩
  | cons hf hrest =>
    exact ⟨stackHeight_related (s := s) (.cons hf hrest),
      fun depth => stackShapes_tops (.cons hf hrest) l l' _ _ depth true _⟩

/-- The list layout changes no heights. -/
theorem layout_level (s : Sheet α) (l l' : ListLayout) (node : Node) :
    (node.layout (s.under l)).Level (node.layout (s.under l')) :=
  layout_related (fun kind text border bars _ _ => boxFragment_level kind text border bars)
    (fun kind text _ _ => branchesFragment_level kind text)
    fun _ _ h => stackFragment_level h l l'

/-! ## Widths -/

/-- No wider than another fragment. -/
def Fragment.Narrower (f g : Fragment ℚ) : Prop := f.width ≤ g.width

theorem foldl_le_foldl {β : Type} {P : β → β → Prop} {step : ℚ → β → ℚ}
    (hstep : ∀ {w w' b b'}, w ≤ w' → P b b' → step w b ≤ step w' b') {bs bs' : List β}
    (h : List.Forall₂ P bs bs') : ∀ w w', w ≤ w' → bs.foldl step w ≤ bs'.foldl step w' := by
  induction h with
  | nil => exact fun _ _ hw => hw
  | cons hb _ ih => exact fun _ _ hw => ih _ _ (hstep hw hb)

theorem boxFragment_narrower (s : Sheet ℚ) (kind : Kind) (text : String) (border : Border)
    (bars : Bars) {child child' : Option (Fragment ℚ)}
    (h : Option.Rel Fragment.Narrower child child') :
    (boxFragment s kind text border bars child).Narrower
      (boxFragment s kind text border bars child') := by
  cases h with
  | none => exact le_rfl
  | some h => exact tenth_mono (add_le_add_right (add_le_add_left h _) _)

theorem Branch.Related.bodyWidth {b b' : Branch ℚ} (h : b.Related Fragment.Narrower b') :
    b.bodyWidth ≤ b'.bodyWidth := by
  have hbody := h.body
  unfold Branch.bodyWidth
  generalize b.body = body, b'.body = body' at hbody ⊢
  cases hbody with
  | none => exact le_rfl
  | some h => exact h

theorem Branch.Related.isSome_body {b b' : Branch ℚ} (h : b.Related Fragment.Narrower b') :
    b.body.isSome = b'.body.isSome := by
  have hbody := h.body
  generalize b.body = body, b'.body = body' at hbody ⊢
  cases hbody <;> rfl

theorem branchesFragment_narrower (s : Sheet ℚ) (kind : Kind) (text : String)
    {entries entries' : List (String × Option (Fragment ℚ))}
    (h : List.Forall₂ (EntriesRelated Fragment.Narrower) entries entries') :
    (branchesFragment s kind text entries).Narrower (branchesFragment s kind text entries') := by
  have hbs := branchesOf_related (s := s) h
  have hright : conditionRight s text (branchesOf s entries)
      = conditionRight s text (branchesOf s entries') := by
    have hlabels := map_eq_of_related hbs Branch.Related.labelWidth
    have hfold : ∀ bs : List (Branch ℚ), labelsRight s text bs
        = (s.measurePadded text).1 + (bs.map Branch.labelWidth).foldl max 0 := by
      intro bs
      rw [List.foldl_map]
      rfl
    rw [conditionRight, conditionRight, hfold, hfold, hlabels]
  have hany : (branchesOf s entries).any (·.body.isSome)
      = (branchesOf s entries').any (·.body.isSome) := by
    have hsome := map_eq_of_related hbs Branch.Related.isSome_body
    have hmap : ∀ bs : List (Branch ℚ), bs.any (·.body.isSome)
        = (bs.map (·.body.isSome)).any id := fun bs => by rw [List.any_map]; rfl
    rw [hmap, hmap, hsome]
  have hbodies : bodiesWidth (branchesOf s entries) ≤ bodiesWidth (branchesOf s entries') :=
    foldl_le_foldl (fun hw hb => max_le_max hw hb.bodyWidth) hbs 0 0 le_rfl
  unfold Fragment.Narrower branchesFragment
  simp only [hright, hany]
  exact tenth_mono (add_le_add_left (add_le_add_right hbodies _) _)

theorem Sheet.Nonneg.under {s : Sheet ℚ} (h : s.Nonneg) (l : ListLayout) : (s.under l).Nonneg :=
  ⟨h.margin, h.boxPadding, h.branchPadding, h.notch, h.spacing, h.offset, h.extent⟩

/-- Centering does not move the line to the left. -/
theorem stackFragment_narrower (s : Sheet ℚ) {fs gs : List (Fragment ℚ)}
    (h : List.Forall₂ Fragment.Narrower fs gs) (hfs : ∀ f ∈ fs, f.Sized) (hgs : ∀ g ∈ gs, g.Sized) :
    (stackFragment (s.under .flush) fs).Narrower (stackFragment (s.under .terminalOffset) gs) := by
  have hwidth : stackWidth fs ≤ stackWidth gs := by
    refine foldl_le_foldl (fun {w w' f g} hw hf => ?_) h 0 0 le_rfl
    have hmax : max w f.width ≤ max w' g.width := max_le_max hw hf
    exact tenth_mono hmax
  have hflush : (columns (s.under .flush) fs).line = 0 := rfl
  have hline : 0 ≤ (columns (s.under .terminalOffset) gs).line := (columns_fit hgs).line_nonneg
  rw [Fragment.Narrower, stackFragment_width _ hfs, stackFragment_width _ hgs, hflush]
  exact add_le_add hwidth hline

theorem layout_width_le {s : Sheet ℚ} (h : s.Nonneg) (node : Node) :
    (node.layout (s.under .flush)).width ≤ (node.layout (s.under .terminalOffset)).width := by
  apply layout_related (R := Fragment.Narrower)
  case box => exact fun _ _ _ _ _ _ => boxFragment_narrower s _ _ _ _
  case branches => exact fun _ _ _ _ => branchesFragment_narrower s _ _
  case stack =>
    have hsized : ∀ l children, ∀ f ∈ listLayout (s.under l) children, f.Sized := by
      intro l children
      rw [listLayout_eq]
      exact List.forall_mem_map.2 fun child _ => layout_sized (h.under l) child
    intro children _ fs fs' hfs
    exact stackFragment_narrower s hfs (hsized _ _) (hsized _ _)

/-- Whatever the lengths are, a tree has the same height in both list layouts, and all groups at all
depths stand at the same heights. In exact arithmetic, where no length is negative, it is no
narrower with its terminals centered. -/
theorem layout_moves_sideways :
    (∀ (s : Sheet Binary64) (node : Node),
      let centered := node.layout (s.under .terminalOffset)
      let flush := node.layout (s.under .flush)
      centered.height = flush.height ∧
        shapesTops 0 centered.shapes = shapesTops 0 flush.shapes) ∧
    ∀ s : Sheet ℚ, s.Nonneg → ∀ node : Node,
      (node.layout (s.under .flush)).width ≤ (node.layout (s.under .terminalOffset)).width := by
  constructor
  · intro s node centered flush
    have hlevel : centered.Level flush := layout_level s _ _ node
    exact ⟨hlevel.height, hlevel.tops 0⟩
  · exact fun s h node => layout_width_le h node

theorem layout_moves_sideways_nested :
    let node : Node := .list [.terminal "a", .loop "b" true (some (.list [.terminal "c",
      .process "d" none, .terminal "ee"])), .comment "f", .terminal "ggg"]
    fractionSheet.Nonneg ∧ (node.layout (fractionSheet.under .flush)).width
      ≤ (node.layout (fractionSheet.under .terminalOffset)).width :=
  ⟨fractionSheet_nonneg, layout_moves_sideways.2 fractionSheet fractionSheet_nonneg _⟩

end ProgramDiagram
