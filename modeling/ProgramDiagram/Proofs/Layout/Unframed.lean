import ProgramDiagram.Proofs.Layout.Comparison
import ProgramDiagram.Svg.Drawing

/-!
# Trees whose lists have no terminal at an end

Terminals at the ends of lists are all that the two list layouts treat differently.

* `Node.Unframed`: no list in the tree starts or ends with a terminal;
* `layout_unframed`: such a tree looks the same in both list layouts.
-/

namespace ProgramDiagram

/-- A list that starts or ends with a terminal. -/
def Node.isFramed : Node → Bool
  | .list children =>
    children.head?.any (·.kind = .terminal) || children.getLast?.any (·.kind = .terminal)
  | _ => false

/-- No list at any depth starts or ends with a terminal. -/
def Node.Unframed (node : Node) : Prop := ∀ m ∈ node.subtrees, m.isFramed = false

instance (node : Node) : Decidable node.Unframed :=
  inferInstanceAs (Decidable (∀ m ∈ node.subtrees, m.isFramed = false))

variable {α : Type} [Scalar α] {fs : List (Fragment α)}

/-! ## Lists of fragments -/

/-- Neither the first fragment nor the last one is that of a terminal. -/
structure EndsPlain (fs : List (Fragment α)) : Prop where
  first : ∀ f ∈ fs.head?, f.isTerminal = false
  last : ∀ f ∈ fs.getLast?, f.isTerminal = false

theorem Columns.centered_of_plain {first last : Fragment α} (hfirst : first.isTerminal = false)
    (hlast : last.isTerminal = false) : Columns.centered first last = .flush := by
  simp [Columns.centered, overhang, hfirst, hlast, Columns.flush]

theorem columns_of_plain (s : Sheet α) (h : EndsPlain fs) : columns s fs = .flush := by
  unfold columns
  split
  · next first last _ hfirst hlast =>
    exact Columns.centered_of_plain (h.first first hfirst) (h.last last hlast)
  · rfl

theorem connectorStart_under (s : Sheet α) (l l' : ListLayout) {isFirst : Bool} {f : Fragment α}
    (h : isFirst = true → f.isTerminal = false) (y : α) :
    connectorStart (s.under l) isFirst y f = connectorStart (s.under l') isFirst y f := by
  cases isFirst with
  | false => simp [connectorStart]
  | true => simp [connectorStart, h rfl]

theorem connectorEnd_under (s : Sheet α) (l l' : ListLayout) {isLast : Bool} {f : Fragment α}
    (h : isLast = true → f.isTerminal = false) (y : α) :
    connectorEnd (s.under l) isLast y f = connectorEnd (s.under l') isLast y f := by
  cases isLast with
  | false => simp [connectorEnd]
  | true => simp [connectorEnd, h rfl]

/-- The list layout is asked for at the ends of a list only. -/
theorem stackShapes_under (s : Sheet α) (l l' : ListLayout) (cols : Columns α) :
    ∀ (isFirst : Bool) (y : α), (isFirst = true → ∀ f ∈ fs.head?, f.isTerminal = false) →
      (∀ f ∈ fs.getLast?, f.isTerminal = false) →
      stackShapes (s.under l) cols isFirst y fs = stackShapes (s.under l') cols isFirst y fs := by
  induction fs with
  | nil => exact fun _ _ _ _ => rfl
  | cons f fs ih =>
    intro isFirst y hfirst hlast
    cases fs with
    | nil => rfl
    | cons next rest =>
      let below := y + f.height + s.options.nodeListSpacing
      have hstart := connectorStart_under s l l' (fun hisFirst => hfirst hisFirst f rfl) y
      have hnext : rest.isEmpty = true → next.isTerminal = false := by
        intro hempty
        exact hlast next (by simp [List.isEmpty_iff.1 hempty])
      have hend := connectorEnd_under s l l' hnext below
      have hrest := ih false (Scalar.toTenth below) nofun hlast
      simp only [stackShapes, Sheet.under_nodeListSpacing, hstart]
      rw [hend, hrest]

theorem stackFragment_under (s : Sheet α) (l l' : ListLayout) (h : EndsPlain fs) :
    stackFragment (s.under l) fs = stackFragment (s.under l') fs := by
  have hshapes := stackShapes_under s l l' .flush true (Scalar.ofNat 0) (fun _ => h.first) h.last
  simp only [stackFragment, columns_of_plain _ h, hshapes]
  rfl

/-! ## Trees -/

theorem Node.Unframed.endsPlain {node : Node} (h : node.Unframed) {children : List Node}
    (hmem : .list children ∈ node.subtrees) (s : Sheet α) :
    EndsPlain (listLayout s children) := by
  have hends := h _ hmem
  simp only [isFramed, Bool.or_eq_false_iff, Option.any_eq_false] at hends
  obtain ⟨hfirst, hlast⟩ := hends
  rw [listLayout_eq]
  constructor
  case first =>
    intro f hf
    rw [List.head?_map, Option.mem_def, Option.map_eq_some_iff] at hf
    obtain ⟨child, hchild, rfl⟩ := hf
    exact isTerminal_layout s child ▸ hfirst child hchild
  case last =>
    intro f hf
    rw [List.getLast?_map, Option.mem_def, Option.map_eq_some_iff] at hf
    obtain ⟨child, hchild, rfl⟩ := hf
    exact isTerminal_layout s child ▸ hlast child hchild

theorem layout_of_unframed {node : Node} (h : node.Unframed) (s : Sheet α) (l l' : ListLayout) :
    node.layout (s.under l) = node.layout (s.under l') := by
  have hbody : ∀ {child child' : Option (Fragment α)}, Option.Rel Eq child child' →
      child = child' := by
    intro child child' hrel
    cases hrel with
    | some h => rw [h]
    | none => rfl
  have hentries : ∀ {entries entries' : List (String × Option (Fragment α))},
      List.Forall₂ (EntriesRelated Eq) entries entries' → entries = entries' := by
    intro entries entries' hrel
    rw [← List.forall₂_eq_eq_eq]
    exact hrel.imp fun e e' he => Prod.ext he.1 (hbody he.2)
  apply layout_related (R := Eq)
  case box =>
    intro kind text border bars child child' hchild
    rw [hbody hchild]
  case branches =>
    intro kind text entries entries' hrel
    rw [hentries hrel]
  case stack =>
    intro children hmem fs fs' hfs
    rw [List.forall₂_eq_eq_eq] at hfs
    rw [← hfs]
    exact stackFragment_under s l l' (h.endsPlain hmem _)

mutual

theorem shapeMarkup_under (s : Sheet Binary64) (l : ListLayout) : (shape : Shape Binary64) →
    Svg.shapeMarkup (s.under l).options shape = Svg.shapeMarkup s.options shape
  | .line .. => rfl
  | .box .. => rfl
  | .polygon _ => rfl
  | .label .. => rfl
  | .group _ _ content => by
    rw [Svg.shapeMarkup, Svg.shapeMarkup, shapesMarkup_under s l content]

theorem shapesMarkup_under (s : Sheet Binary64) (l : ListLayout) :
    (shapes : List (Shape Binary64)) →
    Svg.shapesMarkup (s.under l).options shapes = Svg.shapesMarkup s.options shapes
  | [] => rfl
  | shape :: rest => by
    rw [Svg.shapesMarkup, Svg.shapesMarkup, shapeMarkup_under s l shape,
      shapesMarkup_under s l rest]

end

/-- A tree in which no list starts or ends with a terminal has the same fragment in both list
layouts, whatever the lengths are. -/
theorem layout_unframed (s : Sheet Binary64) {node : Node} (h : node.Unframed) :
    let centered := s.under .terminalOffset
    let flush := s.under .flush
    node.layout centered = node.layout flush ∧
      Svg.fragmentText centered.options (node.layout centered)
        = Svg.fragmentText flush.options (node.layout flush) := by
  intro centered flush
  have hlayout : node.layout centered = node.layout flush := layout_of_unframed h s _ _
  have htext : ∀ f, Svg.fragmentText centered.options f = Svg.fragmentText flush.options f := by
    intro f
    rw [Svg.fragmentText, Svg.fragmentText, shapesMarkup_under, shapesMarkup_under]
  exact ⟨hlayout, by rw [hlayout, htext]⟩

/-- Terminals may stand in the middle of a list and alone in a branch. -/
theorem layout_unframed_middle :
    let s : Sheet Binary64 := ⟨.standard, cellMeasurer⟩
    let node : Node := .list [.process "a" none, .terminal "b",
      .decision "c" (some (.terminal "d")) (some (.list [.call "e" none, .terminal "f",
        .comment "g"]))]
    node.Unframed ∧ node.layout (s.under .terminalOffset) = node.layout (s.under .flush) :=
  ⟨by decide, (layout_unframed _ (by decide)).1⟩

end ProgramDiagram
