import ProgramDiagram.Proofs.Layout.Finite
import ProgramDiagram.Proofs.Number.Shortest
import ProgramDiagram.Proofs.Svg.Documents
import ProgramDiagram.Proofs.Xml.Attributes

/-!
# The numbers in a drawing

Options and measured labels may be any numbers, also ones that are not finite.

* `ValueForm`: how the value of each attribute of a drawing is written;
* `formed_shape`: all attributes of a shape are written so;
* `drawing_numbers`: so are all attributes that stand in a drawing.
-/

namespace ProgramDiagram.Svg

open Xml

/-! ## Forms -/

/-- The attributes that are one length. -/
def lengthKeys : List String :=
  ["x", "y", "dy", "width", "height", "rx", "ry", "x1", "y1", "x2", "y2"]

/-- How the value of an attribute of a drawing is written. -/
inductive ValueForm : String → String → Prop where
  | zero {key : String} (hkey : key ∈ lengthKeys) : ValueForm key "0"
  | length {key value : String} (hkey : key ∈ lengthKeys) (h : isFixed value) : ValueForm key value
  | points (corners : List (String × String))
      (h : ∀ corner ∈ corners, isFixed corner.1 ∧ isFixed corner.2) :
      ValueForm "points" (" ".intercalate (corners.map fun (x, y) => x ++ "," ++ y))
  | transform {x y : String} (hx : isFixed x) (hy : isFixed y) :
      ValueForm "transform" ("translate(" ++ x ++ ", " ++ y ++ ")")
  | viewBox {w h : String} (hw : isFixed w) (hh : isFixed h) :
      ValueForm "viewBox" ("0 0 " ++ w ++ " " ++ h)
  | number {key value : String} {x : Binary64} (hkey : key ∈ ["stroke-width", "font-size"])
      (h : Binary64.read? value = some x) (hx : x.isFinite) : ValueForm key value
  | words {key value : String} (hkey : key ∈ ["stroke", "fill", "font-family", "xmlns"]) :
      ValueForm key value

/-! ## Escaped numbers -/

theorem escape_eq_self {text : String} (h : ∀ c ∈ text.toList, isMarked c = false) :
    escape text = text := by
  rw [← String.toList_inj, toList_escape]
  generalize text.toList = cs at h
  induction cs with
  | nil => rfl
  | cons c cs ih =>
    obtain ⟨hc, hcs⟩ := List.forall_mem_cons.1 h
    rw [escaped_cons, escapeChar_of_not_marked hc, ih hcs]
    rfl

theorem isMarked_of_isNumeral {c : Char} (h : isNumeral c) : isMarked c = false := by
  by_contra hmarked
  rw [Bool.not_eq_false] at hmarked
  obtain rfl | rfl | rfl | rfl | rfl := isMarked_cases hmarked <;> exact absurd h (by decide)

theorem escape_numeral {text : String} (h : text.toList.all isNumeral) : escape text = text := by
  rw [List.all_eq_true] at h
  exact escape_eq_self fun c hc => isMarked_of_isNumeral (h c hc)

theorem escape_fixedText (x : Binary64) : escape x.fixedText = x.fixedText :=
  escape_numeral x.isNumeral_fixedText

theorem escape_plainText (x : Binary64) : escape x.plainText = x.plainText :=
  escape_numeral x.isNumeral_plainText

theorem escape_pointsText (points : List (Binary64 × Binary64)) :
    escape (pointsText points) = pointsText points := by
  have hnumber : ∀ x : Binary64, x.fixedText.toList.all fun c => !isMarked c := by
    intro x
    have hx := x.isNumeral_fixedText
    rw [List.all_eq_true] at hx ⊢
    intro c hc
    rw [isMarked_of_isNumeral (hx c hc)]
    rfl
  have hpoints := List.all_eq_true.1 (all_pointsText (by decide) hnumber points)
  exact escape_eq_self fun c hc => by simpa using hpoints c hc

/-! ## Attributes -/

/-- Whether all attributes are written in their forms. -/
def Formed (attributes : Attributes) : Prop :=
  ∀ a ∈ escapedAttributes attributes, ValueForm a.1 a.2

theorem formed_nil : Formed [] := List.forall_mem_nil _

theorem formed_cons {key value : String} {attributes : Attributes} :
    Formed ((key, value) :: attributes) ↔ ValueForm key (escape value) ∧ Formed attributes :=
  List.forall_mem_cons

theorem formed_append {as bs : Attributes} : Formed (as ++ bs) ↔ Formed as ∧ Formed bs := by
  rw [Formed, escapedAttributes_append]
  exact List.forall_mem_append

section Forms

variable {key : String} (x : Binary64)

theorem form_zero (hkey : key ∈ lengthKeys) : ValueForm key (escape "0") := .zero hkey

theorem form_length (hkey : key ∈ lengthKeys) : ValueForm key (escape x.fixedText) := by
  rw [escape_fixedText]
  exact .length hkey x.isFixed_fixedText

theorem form_number (hkey : key ∈ ["stroke-width", "font-size"]) :
    ValueForm key (escape x.plainText) := by
  obtain ⟨y, hread, hy⟩ := x.exists_read?_plainText
  rw [escape_plainText]
  exact .number hkey hread hy

theorem form_points (points : List (Binary64 × Binary64)) :
    ValueForm "points" (escape (pointsText points)) := by
  let corners := points.map (Prod.map Binary64.fixedText Binary64.fixedText)
  have htext : pointsText points = " ".intercalate (corners.map fun (x, y) => x ++ "," ++ y) := by
    rw [pointsText, List.map_map]
    rfl
  rw [escape_pointsText, htext]
  apply ValueForm.points
  intro corner hcorner
  obtain ⟨point, -, rfl⟩ := List.mem_map.1 hcorner
  exact ⟨point.1.isFixed_fixedText, point.2.isFixed_fixedText⟩

theorem form_transform (x y : Binary64) :
    ValueForm "transform" (escape ("translate(" ++ x.fixedText ++ ", " ++ y.fixedText ++ ")")) := by
  have hmarks : escape "translate(" = "translate(" ∧ escape ", " = ", " ∧ escape ")" = ")" := by
    decide
  simp only [escape_append, escape_fixedText, hmarks]
  exact .transform x.isFixed_fixedText y.isFixed_fixedText

theorem form_viewBox (w h : Binary64) :
    ValueForm "viewBox" (escape ("0 0 " ++ w.fixedText ++ " " ++ h.fixedText)) := by
  have hmarks : escape "0 0 " = "0 0 " ∧ escape " " = " " := by decide
  simp only [escape_append, escape_fixedText, hmarks]
  exact .viewBox w.isFixed_fixedText h.isFixed_fixedText

theorem form_words (hkey : key ∈ ["stroke", "fill", "font-family", "xmlns"]) (value : String) :
    ValueForm key (escape value) := .words hkey

end Forms

section Shapes

variable (o : Options Binary64)

theorem formed_stroke : Formed (strokeAttributes o) := by
  simp only [strokeAttributes, formed_cons]
  exact ⟨form_words (by decide) _, form_number _ (by decide), formed_nil⟩

theorem formed_line (x1 y1 x2 y2 : Binary64) : Formed (lineMarkup o x1 y1 x2 y2).attributes := by
  simp only [lineMarkup, Markup.attributes, formed_append, formed_cons]
  exact ⟨⟨form_length _ (by decide), form_length _ (by decide), form_length _ (by decide),
    form_length _ (by decide), formed_nil⟩, formed_stroke o⟩

theorem formed_radius (radius : Option Binary64) : Formed (radiusAttributes radius) := by
  cases radius with
  | none => exact formed_nil
  | some r =>
    simp only [radiusAttributes, formed_cons]
    exact ⟨form_length _ (by decide), form_length _ (by decide), formed_nil⟩

theorem formed_box (width height : Binary64) (radius : Option Binary64) :
    Formed (boxMarkup o width height radius).attributes := by
  simp only [boxMarkup, Markup.attributes, formed_append, formed_cons]
  exact ⟨⟨⟨⟨form_zero (by decide), form_zero (by decide), form_length _ (by decide),
    form_length _ (by decide), formed_nil⟩, formed_radius radius⟩, formed_stroke o⟩,
    form_words (by decide) _, formed_nil⟩

theorem formed_polygon (points : List (Binary64 × Binary64)) :
    Formed (polygonMarkup o points).attributes := by
  simp only [polygonMarkup, Markup.attributes, List.cons_append, formed_append, formed_cons]
  exact ⟨form_points points, formed_stroke o, form_words (by decide) _, formed_nil⟩

theorem formed_text (x y dy : Binary64) (line : String) :
    Formed (textMarkup o x y dy line).attributes := by
  simp only [textMarkup, Markup.attributes, contentAttributes, List.append_nil, formed_cons]
  exact ⟨form_length _ (by decide), form_length _ (by decide), form_length _ (by decide),
    form_words (by decide) _, form_number _ (by decide), form_words (by decide) _, formed_nil⟩

theorem formed_content {ms : List Markup} (h : ∀ m ∈ ms, Formed m.attributes) :
    Formed (contentAttributes ms) := by
  induction ms with
  | nil => exact formed_nil
  | cons m ms ih =>
    obtain ⟨hm, hms⟩ := List.forall_mem_cons.1 h
    exact formed_append.2 ⟨hm, ih hms⟩

theorem formed_group (x y : Binary64) {content : List Markup}
    (h : Formed (contentAttributes content)) : Formed (groupMarkup x y content).attributes :=
  formed_cons.2 ⟨form_transform x y, h⟩

end Shapes

mutual

theorem formed_shape (o : Options Binary64) : (shape : Shape Binary64) →
    ∀ m ∈ shapeMarkup o shape, Formed m.attributes
  | .line x1 y1 x2 y2 => List.forall_mem_singleton.2 (formed_line o x1 y1 x2 y2)
  | .box width height radius => List.forall_mem_singleton.2 (formed_box o width height radius)
  | .polygon points => List.forall_mem_singleton.2 (formed_polygon o points)
  | .label text x y => by
    intro m hm
    obtain ⟨i, _, rfl⟩ := List.mem_mapIdx.1 hm
    exact formed_text o x y _ _
  | .group x y content =>
    List.forall_mem_singleton.2 (formed_group x y (formed_content (formed_shapes o content)))

theorem formed_shapes (o : Options Binary64) : (shapes : List (Shape Binary64)) →
    ∀ m ∈ shapesMarkup o shapes, Formed m.attributes
  | [] => List.forall_mem_nil _
  | shape :: rest => List.forall_mem_append.2 ⟨formed_shape o shape, formed_shapes o rest⟩

end

/-! ## Drawings -/

theorem formed_document (o : Options Binary64) (width height : Binary64) {content : List Markup}
    (h : Formed (contentAttributes content)) :
    Formed (document o width height content).attributes := by
  simp only [document, Markup.attributes, contentAttributes, List.append_nil, formed_append,
    formed_cons]
  exact ⟨⟨form_length _ (by decide), form_length _ (by decide), form_viewBox width height,
    form_words (by decide) _, formed_nil⟩,
    ⟨form_zero (by decide), form_zero (by decide), form_length _ (by decide),
      form_length _ (by decide), form_words (by decide) _, formed_nil⟩,
    formed_group _ _ h⟩

/-- The attributes that stand in a drawing are those of its markup. -/
theorem quotedAttributes_draw (s : Sheet Binary64) (tree : Node) :
    quotedAttributes (draw s (some tree)) = escapedAttributes (drawing s tree).attributes :=
  quotedAttributes_render (wellNamed_document _ _ _ (plain_shapes _ _))

/-- However strange the numbers are that a drawing depends on, the room of its tree is finite, and
all numbers in it are written as finite decimals: lengths to one decimal place and without a sign
if they then are zero. What is not finite is written as zero. -/
theorem drawing_numbers (s : Sheet Binary64) (tree : Node) :
    ((tree.layout s).width.isFinite ∧ (tree.layout s).height.isFinite) ∧
    (∀ a ∈ quotedAttributes (draw s (some tree)), ValueForm a.1 a.2) ∧
    ∀ x : Binary64, x.isFinite ∨ (x.fixedText = "0.0" ∧ x.plainText = "0") := by
  refine ⟨?_, ?_, ?_⟩
  · have hfinite := layout_finite s tree
    rwa [Fragment.isFinite, Bool.and_eq_true] at hfinite
  · rw [quotedAttributes_draw, drawing_eq]
    exact formed_document _ _ _ (formed_content (formed_shapes _ _))
  · intro x
    cases x with
    | nan | infinite => exact .inr ⟨rfl, rfl⟩
    | finite => exact .inl rfl

end ProgramDiagram.Svg
