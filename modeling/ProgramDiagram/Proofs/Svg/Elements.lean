import ProgramDiagram.Proofs.Number.Texts
import ProgramDiagram.Proofs.Text.Lines
import ProgramDiagram.Proofs.Xml.Tags
import ProgramDiagram.Svg.Drawing

/-!
# The elements of a written drawing

* `elements`: the elements of a written drawing, found by its tags alone;
* `Reads`: what is written and the elements that are found in it, put together piece by piece;
* `elements_fragmentText`: in a written fragment just the elements of its shapes are found.
-/

namespace ProgramDiagram.Svg

/-- An element, with as much of it as does not depend on where it stands. -/
inductive Element where
  | line
  | rect
  | polygon (points : Nat)
  | text (content : String)
  | group
  | unknown (tag : List Char)
deriving DecidableEq

/-! ## Reading -/

/-- A written text from each `<` to the next one. -/
def tags (written : List Char) : List (List Char) := (splitAt '<' written).tail

/-- What stands behind the first of a character. -/
def behind (c : Char) (cs : List Char) : List Char := (cs.dropWhile (· ≠ c)).tail

/-- The element that a tag starts, with the text that follows the tag. A tag that starts with a
slash starts none. The points of a polygon are its first attribute; each of them has one comma. -/
def elementOf? (tag : List Char) : Option Element :=
  let name := String.ofList (tag.takeWhile (· ≠ ' '))
  if tag.head? = some '/' then none
  else if name = "line" then some .line
  else if name = "rect" then some .rect
  else if name = "polygon" then
    some (.polygon (((behind '"' tag).takeWhile (· ≠ '"')).count ','))
  else if name = "text" then some (.text (String.ofList (behind '>' tag)))
  else if name = "g" then some .group
  else some (.unknown tag)

/-- The elements of a written drawing. -/
def elements (written : String) : List Element := (tags written.toList).filterMap elementOf?

/-! ## The elements of shapes -/

/-- The text elements of a label, one for each of its lines. -/
def textElements (text : String) : List Element :=
  (feedPieces text).map fun line => .text (Xml.escape line)

mutual

/-- The elements of a shape. -/
def shapeElements {α : Type} : Shape α → List Element
  | .line .. => [.line]
  | .box .. => [.rect]
  | .polygon points => [.polygon points.length]
  | .label text _ _ => textElements text
  | .group _ _ content => .group :: shapesElements content

def shapesElements {α : Type} : List (Shape α) → List Element
  | [] => []
  | shape :: rest => shapeElements shape ++ shapesElements rest

end

/-! ## Characters -/

section Characters

variable {c : Char} {a : List Char}

theorem behind_append_cons (h : c ∉ a) (rest : List Char) : behind c (a ++ c :: rest) = rest := by
  rw [behind, dropWhile_append_stop (ne_of_not_mem h) (by simp), List.tail_cons]

theorem count_comma_escapeChar (d : Char) : (Xml.escapeChar d).count ',' = [d].count ',' := by
  unfold Xml.escapeChar
  split_ifs with hand hless hgreater hquote happostrophe
  · subst hand; decide
  · subst hless; decide
  · subst hgreater; decide
  · subst hquote; decide
  · subst happostrophe; decide
  · rfl

theorem count_comma_escape (text : String) :
    (Xml.escape text).toList.count ',' = text.toList.count ',' := by
  rw [Xml.escape, String.toList_ofList]
  induction text.toList with
  | nil => rfl
  | cons d cs ih =>
    rw [List.flatMap_cons, List.count_append, ih, count_comma_escapeChar, ← List.count_append,
      List.singleton_append]

/-- Attributes whose names have no characters that end a tag. -/
def plain (attributes : Xml.Attributes) : Bool :=
  attributes.all fun pair => pair.1.toList.all fun c => c != '<' && c != '>'

theorem not_mem_attributesText (hc : c ∈ ['<', '>']) {attributes : Xml.Attributes}
    (h : plain attributes) : c ∉ (Xml.attributesText attributes).toList := by
  have hescape : ∀ value, c ∉ (Xml.escape value).toList :=
    Xml.not_mem_escape (List.mem_append_left ['"', '\''] hc)
  have hmarks : (c ≠ ' ' ∧ c ≠ '=' ∧ c ≠ '"') ∧ (c != '<' && c != '>') = false := by
    simp only [List.mem_cons, List.not_mem_nil, or_false] at hc
    obtain rfl | rfl := hc <;> decide
  induction attributes with
  | nil => simp [Xml.attributesText]
  | cons pair attributes ih =>
    obtain ⟨name, value⟩ := pair
    obtain ⟨hplain, hrest⟩ := Bool.and_eq_true_iff.1 h
    have hname : c ∉ name.toList := by
      intro hmem
      have := List.all_eq_true.1 hplain c hmem
      simp [hmarks.2] at this
    rw [Xml.toList_attributesText_cons]
    simp [hname, hescape, ih hrest, hmarks.1]

theorem comma_not_mem_fixedText (x : Binary64) : ',' ∉ x.fixedText.toList := by
  intro hcomma
  have hnumeral := List.all_eq_true.1 x.isNumeral_fixedText ',' hcomma
  exact absurd hnumeral (by decide)

/-- Each point has a comma between its coordinates. -/
theorem count_comma_pointsText (points : List (Binary64 × Binary64)) :
    (pointsText points).toList.count ',' = points.length := by
  have hpoint : ∀ p : Binary64 × Binary64,
      (p.1.fixedText ++ "," ++ p.2.fixedText).toList.count ',' = 1 := by
    intro p
    simp [List.count_eq_zero.2 (comma_not_mem_fixedText _)]
  rw [pointsText, String.toList_intercalate, List.map_map]
  induction points with
  | nil => rfl
  | cons p points ih =>
    cases points with
    | nil => simpa using hpoint p
    | cons next rest =>
      rw [List.map_cons, List.map_cons, List.intercalate_cons_cons, ← List.map_cons,
        List.count_append, List.count_append, ih, List.length_cons, Nat.add_comm]
      exact congrArg _ (hpoint p)

end Characters

/-! ## Reading what is written -/

/-- A written text in which certain elements are found. -/
def Reads (written : List Char) (found : List Element) : Prop :=
  ∃ pieces : List (List Char), written = pieces.flatMap ('<' :: ·) ∧
    (∀ piece ∈ pieces, '<' ∉ piece) ∧ pieces.filterMap elementOf? = found

namespace Reads

variable {a b : List Char} {as bs : List Element}

theorem nil : Reads [] [] := ⟨[], rfl, List.forall_mem_nil _, rfl⟩

theorem append (ha : Reads a as) (hb : Reads b bs) : Reads (a ++ b) (as ++ bs) := by
  obtain ⟨as', rfl, has, rfl⟩ := ha
  obtain ⟨bs', rfl, hbs, rfl⟩ := hb
  exact ⟨as' ++ bs', List.flatMap_append.symm, List.forall_mem_append.2 ⟨has, hbs⟩,
    List.filterMap_append⟩

theorem tag {tag : List Char} (h : '<' ∉ tag) : Reads ('<' :: tag) (elementOf? tag).toList := by
  refine ⟨[tag], by simp, List.forall_mem_singleton.2 h, ?_⟩
  cases hfound : elementOf? tag <;> simp [hfound]

/-- What is put together is read back. -/
theorem elements {written : String} (h : Reads written.toList as) : elements written = as := by
  obtain ⟨pieces, hwritten, hpieces, rfl⟩ := h
  -- the text before the first tag is empty here, but not in the induction
  have hsplit : ∀ first, '<' ∉ first →
      splitAt '<' (first ++ pieces.flatMap ('<' :: ·)) = first :: pieces := by
    clear hwritten
    induction pieces with
    | nil => exact fun first hfirst => by simpa using splitAt_of_not_mem hfirst
    | cons piece pieces ih =>
      intro first hfirst
      obtain ⟨hpiece, hrest⟩ := List.forall_mem_cons.1 hpieces
      rw [List.flatMap_cons, List.cons_append, splitAt_append_cons hfirst, ih hrest piece hpiece]
  have htags : tags (pieces.flatMap ('<' :: ·)) = pieces :=
    congrArg List.tail (hsplit [] List.not_mem_nil)
  rw [Svg.elements, hwritten, htags]

end Reads

/-! ## Tags -/

open Xml (Markup startTag)

section Tags

variable (pair : String × String) (attributes : Xml.Attributes) (ending : List Char)

theorem exists_startTag_eq (name : String) :
    ∃ rest, startTag name (pair :: attributes) ending = name.toList ++ ' ' :: rest := by
  obtain ⟨key, value⟩ := pair
  rw [startTag, Xml.toList_attributesText_cons, List.append_assoc, List.append_assoc]
  exact ⟨_, rfl⟩

theorem elementOf?_startTag {name : String} {element : Element}
    (h : (name, element) ∈ [("line", .line), ("rect", .rect), ("g", .group)]) :
    elementOf? (startTag name (pair :: attributes) ending) = some element := by
  obtain ⟨rest, htag⟩ := exists_startTag_eq pair attributes ending name
  simp only [List.mem_cons, Prod.mk.injEq, List.not_mem_nil, or_false] at h
  rw [htag]
  obtain ⟨rfl, rfl⟩ | ⟨rfl, rfl⟩ | ⟨rfl, rfl⟩ := h <;> rfl

theorem elementOf?_polygon (value : String) :
    elementOf? (startTag "polygon" (("points", value) :: attributes) ending)
      = some (.polygon (value.toList.count ',')) := by
  have hname : ∀ rest, elementOf? ("polygon".toList ++ ' ' :: rest) = some (.polygon
      (((behind '"' ("polygon".toList ++ ' ' :: rest)).takeWhile (· ≠ '"')).count ',')) :=
    fun _ => rfl
  have hbehind : behind '"' (startTag "polygon" (("points", value) :: attributes) ending)
      = (Xml.escape value).toList ++ '"' :: ((Xml.attributesText attributes).toList ++ ending) := by
    have htag : startTag "polygon" (("points", value) :: attributes) ending
        = "polygon points=".toList ++ '"' :: ((Xml.escape value).toList
          ++ '"' :: ((Xml.attributesText attributes).toList ++ ending)) := by
      rw [startTag, Xml.toList_attributesText_cons]
      simp
    rw [htag, behind_append_cons (by decide)]
  obtain ⟨rest, htag⟩ := exists_startTag_eq ("points", value) attributes ending "polygon"
  have hvalue : ∀ rest, ((Xml.escape value).toList ++ '"' :: rest).takeWhile (· ≠ '"')
      = (Xml.escape value).toList :=
    takeWhile_append_stop (ne_of_not_mem (Xml.not_mem_escape (by simp) value)) (by simp)
  rw [htag, hname, ← htag, hbehind, hvalue, count_comma_escape]

theorem elementOf?_text (h : plain (pair :: attributes)) :
    elementOf? (startTag "text" (pair :: attributes) ('>' :: ending))
      = some (.text (String.ofList ending)) := by
  have hname : ∀ rest, elementOf? ("text".toList ++ ' ' :: rest)
      = some (.text (String.ofList (behind '>' ("text".toList ++ ' ' :: rest)))) :=
    fun _ => rfl
  have hbehind : behind '>' (startTag "text" (pair :: attributes) ('>' :: ending)) = ending := by
    have hattributes := not_mem_attributesText (c := '>') (by simp) h
    rw [startTag, behind_append_cons]
    rw [List.mem_append, not_or]
    exact ⟨by decide, hattributes⟩
  obtain ⟨rest, htag⟩ := exists_startTag_eq pair attributes ('>' :: ending) "text"
  rw [htag, hname, ← htag, hbehind]

end Tags

/-! ## Shapes -/

theorem renderAll_singleton (m : Markup) : (Xml.renderAll [m]).toList = m.render.toList := by
  rw [Xml.toList_renderAll_cons]
  exact List.append_nil _

theorem renderAll_append (as bs : List Markup) :
    (Xml.renderAll (as ++ bs)).toList = (Xml.renderAll as).toList ++ (Xml.renderAll bs).toList := by
  induction as with
  | nil => simp [Xml.renderAll, Xml.contentPieces]
  | cons a as ih =>
    rw [List.cons_append, Xml.toList_renderAll_cons, ih, Xml.toList_renderAll_cons,
      List.append_assoc]

theorem Reads.start {name : String} {attributes : Xml.Attributes} (hname : '<' ∉ name.toList)
    (h : plain attributes) {ending : List Char} (hending : '<' ∉ ending) :
    Reads ('<' :: startTag name attributes ending)
      (elementOf? (Xml.startTag name attributes ending)).toList := by
  apply Reads.tag
  have hattributes := not_mem_attributesText (c := '<') (by simp) h
  simp [Xml.startTag, hname, hattributes, hending]

theorem Reads.finish (name : String) (hname : '<' ∉ name.toList) :
    Reads ('<' :: '/' :: name.toList ++ ['>']) [] :=
  Reads.tag (by simp [hname])

theorem reads_leaf {name : String} {element : Element} {pair : String × String}
    {attributes : Xml.Attributes} (hname : '<' ∉ name.toList) (h : plain (pair :: attributes))
    (helement : elementOf? (startTag name (pair :: attributes) ['/', '>']) = some element) :
    Reads (Markup.leaf name (pair :: attributes)).render.toList [element] := by
  have hending : '<' ∉ ['/', '>'] := by decide
  have hread := Reads.start hname h hending
  rwa [helement, ← Xml.toList_render_leaf] at hread

theorem reads_line (o : Options Binary64) (x1 y1 x2 y2 : Binary64) :
    Reads (lineMarkup o x1 y1 x2 y2).render.toList [.line] :=
  reads_leaf (by decide) (by simp [plain, strokeAttributes]) (elementOf?_startTag _ _ _ (by simp))

theorem reads_box (o : Options Binary64) (width height : Binary64) (radius : Option Binary64) :
    Reads (boxMarkup o width height radius).render.toList [.rect] := by
  refine reads_leaf (by decide) ?_ (elementOf?_startTag _ _ _ (by simp))
  cases radius <;> simp [plain, strokeAttributes, radiusAttributes]

theorem reads_polygon (o : Options Binary64) (points : List (Binary64 × Binary64)) :
    Reads (polygonMarkup o points).render.toList [.polygon points.length] := by
  refine reads_leaf (by decide) (by simp [plain, strokeAttributes]) ?_
  rw [elementOf?_polygon, count_comma_pointsText]

theorem reads_text {pair : String × String} {attributes : Xml.Attributes}
    (h : plain (pair :: attributes)) (line : String) :
    Reads (Markup.element "text" (pair :: attributes) [.text line]).render.toList
      [.text (Xml.escape line)] := by
  have hcontent : (Xml.renderAll [.text line]).toList = (Xml.escape line).toList := by
    simp [Xml.renderAll, Xml.contentPieces, Xml.Markup.pieces]
  have hname : '<' ∉ "text".toList := by decide
  have hending : '<' ∉ '>' :: (Xml.escape line).toList := by simp [Xml.not_mem_escape]
  have hstart := Reads.start hname h hending
  rw [elementOf?_text _ _ _ h, String.ofList_toList] at hstart
  rw [Xml.toList_render_element, hcontent]
  exact hstart.append (.finish "text" hname)

theorem reads_group {pair : String × String} {attributes : Xml.Attributes}
    (h : plain (pair :: attributes)) {content : List Markup} {found : List Element}
    (hcontent : Reads (Xml.renderAll content).toList found) :
    Reads (Markup.element "g" (pair :: attributes) content).render.toList (.group :: found) := by
  have hname : '<' ∉ "g".toList := by decide
  have hending : '<' ∉ ['>'] := by decide
  have hgroup : elementOf? (startTag "g" (pair :: attributes) ['>']) = some .group :=
    elementOf?_startTag _ _ _ (by simp)
  have hstart := Reads.start hname h hending
  rw [hgroup] at hstart
  have hread := (hstart.append hcontent).append (.finish "g" hname)
  rw [Xml.toList_render_element]
  simpa [startTag] using hread

theorem reads_label (o : Options Binary64) (text : String) (x y : Binary64) :
    Reads (Xml.renderAll (labelMarkup o text x y)).toList (textElements text) := by
  have hlines : ∀ (lines : List String) (dy : Nat → Binary64),
      Reads (Xml.renderAll (lines.mapIdx fun i line => textMarkup o x y (dy i) line)).toList
        (lines.map fun line => .text (Xml.escape line)) := by
    intro lines
    induction lines with
    | nil => exact fun _ => .nil
    | cons line lines ih =>
      intro dy
      rw [List.mapIdx_cons, Xml.toList_renderAll_cons]
      exact (reads_text (by simp [plain]) line).append (ih fun i => dy (i + 1))
  rw [labelMarkup, labelLines_eq_feedPieces]
  exact hlines _ _

mutual

theorem reads_shape (o : Options Binary64) : (shape : Shape Binary64) →
    Reads (Xml.renderAll (shapeMarkup o shape)).toList (shapeElements shape)
  | .line .. => by
    rw [shapeMarkup, renderAll_singleton]
    exact reads_line ..
  | .box .. => by
    rw [shapeMarkup, renderAll_singleton]
    exact reads_box ..
  | .polygon points => by
    rw [shapeMarkup, renderAll_singleton]
    exact reads_polygon ..
  | .label text x y => reads_label o text x y
  | .group x y content => by
    rw [shapeMarkup, renderAll_singleton]
    exact reads_group (by simp [plain]) (reads_shapes o content)

theorem reads_shapes (o : Options Binary64) : (shapes : List (Shape Binary64)) →
    Reads (Xml.renderAll (shapesMarkup o shapes)).toList (shapesElements shapes)
  | [] => .nil
  | shape :: rest => by
    rw [shapesMarkup, renderAll_append]
    exact (reads_shape o shape).append (reads_shapes o rest)

end

/-- In a written fragment just the elements of its shapes are found. -/
theorem elements_fragmentText (o : Options Binary64) (f : Fragment Binary64) :
    elements (fragmentText o f) = shapesElements f.shapes :=
  (reads_shapes o f.shapes).elements

example : elements "<g x=\"\"><text x=\"\">a&lt;b</text></g><use/>"
    = [.group, .text "a&lt;b", .unknown "use/>".toList] := by rfl

end ProgramDiagram.Svg
