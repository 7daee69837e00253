import ProgramDiagram.Proofs.Number.Shortest
import ProgramDiagram.Proofs.Svg.Inventory
import ProgramDiagram.Proofs.Xml.Plain
import ProgramDiagram.Svg.Source

/-!
# Drawings as documents

* `drawnStrings`: the strings of a tree and of its options that are written into its drawing;
* `readDocument?_draw`: what is read of a drawing;
* `drawing_wellFormed`: a drawing is a document if and only if XML allows the characters of these
  strings, and it has no elements and attributes but those that are drawn.
-/

namespace ProgramDiagram

namespace Xml

/-! ## Characters -/

/-- The characters that XML 1.0 allows. -/
def charRanges : List (Nat × Nat) :=
  [(0x9, 0xA), (0xD, 0xD), (0x20, 0xD7FF), (0xE000, 0xFFFD), (0x10000, 0x10FFFF)]

theorem isSpace_iff {c : Char} :
    isSpace c ↔ c.toNat = 0x20 ∨ c.toNat = 0x9 ∨ c.toNat = 0xA ∨ c.toNat = 0xD := by
  have hcode : ∀ d : Char, c = d ↔ c.toNat = d.toNat := fun d =>
    ⟨congrArg Char.toNat, fun h => Char.ext (UInt32.toNat_inj.1 h)⟩
  simp [isSpace, hcode, or_assoc]

theorem isDocumentChar_iff {c : Char} : isDocumentChar c ↔ inRanges c.toNat charRanges := by
  have hvalid : c.toNat < 0xD800 ∨ 0xDFFF < c.toNat ∧ c.toNat < 0x110000 := c.valid
  unfold isDocumentChar
  split
  · rw [isSpace_iff]
    simp [inRanges, charRanges]
    omega
  · simp [inRanges, charRanges]
    omega

theorem isAllowed_iff {text : String} :
    isAllowed text ↔ ∀ c ∈ text.toList, inRanges c.toNat charRanges := by
  simp only [isAllowed, List.all_eq_true, isDocumentChar_iff]

theorem all_isAllowed_iff {texts : List String} : texts.all isAllowed ↔
    ∀ text ∈ texts, ∀ c ∈ text.toList, inRanges c.toNat charRanges := by
  simp only [List.all_eq_true, isAllowed_iff]

theorem isAllowed_append (a b : String) : isAllowed (a ++ b) = (isAllowed a && isAllowed b) := by
  rw [isAllowed, String.toList_append, List.all_append]
  rfl

theorem isAllowed_escape (text : String) : isAllowed (escape text) = isAllowed text := by
  rw [isAllowed, toList_escape, all_isDocumentChar_escaped, isAllowed]

/-! ## Numbers -/

theorem isAllowed_numeral {text : String} (h : text.toList.all isNumeral) : isAllowed text := by
  rw [isAllowed, List.all_eq_true]
  rw [List.all_eq_true] at h
  intro c hc
  have hcode : 48 ≤ c.toNat ∧ c.toNat ≤ 57 ∨ c ∈ ['-', '+', '.', 'e'] := by
    simpa [isNumeral, Char.isDigit, UInt32.le_iff_toNat_le] using h c hc
  rcases hcode with hdigit | hmark
  · rw [isDocumentChar_iff]
    simp [inRanges, charRanges]
    omega
  · simp only [List.mem_cons, List.not_mem_nil, or_false] at hmark
    obtain rfl | rfl | rfl | rfl := hmark <;> decide

theorem isAllowed_fixedText (x : Binary64) : isAllowed x.fixedText :=
  isAllowed_numeral x.isNumeral_fixedText

theorem isAllowed_plainText (x : Binary64) : isAllowed x.plainText :=
  isAllowed_numeral x.isNumeral_plainText

end Xml

open Xml

namespace Svg

theorem all_pointsText {p : Char → Bool} (hmarks : p ' ' ∧ p ',')
    (h : ∀ x : Binary64, x.fixedText.toList.all p) (points : List (Binary64 × Binary64)) :
    (pointsText points).toList.all p := by
  have hcomma : ",".toList.all p := by simp [hmarks.2]
  rw [pointsText, String.toList_intercalate]
  apply all_intercalate (by simp [hmarks.1])
  intro piece hpiece
  simp only [List.mem_map] at hpiece
  obtain ⟨_, ⟨point, -, rfl⟩, rfl⟩ := hpiece
  rw [String.toList_append, String.toList_append, List.all_append, List.all_append, h, h, hcomma]
  rfl

theorem isAllowed_pointsText (points : List (Binary64 × Binary64)) :
    isAllowed (pointsText points) :=
  all_pointsText (by decide) isAllowed_fixedText points

/-! ## The strings of a drawing -/

/-- The strings of the options that are written for an element. -/
def Element.strings (o : Options Binary64) : Element → List String
  | .line => [o.strokeColor]
  | .rect => o.strokeColor :: o.backgroundColor.toList
  | .polygon _ => o.strokeColor :: o.backgroundColor.toList
  | .text _ => [o.fontFamily, o.textColor]
  | .group => []
  | .unknown _ => []

end Svg

/-- The labels that are drawn for a node itself. -/
def Node.labels : Node → List String
  | .comment t => ["(" ++ t ++ ")"]
  | .switch t cases => t :: Cases.labels cases
  | node => node.text?.toList

/-- The strings that are written for a node itself: the lines of its labels, and of the options
those for what is drawn. -/
def Node.strings (o : Options Binary64) (node : Node) : List String :=
  node.labels.flatMap feedPieces ++ node.elements.flatMap (Svg.Element.strings o)

namespace Svg

/-- The strings that are written into a drawing. -/
def drawnStrings (o : Options Binary64) (tree : Node) : List String :=
  o.baseBackgroundColor.toList ++ tree.subtrees.flatMap (Node.strings o)

/-- Without a colour a word is written that a document may have. -/
theorem isAllowed_fillColor (color : Option String) :
    isAllowed (fillColor color) = color.toList.all isAllowed := by
  cases color with
  | none => decide
  | some color => simp [fillColor]

/-- Whether the text of a text element has only characters that a document may have. -/
def Element.allowsText : Element → Bool
  | .text content => isAllowed content
  | _ => true

/-- Whether the same holds of all strings that are written for an element. -/
def Element.allows (o : Options Binary64) (e : Element) : Bool :=
  e.allowsText && (e.strings o).all isAllowed

theorem isAllowed_text (o : Options Binary64) (x y dy : Binary64) (line : String) :
    (textMarkup o x y dy line).strings.all isAllowed
      = (Element.text (Xml.escape line)).allows o := by
  simp [textMarkup, Markup.strings, contentStrings, Element.allows, Element.allowsText,
    Element.strings, isAllowed_escape, isAllowed_fixedText, isAllowed_plainText, Bool.and_comm,
    Bool.and_left_comm]

theorem isAllowed_label (o : Options Binary64) (text : String) (x y : Binary64) :
    (contentStrings (labelMarkup o text x y)).all isAllowed
      = (textElements text).all (Element.allows o) := by
  have hlines : ∀ (lines : List String) (dy : Nat → Binary64),
      (contentStrings (lines.mapIdx fun i line => textMarkup o x y (dy i) line)).all isAllowed
        = (lines.map fun line => Element.text (Xml.escape line)).all (Element.allows o) := by
    intro lines
    induction lines with
    | nil => exact fun _ => rfl
    | cons line lines ih =>
      intro dy
      rw [List.mapIdx_cons, contentStrings, List.all_append, isAllowed_text, List.map_cons,
        List.all_cons, ih fun i => dy (i + 1)]
  rw [labelMarkup, labelLines_eq_feedPieces]
  exact hlines _ _

section Shapes

attribute [local simp] isAllowed_fillColor contentStrings Markup.strings Element.strings
  Element.allows Element.allowsText shapeElements shapeMarkup strokeAttributes isAllowed_fixedText
  isAllowed_plainText isAllowed_pointsText isAllowed_append

mutual

/-- What is written for a shape is allowed if it is for its elements. -/
theorem isAllowed_shape (o : Options Binary64) : (shape : Shape Binary64) →
    (contentStrings (shapeMarkup o shape)).all isAllowed
      = (shapeElements shape).all (Element.allows o)
  | .line x1 y1 x2 y2 => by simp [lineMarkup]
  | .box width height none => by
    have hzero : isAllowed "0" := by decide
    simp [boxMarkup, radiusAttributes, hzero]
  | .box width height (some r) => by
    have hzero : isAllowed "0" := by decide
    simp [boxMarkup, radiusAttributes, hzero]
  | .polygon points => by simp [polygonMarkup]
  | .label text x y => isAllowed_label o text x y
  | .group x y content => by
    have htranslate : isAllowed "translate(" ∧ isAllowed ", " ∧ isAllowed ")" := by decide
    simp [groupMarkup, htranslate, ← isAllowed_shapes o content]

theorem isAllowed_shapes (o : Options Binary64) : (shapes : List (Shape Binary64)) →
    (contentStrings (shapesMarkup o shapes)).all isAllowed
      = (shapesElements shapes).all (Element.allows o)
  | [] => rfl
  | shape :: rest => by
    rw [shapesMarkup, contentStrings_append, List.all_append, isAllowed_shape o shape,
      isAllowed_shapes o rest, shapesElements, List.all_append]

end

end Shapes

/-! ## The strings of a node -/

theorem allowsText_textElements (text : String) :
    (textElements text).all Element.allowsText = (feedPieces text).all isAllowed := by
  have hline : Element.allowsText ∘ (fun line => .text (escape line)) = isAllowed := by
    funext line
    rw [Function.comp_apply, Element.allowsText, isAllowed_escape]
  rw [textElements, List.all_map, hline]

theorem allowsText_joined {β : Type} (owned : List β) : (joined owned).all Element.allowsText := by
  induction owned with
  | nil => rfl
  | cons o owned ih => simp [joined, Element.allowsText]

theorem allowsText_conditionElements {β : Type} (text : String) (labels : List String)
    (bodies : List β) :
    (conditionElements text labels bodies).all Element.allowsText
      = ((text :: labels).flatMap feedPieces).all isAllowed := by
  have hlabels : ∀ ls : List String,
      (ls.flatMap textElements).all Element.allowsText = (ls.flatMap feedPieces).all isAllowed := by
    intro ls
    simp only [List.all_flatMap, allowsText_textElements]
  have hpadding : ∀ n, ((List.replicate n "").flatMap feedPieces).all isAllowed := by
    intro n
    rw [List.all_flatMap, List.all_replicate]
    simp [show (feedPieces "").all isAllowed = true by decide]
  rw [conditionElements, List.all_append, List.all_append, List.all_cons, allowsText_joined,
    allowsText_textElements, hlabels, List.flatMap_append, List.all_append, hpadding]
  simp [Element.allowsText]

theorem allowsText_node (node : Node) :
    node.elements.all Element.allowsText = (node.labels.flatMap feedPieces).all isAllowed := by
  cases node with
  | process | terminal | comment | call | loop =>
    simp [Node.elements, Node.labels, Node.text?, allowsText_textElements, allowsText_joined,
      Element.allowsText]
  | decision t onTrue onFalse =>
    rw [Node.elements, allowsText_conditionElements]
    have hempty : (feedPieces "").all isAllowed := by decide
    simp [Node.labels, Node.text?, hempty]
  | switch t cases => rw [Node.elements, allowsText_conditionElements, Node.labels]
  | list children => simp [Node.elements, Node.labels, Node.text?, Element.allowsText]

theorem allows_node (o : Options Binary64) (node : Node) :
    node.elements.all (Element.allows o) = (node.strings o).all isAllowed := by
  have hsplit : ∀ es : List Element, es.all (Element.allows o)
      = (es.all Element.allowsText && es.all fun e => (e.strings o).all isAllowed) := by
    intro es
    induction es with
    | nil => rfl
    | cons e es ih => grind [Element.allows]
  rw [hsplit, allowsText_node, Node.strings, List.all_append, List.all_flatMap (l := node.elements)]

/-- What is written for a tree is allowed if the strings of its nodes are. -/
theorem isAllowed_layout (s : Sheet Binary64) (tree : Node) :
    (contentStrings (shapesMarkup s.options (tree.layout s).shapes)).all isAllowed
      = (tree.subtrees.flatMap (Node.strings s.options)).all isAllowed := by
  rw [isAllowed_shapes, (layout_elements s tree).all_eq, List.all_flatMap, List.all_flatMap]
  simp only [allows_node]

/-! ## Drawings -/

/-- The namespace of drawings. -/
def svgSpace : String := "http://www.w3.org/2000/svg"

theorem plainTag_of_keys {name : String} {attributes : Attributes} (keys : List String)
    (h : attributes.map Prod.fst = keys)
    (hkeys : isPart name ∧ keys.all isPlainName ∧ keys.Nodup) : PlainTag name attributes := by
  subst h
  exact ⟨hkeys.1, hkeys.2.1, hkeys.2.2⟩

theorem plain_text (o : Options Binary64) (x y dy : Binary64) (line : String) :
    (textMarkup o x y dy line).Plain :=
  ⟨plainTag_of_keys ["x", "y", "dy", "font-family", "font-size", "fill"] rfl (by decide),
    .inl ⟨line, rfl⟩, trivial, trivial⟩

/-- Elements without prefixes. -/
def PlainElements (ms : List Markup) : Prop := ∀ m ∈ ms, m.Plain ∧ m.isText = false

theorem plain_group (x y : Binary64) {content : List Markup} (h : PlainElements content) :
    (groupMarkup x y content).Plain :=
  ⟨plainTag_of_keys ["transform"] rfl (by decide), .inr fun m hm => (h m hm).2,
    plainContent_iff.2 fun m hm => (h m hm).1⟩

mutual

theorem plain_shape (o : Options Binary64) : (shape : Shape Binary64) →
    PlainElements (shapeMarkup o shape)
  | .line .. => List.forall_mem_singleton.2
    ⟨plainTag_of_keys ["x1", "y1", "x2", "y2", "stroke", "stroke-width"] rfl (by decide), rfl⟩
  | .box _ _ none => List.forall_mem_singleton.2
    ⟨plainTag_of_keys ["x", "y", "width", "height", "stroke", "stroke-width", "fill"] rfl
      (by decide), rfl⟩
  | .box _ _ (some _) => List.forall_mem_singleton.2
    ⟨plainTag_of_keys ["x", "y", "width", "height", "rx", "ry", "stroke", "stroke-width", "fill"]
      rfl (by decide), rfl⟩
  | .polygon _ => List.forall_mem_singleton.2
    ⟨plainTag_of_keys ["points", "stroke", "stroke-width", "fill"] rfl (by decide), rfl⟩
  | .label text x y => by
    intro m hm
    obtain ⟨i, _, rfl⟩ := List.mem_mapIdx.1 hm
    exact ⟨plain_text .., rfl⟩
  | .group x y content => List.forall_mem_singleton.2
    ⟨plain_group x y (plain_shapes o content), rfl⟩

theorem plain_shapes (o : Options Binary64) : (shapes : List (Shape Binary64)) →
    PlainElements (shapesMarkup o shapes)
  | [] => List.forall_mem_nil _
  | shape :: rest => List.forall_mem_append.2 ⟨plain_shape o shape, plain_shapes o rest⟩

end

section Canvas

variable (o : Options Binary64) (width height : Binary64)

/-- The attributes of a document except for its namespace. -/
def canvasAttributes : Attributes :=
  [("width", width.fixedText), ("height", height.fixedText),
    ("viewBox", "0 0 " ++ width.fixedText ++ " " ++ height.fixedText)]

/-- A background and a drawing. -/
def canvasContent (content : List Markup) : List Markup :=
  [.leaf "rect" [("x", "0"), ("y", "0"), ("width", width.fixedText), ("height", height.fixedText),
      ("fill", fillColor o.baseBackgroundColor)],
    groupMarkup o.margin.left o.margin.top content]

theorem document_eq (content : List Markup) :
    document o width height content = .element "svg"
      (canvasAttributes width height ++ [("xmlns", svgSpace)])
      (canvasContent o width height content) := rfl

theorem plain_canvas : PlainTag "svg" (canvasAttributes width height) :=
  plainTag_of_keys ["width", "height", "viewBox"] rfl (by decide)

theorem plain_canvasContent {content : List Markup} (h : PlainElements content) :
    PlainElements (canvasContent o width height content) :=
  List.forall_mem_cons.2
    ⟨⟨plainTag_of_keys ["x", "y", "width", "height", "fill"] rfl (by decide), rfl⟩,
      List.forall_mem_singleton.2 ⟨plain_group _ _ h, rfl⟩⟩

/-- What is read of a document. -/
def canvasTree (content : List Markup) : Tree :=
  .element ⟨some svgSpace, "svg"⟩ [(none, svgSpace)]
    (plainAttributes (canvasAttributes width height))
    (contentTrees [(none, svgSpace)] (canvasContent o width height content))

theorem wellNamed_document {content : List Markup} (h : PlainElements content) :
    (document o width height content).WellNamed := by
  have hcontent := plainContent_iff.2 fun m hm => (plain_canvasContent o width height h m hm).1
  have hkeys : ∀ pair ∈ canvasAttributes width height ++ [("xmlns", svgSpace)],
      (nameOf? pair.1).isSome := by
    have hparts := (plain_canvas width height).isPart_keys
    refine List.forall_mem_append.2 ⟨fun pair hpair => ?_, List.forall_mem_singleton.2 ?_⟩
    · rw [nameOf?_local (hparts pair hpair)]
      rfl
    · rw [nameOf?_local (show isPart "xmlns" by decide)]
      rfl
  exact ⟨by rw [nameOf?_local (plain_canvas width height).name]; rfl, hkeys,
    PlainContent.wellNamed _ hcontent⟩

theorem readDocument?_document {content : List Markup} (h : PlainElements content) :
    readDocument? (document o width height content).render =
      if (document o width height content).strings.all isAllowed then
        some (canvasTree o width height content)
      else none := by
  have hspace : readValue svgSpace = svgSpace := by decide
  have hfree : svgSpace ≠ xmlSpace ∧ svgSpace ≠ xmlnsSpace := by decide
  have helements := plain_canvasContent o width height h
  have hcontent := plainContent_iff.2 fun m hm => (helements m hm).1
  have hread := readDocument?_render (wellNamed_document o width height h) rfl
    (show "".toList.all isSpace from rfl)
  rw [String.append_empty, document_eq, read?_declaring (plain_canvas width height) hcontent
    (fun m hm => (helements m hm).2) (hspace.symm ▸ hfree), hspace] at hread
  exact hread

end Canvas

/-- What is read of the drawing of a tree. -/
def drawnTree (s : Sheet Binary64) (tree : Node) : Tree :=
  let f := tree.layout s
  canvasTree s.options (s.canvas f).1 (s.canvas f).2 (shapesMarkup s.options f.shapes)

theorem drawing_eq (s : Sheet Binary64) (tree : Node) :
    drawing s tree = document s.options (s.canvas (tree.layout s)).1 (s.canvas (tree.layout s)).2
      (shapesMarkup s.options (tree.layout s).shapes) := rfl

theorem isAllowed_drawing (s : Sheet Binary64) (tree : Node) :
    (drawing s tree).strings.all isAllowed = (drawnStrings s.options tree).all isAllowed := by
  have hconstants : isAllowed "0" ∧ isAllowed "0 0 " ∧ isAllowed " " ∧ isAllowed svgSpace ∧
      isAllowed "translate(" ∧ isAllowed ", " ∧ isAllowed ")" := by decide
  rw [drawnStrings, List.all_append, ← isAllowed_fillColor, ← isAllowed_layout s tree, drawing_eq,
    document_eq]
  simp [canvasAttributes, canvasContent, groupMarkup, Markup.strings, contentStrings,
    isAllowed_append, isAllowed_fixedText, hconstants]

theorem readDocument?_draw (s : Sheet Binary64) (tree : Node) :
    readDocument? (draw s (some tree)) =
      if (drawnStrings s.options tree).all isAllowed then some (drawnTree s tree) else none := by
  rw [← isAllowed_drawing]
  exact readDocument?_document _ _ _ (plain_shapes _ _)

/-- The names of an element of a drawing and of its attributes. -/
def svgNames (tag : String × List String) : Name × List Name :=
  (⟨some svgSpace, tag.1⟩, (tag.2.filter (· ≠ "xmlns")).map fun key => ⟨none, key⟩)

theorem svgNames_eq {tag : String × List String} (h : tag.2.all isPlainName) :
    svgNames tag = plainNames (some svgSpace) tag := by
  have hkept : tag.2.filter (· ≠ "xmlns") = tag.2 := by
    rw [List.filter_eq_self]
    intro key hkey
    have hplain := List.all_eq_true.1 h key hkey
    rw [isPlainName, Bool.and_eq_true, bne_iff_ne] at hplain
    exact decide_eq_true hplain.2
  rw [svgNames, hkept, plainNames]

/-- A drawing has the elements and attributes that are written, whatever its strings are. -/
theorem elements_drawnTree (s : Sheet Binary64) (tree : Node) :
    (drawnTree s tree).elements.map Element.names = (drawing s tree).tags.map svgNames := by
  let f := tree.layout s
  let content :=
    canvasContent s.options (s.canvas f).1 (s.canvas f).2 (shapesMarkup s.options f.shapes)
  have helements : PlainElements content :=
    plain_canvasContent _ _ _ (plain_shapes s.options f.shapes)
  have hplain : PlainContent content := plainContent_iff.2 fun m hm => (helements m hm).1
  have hcontent : (contentElements (contentTrees [(none, svgSpace)] content)).map Element.names
      = (contentTags content).map svgNames := by
    rw [contentElements_trees]
    exact List.map_congr_left fun tag htag =>
      (svgNames_eq (isPlainName_contentTags content hplain tag htag)).symm
  rw [drawnTree, canvasTree, Tree.elements, List.map_cons, hcontent]
  rfl

/-- A drawing is a document if XML allows the characters of its strings. -/
theorem isSome_readDocument?_draw (s : Sheet Binary64) (tree : Node) :
    (readDocument? (draw s (some tree))).isSome ↔
      ∀ text ∈ drawnStrings s.options tree, ∀ c ∈ text.toList, inRanges c.toNat charRanges := by
  rw [← all_isAllowed_iff, readDocument?_draw]
  split <;> simp [*]

/-! ## Drawings of outlines -/

theorem layOut?_empty {layOut? : String → Option String} (h : layOut? ∈ [minify?, prettyPrint?]) :
    layOut? "" = some "" := by
  simp only [List.mem_cons, List.not_mem_nil, or_false] at h
  obtain rfl | rfl := h <;> decide

/-- A text that is not blank can be laid out just if it is a document. -/
theorem layOut?_eq_none_iff {layOut? : String → Option String}
    (h : layOut? ∈ [minify?, prettyPrint?]) {text : String} (hblank : allBlank text = false) :
    layOut? text = none ↔ readDocument? text = none := by
  simp only [List.mem_cons, List.not_mem_nil, or_false] at h
  obtain rfl | rfl := h
  · simp [minify?, hblank]
  · simp [prettyPrint?, hblank]

theorem allBlank_draw (s : Sheet Binary64) (tree : Node) :
    allBlank (draw s (some tree)) = false := by
  have hfirst : ∃ rest, (draw s (some tree)).toList = '<' :: rest := by
    rw [draw, drawing_eq, document_eq, toList_render_element]
    exact ⟨_, rfl⟩
  obtain ⟨rest, hrest⟩ := hfirst
  rw [allBlank, hrest, List.all_cons]
  rfl

theorem drawSourceBy_eq_notDocument_iff {layOut? : String → Option String} {o : Options Binary64}
    {source : String} :
    drawSourceBy layOut? o source = .error .notDocument ↔ ∃ parsed,
      Outline.parse source = .ok parsed ∧ layOut? (draw ⟨o, cellMeasurer⟩ parsed) = none := by
  rw [drawSourceBy, drawSource]
  cases Outline.parse source with
  | error e => simp [Except.map]
  | ok parsed =>
    cases hlayOut : layOut? (draw ⟨o, cellMeasurer⟩ parsed) <;> simp [Except.map, hlayOut]

/-- Laying a drawing out fails for a character of its strings only. -/
theorem drawSourceBy_fails_iff {layOut? : String → Option String}
    (h : layOut? ∈ [minify?, prettyPrint?]) {o : Options Binary64} {source : String} :
    drawSourceBy layOut? o source = .error .notDocument ↔
      ∃ tree, Outline.parse source = .ok (some tree) ∧
        ∃ text ∈ drawnStrings o tree, ∃ c ∈ text.toList, ¬ inRanges c.toNat charRanges := by
  have htree : ∀ tree, layOut? (draw ⟨o, cellMeasurer⟩ (some tree)) = none ↔
      ∃ text ∈ drawnStrings o tree, ∃ c ∈ text.toList, ¬ inRanges c.toNat charRanges := by
    intro tree
    rw [layOut?_eq_none_iff h (allBlank_draw _ tree), ← Option.not_isSome_iff_eq_none,
      isSome_readDocument?_draw]
    push Not
    rfl
  rw [drawSourceBy_eq_notDocument_iff]
  constructor
  · rintro ⟨parsed, hparse, hnone⟩
    cases parsed with
    | none =>
      rw [draw, layOut?_empty h] at hnone
      cases hnone
    | some tree => exact ⟨tree, hparse, (htree tree).1 hnone⟩
  · rintro ⟨tree, hparse, hstrings⟩
    exact ⟨some tree, hparse, (htree tree).2 hstrings⟩

/-- A drawing is a document if and only if XML allows the characters of its strings, and then it has
the elements and attributes that are written and no others. That of an outline cannot be laid out
just if one of these characters is not allowed. -/
theorem drawing_wellFormed :
    (∀ (s : Sheet Binary64) (tree : Node),
      ((readDocument? (draw s (some tree))).isSome ↔
        ∀ text ∈ drawnStrings s.options tree, ∀ c ∈ text.toList, inRanges c.toNat charRanges) ∧
      ∀ root ∈ readDocument? (draw s (some tree)),
        root.elements.map Element.names = (drawing s tree).tags.map svgNames) ∧
    ∀ (o : Options Binary64) (source : String), ∀ layOut ∈ [compactSource, indentedSource],
      (layOut o source = .error .notDocument ↔
        ∃ tree, Outline.parse source = .ok (some tree) ∧
          ∃ text ∈ drawnStrings o tree, ∃ c ∈ text.toList, ¬ inRanges c.toNat charRanges) := by
  refine ⟨fun s tree => ⟨isSome_readDocument?_draw s tree, fun root hroot => ?_⟩,
    fun o source layOut hlayOut => ?_⟩
  · rw [readDocument?_draw] at hroot
    split at hroot
    · obtain rfl := Option.some.inj hroot
      exact elements_drawnTree s tree
    · cases hroot
  · simp only [List.mem_cons, List.not_mem_nil, or_false] at hlayOut
    obtain rfl | rfl := hlayOut
    · exact drawSourceBy_fails_iff List.mem_cons_self
    · exact drawSourceBy_fails_iff (List.mem_cons_of_mem _ List.mem_cons_self)

/-- A label with a character that is marked up is drawn, and one with a character that no document
may have is not. -/
theorem drawing_wellFormed_label :
    let sheet : Sheet Binary64 := ⟨.standard, cellMeasurer⟩
    (readDocument? (draw sheet (some (.list [.process "a<b" none])))).isSome ∧
      ¬ (readDocument? (draw sheet (some (.list [.process "\x01" none])))).isSome ∧
      compactSource .standard "a<b" ≠ .error .notDocument ∧
      compactSource .standard "\x01" = .error .notDocument := by
  intro sheet
  obtain ⟨hread, hsource⟩ := drawing_wellFormed
  have hallowed : ∀ text ∈ drawnStrings sheet.options (.list [.process "a<b" none]),
      ∀ c ∈ text.toList, inRanges c.toNat charRanges := all_isAllowed_iff.1 (by decide)
  have hrefused : ∃ text ∈ drawnStrings sheet.options (.list [.process "\x01" none]),
      ∃ c ∈ text.toList, ¬ inRanges c.toNat charRanges := by
    have hnot : ¬ (drawnStrings sheet.options (.list [.process "\x01" none])).all isAllowed := by
      decide
    simpa only [all_isAllowed_iff, not_forall, exists_prop] using hnot
  refine ⟨(hread sheet _).1.2 hallowed, fun hsome => ?_, fun hfails => ?_, ?_⟩
  · obtain ⟨text, htext, c, hc, hnot⟩ := hrefused
    exact hnot ((hread sheet _).1.1 hsome text htext c hc)
  · obtain ⟨tree, hparse, text, htext, c, hc, hnot⟩ :=
      (hsource .standard "a<b" compactSource List.mem_cons_self).1 hfails
    have htree : Outline.parse "a<b" = .ok (some (.list [.process "a<b" none])) := rfl
    rw [htree] at hparse
    cases hparse
    exact hnot (hallowed text htext c hc)
  · exact (hsource .standard "\x01" compactSource List.mem_cons_self).2 ⟨_, rfl, hrefused⟩

end Svg

end ProgramDiagram
