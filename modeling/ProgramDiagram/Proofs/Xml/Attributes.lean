import ProgramDiagram.Proofs.Xml.Reading

/-!
# The attributes of a written text

A quote stands nowhere in written markup but around a value, so the attributes can be told from the
quotes alone.

* `quotedAttributes`: what stands between quotes, with the words before;
* `quotedAttributes_render`: these are the attributes that were written.
-/

namespace ProgramDiagram.Xml

/-! ## Reading -/

/-- The last word of a text, without the character that ends it. -/
def lastWord (cs : List Char) : List Char := (cs.reverse.takeWhile (· ≠ ' ')).reverse.dropLast

/-- The attributes in the pieces of a text that was cut at its quotes. -/
def attributesBetween : List (List Char) → Attributes
  | before :: value :: rest =>
    (String.ofList (lastWord before), String.ofList value) :: attributesBetween rest
  | _ => []

def attributesOf (written : List Char) : Attributes := attributesBetween (splitAt '"' written)

/-- The attributes of a written text with their values as they are written. -/
def quotedAttributes (written : String) : Attributes := attributesOf written.toList

/-! ## Writing -/

mutual

/-- The attributes in markup, in order. -/
def Markup.attributes : Markup → Attributes
  | .leaf _ attributes => attributes
  | .element _ attributes content => attributes ++ contentAttributes content
  | .text _ => []

def contentAttributes : List Markup → Attributes
  | [] => []
  | m :: rest => m.attributes ++ contentAttributes rest

end

/-- Attributes with their values as they are written. -/
def escapedAttributes (attributes : Attributes) : Attributes :=
  attributes.map fun (key, value) => (key, escape value)

theorem escapedAttributes_append (as bs : Attributes) :
    escapedAttributes (as ++ bs) = escapedAttributes as ++ escapedAttributes bs := List.map_append

/-! ## Reading what is written -/

theorem isNameChar_of_nameOf? {name : String} (h : (nameOf? name).isSome) :
    ∀ c ∈ name.toList, isNameChar c = true := by
  rw [nameOf?] at h
  split at h
  · rename_i hall
    exact List.all_eq_true.1 hall
  · cases h

theorem not_mem_of_nameOf? {name : String} (h : (nameOf? name).isSome) {c : Char}
    (hc : isNameChar c = false) : c ∉ name.toList := by
  intro hmem
  rw [isNameChar_of_nameOf? h c hmem] at hc
  cases hc

theorem lastWord_append {word : List Char} (h : ' ' ∉ word) (before : List Char) (last : Char)
    (hlast : last ≠ ' ') : lastWord (before ++ ' ' :: (word ++ [last])) = word := by
  have hreverse : (before ++ ' ' :: (word ++ [last])).reverse =
      last :: word.reverse ++ ' ' :: before.reverse := by simp
  have hword : ∀ c ∈ last :: word.reverse, decide (c ≠ ' ') = true := by
    apply ne_of_not_mem
    simp [h, hlast.symm]
  rw [lastWord, hreverse, takeWhile_append_stop hword (by simp)]
  simp

/-- What is read up to a point where no value is open: certain attributes, and then what is read of
the rest behind some text without quotes. -/
def Finds (written : List Char) (found : Attributes) : Prop :=
  ∀ before, '"' ∉ before → ∃ after, '"' ∉ after ∧
    ∀ rest, attributesOf (before ++ (written ++ rest)) = found ++ attributesOf (after ++ rest)

namespace Finds

variable {a b : List Char} {as bs : Attributes}

theorem unquoted (h : '"' ∉ a) : Finds a [] := by
  intro before hbefore
  refine ⟨before ++ a, by simp [hbefore, h], fun rest => ?_⟩
  rw [List.append_assoc, List.nil_append]

theorem append (ha : Finds a as) (hb : Finds b bs) : Finds (a ++ b) (as ++ bs) := by
  intro before hbefore
  obtain ⟨middle, hmiddle, hfirst⟩ := ha before hbefore
  obtain ⟨after, hafter, hsecond⟩ := hb middle hmiddle
  refine ⟨after, hafter, fun rest => ?_⟩
  rw [List.append_assoc, hfirst, hsecond, List.append_assoc]

theorem pair {key : String} (h : (nameOf? key).isSome) (value : String) :
    Finds (' ' :: key.toList ++ '=' :: '"' :: (escape value).toList ++ ['"'])
      [(key, escape value)] := by
  intro before hbefore
  have hquote : '"' ∉ before ++ ' ' :: (key.toList ++ ['=']) := by
    simp [hbefore, not_mem_of_nameOf? h (show isNameChar '"' = false by decide)]
  have hvalue : '"' ∉ (escape value).toList := not_mem_escape (by simp) value
  have hword := lastWord_append (not_mem_of_nameOf? h (show isNameChar ' ' = false by decide))
    before '=' (by decide)
  refine ⟨[], by simp, fun rest => ?_⟩
  have htext : before ++ (' ' :: key.toList ++ '=' :: '"' :: (escape value).toList ++ ['"'] ++ rest)
      = (before ++ ' ' :: (key.toList ++ ['='])) ++
        '"' :: ((escape value).toList ++ '"' :: rest) := by
    simp
  rw [htext, attributesOf, splitAt_append_cons hquote, splitAt_append_cons hvalue,
    attributesBetween, hword, String.ofList_toList, String.ofList_toList]
  rfl

theorem attributes {attributes : Attributes} (h : ∀ pair ∈ attributes, (nameOf? pair.1).isSome) :
    Finds (attributesText attributes).toList (escapedAttributes attributes) := by
  induction attributes with
  | nil => exact unquoted (by simp [attributesText])
  | cons pair attributes ih =>
    obtain ⟨key, value⟩ := pair
    obtain ⟨hkey, hrest⟩ := List.forall_mem_cons.1 h
    have htext : (attributesText ((key, value) :: attributes)).toList =
        (' ' :: key.toList ++ '=' :: '"' :: (escape value).toList ++ ['"']) ++
          (attributesText attributes).toList := by
      rw [toList_attributesText_cons]
      simp
    rw [htext]
    exact (Finds.pair hkey value).append (ih hrest)

/-- What is put together is read back. -/
theorem quotedAttributes {written : String} (h : Finds written.toList as) :
    quotedAttributes written = as := by
  obtain ⟨after, hafter, hfound⟩ := h [] List.not_mem_nil
  have hall := hfound []
  have hnone : attributesOf after = [] := by
    rw [attributesOf, splitAt_of_not_mem hafter]
    rfl
  rw [List.append_nil, List.append_nil, hnone, List.append_nil] at hall
  exact hall

end Finds

theorem finds_startTag {name : String} {attributes : Attributes} (hname : (nameOf? name).isSome)
    (h : ∀ pair ∈ attributes, (nameOf? pair.1).isSome) {ending : List Char}
    (hending : '"' ∉ ending) :
    Finds ('<' :: startTag name attributes ending) (escapedAttributes attributes) := by
  have hopen : Finds ('<' :: name.toList) [] := by
    apply Finds.unquoted
    simp [not_mem_of_nameOf? hname (show isNameChar '"' = false by decide)]
  have hstart := (hopen.append (.attributes h)).append (.unquoted hending)
  rwa [List.nil_append, List.append_nil, List.cons_append, List.cons_append] at hstart

mutual

theorem finds_render : (m : Markup) → m.WellNamed →
    Finds m.render.toList (escapedAttributes m.attributes)
  | .leaf name attributes, h => by
    rw [toList_render_leaf]
    exact finds_startTag h.1 h.2 (by decide)
  | .element name attributes content, h => by
    have hstart := finds_startTag h.1 h.2.1 (show '"' ∉ ['>'] by decide)
    have hfinish : Finds ('<' :: '/' :: name.toList ++ ['>']) [] := by
      apply Finds.unquoted
      simp [not_mem_of_nameOf? h.1 (show isNameChar '"' = false by decide)]
    have hall := (hstart.append (finds_renderAll content h.2.2)).append hfinish
    rw [List.append_nil] at hall
    rw [toList_render_element, Markup.attributes, escapedAttributes_append]
    simpa [startTag] using hall
  | .text value, _ => by
    rw [toList_render_text]
    exact .unquoted (not_mem_escaped (by simp) _)

theorem finds_renderAll : (ms : List Markup) → WellNamedContent ms →
    Finds (renderAll ms).toList (escapedAttributes (contentAttributes ms))
  | [], _ => .unquoted List.not_mem_nil
  | m :: ms, h => by
    rw [toList_renderAll_cons, contentAttributes, escapedAttributes_append]
    exact (finds_render m h.1).append (finds_renderAll ms h.2)

end

/-- The attributes of written markup are those that were written, with their values escaped. -/
theorem quotedAttributes_render {m : Markup} (h : m.WellNamed) :
    quotedAttributes m.render = escapedAttributes m.attributes :=
  (finds_render m h).quotedAttributes

example : quotedAttributes "<a x=\"1\"><b y=\"&lt;\" z=\"\"/>=y</a>" =
    [("x", "1"), ("y", "&lt;"), ("z", "")] := by decide

end ProgramDiagram.Xml
