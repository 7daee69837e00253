import ProgramDiagram.Proofs.Xml.Escaped
import ProgramDiagram.Xml.Markup
import ProgramDiagram.Xml.Token

/-!
# Reading written tags

* `nameOf?`: the qualified name that a name in a tag stands for;
* `token?_start`, `token?_finish`: a written tag is read as one token, unless a value has a
  character that no document may have;
* `token?_text`: so is written text.
-/

namespace ProgramDiagram.Xml

/-! ## Written forms -/

theorem toList_attributesText_cons (name value : String) (attributes : Attributes) :
    (attributesText ((name, value) :: attributes)).toList
      = ' ' :: name.toList ++ '=' :: '"' :: (escape value).toList
        ++ '"' :: (attributesText attributes).toList := by
  simp [attributesText, String.toList_join]

/-- The characters of a tag up to its end, without the `<`. -/
def startTag (name : String) (attributes : Attributes) (ending : List Char) : List Char :=
  name.toList ++ (attributesText attributes).toList ++ ending

theorem toList_renderAll_cons (m : Markup) (ms : List Markup) :
    (renderAll (m :: ms)).toList = m.render.toList ++ (renderAll ms).toList := by
  simp [renderAll, Markup.render, contentPieces, String.toList_join]

theorem toList_renderAll_nil : (renderAll []).toList = [] := rfl

theorem toList_render_leaf (name : String) (attributes : Attributes) :
    (Markup.leaf name attributes).render.toList = '<' :: startTag name attributes ['/', '>'] := by
  simp [Markup.render, Markup.pieces, startTag]

theorem toList_render_element (name : String) (attributes : Attributes)
    (content : List Markup) :
    (Markup.element name attributes content).render.toList
      = '<' :: startTag name attributes ('>' :: (renderAll content).toList)
        ++ ('<' :: '/' :: name.toList ++ ['>']) := by
  simp [Markup.render, Markup.pieces, startTag, String.toList_join, renderAll]

theorem toList_render_text (value : String) :
    (Markup.text value).render.toList = escaped value.toList := by
  simp [Markup.render, Markup.pieces, toList_escape]

/-! ## Names -/

/-- The qualified name that a name in a tag stands for. -/
def nameOf? (written : String) : Option QName :=
  if written.toList.all isNameChar then QName.ofRun? written.toList else none

theorem startsName_of_nameOf? {written : String} {name : QName} (h : nameOf? written = some name) :
    startsName written.toList := by
  rw [nameOf?] at h
  split at h
  · cases hw : written.toList with
    | nil => simp [hw, QName.ofRun?, startsName] at h
    | cons c cs =>
      by_cases hcolon : c = ':'
      · simp [hcolon, startsName, isNameStart]
      · rw [hw, QName.ofRun?, List.takeWhile_cons_of_pos (by simpa using hcolon)] at h
        split at h
        · split at h
          · assumption
          · cases h
        · split at h
          · rename_i hstart
            simp only [List.isEmpty_cons, Bool.false_or, Bool.and_eq_true] at hstart
            exact hstart.1.1
          · cases h
  · cases h

theorem qname?_written {written : String} {name : QName} (h : nameOf? written = some name)
    {rest : List Char} (hrest : ∀ c ∈ rest.head?, isNameChar c = false) :
    qname? (written.toList ++ rest) = some (name, rest) := by
  rw [nameOf?] at h
  split at h
  · rename_i hall
    have hinside : ∀ c ∈ written.toList, isNameChar c = true := List.all_eq_true.1 hall
    have hstop : rest.takeWhile isNameChar = [] ∧ rest.dropWhile isNameChar = rest := by
      cases rest with
      | nil => exact ⟨rfl, rfl⟩
      | cons c rest => simp [hrest c rfl]
    rw [qname?, List.takeWhile_append_of_pos hinside, List.dropWhile_append_of_pos hinside,
      hstop.1, hstop.2, List.append_nil, h]
    rfl
  · cases h

theorem ne_of_isNameStart {c d : Char} (h : isNameStart c) (hd : isNameStart d = false) :
    c ≠ d := by
  rintro rfl
  rw [h] at hd
  cases hd

theorem isSpace_of_isNameStart {c : Char} (h : isNameStart c) : isSpace c = false := by
  simp only [isSpace, Bool.or_eq_false_iff, decide_eq_false_iff_not]
  exact ⟨⟨⟨ne_of_isNameStart h (by decide), ne_of_isNameStart h (by decide)⟩,
    ne_of_isNameStart h (by decide)⟩, ne_of_isNameStart h (by decide)⟩

theorem skipSpaces_cons {c : Char} (h : isSpace c = false) (cs : List Char) :
    skipSpaces (c :: cs) = c :: cs := by
  rw [skipSpaces, List.dropWhile_cons_of_neg (by simp [h])]

theorem startsName_append {cs : List Char} (h : startsName cs) (rest : List Char) :
    startsName (cs ++ rest) := by
  cases cs with
  | nil => cases h
  | cons c cs => exact h

theorem skipSpaces_space {cs : List Char} (h : startsName cs) : skipSpaces (' ' :: cs) = cs := by
  cases cs with
  | nil => cases h
  | cons c cs =>
    have hspace : skipSpaces (' ' :: c :: cs) = skipSpaces (c :: cs) := rfl
    rw [hspace, skipSpaces_cons (isSpace_of_isNameStart h)]

/-! ## Attributes -/

/-- Whether a text has only characters that a document may have. -/
def isAllowed (text : String) : Bool := text.toList.all isDocumentChar

theorem isAllowed_ofList (cs : List Char) :
    isAllowed (String.ofList cs) = cs.all isDocumentChar := by
  rw [isAllowed, String.toList_ofList]

/-- The value that is read of a written one. -/
def readValue (value : String) : String := String.ofList (valueAgain value.toList)

theorem readValue_eq_self_iff {value : String} : readValue value = value ↔ isFlat value.toList := by
  rw [← valueAgain_eq_self_iff, readValue, ← String.toList_inj, String.toList_ofList]

/-- What is read of a written attribute. -/
def readAttribute? (pair : String × String) : Option (QName × String) :=
  if isAllowed pair.2 then (nameOf? pair.1).map fun name => (name, readValue pair.2) else none

/-- What is read of the attributes in a written tag. -/
def readAttributes? : Attributes → Option (List (QName × String))
  | [] => some []
  | pair :: rest => do
    let first ← readAttribute? pair
    let others ← readAttributes? rest
    some (first :: others)

theorem rawAttribute?_written {key : String} {name : QName} (h : nameOf? key = some name)
    (value : String) (rest : List Char) :
    rawAttribute? (key.toList ++ '=' :: '"' :: (escaped value.toList ++ '"' :: rest))
      = if isAllowed value then some (name, escaped value.toList, rest) else none := by
  let inside (c : Char) : Bool := c ≠ '"' && c ≠ '<'
  have hinside : ∀ c ∈ escaped value.toList, inside c = true := by
    intro c hc
    simp only [inside, Bool.and_eq_true, decide_eq_true_eq]
    constructor
    · rintro rfl
      exact not_mem_escaped (by simp) _ hc
    · rintro rfl
      exact not_mem_escaped (by simp) _ hc
  have hname : qname? (key.toList ++ '=' :: '"' :: (escaped value.toList ++ '"' :: rest))
      = some (name, '=' :: '"' :: (escaped value.toList ++ '"' :: rest)) := by
    refine qname?_written h fun c hc => ?_
    cases hc
    decide
  have htake : (escaped value.toList ++ '"' :: rest).takeWhile inside = escaped value.toList :=
    takeWhile_append_stop hinside (by decide) rest
  have hdrop : (escaped value.toList ++ '"' :: rest).dropWhile inside = '"' :: rest :=
    dropWhile_append_stop hinside (by decide) rest
  simp only [rawAttribute?, hname, Option.bind_eq_bind, Option.bind_some]
  rw [skipSpaces_cons (by decide)]
  simp only
  rw [skipSpaces_cons (by decide)]
  simp only [inside] at htake hdrop
  simp only [htake, hdrop, all_isDocumentChar_escaped]
  simp [isAllowed]

theorem attributes?_of_name {cs : List Char} (hspace : startsSpace cs)
    (hname : startsName (skipSpaces cs)) :
    attributes? cs = (rawAttribute? (skipSpaces cs)).bind fun (name, raw, rest) =>
      (pieces? raw).bind fun ps => (attributes? rest).map fun (others, closed, after) =>
        ((name, String.ofList (attributeValue ps)) :: others, closed, after) := by
  rw [attributes?]
  split
  · rename_i htail
    rw [htail] at hname
    exact absurd (show isNameStart '/' from hname) (by decide)
  · rename_i htail
    rw [htail] at hname
    exact absurd (show isNameStart '>' from hname) (by decide)
  · rw [hspace, Bool.not_true, if_neg Bool.false_ne_true]
    split
    · rename_i hraw
      rw [hraw]
      rfl
    · rename_i name raw rest hraw
      simp only [hraw, Option.bind_eq_bind, Option.bind_some]
      cases pieces? raw with
      | none => rfl
      | some ps => cases attributes? rest <;> rfl

/-- The end of a start tag. -/
def tagEnd (closed : Bool) : List Char := if closed then ['/', '>'] else ['>']

theorem attributes?_tagEnd (closed : Bool) (rest : List Char) :
    attributes? (tagEnd closed ++ rest) = some ([], closed, rest) := by
  cases closed with
  | false =>
    have hskip : skipSpaces ('>' :: rest) = '>' :: rest := skipSpaces_cons (by decide) _
    rw [tagEnd, if_neg Bool.false_ne_true, List.singleton_append, attributes?]
    simp [hskip]
  | true =>
    have hskip : skipSpaces ('/' :: '>' :: rest) = '/' :: '>' :: rest :=
      skipSpaces_cons (by decide) _
    rw [tagEnd, if_pos rfl, List.cons_append, List.singleton_append, attributes?]
    simp [hskip]

theorem attributes?_written {attributes : Attributes}
    (h : ∀ pair ∈ attributes, (nameOf? pair.1).isSome) (closed : Bool) (rest : List Char) :
    attributes? ((attributesText attributes).toList ++ (tagEnd closed ++ rest))
      = (readAttributes? attributes).map fun read => (read, closed, rest) := by
  induction attributes with
  | nil => exact attributes?_tagEnd closed rest
  | cons pair attributes ih =>
    obtain ⟨key, value⟩ := pair
    obtain ⟨hkey, hothers⟩ := List.forall_mem_cons.1 h
    obtain ⟨name, hname⟩ := Option.isSome_iff_exists.1 hkey
    let after := (attributesText attributes).toList ++ (tagEnd closed ++ rest)
    let own := key.toList ++ '=' :: '"' :: (escaped value.toList ++ '"' :: after)
    have htext : (attributesText ((key, value) :: attributes)).toList ++ (tagEnd closed ++ rest)
        = ' ' :: own := by
      rw [toList_attributesText_cons, toList_escape]
      simp [own, after]
    have hstart : startsName own := startsName_append (startsName_of_nameOf? hname) _
    have hskip : skipSpaces (' ' :: own) = own := skipSpaces_space hstart
    have hread : readAttributes? ((key, value) :: attributes)
        = (readAttribute? (key, value)).bind fun first =>
          (readAttributes? attributes).map (first :: ·) := by
      rw [readAttributes?]
      cases readAttribute? (key, value) <;> cases readAttributes? attributes <;> rfl
    have hname' : startsName (skipSpaces (' ' :: own)) := by
      rw [hskip]
      exact hstart
    rw [htext, attributes?_of_name rfl hname', hskip, rawAttribute?_written hname, hread,
      readAttribute?]
    by_cases hvalue : isAllowed value
    · simp only [hvalue, if_true, hname, Option.bind_some, Option.map_some, pieces?_escaped,
        attributeValue_written, after, ih hothers]
      cases readAttributes? attributes <;> rfl
    · simp only [hvalue, Bool.false_eq_true, if_false]
      rfl

/-- Attributes are refused for their values only. -/
theorem readAttributes?_map {ι : Type} {xs : List ι} {key value : ι → String} {name : ι → QName}
    (h : ∀ x ∈ xs, nameOf? (key x) = some (name x)) :
    readAttributes? (xs.map fun x => (key x, value x))
      = if xs.all fun x => isAllowed (value x) then
          some (xs.map fun x => (name x, readValue (value x)))
        else none := by
  induction xs with
  | nil => rfl
  | cons x xs ih =>
    obtain ⟨hx, hxs⟩ := List.forall_mem_cons.1 h
    rw [List.map_cons, readAttributes?, readAttribute?, hx, ih hxs, List.all_cons]
    by_cases hvalue : isAllowed (value x)
    · by_cases hvalues : xs.all fun x => isAllowed (value x) <;> simp [hvalue, hvalues]
    · simp [hvalue]

theorem readAttributes?_append {as bs : Attributes} {xs ys : List (QName × String)}
    (ha : readAttributes? as = some xs) (hb : readAttributes? bs = some ys) :
    readAttributes? (as ++ bs) = some (xs ++ ys) := by
  induction as generalizing xs with
  | nil =>
    obtain rfl := Option.some.inj ha
    exact hb
  | cons a as ih =>
    simp only [readAttributes?, Option.bind_eq_bind, Option.bind_eq_some_iff,
      Option.some.injEq] at ha
    obtain ⟨first, hfirst, others, hothers, rfl⟩ := ha
    simp [readAttributes?, hfirst, ih hothers]

/-! ## Tokens -/

theorem token?_start {name : String} {tag : QName} (h : nameOf? name = some tag)
    {attributes : Attributes} (hattributes : ∀ pair ∈ attributes, (nameOf? pair.1).isSome)
    (closed : Bool) (rest : List Char) :
    token? ('<' :: startTag name attributes (tagEnd closed ++ rest))
      = (readAttributes? attributes).map fun read => (.start tag read closed, rest) := by
  have hhead : ∀ c ∈ ((attributesText attributes).toList ++ (tagEnd closed ++ rest)).head?,
      isNameChar c = false := by
    intro c hc
    cases attributes with
    | nil => cases closed <;> (cases hc; decide)
    | cons pair attributes =>
      obtain ⟨key, value⟩ := pair
      rw [toList_attributesText_cons] at hc
      cases hc
      decide
  have hqname := qname?_written h hhead
  have hfirst := startsName_of_nameOf? h
  rw [startTag, List.append_assoc]
  cases hw : name.toList with
  | nil => rw [hw] at hfirst; cases hfirst
  | cons c cs =>
    rw [hw] at hqname hfirst
    have hslash : c ≠ '/' := ne_of_isNameStart hfirst (by decide)
    have hbang : c ≠ '!' := ne_of_isNameStart hfirst (by decide)
    have hquestion : c ≠ '?' := ne_of_isNameStart hfirst (by decide)
    rw [List.cons_append] at hqname ⊢
    rw [token?]
    · simp only [hqname, Option.bind_eq_bind, Option.bind_some,
        attributes?_written hattributes closed rest]
      cases readAttributes? attributes <;> rfl
    all_goals simp_all

theorem token?_finish {name : String} {tag : QName} (h : nameOf? name = some tag)
    (rest : List Char) :
    token? ('<' :: '/' :: (name.toList ++ '>' :: rest)) = some (.finish tag, rest) := by
  have hqname : qname? (name.toList ++ '>' :: rest) = some (tag, '>' :: rest) := by
    refine qname?_written h fun c hc => ?_
    cases hc
    decide
  have hskip : skipSpaces ('>' :: rest) = '>' :: rest := skipSpaces_cons (by decide) _
  simp only [token?, hqname, Option.bind_eq_bind, Option.bind_some, hskip]

theorem mem_of_occursIn {run cs : List Char} (h : occursIn run cs) {c : Char} (hc : c ∈ run) :
    c ∈ cs := by
  induction cs with
  | nil =>
    rw [occursIn, List.isEmpty_iff] at h
    rw [h] at hc
    exact hc
  | cons d cs ih =>
    rw [occursIn, Bool.or_eq_true] at h
    rcases h with h | h
    · exact (List.isPrefixOf_iff_prefix.1 h).subset hc
    · exact List.mem_cons_of_mem _ (ih h)

theorem token?_eq_text? {cs : List Char} (h : cs.head? ≠ some '<') : token? cs = text? cs := by
  cases cs with
  | nil => rfl
  | cons c cs =>
    have hne : c ≠ '<' := fun heq => h (congrArg some heq)
    rw [token?]
    all_goals simp [hne]

/-- Written text is read up to the next tag. -/
theorem token?_text {run : List Char} (h : run ≠ []) (rest : List Char) :
    token? (escaped run ++ '<' :: rest)
      = if run.all isDocumentChar then
          some (.text (String.ofList (textAgain false run)), '<' :: rest)
        else none := by
  have hinside : ∀ c ∈ escaped run, decide (c ≠ '<') = true :=
    ne_of_not_mem (not_mem_escaped (by simp) run)
  have htake : (escaped run ++ '<' :: rest).takeWhile (· ≠ '<') = escaped run :=
    takeWhile_append_stop hinside (by decide) rest
  have hdrop : (escaped run ++ '<' :: rest).dropWhile (· ≠ '<') = '<' :: rest :=
    dropWhile_append_stop hinside (by decide) rest
  have hnone : occursIn "]]>".toList (escaped run) = false := by
    rw [← Bool.not_eq_true]
    intro hoccurs
    exact not_mem_escaped (by simp) run (mem_of_occursIn hoccurs (c := '>') (by decide))
  have hempty : (escaped run).isEmpty = false := by
    simpa [escaped_eq_nil_iff] using h
  have hhead : (escaped run ++ '<' :: rest).head? ≠ some '<' := by
    cases hrun : escaped run with
    | nil => simp [hrun] at hempty
    | cons c cs => simpa using hinside c (by simp [hrun])
  rw [token?_eq_text? hhead]
  simp only [text?, htake, hdrop, hempty, hnone, pieces?_escaped, all_isDocumentChar_escaped,
    textValue_written, Option.bind_eq_bind, Option.bind_some, Bool.false_or, Bool.or_false]
  by_cases hall : run.all isDocumentChar <;> simp [hall]

end ProgramDiagram.Xml
