import ProgramDiagram.Proofs.Xml.Rewritten

/-!
# Content of what is laid out

* `KeepsContent`: a document that is laid out is a document again, with the same attribute values
  and with the same characters in each element that holds text;
* `keepsContent_iff`: which documents keep their content. Tabs and line ends are written as they
  are, so that they are not read again, and what counts as layout in an element is dropped even
  where text is around it.
-/

namespace ProgramDiagram.Xml

/-- The values of an element stay, and the characters in it if it holds text. -/
def Element.ContentKept (e e' : Element) : Prop :=
  e'.values = e.values ∧
    (holdsText e.content → contentCharacters e'.content = contentCharacters e.content)

instance : DecidableRel Element.ContentKept := fun _ _ => inferInstanceAs (Decidable (_ ∧ _))

/-- Laying a document out gives a document that keeps the content of each element. -/
def KeepsContent (layOut? : String → Option String) (text : String) : Prop :=
  ∃ root out root', readDocument? text = some root ∧ layOut? text = some out ∧
    readDocument? out = some root' ∧
    List.Forall₂ Element.ContentKept root.elements root'.elements

/-! ## Runs of text -/

/-- The runs of text between the elements of some content, behind a run. -/
def textRuns (run : List Char) : List Tree → List (List Char)
  | [] => [run]
  | .text value :: rest => textRuns (run ++ value.toList) rest
  | .element .. :: rest => run :: textRuns [] rest

/-- Whether a run of text stays, in an element that holds text or in one that does not. -/
def RunKept (keepTexts : Bool) (run : List Char) : Prop :=
  if keepTexts then ReturnsKept false run else run = []

/-- Whether the text in an element stays, without that of the elements in it. -/
def Element.TextKept (e : Element) : Prop :=
  ∀ run ∈ textRuns [] e.content, RunKept (holdsText e.content) run

/-- What is written of a run of text. -/
def writtenRun (keepTexts : Bool) (run : List Char) : List Char := if keepTexts then run else []

theorem length_textAgain_writtenRun (keepTexts : Bool) (run : List Char) :
    (textAgain false (writtenRun keepTexts run)).length ≤ run.length := by
  cases keepTexts with
  | true => exact length_textAgain_le false run
  | false => exact Nat.zero_le _

theorem textAgain_writtenRun_iff {keepTexts : Bool} {run : List Char} :
    textAgain false (writtenRun keepTexts run) = run ↔ RunKept keepTexts run := by
  cases keepTexts with
  | true => exact textAgain_eq_self_iff
  | false => exact eq_comm

instance (keepTexts : Bool) : DecidablePred (RunKept keepTexts) := fun _ =>
  decidable_of_iff _ textAgain_writtenRun_iff

instance : DecidablePred Element.TextKept := fun _ =>
  inferInstanceAs (Decidable (∀ _ ∈ _, RunKept _ _))

theorem characters_runTexts (run : List Char) :
    contentCharacters (runTexts run) = textAgain false run := by
  rw [runTexts]
  split
  · rename_i hempty
    rw [List.isEmpty_iff.1 hempty]
    rfl
  · simp [contentCharacters, Tree.characters, readText]

/-! ## Characters -/

theorem innerDepth_none (content : List Tree) : innerDepth none content = none := by
  simp [innerDepth]

theorem closingDepth_none (content : List Tree) : closingDepth none content = none := by
  simp [closingDepth]

theorem characters_again_element (outer outer' : Scope) (name : Name) (scope : Scope)
    (attributes : List (Name × String)) (content : List Tree) :
    ((Tree.element name scope attributes content).again outer outer' none).characters
      = contentCharacters (contentAgain scope (Scope.again outer outer' scope) none
          (holdsText content) [] (writtenRun (holdsText content) []) content) := by
  have hrun : ∀ keepTexts, writtenRun keepTexts [] = [] := by
    intro keepTexts
    cases keepTexts <;> rfl
  rw [Tree.again, Tree.characters, innerDepth_none, closingDepth_none, gapText, hrun]

theorem contentCharacters_cons (scope scope' : Scope) (keepTexts : Bool) (run : List Char)
    {tree : Tree} (h : tree.isElement) (rest : List Tree) :
    contentCharacters (contentAgain scope scope' none keepTexts [] (writtenRun keepTexts run)
        (tree :: rest))
      = textAgain false (writtenRun keepTexts run) ++ ((tree.again scope scope' none).characters
          ++ contentCharacters (contentAgain scope scope' none keepTexts []
              (writtenRun keepTexts []) rest)) := by
  have hrun : writtenRun keepTexts [] = [] := by cases keepTexts <;> rfl
  rw [contentAgain_cons h, contentCharacters_append, gapText, List.append_nil, characters_runTexts,
    contentCharacters, hrun]

theorem contentAgain_text (scope scope' : Scope) (keepTexts : Bool) (run : List Char)
    (value : String) (rest : List Tree) :
    contentAgain scope scope' none keepTexts [] (writtenRun keepTexts run) (.text value :: rest)
      = contentAgain scope scope' none keepTexts []
          (writtenRun keepTexts (run ++ value.toList)) rest := by
  rw [contentAgain]
  cases keepTexts <;> simp [writtenRun, gapText]

mutual

theorem length_characters_again (outer outer' : Scope) : (tree : Tree) → tree.isElement →
    (tree.again outer outer' none).characters.length ≤ tree.characters.length
  | .element name scope attributes content, _ => by
    rw [characters_again_element, Tree.characters]
    exact length_contentAgain scope _ (holdsText content) [] content
  | .text _, h => by cases h

/-- Laying out without lines brings no characters in. -/
theorem length_contentAgain (scope scope' : Scope) (keepTexts : Bool) (run : List Char) :
    (content : List Tree) →
    (contentCharacters (contentAgain scope scope' none keepTexts [] (writtenRun keepTexts run)
      content)).length ≤ (run ++ contentCharacters content).length
  | [] => by
    rw [contentAgain, List.append_nil, characters_runTexts, contentCharacters, List.append_nil]
    exact length_textAgain_writtenRun keepTexts run
  | .text value :: rest => by
    rw [contentAgain_text, contentCharacters, Tree.characters, ← List.append_assoc]
    exact length_contentAgain scope scope' keepTexts (run ++ value.toList) rest
  | .element name inner attributes content :: rest => by
    have hrun := length_textAgain_writtenRun keepTexts run
    have htree := length_characters_again scope scope' (.element name inner attributes content) rfl
    have hrest := length_contentAgain scope scope' keepTexts [] rest
    rw [List.nil_append] at hrest
    rw [contentCharacters_cons _ _ _ _ rfl, contentCharacters]
    simp only [List.length_append]
    omega

end

/-- Texts put together that are not longer than others are the same just if each of them is. -/
theorem append_eq_append_iff_of_le {a b c d : List Char} (hac : a.length ≤ c.length)
    (hbd : b.length ≤ d.length) : a ++ b = c ++ d ↔ a = c ∧ b = d := by
  refine ⟨fun h => List.append_inj h ?_, fun ⟨hac, hbd⟩ => by rw [hac, hbd]⟩
  have hlength := congrArg List.length h
  simp only [List.length_append] at hlength
  omega

mutual

/-- An element keeps its characters just if each element in it keeps its text. -/
theorem characters_again_iff (outer outer' : Scope) : (tree : Tree) → tree.isElement →
    ((tree.again outer outer' none).characters = tree.characters ↔
      ∀ e ∈ tree.elements, e.TextKept)
  | .element name scope attributes content, _ => by
    have hcontent := contentCharacters_again_iff scope (Scope.again outer outer' scope)
      (holdsText content) [] content
    rw [characters_again_element, Tree.characters, Tree.elements, List.forall_mem_cons]
    exact hcontent
  | .text _, h => by cases h

theorem contentCharacters_again_iff (scope scope' : Scope) (keepTexts : Bool) (run : List Char) :
    (content : List Tree) →
    (contentCharacters (contentAgain scope scope' none keepTexts [] (writtenRun keepTexts run)
        content) = run ++ contentCharacters content ↔
      (∀ r ∈ textRuns run content, RunKept keepTexts r) ∧
        ∀ e ∈ contentElements content, e.TextKept)
  | [] => by
    rw [contentAgain, List.append_nil, characters_runTexts, contentCharacters, List.append_nil,
      textAgain_writtenRun_iff]
    simp [textRuns, contentElements]
  | .text value :: rest => by
    rw [contentAgain_text, contentCharacters, Tree.characters, ← List.append_assoc, textRuns,
      contentElements, Tree.elements, List.nil_append]
    exact contentCharacters_again_iff scope scope' keepTexts (run ++ value.toList) rest
  | .element name inner attributes content :: rest => by
    have hrun := length_textAgain_writtenRun keepTexts run
    have htree := length_characters_again scope scope' (.element name inner attributes content) rfl
    have hrest := length_contentAgain scope scope' keepTexts [] rest
    have hown := characters_again_iff scope scope' (.element name inner attributes content) rfl
    have hothers := contentCharacters_again_iff scope scope' keepTexts [] rest
    rw [List.nil_append] at hrest hothers
    -- no part gets longer, so the whole stays only if each of its parts does
    rw [contentCharacters_cons _ _ _ _ rfl, contentCharacters, append_eq_append_iff_of_le hrun,
      append_eq_append_iff_of_le htree hrest, textAgain_writtenRun_iff, hown, hothers, textRuns,
      contentElements, List.forall_mem_cons, List.forall_mem_append]
    · tauto
    · simp only [List.length_append]
      omega

end

/-! ## Elements -/

/-- An element that is read of another: its values are read of values, and if the other holds text
its content is read of content without lines. -/
def Element.ReadOf (e e' : Element) : Prop :=
  e'.values = e.values.map readValue ∧ (holdsText e.content →
    ∃ scope', e'.content = contentAgain e.scope scope' none true [] [] e.content)

mutual

theorem elements_again (outer outer' : Scope) (depth? : Option Nat) : (tree : Tree) →
    List.Forall₂ Element.ReadOf tree.elements (tree.again outer outer' depth?).elements
  | .element name scope attributes content => by
    rw [Tree.again, Tree.elements, Tree.elements]
    refine .cons ⟨?_, fun htext => ?_⟩ (elements_contentAgain ..)
    · simp [Element.values]
    · refine ⟨Scope.again outer outer' scope, ?_⟩
      simp only [innerDepth, closingDepth, htext, Bool.true_or, if_true, gapText]
  | .text _ => .nil

theorem elements_contentAgain (scope scope' : Scope) (depth? : Option Nat) (keepTexts : Bool)
    (last run : List Char) : (content : List Tree) →
    List.Forall₂ Element.ReadOf (contentElements content)
      (contentElements (contentAgain scope scope' depth? keepTexts last run content))
  | [] => by rw [contentAgain, contentElements_runTexts]; exact .nil
  | .text value :: rest => by
    rw [contentAgain, contentElements, Tree.elements, List.nil_append]
    exact elements_contentAgain ..
  | .element name inner attributes content :: rest => by
    rw [contentAgain_cons rfl, contentElements_append, contentElements_runTexts, List.nil_append,
      contentElements, contentElements]
    exact List.rel_append (elements_again ..) (elements_contentAgain ..)

end

/-- The elements whose content stays: values have no tabs and no line ends, and where an element
holds text, that text stays and so does the text of all elements in it. -/
def Element.ContentStays (e : Element) : Prop :=
  (∀ value ∈ e.values, isFlat value.toList) ∧
    (holdsText e.content → e.TextKept ∧ ∀ inner ∈ contentElements e.content, inner.TextKept)

instance : DecidablePred Element.ContentStays := fun _ => inferInstanceAs (Decidable (_ ∧ _))

theorem contentKept_iff {e e' : Element} (h : e.ReadOf e') : e.ContentKept e' ↔ e.ContentStays := by
  have hvalues : e'.values = e.values ↔ ∀ value ∈ e.values, isFlat value.toList := by
    calc e'.values = e.values
        ↔ e.values.map readValue = e.values.map id := by rw [h.1, List.map_id]
      _ ↔ _ := by simp only [List.map_inj_left, id, readValue_eq_self_iff]
  rw [Element.ContentKept, hvalues, Element.ContentStays]
  refine and_congr_right fun _ => imp_congr_right fun htext => ?_
  obtain ⟨scope', hcontent⟩ := h.2 htext
  have hiff := contentCharacters_again_iff e.scope scope' true [] e.content
  rw [hcontent, Element.TextKept, htext]
  exact hiff

theorem forall₂_iff_of_forall₂ {α β : Type} {R Q : α → β → Prop} {P : α → Prop} {as : List α}
    {bs : List β} (h : List.Forall₂ R as bs) (hiff : ∀ a b, R a b → (Q a b ↔ P a)) :
    List.Forall₂ Q as bs ↔ ∀ a ∈ as, P a := by
  induction h with
  | nil => simp
  | cons hab _ ih => rw [List.forall₂_cons, hiff _ _ hab, ih, List.forall_mem_cons]

/-- Laying a document out keeps its content if and only if no two attributes of an element get the
same name and the content of each element stays. -/
theorem keepsContent_iff {text : String} {root : Tree} (hroot : readDocument? text = some root)
    (hwell : ∀ e ∈ root.elements, e.scope.WellDeclared) {layOut? : String → Option String}
    (h : layOut? ∈ [minify?, prettyPrint?]) :
    KeepsContent layOut? text ↔ ∀ e ∈ root.elements, e.Distinct ∧ e.ContentStays := by
  obtain ⟨depth?, spaces, hspaces, hlayOut⟩ := layOut?_eq h
  have hread := readDocument?_laidOut (sound_of_readDocument? hroot) hwell depth? hspaces
  have hcontent : List.Forall₂ Element.ContentKept root.elements
      (root.again [] [] depth?).elements ↔ ∀ e ∈ root.elements, e.ContentStays :=
    forall₂_iff_of_forall₂ (elements_again [] [] depth? root) fun _ _ => contentKept_iff
  constructor
  · rintro ⟨root₁, out, root', hroot₁, hout, hroot', hkept⟩
    obtain rfl := Option.some.inj (hroot.symm.trans hroot₁)
    obtain rfl := Option.some.inj ((hlayOut text root hroot).symm.trans hout)
    rw [hread, Option.ite_none_right_eq_some, Option.some.injEq] at hroot'
    obtain ⟨hdistinct, rfl⟩ := hroot'
    exact fun e he => ⟨hdistinct e he, hcontent.1 hkept e he⟩
  · intro hstays
    rw [if_pos fun e he => (hstays e he).1] at hread
    exact ⟨root, _, _, hroot, hlayOut text root hroot, hread,
      hcontent.2 fun e he => (hstays e he).2⟩

/-- Text with elements in it keeps its content, also if it has layout of its own. -/
theorem keepsContent_iff_mixed :
    let text := "<p>one <b>two</b>\n <!-- --><i/></p>"
    ∃ root, readDocument? text = some root ∧ (∀ e ∈ root.elements, e.scope.WellDeclared) ∧
      prettyPrint? ∈ [minify?, prettyPrint?] ∧ KeepsContent prettyPrint? text := by
  intro text
  have hsome : (readDocument? text).isSome := by decide +kernel
  have hwell : ∀ root ∈ readDocument? text, ∀ e ∈ root.elements, e.scope.WellDeclared := by
    decide +kernel
  have hstays : ∀ root ∈ readDocument? text, ∀ e ∈ root.elements, e.Distinct ∧ e.ContentStays := by
    decide +kernel
  have hmem : prettyPrint? ∈ [minify?, prettyPrint?] := by simp
  obtain ⟨root, hroot⟩ := Option.isSome_iff_exists.1 hsome
  exact ⟨root, hroot, hwell root hroot, hmem,
    (keepsContent_iff hroot (hwell root hroot) hmem).2 (hstays root hroot)⟩

theorem not_keepsContent {layOut? : String → Option String} {text out : String}
    (hout : layOut? text = some out)
    (hlost : ∀ root ∈ readDocument? text, ∀ root' ∈ readDocument? out,
      ¬ List.Forall₂ Element.ContentKept root.elements root'.elements) :
    ¬ KeepsContent layOut? text := by
  rintro ⟨root, out', root', hroot, hout', hroot', hkept⟩
  obtain rfl := Option.some.inj (hout.symm.trans hout')
  exact hlost root hroot root' hroot' hkept

/-- White space in an element is dropped even if there is text around the element. A carriage return
in text and a line feed in a value are written as they are, and read as a line feed and a space. -/
theorem not_keepsContent_inner :
    let text := "<a>x<b> </b>y</a>"
    let out := "<a>x<b/>y</a>\n"
    (readDocument? text).map Tree.characters = some "x y".toList ∧ prettyPrint? text = some out ∧
      (readDocument? out).map Tree.characters = some "xy".toList ∧
      ¬ KeepsContent prettyPrint? text ∧
      ¬ KeepsContent prettyPrint? "<a>x&#13;y</a>" ∧
      ¬ KeepsContent prettyPrint? "<a b=\"1&#10;2\"/>" := by
  intro text out
  have hbefore : (readDocument? text).map Tree.characters = some "x y".toList := by decide +kernel
  have hout : prettyPrint? text = some out := by decide +kernel
  have hafter : (readDocument? out).map Tree.characters = some "xy".toList := by decide +kernel
  have hreturn : prettyPrint? "<a>x&#13;y</a>" = some "<a>x\ry</a>\n" := by decide +kernel
  have hfeed : prettyPrint? "<a b=\"1&#10;2\"/>" = some "<a b=\"1\n2\"/>\n" := by decide +kernel
  refine ⟨hbefore, hout, hafter, not_keepsContent hout ?_, not_keepsContent hreturn ?_,
    not_keepsContent hfeed ?_⟩
  · decide +kernel
  · decide +kernel
  · decide +kernel

end ProgramDiagram.Xml
