import ProgramDiagram.Proofs.Xml.Plain
import ProgramDiagram.Proofs.Xml.Rewritten

/-!
# Trees that stay as they are

* `Tree.Settled`: names and values are read as they are written, and text stands alone;
* `laidOut_again`: such a tree is laid out in the same way again after it has been read, however it
  has been laid out before;
* `layOut?_settled`: so for such a document one layout can be made of the other;
* `settled_tree`: what is read of markup without prefixes is such a tree.
-/

namespace ProgramDiagram.Xml

/-- An element whose names and values are read as they are written, and that holds no other text
than one that stays. -/
structure Element.Settled (outer : Scope) (e : Element) : Prop where
  again : Scope.again outer outer e.scope = e.scope
  declared : e.scope.WellDeclared
  name : e.name.again = e.name
  keys : ∀ a ∈ e.attributes, e.scope.keyAgain a.1 = a.1
  values : ∀ a ∈ e.attributes, readValue a.2 = a.2
  text : holdsText e.content →
    ∃ value, e.content = [.text value] ∧ readText value.toList = value

/-- A tree with such elements only. -/
def Tree.Settled (outer : Scope) (tree : Tree) : Prop :=
  tree.Every Element.Settled (fun _ => True) outer

def SettledContent (scope : Scope) (content : List Tree) : Prop :=
  ContentEvery Element.Settled (fun _ => True) scope content

/-! ## Layout -/

theorem isBlank_gapText (depth? : Option Nat) : (gapText depth?).all isBlank := by
  cases depth? with
  | none => rfl
  | some depth =>
    have hfirst : isBlank '\n' ∧ isBlank ' ' := by decide
    rw [gapText, List.all_cons, List.all_replicate, hfirst.1, hfirst.2]
    simp

theorem holdsText_runTexts {run : List Char} (h : run.all isBlank) :
    holdsText (runTexts run) = false := by
  have hread : allBlank (readText run) := by
    rw [allBlank, readText, String.toList_ofList, all_textAgain (by decide) (by decide)]
    exact h
  rw [runTexts]
  split
  · rfl
  · simp [holdsText, Tree.isContent, hread]

theorem any_isElement_runTexts (run : List Char) : (runTexts run).any Tree.isElement = false := by
  rw [runTexts]
  split <;> rfl

/-- What is read between elements that are laid out is no text, but the elements are read. -/
theorem contentAgain_layout (scope scope' : Scope) (depth? : Option Nat) {last : List Char}
    (hlast : last.all isBlank) (content : List Tree) :
    holdsText (contentAgain scope scope' depth? false last [] content) = false ∧
      (contentAgain scope scope' depth? false last [] content).any Tree.isElement
        = content.any Tree.isElement := by
  induction content with
  | nil =>
    rw [contentAgain, List.nil_append]
    exact ⟨holdsText_runTexts hlast, any_isElement_runTexts last⟩
  | cons tree rest ih =>
    cases tree with
    | text value =>
      rw [contentAgain]
      exact ih
    | element name inner attributes content =>
      have hgap := holdsText_runTexts (isBlank_gapText depth?)
      rw [contentAgain_cons rfl, List.nil_append]
      constructor
      · rw [holdsText, List.any_append, ← holdsText, hgap, List.any_cons, ← holdsText, ih.1]
        rfl
      · simp [Tree.again, Tree.isElement]

theorem laidOut_element {content : List Tree} (h : holdsText content = false) (outer : Scope)
    (depth? : Option Nat) (name : Name) (scope : Scope) (attributes : List (Name × String)) :
    laidOut outer depth? (.element name scope attributes content)
      = closedOrElement (scope.written name) (writtenAttributes outer scope attributes)
          (laidOutContent scope (depth?.map (· + 1)) false content
            ++ gap (if content.any Tree.isElement then depth? else none)) := by
  rw [laidOut, innerDepth, closingDepth, h]
  cases content.any Tree.isElement <;> rfl

theorem laidOutContent_append (scope : Scope) (depth? : Option Nat) (keepTexts : Bool)
    (as bs : List Tree) :
    laidOutContent scope depth? keepTexts (as ++ bs)
      = laidOutContent scope depth? keepTexts as ++ laidOutContent scope depth? keepTexts bs := by
  induction as with
  | nil => rfl
  | cons a as ih =>
    rw [List.cons_append, laidOutContent, laidOutContent, ih]
    split
    · simp
    · rfl

theorem laidOutContent_runTexts (scope : Scope) (depth? : Option Nat) (run : List Char) :
    laidOutContent scope depth? false (runTexts run) = [] := by
  rw [runTexts]
  split <;> rfl

mutual

theorem laidOut_again (outer : Scope) (depth? depth'? : Option Nat) : (tree : Tree) →
    tree.Settled outer → tree.isElement →
    laidOut outer depth? (tree.again outer outer depth'?) = laidOut outer depth? tree
  | .element name scope attributes content, h, _ => by
    obtain ⟨helement, hcontent⟩ := h
    have hattributes : attributes.map (fun a => (scope.keyAgain a.1, readValue a.2)) = attributes :=
      (List.map_congr_left fun a ha =>
        Prod.ext (helement.keys a ha) (helement.values a ha)).trans (List.map_id attributes)
    have hscope : Scope.again outer outer scope = scope := helement.again
    have hname : name.again = name := helement.name
    rw [Tree.again, hscope, hname, hattributes]
    by_cases htext : holdsText content
    · obtain ⟨value, rfl, hvalue⟩ := helement.text htext
      have hnone : innerDepth depth'? [.text value] = none ∧
          closingDepth depth'? [.text value] = none := by simp [innerDepth, closingDepth, htext]
      have hsame : contentAgain scope scope none true [] [] [.text value] = [.text value] := by
        have hempty : value.toList.isEmpty = false := by
          rw [← Bool.not_eq_true, List.isEmpty_iff]
          intro hnil
          simp [holdsText, Tree.isContent, allBlank, hnil] at htext
        simp [contentAgain, gapText, runTexts, hempty, hvalue]
      rw [hnone.1, hnone.2, htext, gapText, hsame]
    · rw [Bool.not_eq_true] at htext
      obtain ⟨hnone, hany⟩ := contentAgain_layout scope scope (innerDepth depth'? content)
        (isBlank_gapText (closingDepth depth'? content)) content
      rw [htext, laidOut_element hnone, laidOut_element htext, hany,
        laidOutContent_again scope _ _ _ content hcontent]
  | .text _, _, h => by cases h

theorem laidOutContent_again (scope : Scope) (depth? depth'? : Option Nat) (last : List Char) :
    (content : List Tree) → SettledContent scope content →
    laidOutContent scope depth? false (contentAgain scope scope depth'? false last [] content)
      = laidOutContent scope depth? false content
  | [], _ => by rw [contentAgain, laidOutContent_runTexts]; rfl
  | .text value :: rest, h => by
    rw [contentAgain, laidOutContent]
    exact laidOutContent_again scope depth? depth'? last rest h.2
  | .element name inner attributes content :: rest, h => by
    rw [contentAgain_cons rfl, laidOutContent_append, laidOutContent_runTexts, List.nil_append,
      laidOutContent, laidOutContent, laidOutContent_again scope depth? depth'? last rest h.2,
      laidOut_again scope depth? depth'? _ h.1 rfl]
    rfl

end

/-- Of a settled document each layout can be made of the other and stays as it is. -/
theorem layOut?_settled {text : String} {root : Tree} (hroot : readDocument? text = some root)
    (h : root.Settled []) {first? second? : String → Option String}
    (hfirst : first? ∈ [minify?, prettyPrint?]) (hsecond : second? ∈ [minify?, prettyPrint?]) :
    ∃ out, first? text = some out ∧ second? out = second? text := by
  obtain ⟨depth?, spaces, hspaces, hfirst⟩ := layOut?_eq hfirst
  obtain ⟨depth'?, spaces', -, hsecond⟩ := layOut?_eq hsecond
  obtain ⟨hsound, helement⟩ := sound_of_readDocument? hroot
  have hwell : ∀ e ∈ root.elements, e.scope.WellDeclared := by
    intro e he
    obtain ⟨around, hsettled⟩ := Tree.Every.elements root h e he
    exact hsettled.declared
  have hdistinct : ∀ e ∈ root.elements, e.Distinct := by
    intro e he
    obtain ⟨around, hsettled⟩ := Tree.Every.elements root h e he
    obtain ⟨around', hsound⟩ := Tree.Every.elements root hsound e he
    rw [Element.Distinct, List.map_congr_left hsettled.keys]
    exact hsound.nodup
  have hagain := readDocument?_laidOut ⟨hsound, helement⟩ hwell depth? hspaces
  rw [if_pos hdistinct] at hagain
  refine ⟨_, hfirst text root hroot, ?_⟩
  rw [hsecond _ _ hagain, hsecond text root hroot, laidOut_again [] depth'? depth? root h helement]

/-! ## Markup without prefixes -/

theorem readValue_readValue (value : String) : readValue (readValue value) = readValue value := by
  rw [readValue_eq_self_iff, readValue, String.toList_ofList]
  exact isFlat_valueAgain value.toList

theorem readText_readText (run : List Char) : readText (readText run).toList = readText run := by
  rw [readText, readText, String.toList_ofList, textAgain_textAgain]

/-- A scope that is read as it is written, where nothing needs to be declared again. -/
structure Scope.Settled (scope : Scope) : Prop where
  again : Scope.again scope scope scope = scope
  declared : scope.WellDeclared
  default : ∀ space ∈ scope.lookup none, readValue space = space

theorem settled_plainElement {outer scope : Scope} (houter : Scope.again outer outer scope = scope)
    (hscope : scope.Settled) (name : String) (attributes : Attributes) {content : List Tree}
    (htext : holdsText content → ∃ value, content = [.text value] ∧ readText value.toList = value) :
    Element.Settled outer
      ⟨⟨scope.lookup none, name⟩, scope, plainAttributes attributes, content⟩ where
  again := houter
  declared := hscope.declared
  name := by
    have hspace : (scope.lookup none).map readValue = scope.lookup none := by
      cases h : scope.lookup none with
      | none => rfl
      | some space => exact congrArg some (hscope.default space h)
    rw [Name.again, hspace]
  keys := by
    intro a ha
    obtain ⟨pair, -, rfl⟩ := List.mem_map.1 ha
    rfl
  values := by
    intro a ha
    obtain ⟨pair, -, rfl⟩ := List.mem_map.1 ha
    exact readValue_readValue pair.2
  text := htext

theorem holdsText_contentTrees (scope : Scope) {content : List Markup}
    (h : ∀ m ∈ content, m.isText = false) : holdsText (contentTrees scope content) = false := by
  induction content with
  | nil => rfl
  | cons m rest ih =>
    obtain ⟨htext, hrest⟩ := List.forall_mem_cons.1 h
    cases m with
    | leaf | element => exact ih hrest
    | text => cases htext

theorem textAlone_contentTrees (scope : Scope) {content : List Markup} (h : TextAlone content) :
    holdsText (contentTrees scope content) →
      ∃ value, contentTrees scope content = [.text value] ∧ readText value.toList = value := by
  intro htext
  obtain ⟨value, rfl⟩ | hnone := h
  · rw [contentTrees, contentTrees] at htext ⊢
    split at htext
    · cases htext
    · exact ⟨_, if_neg ‹_›, readText_readText value.toList⟩
  · rw [holdsText_contentTrees scope hnone] at htext
    cases htext

mutual

theorem settled_tree {scope : Scope} (hscope : scope.Settled) : (m : Markup) → m.Plain →
    (m.tree scope).Settled scope
  | .leaf name attributes, _ =>
    ⟨settled_plainElement hscope.again hscope name attributes (fun h => nomatch h), trivial⟩
  | .element name attributes content, h =>
    ⟨settled_plainElement hscope.again hscope name attributes
      (textAlone_contentTrees scope h.2.1), settled_contentTrees hscope content h.2.2⟩
  | .text _, _ => trivial

theorem settled_contentTrees {scope : Scope} (hscope : scope.Settled) : (ms : List Markup) →
    PlainContent ms → SettledContent scope (contentTrees scope ms)
  | [], _ => trivial
  | m :: rest, h => by
    have hrest := settled_contentTrees hscope rest h.2
    rw [contentTrees]
    split
    · exact hrest
    · exact ⟨settled_tree hscope m h.1, hrest⟩

end

end ProgramDiagram.Xml
