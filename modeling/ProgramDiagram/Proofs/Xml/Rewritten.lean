import ProgramDiagram.Proofs.Xml.Reading
import ProgramDiagram.Proofs.Xml.Sound
import ProgramDiagram.Xml.Layout

/-!
# Reading what is laid out

A tree is written with declarations and prefixes that are looked up anew. What is read of it can
differ from the tree, but each difference is one of names, of line ends or of layout.

* `laidOut`: compact and indented trees as one, by the depth if there is one;
* `Scope.again`, `Name.again`, `Scope.keyAgain`: what is read of scopes and names;
* `Tree.again`: what is read of a tree;
* `read?_laidOut`: just this is read, unless two attributes of an element get the same name.
-/

namespace ProgramDiagram.Xml

/-! ## Layouts -/

/-- The white space at the start of a line, if there are lines. -/
def gap : Option Nat → List Markup
  | none => []
  | some depth => [lineIndent depth]

/-- The depth of what an element holds. Around text there are no lines. -/
def innerDepth (depth? : Option Nat) (content : List Tree) : Option Nat :=
  if holdsText content then none else depth?.map (· + 1)

/-- The depth of an end tag that stands on a line of its own. -/
def closingDepth (depth? : Option Nat) (content : List Tree) : Option Nat :=
  if holdsText content || !content.any Tree.isElement then none else depth?

mutual

/-- A tree without lines or with each element on a line of its own. -/
def laidOut (outer : Scope) (depth? : Option Nat) : Tree → Markup
  | .text value => .text value
  | .element name scope attributes content =>
    closedOrElement (scope.written name) (writtenAttributes outer scope attributes)
      (laidOutContent scope (innerDepth depth? content) (holdsText content) content
        ++ gap (closingDepth depth? content))

/-- The content of an element. -/
def laidOutContent (scope : Scope) (depth? : Option Nat) (keepTexts : Bool) :
    List Tree → List Markup
  | [] => []
  | tree :: rest =>
    if tree.isElement || keepTexts then
      gap depth? ++ laidOut scope depth? tree :: laidOutContent scope depth? keepTexts rest
    else laidOutContent scope depth? keepTexts rest

end

mutual

theorem compact_eq (outer : Scope) : (tree : Tree) → compact outer tree = laidOut outer none tree
  | .text _ => rfl
  | .element name scope attributes content => by
    have hdepth : innerDepth none content = none := by simp [innerDepth]
    have hclosing : closingDepth none content = none := by simp [closingDepth]
    rw [compact, laidOut, hdepth, hclosing, compactContent_eq, gap, List.append_nil]

theorem compactContent_eq (scope : Scope) (keepTexts : Bool) : (content : List Tree) →
    compactContent scope keepTexts content = laidOutContent scope none keepTexts content
  | [] => rfl
  | tree :: rest => by
    rw [compactContent, laidOutContent, compact_eq, compactContent_eq]
    rfl

end

theorem isEmpty_indentedContent (scope : Scope) (depth : Nat) (content : List Tree) :
    (indentedContent scope depth content).isEmpty = !content.any Tree.isElement := by
  induction content with
  | nil => rfl
  | cons tree rest ih =>
    rw [indentedContent, List.any_cons]
    by_cases h : tree.isElement
    · simp [h]
    · simp [h, ih]

mutual

theorem indented_eq (outer : Scope) : (depth : Nat) → (tree : Tree) →
    indented outer depth tree = laidOut outer (some depth) tree
  | _, .text _ => rfl
  | depth, .element name scope attributes content => by
    rw [indented, laidOut]
    by_cases htext : holdsText content
    · have hdepth : innerDepth (some depth) content = none := if_pos htext
      have hclosing : closingDepth (some depth) content = none := by simp [closingDepth, htext]
      rw [if_pos htext, hdepth, hclosing, compactContent_eq, htext, gap, List.append_nil]
    · have hdepth : innerDepth (some depth) content = some (depth + 1) := if_neg htext
      have hlines : (laidOutContent scope (some (depth + 1)) false content).isEmpty
          = !content.any Tree.isElement := by
        rw [← indentedContent_eq, isEmpty_indentedContent]
      rw [Bool.not_eq_true] at htext
      simp only [htext, Bool.false_eq_true, if_false, hdepth, indentedContent_eq]
      by_cases hany : content.any Tree.isElement
      · rw [hany] at hlines
        simp [hany, closingDepth, htext, gap, closedOrElement, List.isEmpty_eq_false_iff.1 hlines]
      · rw [Bool.not_eq_true] at hany
        rw [hany] at hlines
        simp [hany, closingDepth, gap, closedOrElement, List.isEmpty_iff.1 hlines]

theorem indentedContent_eq (scope : Scope) (depth : Nat) : (content : List Tree) →
    indentedContent scope depth content = laidOutContent scope (some depth) false content
  | [] => rfl
  | tree :: rest => by
    rw [indentedContent, laidOutContent, indented_eq, indentedContent_eq, Bool.or_false]
    rfl

end

/-! ## Names and scopes -/

/-- Prefixes in scope that can be declared: none is declared twice, and none is reserved for
declarations. -/
structure Scope.WellDeclared (scope : Scope) : Prop where
  nodup : (scope.map Prod.fst).Nodup
  free : ∀ d ∈ scope, d.1 ≠ some "xmlns"

instance : DecidablePred Scope.WellDeclared := fun scope =>
  decidable_of_iff ((scope.map Prod.fst).Nodup ∧ ∀ d ∈ scope, d.1 ≠ some "xmlns")
    ⟨fun h => ⟨h.1, h.2⟩, fun h => ⟨h.nodup, h.free⟩⟩

/-- The declarations that are in scope inside an element but not around it. -/
def Scope.declared (outer scope : Scope) : Scope := scope.filter (!outer.contains ·)

/-- Declarations as they are read. -/
def readDeclarations (declarations : Scope) : Scope :=
  declarations.map fun d => (d.1, readValue d.2)

/-- What is in scope where an element is read, by what is around it. -/
def Scope.again (outer outer' scope : Scope) : Scope :=
  Scope.enter (readDeclarations (Scope.declared outer scope)) outer'

/-- The name that is read of the name of an element. -/
def Name.again (name : Name) : Name := ⟨name.space.map readValue, name.localPart⟩

/-- The name that is read of the name of an attribute. A namespace is lost if the first declaration
for it is that of the default namespace. -/
def Scope.keyAgain (scope : Scope) (name : Name) : Name :=
  ⟨name.space.bind fun space => (scope.prefixFor? space).map fun _ => readValue space,
    name.localPart⟩

/-- No two attributes of an element are read with the same name. -/
def Element.Distinct (e : Element) : Prop := (e.attributes.map fun a => e.scope.keyAgain a.1).Nodup

instance : DecidablePred Element.Distinct := fun _ => inferInstanceAs (Decidable (List.Nodup _))

/-- A name as it is written. -/
def Scope.writtenName (scope : Scope) (name : Name) : QName :=
  ⟨(name.space.bind scope.prefixFor?).getD "", name.localPart⟩

/-- One scope stands for another: prefixes stand for what is read of what they stood for. -/
def Scope.Reads (scope scope' : Scope) : Prop :=
  ∀ key, scope'.lookup key = (scope.lookup key).map readValue

theorem lookup_of_mem {scope : Scope} (h : (scope.map Prod.fst).Nodup) {key : Option String}
    {space : String} (hmem : (key, space) ∈ scope) : scope.lookup key = some space := by
  induction scope with
  | nil => cases hmem
  | cons d scope ih =>
    rw [List.map_cons, List.nodup_cons] at h
    rcases List.mem_cons.1 hmem with rfl | hmem
    · simp [Scope.lookup]
    · have hne : (key == d.1) = false := by
        rw [beq_eq_false_iff_ne]
        rintro rfl
        exact h.1 (List.mem_map.2 ⟨_, hmem, rfl⟩)
      have hrest := ih h.2 hmem
      rw [Scope.lookup] at hrest ⊢
      rw [List.lookup_cons, hne]
      exact hrest

theorem readValue_fixed {space fixed : String} (h : space ≠ fixed) (hfixed : ' ' ∉ fixed.toList) :
    readValue space ≠ fixed := by
  intro heq
  have hlist : space.toList ≠ fixed.toList := fun hsame => h (String.toList_inj.1 hsame)
  refine valueAgain_ne hlist hfixed ?_
  rw [← heq, readValue, String.toList_ofList]

theorem declarable_readDeclarations {scope : Scope} (hnodup : (scope.map Prod.fst).Nodup)
    (h : ∀ d ∈ scope, SoundDeclaration d) : Declarable (readDeclarations scope) := by
  refine ⟨?_, fun d hd => ?_, fun d hd => ?_⟩
  · rw [readDeclarations, List.map_map]
    exact hnodup
  · obtain ⟨d, hmem, rfl⟩ := List.mem_map.1 hd
    exact fun heq => ((h d hmem).key "xml" heq).2 rfl
  · obtain ⟨d, hmem, rfl⟩ := List.mem_map.1 hd
    obtain ⟨hxml, hxmlns⟩ := (h d hmem).free
    exact ⟨readValue_fixed hxml (by decide), readValue_fixed hxmlns (by decide)⟩

theorem lookup_readDeclarations (scope : Scope) (key : Option String) :
    (readDeclarations scope).lookup key = (scope.lookup key).map readValue := by
  induction scope with
  | nil => rfl
  | cons d scope ih =>
    rw [Scope.lookup, readDeclarations] at ih
    rw [Scope.lookup, readDeclarations, List.map_cons, List.lookup_cons, ih, Scope.lookup,
      Scope.lookup, List.lookup_cons]
    cases key == d.1 <;> rfl

/-- What is read inside an element stands for what was in scope there. -/
theorem reads_again {outer outer' scope : Scope} (houter : (outer.map Prod.fst).Nodup)
    (hscope : (scope.map Prod.fst).Nodup)
    (hinherits : ∀ key, scope.lookup key = none → outer.lookup key = none)
    (h : outer.Reads outer') : scope.Reads (Scope.again outer outer' scope) := by
  intro key
  rw [Scope.again, lookup_enter, lookup_readDeclarations, h key]
  have hmem : ∀ d ∈ Scope.declared outer scope, d ∈ scope := fun d hd => (List.mem_filter.1 hd).1
  cases hlookup : scope.lookup key with
  | none =>
    have hdeclared : (Scope.declared outer scope).lookup key = none := by
      rw [lookup_eq_none_iff] at hlookup ⊢
      exact fun d hd => hlookup d (hmem d hd)
    rw [hdeclared, hinherits key hlookup]
    rfl
  | some space =>
    cases hdeclared : (Scope.declared outer scope).lookup key with
    | some space' =>
      have hsame := lookup_of_mem hscope (hmem _ (mem_of_lookup hdeclared))
      rw [hlookup] at hsame
      obtain rfl := Option.some.inj hsame
      rfl
    | none =>
      -- the declaration is not made anew, so it is in scope around the element
      have houtside : (key, space) ∈ outer := by
        by_contra hnot
        rw [lookup_eq_none_iff] at hdeclared
        exact hdeclared (key, space)
          (List.mem_filter.2 ⟨mem_of_lookup hlookup, by simpa using hnot⟩) rfl
      rw [lookup_of_mem houter houtside]
      rfl

/-! ## Start tags -/

/-- The prefix of a namespace that is known: its own, or that of its first declaration. -/
theorem prefixFor?_cases {scope : Scope} {space : String}
    (h : space = xmlSpace ∨ ∃ key, (key, space) ∈ scope) :
    (space = xmlSpace ∧ scope.prefixFor? space = some "xml") ∨
      ∃ key, (key, space) ∈ scope ∧ scope.prefixFor? space = key := by
  by_cases hxml : space = xmlSpace
  · exact .inl ⟨hxml, if_pos hxml⟩
  · obtain ⟨key, hmem⟩ := h.resolve_left hxml
    obtain ⟨d, hd⟩ := Option.isSome_iff_exists.1
      (List.find?_isSome.2 ⟨_, hmem, decide_eq_true rfl⟩ :
        (scope.find? fun d => decide (d.2 = space)).isSome)
    obtain rfl : d.2 = space := by simpa using List.find?_some hd
    refine .inr ⟨d.1, List.mem_of_find?_eq_some hd, ?_⟩
    rw [Scope.prefixFor?, if_neg hxml, hd, Option.map_some, Option.join_some]

theorem nameOf?_written {scope : Scope} {name : Name} (hlocal : isPart name.localPart)
    (hkey : ∀ key ∈ name.space.bind scope.prefixFor?, isPart key) :
    nameOf? (scope.written name) = some (scope.writtenName name) := by
  rw [Scope.written, Scope.writtenName]
  cases hp : name.space.bind scope.prefixFor? with
  | none => exact nameOf?_local hlocal
  | some key =>
    have hpart := hkey key hp
    have hempty : key.isEmpty = false := by
      rw [← Bool.not_eq_true, String.isEmpty_iff]
      exact ne_empty_of_isPart hpart
    simp only [hempty, Bool.false_eq_true, if_false]
    exact nameOf?_qualified hpart hlocal

section Start

variable {outer outer' : Scope} {e : Element}

theorem isPart_prefixFor? (h : e.Sound outer) {name : Name}
    (hknown : ∀ space ∈ name.space, space = xmlSpace ∨ ∃ key, (key, space) ∈ e.scope) :
    ∀ key ∈ name.space.bind e.scope.prefixFor?, isPart key := by
  intro key hkey
  obtain ⟨space, hspace, hp⟩ := Option.bind_eq_some_iff.1 hkey
  obtain ⟨rfl, hxml⟩ | ⟨key', hmem, hkey'⟩ := prefixFor?_cases (hknown space hspace)
  · rw [hxml] at hp
    obtain rfl := Option.some.inj hp
    decide
  · rw [hkey'] at hp
    exact ((h.declared _ hmem).key key hp).1

theorem attributeName?_written (h : e.Sound outer) (hwell : e.scope.WellDeclared) {scope' : Scope}
    (hreads : e.scope.Reads scope') {name : Name} (hname : SoundKey e.scope name) :
    attributeName? scope' (e.scope.writtenName name) = some (e.scope.keyAgain name) := by
  obtain ⟨space?, localPart⟩ := name
  cases space? with
  | none => rfl
  | some space =>
    obtain ⟨rfl, hxml⟩ | ⟨key?, hmem, hkey⟩ := prefixFor?_cases (hname.known space rfl)
    · have hagain : readValue xmlSpace = xmlSpace := by decide
      simp [Scope.writtenName, Scope.keyAgain, hxml, attributeName?, hagain]
    · cases key? with
      | none => simp [Scope.writtenName, Scope.keyAgain, hkey, attributeName?]
      | some key =>
        obtain ⟨hpart, hxml⟩ := (h.declared _ hmem).key key rfl
        have hlookup := hreads (some key)
        rw [lookup_of_mem hwell.nodup hmem] at hlookup
        simp [Scope.writtenName, Scope.keyAgain, hkey, attributeName?, hxml,
          ne_empty_of_isPart hpart, hlookup]

theorem elementName?_written (h : e.Sound outer) (hwell : e.scope.WellDeclared) {scope' : Scope}
    (hreads : e.scope.Reads scope') :
    elementName? scope' (e.scope.writtenName e.name) = some e.name.again := by
  have hdefault := hreads none
  cases hspace : e.name.space with
  | none =>
    rw [h.unknown hspace] at hdefault
    simp [Scope.writtenName, elementName?, Name.again, hspace, hdefault]
  | some space =>
    have hknown := h.known space hspace
    obtain ⟨rfl, -⟩ | ⟨key?, hmem, hkey⟩ := prefixFor?_cases (.inr hknown)
    · -- no declaration brings this namespace into scope, and an element needs one
      obtain ⟨key, hmem⟩ := hknown
      exact absurd rfl (h.declared _ hmem).free.1
    · have hlookup := hreads key?
      rw [lookup_of_mem hwell.nodup hmem] at hlookup
      cases key? with
      | none => simp [Scope.writtenName, elementName?, Name.again, hspace, hkey, hlookup]
      | some key =>
        have hpart := ((h.declared _ hmem).key key rfl).1
        have hfree : key ≠ "xmlns" := fun heq => hwell.free _ hmem (congrArg some heq)
        simp [Scope.writtenName, elementName?, Name.again, hspace, hkey, hfree,
          ne_empty_of_isPart hpart, hlookup]

theorem isKept_written (hwell : e.scope.WellDeclared) {name : Name}
    (hname : SoundKey e.scope name) : IsKept (e.scope.writtenName name) := by
  refine ⟨?_, hname.kept⟩
  rw [Scope.writtenName]
  cases hspace : name.space with
  | none => exact (by decide : "" ≠ "xmlns")
  | some space =>
    obtain ⟨rfl, hxml⟩ | ⟨key?, hmem, hkey⟩ := prefixFor?_cases (hname.known space hspace)
    · simp [hxml]
    · cases key? with
      | none => simp [hkey]
      | some key =>
        have hfree : key ≠ "xmlns" := fun heq => hwell.free _ hmem (congrArg some heq)
        simpa [hkey] using hfree

theorem nameOf?_declaration {d : Option String × String} (h : SoundDeclaration d) :
    nameOf? (declaration d).1 = some (declarationName d.1) := by
  obtain ⟨key?, space⟩ := d
  have hxmlns : isPart "xmlns" := by decide
  cases key? with
  | none => exact nameOf?_local hxmlns
  | some key =>
    have hname : "xmlns:" = "xmlns" ++ ":" := by decide
    rw [declaration, hname]
    exact nameOf?_qualified hxmlns (h.key key rfl).1

theorem readAttributes?_written (h : e.Sound outer) :
    readAttributes? (writtenAttributes outer e.scope e.attributes) = some
      ((readDeclarations (Scope.declared outer e.scope)).map (fun d => (declarationName d.1, d.2))
        ++ e.attributes.map fun a => (e.scope.writtenName a.1, readValue a.2)) := by
  have hdeclared : ∀ d ∈ Scope.declared outer e.scope, SoundDeclaration d :=
    fun d hd => h.declared d (List.mem_filter.1 hd).1
  have hdeclarations : readAttributes? ((Scope.declared outer e.scope).map declaration)
      = some ((Scope.declared outer e.scope).map fun d =>
          (declarationName d.1, readValue d.2)) := by
    have hread := @readAttributes?_map _ (Scope.declared outer e.scope) (fun d => (declaration d).1)
      (fun d => d.2) (fun d => declarationName d.1) fun d hd => nameOf?_declaration (hdeclared d hd)
    rw [if_pos (List.all_eq_true.2 fun d hd => (hdeclared d hd).allowed)] at hread
    rw [← hread]
    congr 2
    funext ⟨key?, space⟩
    cases key? <;> rfl
  have hothers : readAttributes? (e.attributes.map fun a => (e.scope.written a.1, a.2))
      = some (e.attributes.map fun a => (e.scope.writtenName a.1, readValue a.2)) := by
    have hread := @readAttributes?_map _ e.attributes (fun a => e.scope.written a.1)
      (fun a => a.2) (fun a => e.scope.writtenName a.1) fun a ha =>
        nameOf?_written (h.keys a ha).localPart (isPart_prefixFor? h (h.keys a ha).known)
    rwa [if_pos (List.all_eq_true.2 h.values)] at hread
  rw [readDeclarations, List.map_map]
  exact readAttributes?_append hdeclarations hothers

/-- Of a start tag that is written the same element is read, with what is read of its names and
values. It is refused just if two attributes get the same name. -/
theorem readStart?_written (h : e.Sound outer) (hwell : e.scope.WellDeclared)
    (houter : (outer.map Prod.fst).Nodup) (hreads : outer.Reads outer') :
    readStart? outer' (e.scope.written e.name) (writtenAttributes outer e.scope e.attributes) =
      if e.Distinct then
        some ⟨e.scope.writtenName e.name, e.name.again, Scope.again outer outer' e.scope,
          e.attributes.map fun a => (e.scope.keyAgain a.1, readValue a.2)⟩
      else none := by
  have hdeclared : Declarable ([] ++ readDeclarations (Scope.declared outer e.scope)) := by
    refine declarable_readDeclarations ?_ fun d hd => h.declared d (List.mem_filter.1 hd).1
    exact hwell.nodup.sublist (List.filter_sublist.map _)
  have hinside := reads_again houter hwell.nodup h.inherits hreads
  let others := e.attributes.map fun a => (e.scope.writtenName a.1, readValue a.2)
  have hkept : ∀ a ∈ others, IsKept a.1 := by
    intro a ha
    obtain ⟨a, hmem, rfl⟩ := List.mem_map.1 ha
    exact isKept_written hwell (h.keys a hmem)
  have hname := nameOf?_written h.localPart (isPart_prefixFor? h fun space hspace =>
    .inr (h.known space hspace))
  have hseparate : separate? [] [] ((readDeclarations (Scope.declared outer e.scope)).map
        (fun d => (declarationName d.1, d.2)) ++ others)
      = some (readDeclarations (Scope.declared outer e.scope), others) := by
    rw [separate?_declarations [] hdeclared, separate?_of_kept hkept]
    rfl
  have hkeys : attributeNames? (Scope.again outer outer' e.scope) others =
      if e.Distinct then
        some (e.attributes.map fun a => (e.scope.keyAgain a.1, readValue a.2))
      else none :=
    attributeNames?_map fun a ha => attributeName?_written h hwell hinside (h.keys a ha)
  rw [readStart?, hname, readAttributes?_written h]
  simp only [Option.bind_eq_bind, Option.bind_some, openElement?]
  rw [hseparate]
  simp only [Option.bind_some]
  rw [← Scope.again, hkeys, elementName?_written h hwell hinside]
  split <;> rfl

end Start

/-! ## Trees -/

/-- The characters at the start of a line, if there are lines. -/
def gapText : Option Nat → List Char
  | none => []
  | some depth => '\n' :: List.replicate (2 * depth) ' '

/-- The texts that are read of a run of text. -/
def runTexts (run : List Char) : List Tree :=
  if run.isEmpty then [] else [.text (readText run)]

mutual

/-- What is read of a tree that is laid out, by what is in scope where it is written and where it is
read. -/
def Tree.again (outer outer' : Scope) (depth? : Option Nat) : Tree → Tree
  | .text value => .text (readText value.toList)
  | .element name scope attributes content =>
    .element name.again (Scope.again outer outer' scope)
      (attributes.map fun a => (scope.keyAgain a.1, readValue a.2))
      (contentAgain scope (Scope.again outer outer' scope) (innerDepth depth? content)
        (holdsText content) (gapText (closingDepth depth? content)) [] content)

/-- What is read of some content that is laid out, between a run of text and a last one. -/
def contentAgain (scope scope' : Scope) (depth? : Option Nat) (keepTexts : Bool)
    (last run : List Char) : List Tree → List Tree
  | [] => runTexts (run ++ last)
  | tree :: rest =>
    match tree with
    | .text value =>
      contentAgain scope scope' depth? keepTexts last
        (if keepTexts then run ++ gapText depth? ++ value.toList else run) rest
    | tree =>
      runTexts (run ++ gapText depth?)
        ++ tree.again scope scope' depth? :: contentAgain scope scope' depth? keepTexts last [] rest

end

theorem contentElements_runTexts (run : List Char) : contentElements (runTexts run) = [] := by
  rw [runTexts]
  split <;> rfl

theorem contentAgain_cons {tree : Tree} (h : tree.isElement) (scope scope' : Scope)
    (depth? : Option Nat) (keepTexts : Bool) (last run : List Char) (rest : List Tree) :
    contentAgain scope scope' depth? keepTexts last run (tree :: rest)
      = runTexts (run ++ gapText depth?) ++ tree.again scope scope' depth?
          :: contentAgain scope scope' depth? keepTexts last [] rest := by
  cases tree with
  | element => rfl
  | text => cases h

theorem allowed_gapText (depth? : Option Nat) : (gapText depth?).all isDocumentChar := by
  cases depth? with
  | none => rfl
  | some depth =>
    rw [gapText, List.all_cons, List.all_replicate, show isDocumentChar ' ' = true from rfl]
    simp
    decide

theorem readRun?_allowed {run : List Char} (h : run.all isDocumentChar) :
    readRun? run = some (runTexts run) := by
  rw [readRun?, runTexts, if_pos h]
  split <;> rfl

theorem readContent?_gap (scope : Scope) (run : List Char) (depth? : Option Nat)
    (ms : List Markup) :
    readContent? scope run (gap depth? ++ ms) = readContent? scope (run ++ gapText depth?) ms := by
  cases depth? with
  | none => rw [gap, gapText, List.nil_append, List.append_nil]
  | some depth =>
    rw [gap, List.singleton_append, lineIndent, readContent?]
    simp [gapText]

theorem read?_closedOrElement (outer : Scope) (name : String) (attributes : Attributes)
    (content : List Markup) :
    (closedOrElement name attributes content).read? outer =
      (readStart? outer name attributes).bind fun e =>
        (readContent? e.scope [] content).map e.close := by
  rw [closedOrElement]
  split
  · rename_i hempty
    rw [List.isEmpty_iff.1 hempty, Markup.read?]
    cases readStart? outer name attributes <;> rfl
  · rw [Markup.read?]
    cases readStart? outer name attributes with
    | none => rfl
    | some e => cases hread : readContent? e.scope [] content <;> simp [hread]

theorem isText_laidOut {tree : Tree} (h : tree.isElement) (outer : Scope) (depth? : Option Nat) :
    (laidOut outer depth? tree).isText = false := by
  cases tree with
  | element name scope attributes content =>
    rw [laidOut, closedOrElement]
    split <;> rfl
  | text => cases h

mutual

/-- Of a tree that is laid out `Tree.again` is read, unless two attributes of an element are read
with the same name. -/
theorem read?_laidOut {outer outer' : Scope} (houter : (outer.map Prod.fst).Nodup)
    (hreads : outer.Reads outer') (depth? : Option Nat) : (tree : Tree) → tree.isElement →
    tree.Sound outer → (∀ e ∈ tree.elements, e.scope.WellDeclared) →
    (laidOut outer depth? tree).read? outer' =
      if ∀ e ∈ tree.elements, e.Distinct then some (tree.again outer outer' depth?) else none
  | .element name scope attributes content, _, hsound, hwell => by
    obtain ⟨hwellOwn, hwellContent⟩ := List.forall_mem_cons.1 hwell
    have hstart := readStart?_written hsound.1 hwellOwn houter hreads
    have hinside := reads_again houter hwellOwn.nodup hsound.1.inherits hreads
    have hcontent := readContent?_laidOut hwellOwn.nodup hinside (innerDepth depth? content)
      (holdsText content) (closingDepth depth? content) content hsound.2 hwellContent
      (show ([] : List Char).all isDocumentChar from rfl)
    simp only [Tree.elements, List.forall_mem_cons]
    rw [laidOut, read?_closedOrElement, hstart, Tree.again]
    refine bind_ite ?_
    rw [hcontent, Option.map_if]
    rfl
  | .text _, helement, _, _ => by cases helement

theorem readContent?_laidOut {scope scope' : Scope} (hscope : (scope.map Prod.fst).Nodup)
    (hreads : scope.Reads scope') (depth? : Option Nat) (keepTexts : Bool) (last? : Option Nat) :
    (content : List Tree) → SoundContent scope content →
    (∀ e ∈ contentElements content, e.scope.WellDeclared) → {run : List Char} →
    run.all isDocumentChar →
    readContent? scope' run (laidOutContent scope depth? keepTexts content ++ gap last?) =
      if ∀ e ∈ contentElements content, e.Distinct then
        some (contentAgain scope scope' depth? keepTexts (gapText last?) run content)
      else none
  | [], _, _, run, hrun => by
    have hlast : (run ++ gapText last?).all isDocumentChar := by
      rw [List.all_append, hrun, allowed_gapText]
      rfl
    rw [laidOutContent, List.nil_append, ← List.append_nil (gap last?), readContent?_gap,
      readContent?, readRun?_allowed hlast, contentAgain, contentElements,
      if_pos (List.forall_mem_nil _)]
  | .text value :: rest, hsound, hwell, run, hrun => by
    have hvalue : value.toList.all isDocumentChar := hsound.1
    rw [contentElements, Tree.elements, List.nil_append] at hwell ⊢
    rw [laidOutContent, contentAgain, laidOut, Tree.isElement, Bool.false_or]
    cases keepTexts with
    | false => exact readContent?_laidOut hscope hreads depth? false last? rest hsound.2 hwell hrun
    | true =>
      have hlonger : (run ++ gapText depth? ++ value.toList).all isDocumentChar := by
        rw [List.all_append, List.all_append, hrun, allowed_gapText, hvalue]
        rfl
      rw [if_pos rfl, if_pos rfl, List.append_assoc, readContent?_gap, List.cons_append,
        readContent?]
      exact readContent?_laidOut hscope hreads depth? true last? rest hsound.2 hwell hlonger
  | .element name inner attributes content :: rest, hsound, hwell, run, hrun => by
    rw [contentElements] at hwell ⊢
    obtain ⟨hwellTree, hwellRest⟩ := List.forall_mem_append.1 hwell
    have hgap : (run ++ gapText depth?).all isDocumentChar := by
      rw [List.all_append, hrun, allowed_gapText]
      rfl
    have htree := read?_laidOut hscope hreads depth? (.element name inner attributes content) rfl
      hsound.1 hwellTree
    have hrest := readContent?_laidOut hscope hreads depth? keepTexts last? rest hsound.2 hwellRest
      (show ([] : List Char).all isDocumentChar from rfl)
    rw [laidOutContent, contentAgain_cons rfl, Tree.isElement, Bool.true_or, if_pos rfl,
      List.append_assoc, readContent?_gap, List.cons_append,
      readContent?_cons (isText_laidOut rfl ..), readRun?_allowed hgap, Option.bind_some, htree,
      hrest]
    simp only [List.forall_mem_append]
    exact bind_ite Option.map_if

end

/-! ## Documents -/

theorem isSome_nameOf?_written {outer : Scope} {e : Element} (h : e.Sound outer) :
    (nameOf? (e.scope.written e.name)).isSome ∧
      ∀ pair ∈ writtenAttributes outer e.scope e.attributes, (nameOf? pair.1).isSome := by
  have hname := nameOf?_written h.localPart (isPart_prefixFor? h fun space hspace =>
    .inr (h.known space hspace))
  refine ⟨by rw [hname]; rfl, List.forall_mem_append.2 ⟨?_, ?_⟩⟩
  · intro pair hpair
    obtain ⟨d, hd, rfl⟩ := List.mem_map.1 hpair
    rw [nameOf?_declaration (h.declared d (List.mem_filter.1 hd).1)]
    rfl
  · intro pair hpair
    obtain ⟨a, ha, rfl⟩ := List.mem_map.1 hpair
    have hkey := h.keys a ha
    rw [nameOf?_written hkey.localPart (isPart_prefixFor? h hkey.known)]
    rfl

theorem wellNamed_closedOrElement {name : String} {attributes : Attributes} {content : List Markup}
    (h : (nameOf? name).isSome ∧ ∀ pair ∈ attributes, (nameOf? pair.1).isSome)
    (hcontent : WellNamedContent content) :
    (closedOrElement name attributes content).WellNamed := by
  rw [closedOrElement]
  split
  · exact h
  · exact ⟨h.1, h.2, hcontent⟩

theorem wellNamed_gap (depth? : Option Nat) : ∀ m ∈ gap depth?, m.WellNamed := by
  cases depth? with
  | none => exact List.forall_mem_nil _
  | some depth => exact List.forall_mem_singleton.2 trivial

mutual

theorem wellNamed_laidOut {outer : Scope} (depth? : Option Nat) : (tree : Tree) →
    tree.Sound outer → (laidOut outer depth? tree).WellNamed
  | .element name scope attributes content, h => by
    have hnames := isSome_nameOf?_written h.1
    rw [laidOut]
    refine wellNamed_closedOrElement hnames (wellNamedContent_iff.2 ?_)
    exact List.forall_mem_append.2 ⟨wellNamed_laidOutContent _ _ content h.2, wellNamed_gap _⟩
  | .text _, _ => trivial

theorem wellNamed_laidOutContent {scope : Scope} (depth? : Option Nat) (keepTexts : Bool) :
    (content : List Tree) → SoundContent scope content →
    ∀ m ∈ laidOutContent scope depth? keepTexts content, m.WellNamed
  | [], _ => List.forall_mem_nil _
  | tree :: rest, h => by
    have hrest := wellNamed_laidOutContent depth? keepTexts rest h.2
    rw [laidOutContent]
    split
    · exact List.forall_mem_append.2 ⟨wellNamed_gap _,
        List.forall_mem_cons.2 ⟨wellNamed_laidOut depth? tree h.1, hrest⟩⟩
    · exact hrest

end

/-- Of a root element that is laid out as a document `Tree.again` is read. -/
theorem readDocument?_laidOut {root : Tree} (hroot : root.Sound [] ∧ root.isElement)
    (hwell : ∀ e ∈ root.elements, e.scope.WellDeclared) (depth? : Option Nat) {spaces : String}
    (hspaces : spaces.toList.all isSpace) :
    readDocument? ((laidOut [] depth? root).render ++ spaces) =
      if ∀ e ∈ root.elements, e.Distinct then some (root.again [] [] depth?) else none := by
  rw [readDocument?_render (wellNamed_laidOut depth? root hroot.1) (isText_laidOut hroot.2 ..)
    hspaces]
  have hnodup : (([] : Scope).map Prod.fst).Nodup := List.nodup_nil
  have hreads : Scope.Reads [] [] := fun _ => rfl
  exact read?_laidOut hnodup hreads depth? root hroot.2 hroot.1 hwell

/-- The two ways of laying a document out. -/
theorem layOut?_eq {layOut? : String → Option String} (h : layOut? ∈ [minify?, prettyPrint?]) :
    ∃ (depth? : Option Nat) (spaces : String), spaces.toList.all isSpace ∧
      ∀ text root, readDocument? text = some root →
        layOut? text = some ((laidOut [] depth? root).render ++ spaces) := by
  simp only [List.mem_cons, List.not_mem_nil, or_false] at h
  obtain rfl | rfl := h
  · refine ⟨none, "", rfl, fun text root hroot => ?_⟩
    simp [minify?, allBlank_of_readDocument? hroot, hroot, compact_eq]
  · refine ⟨some 0, "\n", rfl, fun text root hroot => ?_⟩
    simp [prettyPrint?, allBlank_of_readDocument? hroot, hroot, indented_eq]

end ProgramDiagram.Xml
