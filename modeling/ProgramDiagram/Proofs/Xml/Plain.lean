import ProgramDiagram.Proofs.Xml.Elements
import ProgramDiagram.Proofs.Xml.Reading
import ProgramDiagram.Proofs.Xml.Scope

/-!
# Markup without prefixes

Where no name has a prefix and no two attributes of an element have the same name, nothing in
written markup can be refused but its strings.

* `read?_plain`: the tree that is read of such markup;
* `elements_tree`: it has the elements and attributes that are written, whatever the strings are.
-/

namespace ProgramDiagram.Xml

/-! ## Plain markup -/

/-- Whether an attribute of this name is no declaration and has no prefix. -/
def isPlainName (name : String) : Bool := isPart name && name != "xmlns"

/-- A start tag without prefixes. -/
structure PlainTag (name : String) (attributes : Attributes) : Prop where
  name : isPart name
  keys : (attributes.map Prod.fst).all isPlainName
  nodup : (attributes.map Prod.fst).Nodup

/-- Whether the content of an element is one text or has no texts. -/
def TextAlone (content : List Markup) : Prop :=
  (∃ value, content = [.text value]) ∨ ∀ m ∈ content, m.isText = false

mutual

/-- No name in the markup has a prefix, and text stands alone in an element. -/
def Markup.Plain : Markup → Prop
  | .leaf name attributes => PlainTag name attributes
  | .element name attributes content =>
    PlainTag name attributes ∧ TextAlone content ∧ PlainContent content
  | .text _ => True

def PlainContent : List Markup → Prop
  | [] => True
  | m :: rest => m.Plain ∧ PlainContent rest

end

theorem plainContent_iff {ms : List Markup} : PlainContent ms ↔ ∀ m ∈ ms, m.Plain := by
  induction ms with
  | nil => simp [PlainContent]
  | cons m ms ih => rw [PlainContent, ih, List.forall_mem_cons]

mutual

/-- The strings in markup: the values of attributes and the texts. -/
def Markup.strings : Markup → List String
  | .leaf _ attributes => attributes.map Prod.snd
  | .element _ attributes content => attributes.map Prod.snd ++ contentStrings content
  | .text value => [value]

def contentStrings : List Markup → List String
  | [] => []
  | m :: rest => m.strings ++ contentStrings rest

end

theorem contentStrings_append (as bs : List Markup) :
    contentStrings (as ++ bs) = contentStrings as ++ contentStrings bs := by
  induction as with
  | nil => rfl
  | cons a as ih => rw [List.cons_append, contentStrings, ih, contentStrings, List.append_assoc]

mutual

/-- The names in the tags of markup. -/
def Markup.tags : Markup → List (String × List String)
  | .leaf name attributes => [(name, attributes.map Prod.fst)]
  | .element name attributes content =>
    (name, attributes.map Prod.fst) :: contentTags content
  | .text _ => []

def contentTags : List Markup → List (String × List String)
  | [] => []
  | m :: rest => m.tags ++ contentTags rest

end

/-! ## The tree of plain markup -/

def Markup.isEmptyText : Markup → Bool
  | .text value => value.toList.isEmpty
  | _ => false

/-- Attributes without prefixes as they are read. -/
def plainAttributes (attributes : Attributes) : List (Name × String) :=
  attributes.map fun pair => (⟨none, pair.1⟩, readValue pair.2)

mutual

/-- The tree of markup without prefixes. -/
def Markup.tree (scope : Scope) : Markup → Tree
  | .leaf name attributes =>
    .element ⟨scope.lookup none, name⟩ scope (plainAttributes attributes) []
  | .element name attributes content =>
    .element ⟨scope.lookup none, name⟩ scope (plainAttributes attributes)
      (contentTrees scope content)
  | .text value => .text (readText value.toList)

/-- The trees of some content. An empty text is none. -/
def contentTrees (scope : Scope) : List Markup → List Tree
  | [] => []
  | m :: rest =>
    if m.isEmptyText then contentTrees scope rest else m.tree scope :: contentTrees scope rest

end

section Start

variable {name : String} {attributes : Attributes}

/-- The attributes of a plain tag, as the reader separates them from declarations. -/
def unprefixed (attributes : Attributes) : List (QName × String) :=
  attributes.map fun pair => (⟨"", pair.1⟩, readValue pair.2)

theorem PlainTag.isKept (h : PlainTag name attributes) :
    ∀ a ∈ unprefixed attributes, IsKept a.1 := by
  intro a ha
  obtain ⟨pair, hpair, rfl⟩ := List.mem_map.1 ha
  have hkey := List.all_eq_true.1 h.keys _ (List.mem_map_of_mem hpair)
  rw [isPlainName, Bool.and_eq_true, bne_iff_ne] at hkey
  exact ⟨show "" ≠ "xmlns" by decide, hkey.2⟩

theorem readAttributes?_unprefixed (h : ∀ pair ∈ attributes, isPart pair.1) :
    readAttributes? attributes =
      if attributes.all fun pair => isAllowed pair.2 then some (unprefixed attributes)
      else none := by
  have hread := @readAttributes?_map _ attributes Prod.fst Prod.snd (fun pair => ⟨"", pair.1⟩)
    fun pair hpair => nameOf?_local (h pair hpair)
  rwa [List.map_id'] at hread

theorem PlainTag.isPart_keys (h : PlainTag name attributes) :
    ∀ pair ∈ attributes, isPart pair.1 := by
  intro pair hpair
  have hkey := List.all_eq_true.1 h.keys _ (List.mem_map_of_mem hpair)
  rw [isPlainName, Bool.and_eq_true] at hkey
  exact hkey.1

theorem PlainTag.attributeNames? (h : PlainTag name attributes) (scope : Scope) :
    attributeNames? scope (unprefixed attributes) = some (plainAttributes attributes) := by
  have hinjective : Function.Injective fun key : String => (⟨none, key⟩ : Name) := by
    intro a b hab
    exact congrArg Name.localPart hab
  have hnodup : (attributes.map fun pair => (⟨none, pair.1⟩ : Name)).Nodup := by
    have hkeys := h.nodup.map hinjective
    rwa [List.map_map] at hkeys
  rw [unprefixed, attributeNames?_map fun _ _ => rfl, if_pos hnodup]
  rfl

theorem readStart?_plain (h : PlainTag name attributes) (outer : Scope) :
    readStart? outer name attributes =
      if attributes.all fun pair => isAllowed pair.2 then
        some ⟨⟨"", name⟩, ⟨outer.lookup none, name⟩, outer, plainAttributes attributes⟩
      else none := by
  rw [readStart?, nameOf?_local h.name, readAttributes?_unprefixed h.isPart_keys]
  by_cases hvalues : attributes.all fun pair => isAllowed pair.2
  · simp [hvalues, openElement?, separate?_of_kept h.isKept, Scope.enter, h.attributeNames?,
      elementName?]
  · simp [hvalues]

/-- A plain tag that also declares the default namespace. -/
theorem readStart?_declaring (h : PlainTag name attributes) {space : String}
    (hspace : readValue space ≠ xmlSpace ∧ readValue space ≠ xmlnsSpace) :
    readStart? [] name (attributes ++ [("xmlns", space)]) =
      if (attributes ++ [("xmlns", space)]).all fun pair => isAllowed pair.2 then
        some ⟨⟨"", name⟩, ⟨some (readValue space), name⟩, [(none, readValue space)],
          plainAttributes attributes⟩
      else none := by
  have hkeys : ∀ pair ∈ attributes ++ [("xmlns", space)], isPart pair.1 :=
    List.forall_mem_append.2
      ⟨h.isPart_keys, List.forall_mem_singleton.2 (show isPart "xmlns" by decide)⟩
  have hdeclared : separate? [] [] (unprefixed (attributes ++ [("xmlns", space)]))
      = some ([(none, readValue space)], unprefixed attributes) := by
    rw [unprefixed, List.map_append, ← unprefixed, separate?_kept h.isKept]
    simp [separate?, declareDefault?, hspace]
  rw [readStart?, nameOf?_local h.name, readAttributes?_unprefixed hkeys]
  by_cases hvalues : (attributes ++ [("xmlns", space)]).all fun pair => isAllowed pair.2
  · rw [if_pos hvalues, if_pos hvalues]
    simp [openElement?, hdeclared, Scope.enter, h.attributeNames?, elementName?, Scope.lookup]
  · rw [if_neg hvalues, if_neg hvalues]
    rfl

end Start

theorem readContent?_alone (scope : Scope) (value : String) :
    readContent? scope [] [.text value] =
      if isAllowed value then some (contentTrees scope [.text value]) else none := by
  have hallowed : isAllowed value = value.toList.all isDocumentChar := rfl
  rw [readContent?, readContent?, readRun?, List.nil_append, contentTrees, contentTrees, hallowed]
  by_cases hempty : value.toList.isEmpty
  · simp [Markup.isEmptyText, List.isEmpty_iff.1 hempty]
  · simp [Markup.isEmptyText, Markup.tree, hempty]

mutual

theorem read?_plain : (m : Markup) → m.Plain → m.isText = false → ∀ scope : Scope,
    m.read? scope = if m.strings.all isAllowed then some (m.tree scope) else none
  | .leaf name attributes, h, _, scope => by
    rw [Markup.read?, readStart?_plain h, Markup.strings, List.all_map]
    by_cases hvalues : attributes.all fun pair => isAllowed pair.2
    · simp [hvalues, Function.comp_def, Markup.tree, OpenElement.close]
    · simp [hvalues, Function.comp_def]
  | .element name attributes content, h, _, scope => by
    have hcontent : readContent? scope [] content = if (contentStrings content).all isAllowed then
        some (contentTrees scope content) else none := by
      rcases h.2.1 with ⟨value, rfl⟩ | hnone
      · simp [readContent?_alone, contentStrings, Markup.strings]
      · exact readContent?_plain content h.2.2 hnone scope
    rw [Markup.read?, readStart?_plain h.1, Markup.strings, List.all_append, List.all_map]
    simp only [Bool.and_eq_true]
    refine bind_ite ?_
    rw [hcontent]
    split <;> rfl
  | .text _, _, htext, _ => by cases htext

theorem readContent?_plain : (ms : List Markup) → PlainContent ms →
    (∀ m ∈ ms, m.isText = false) → ∀ scope : Scope,
    readContent? scope [] ms
      = if (contentStrings ms).all isAllowed then some (contentTrees scope ms) else none
  | [], _, _, _ => rfl
  | m :: rest, h, hnone, scope => by
    obtain ⟨htext, hnoneRest⟩ := List.forall_mem_cons.1 hnone
    have hrest := readContent?_plain rest h.2 hnoneRest scope
    have htree : contentTrees scope (m :: rest) = m.tree scope :: contentTrees scope rest := by
      cases m with
      | leaf | element => rfl
      | text => cases htext
    rw [readContent?_cons htext, read?_plain m h.1 htext, hrest, htree, contentStrings,
      List.all_append]
    simp only [Bool.and_eq_true]
    exact bind_ite Option.map_if

end

/-- Plain markup in an element that declares the default namespace: it is refused for its strings
only. -/
theorem read?_declaring {name : String} {attributes : Attributes} {content : List Markup}
    (h : PlainTag name attributes) (hcontent : PlainContent content)
    (hnone : ∀ m ∈ content, m.isText = false) {space : String}
    (hspace : readValue space ≠ xmlSpace ∧ readValue space ≠ xmlnsSpace) :
    (Markup.element name (attributes ++ [("xmlns", space)]) content).read? [] =
      if (Markup.element name (attributes ++ [("xmlns", space)]) content).strings.all isAllowed then
        some (.element ⟨some (readValue space), name⟩ [(none, readValue space)]
          (plainAttributes attributes) (contentTrees [(none, readValue space)] content))
      else none := by
  have hall : (Markup.element name (attributes ++ [("xmlns", space)]) content).strings.all isAllowed
      = (((attributes ++ [("xmlns", space)]).all fun pair => isAllowed pair.2)
        && (contentStrings content).all isAllowed) := by
    simp [Markup.strings, Function.comp_def, Bool.and_assoc]
  rw [Markup.read?, readStart?_declaring h hspace, hall]
  simp only [Bool.and_eq_true]
  refine bind_ite ?_
  rw [readContent?_plain content hcontent hnone]
  split <;> rfl

/-! ## What is written is found -/

mutual

theorem Markup.Plain.wellNamed : (m : Markup) → m.Plain → m.WellNamed
  | .leaf _ _, h => ⟨by simp [nameOf?_local h.name],
      fun pair hpair => by simp [nameOf?_local (h.isPart_keys pair hpair)]⟩
  | .element _ _ content, h => ⟨by simp [nameOf?_local h.1.name],
      fun pair hpair => by simp [nameOf?_local (h.1.isPart_keys pair hpair)],
      PlainContent.wellNamed content h.2.2⟩
  | .text _, _ => trivial

theorem PlainContent.wellNamed : (ms : List Markup) → PlainContent ms → WellNamedContent ms
  | [], _ => trivial
  | m :: ms, h => ⟨Markup.Plain.wellNamed m h.1, PlainContent.wellNamed ms h.2⟩

end

mutual

theorem isPlainName_tags : (m : Markup) → m.Plain → ∀ tag ∈ m.tags, tag.2.all isPlainName
  | .leaf _ _, h => List.forall_mem_singleton.2 h.keys
  | .element _ _ content, h =>
    List.forall_mem_cons.2 ⟨h.1.keys, isPlainName_contentTags content h.2.2⟩
  | .text _, _ => List.forall_mem_nil _

theorem isPlainName_contentTags : (ms : List Markup) → PlainContent ms →
    ∀ tag ∈ contentTags ms, tag.2.all isPlainName
  | [], _ => List.forall_mem_nil _
  | m :: ms, h => List.forall_mem_append.2
    ⟨isPlainName_tags m h.1, isPlainName_contentTags ms h.2⟩

end

/-- The names of a plain element where the default namespace is `space`. -/
def plainNames (space : Option String) (tag : String × List String) : Name × List Name :=
  (⟨space, tag.1⟩, tag.2.map fun key => ⟨none, key⟩)

mutual

theorem elements_tree (scope : Scope) : (m : Markup) →
    (m.tree scope).elements.map Element.names = m.tags.map (plainNames (scope.lookup none))
  | .leaf name attributes => by
    simp [Markup.tree, Tree.elements, contentElements, Markup.tags, plainNames, plainAttributes,
      Element.names]
  | .element name attributes content => by
    simp [Markup.tree, Tree.elements, Markup.tags, plainNames, plainAttributes, Element.names,
      contentElements_trees scope content]
  | .text _ => rfl

/-- Plain markup has the elements and attributes that are written, whatever its strings are. -/
theorem contentElements_trees (scope : Scope) : (ms : List Markup) →
    (contentElements (contentTrees scope ms)).map Element.names
      = (contentTags ms).map (plainNames (scope.lookup none))
  | [] => rfl
  | m :: ms => by
    rw [contentTrees, contentTags, List.map_append, ← contentElements_trees scope ms,
      ← elements_tree scope m]
    split
    · cases m with
      | leaf | element => contradiction
      | text => rfl
    · rw [contentElements, List.map_append]

end

end ProgramDiagram.Xml
