import ProgramDiagram.Proofs.Xml.Rewritten

/-!
# Names of what is laid out

* `KeepsNames`: a document that is laid out is a document again, and all names are the same;
* `keepsNames_iff`: which documents keep their names. A name is written with the first prefix in
  scope for its namespace; where that is the default namespace, an attribute loses its namespace.
-/

namespace ProgramDiagram.Xml

/-- Laying a document out gives a document with elements and attributes of the same names. -/
def KeepsNames (layOut? : String → Option String) (text : String) : Prop :=
  ∃ root out root', readDocument? text = some root ∧ layOut? text = some out ∧
    readDocument? out = some root' ∧
    root'.elements.map Element.names = root.elements.map Element.names

/-- The names that are read of those of an element and of its attributes. -/
def Element.namesAgain (e : Element) : Name × List Name :=
  (e.name.again, e.attributes.map fun a => e.scope.keyAgain a.1)

mutual

/-- The elements of what is read are those of the tree, with their names as they are read. -/
theorem names_again (outer outer' : Scope) (depth? : Option Nat) : (tree : Tree) →
    (tree.again outer outer' depth?).elements.map Element.names
      = tree.elements.map Element.namesAgain
  | .element name scope attributes content => by
    rw [Tree.again, Tree.elements, Tree.elements, List.map_cons, List.map_cons, names_contentAgain]
    simp [Element.names, Element.namesAgain]
  | .text _ => rfl

theorem names_contentAgain (scope scope' : Scope) (depth? : Option Nat) (keepTexts : Bool)
    (last run : List Char) : (content : List Tree) →
    (contentElements (contentAgain scope scope' depth? keepTexts last run content)).map
        Element.names
      = (contentElements content).map Element.namesAgain
  | [] => by rw [contentAgain, contentElements_runTexts]; rfl
  | .text value :: rest => by
    rw [contentAgain, contentElements, Tree.elements, List.nil_append, names_contentAgain]
  | .element name inner attributes content :: rest => by
    rw [contentAgain_cons rfl, contentElements_append, contentElements_runTexts, List.nil_append,
      contentElements, contentElements, List.map_append, List.map_append, names_again,
      names_contentAgain]

end

theorem again_eq_self_iff {name : Name} :
    name.again = name ↔ ∀ space ∈ name.space, isFlat space.toList := by
  obtain ⟨space?, localPart⟩ := name
  cases space? with
  | none => simp [Name.again]
  | some space => simp [Name.again, readValue_eq_self_iff]

theorem keyAgain_eq_self_iff {scope : Scope} {name : Name} :
    scope.keyAgain name = name ↔
      ∀ space ∈ name.space, isFlat space.toList ∧ (scope.prefixFor? space).isSome := by
  obtain ⟨space?, localPart⟩ := name
  cases space? with
  | none => simp [Scope.keyAgain]
  | some space =>
    cases hkey : scope.prefixFor? space <;> simp [Scope.keyAgain, hkey, readValue_eq_self_iff]

/-- The elements whose names stay: no namespace has tabs or line ends, and a prefix is the first
declaration for the namespace of each attribute. -/
def Element.NamesKept (e : Element) : Prop :=
  (∀ space ∈ e.name.space, isFlat space.toList) ∧
    ∀ a ∈ e.attributes, ∀ space ∈ a.1.space,
      isFlat space.toList ∧ (e.scope.prefixFor? space).isSome

instance : DecidablePred Element.NamesKept := fun _ => inferInstanceAs (Decidable (_ ∧ _))

theorem namesAgain_eq_iff {e : Element} : e.namesAgain = e.names ↔ e.NamesKept := by
  rw [Element.namesAgain, Element.names, Prod.mk.injEq, again_eq_self_iff, List.map_inj_left,
    Element.NamesKept]
  simp only [keyAgain_eq_self_iff]

/-- Laying a document out keeps its names if and only if it keeps those of each element. -/
theorem keepsNames_iff {text : String} {root : Tree} (hroot : readDocument? text = some root)
    (hwell : ∀ e ∈ root.elements, e.scope.WellDeclared) {layOut? : String → Option String}
    (h : layOut? ∈ [minify?, prettyPrint?]) :
    KeepsNames layOut? text ↔ ∀ e ∈ root.elements, e.NamesKept := by
  obtain ⟨depth?, spaces, hspaces, hlayOut⟩ := layOut?_eq h
  have hsound := sound_of_readDocument? hroot
  have hread := readDocument?_laidOut hsound hwell depth? hspaces
  have hnames : (root.again [] [] depth?).elements.map Element.names
      = root.elements.map Element.names ↔ ∀ e ∈ root.elements, e.NamesKept := by
    rw [names_again, List.map_inj_left]
    simp only [namesAgain_eq_iff]
  constructor
  · rintro ⟨root₁, out, root', hroot₁, hout, hroot', hsame⟩
    obtain rfl := Option.some.inj (hroot.symm.trans hroot₁)
    obtain rfl := Option.some.inj ((hlayOut text root hroot).symm.trans hout)
    rw [hread, Option.ite_none_right_eq_some, Option.some.injEq] at hroot'
    obtain ⟨-, rfl⟩ := hroot'
    exact hnames.1 hsame
  · intro hkept
    have hdistinct : ∀ e ∈ root.elements, e.Distinct := by
      intro e he
      obtain ⟨around, hsound⟩ := Tree.Every.elements root hsound.1 e he
      have hkeys : e.attributes.map (fun a => e.scope.keyAgain a.1) = e.attributes.map Prod.fst :=
        congrArg Prod.snd (namesAgain_eq_iff.2 (hkept e he))
      rw [Element.Distinct, hkeys]
      exact hsound.nodup
    rw [if_pos hdistinct] at hread
    exact ⟨root, _, _, hroot, hlayOut text root hroot, hread, hnames.2 hkept⟩

/-- An attribute whose prefix is the only declaration for its namespace keeps its name. -/
theorem keepsNames_iff_prefixed :
    let text := "<a xmlns=\"u\" xmlns:p=\"v\" p:x=\"1\"><p:b/></a>"
    ∃ root, readDocument? text = some root ∧ (∀ e ∈ root.elements, e.scope.WellDeclared) ∧
      minify? ∈ [minify?, prettyPrint?] ∧ KeepsNames minify? text := by
  intro text
  have hsome : (readDocument? text).isSome := by decide +kernel
  have hwell : ∀ root ∈ readDocument? text, ∀ e ∈ root.elements, e.scope.WellDeclared := by
    decide +kernel
  have hkept : ∀ root ∈ readDocument? text, ∀ e ∈ root.elements, e.NamesKept := by decide +kernel
  have hmem : minify? ∈ [minify?, prettyPrint?] := List.mem_cons_self
  obtain ⟨root, hroot⟩ := Option.isSome_iff_exists.1 hsome
  exact ⟨root, hroot, hwell root hroot, hmem,
    (keepsNames_iff hroot (hwell root hroot) hmem).2 (hkept root hroot)⟩

theorem not_keepsNames {layOut? : String → Option String} {text out : String}
    (hout : layOut? text = some out)
    (hlost : ∀ root ∈ readDocument? text, ∀ root' ∈ readDocument? out,
      root'.elements.map Element.names ≠ root.elements.map Element.names) :
    ¬ KeepsNames layOut? text := by
  rintro ⟨root, out', root', hroot, hout', hroot', hkept⟩
  obtain rfl := Option.some.inj (hout.symm.trans hout')
  exact hlost root hroot root' hroot' hkept

/-- An attribute loses its namespace if the default namespace is the same and declared before the
prefix. If an attribute of that name has no namespace, what is written is no document. -/
theorem not_keepsNames_default :
    let text := "<a xmlns=\"u\" xmlns:p=\"u\" x=\"0\" p:x=\"1\"/>"
    let out := "<a xmlns=\"u\" xmlns:p=\"u\" x=\"0\" x=\"1\"/>"
    (readDocument? text).isSome ∧ minify? text = some out ∧ (readDocument? out).isNone ∧
      ¬ KeepsNames minify? text ∧
      ¬ KeepsNames minify? "<a xmlns=\"u\" xmlns:p=\"u\" p:x=\"1\"/>" := by
  intro text out
  have hread : (readDocument? text).isSome := by decide +kernel
  have hout : minify? text = some out := by decide +kernel
  have hnone : (readDocument? out).isNone := by decide +kernel
  have halone : minify? "<a xmlns=\"u\" xmlns:p=\"u\" p:x=\"1\"/>"
      = some "<a xmlns=\"u\" xmlns:p=\"u\" x=\"1\"/>" := by decide +kernel
  refine ⟨hread, hout, hnone, not_keepsNames hout ?_, not_keepsNames halone ?_⟩
  · rw [Option.isNone_iff_eq_none.1 hnone]
    exact fun _ _ _ h => by cases h
  · decide +kernel

end ProgramDiagram.Xml
