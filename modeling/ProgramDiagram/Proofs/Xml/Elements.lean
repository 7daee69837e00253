import ProgramDiagram.Xml.Layout

/-!
# The elements of a tree

* `Tree.elements`: the elements of a tree, owners before what they hold;
* `Tree.characters`: the text of a tree without its tags;
* `Tree.Every`: a property of all elements and texts of a tree.
-/

namespace ProgramDiagram.Xml

/-- An element with its content. -/
structure Element where
  name : Name
  scope : Scope
  attributes : List (Name × String)
  content : List Tree

namespace Element

/-- The names of an element and of its attributes. -/
def names (e : Element) : Name × List Name := (e.name, e.attributes.map Prod.fst)

/-- The values of the attributes of an element. -/
def values (e : Element) : List String := e.attributes.map Prod.snd

end Element

mutual

/-- The elements of a tree, owners before what they hold. -/
def Tree.elements : Tree → List Element
  | .element name scope attributes content =>
    ⟨name, scope, attributes, content⟩ :: contentElements content
  | .text _ => []

def contentElements : List Tree → List Element
  | [] => []
  | tree :: rest => tree.elements ++ contentElements rest

end

mutual

/-- The text of a tree without its tags. -/
def Tree.characters : Tree → List Char
  | .element _ _ _ content => contentCharacters content
  | .text value => value.toList

def contentCharacters : List Tree → List Char
  | [] => []
  | tree :: rest => tree.characters ++ contentCharacters rest

end

theorem contentElements_append (as bs : List Tree) :
    contentElements (as ++ bs) = contentElements as ++ contentElements bs := by
  induction as with
  | nil => rfl
  | cons a as ih => rw [List.cons_append, contentElements, ih, contentElements, List.append_assoc]

theorem contentCharacters_append (as bs : List Tree) :
    contentCharacters (as ++ bs) = contentCharacters as ++ contentCharacters bs := by
  induction as with
  | nil => rfl
  | cons a as ih =>
    rw [List.cons_append, contentCharacters, ih, contentCharacters, List.append_assoc]

section Every

variable (P : Scope → Element → Prop) (Q : String → Prop)

mutual

/-- All elements of a tree have a property, given what is in scope around them, and so have its
texts. -/
def Tree.Every (outer : Scope) : Tree → Prop
  | .element name scope attributes content =>
    P outer ⟨name, scope, attributes, content⟩ ∧ ContentEvery scope content
  | .text value => Q value

def ContentEvery (scope : Scope) : List Tree → Prop
  | [] => True
  | tree :: rest => tree.Every scope ∧ ContentEvery scope rest

end

variable {P Q}

theorem contentEvery_iff {scope : Scope} {trees : List Tree} :
    ContentEvery P Q scope trees ↔ ∀ tree ∈ trees, tree.Every P Q scope := by
  induction trees with
  | nil => simp [ContentEvery]
  | cons tree trees ih => rw [ContentEvery, ih, List.forall_mem_cons]

mutual

theorem Tree.Every.elements {outer : Scope} : (tree : Tree) → tree.Every P Q outer →
    ∀ e ∈ tree.elements, ∃ around, P around e
  | .element _ _ _ content, h => List.forall_mem_cons.2
    ⟨⟨outer, h.1⟩, ContentEvery.elements content h.2⟩
  | .text _, _ => List.forall_mem_nil _

theorem ContentEvery.elements {scope : Scope} : (trees : List Tree) →
    ContentEvery P Q scope trees → ∀ e ∈ contentElements trees, ∃ around, P around e
  | [], _ => List.forall_mem_nil _
  | tree :: rest, h => List.forall_mem_append.2
    ⟨Tree.Every.elements tree h.1, ContentEvery.elements rest h.2⟩

end

end Every

end ProgramDiagram.Xml
