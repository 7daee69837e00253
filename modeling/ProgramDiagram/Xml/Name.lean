import ProgramDiagram.Xml.Character

/-!
# Qualified names

A name is a local part, with a qualifier before a colon if it has one. An empty qualifier counts as
none.
-/

namespace ProgramDiagram.Xml

/-- A name as written. -/
structure QName where
  qualifier : String
  localPart : String
deriving DecidableEq

/-- Whether a part of a name starts as names do. -/
def startsName : List Char → Bool
  | [] => false
  | c :: _ => isNameStart c

/-- The qualified name that a run of name characters spells. -/
def QName.ofRun? (run : List Char) : Option QName :=
  let qualifier := run.takeWhile (· ≠ ':')
  match run.dropWhile (· ≠ ':') with
  | [] => if startsName qualifier then some ⟨"", String.ofList qualifier⟩ else none
  | _ :: localPart =>
    if (qualifier.isEmpty || startsName qualifier) && startsName localPart
        && !localPart.contains ':'
    then some ⟨String.ofList qualifier, String.ofList localPart⟩
    else none

/-- A qualified name and what follows it. -/
def qname? (cs : List Char) : Option (QName × List Char) :=
  (QName.ofRun? (cs.takeWhile isNameChar)).map fun name => (name, cs.dropWhile isNameChar)

theorem length_le_of_qname? {cs rest : List Char} {name : QName}
    (h : qname? cs = some (name, rest)) : rest.length ≤ cs.length := by
  simp only [qname?, Option.map_eq_some_iff, Prod.mk.injEq] at h
  obtain ⟨_, _, _, rfl⟩ := h
  exact length_dropWhile_le cs

end ProgramDiagram.Xml
