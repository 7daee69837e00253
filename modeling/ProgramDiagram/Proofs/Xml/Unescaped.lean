import ProgramDiagram.Proofs.Xml.Escaped

/-!
# Undoing escapes

* `unescape`: a text with the written references replaced from left to right;
* `exists_reference_of_escaped`: every ampersand of an escaped text begins one of these references;
* `unescape_escape`: so escaping is undone, also where the text looks escaped before.
-/

namespace ProgramDiagram.Xml

/-- The references that are written for characters. -/
def writtenReferences : List String := ["&amp;", "&lt;", "&gt;", "&quot;", "&#39;"]

/-- The written references are replaced from left to right. The character that one stands for is not
looked at again, so that it begins no other reference. -/
def unescaped : List Char → List Char
  | '&' :: 'a' :: 'm' :: 'p' :: ';' :: rest => '&' :: unescaped rest
  | '&' :: 'l' :: 't' :: ';' :: rest => '<' :: unescaped rest
  | '&' :: 'g' :: 't' :: ';' :: rest => '>' :: unescaped rest
  | '&' :: 'q' :: 'u' :: 'o' :: 't' :: ';' :: rest => '"' :: unescaped rest
  | '&' :: '#' :: '3' :: '9' :: ';' :: rest => '\'' :: unescaped rest
  | c :: rest => c :: unescaped rest
  | [] => []

def unescape (text : String) : String := String.ofList (unescaped text.toList)

variable {c : Char} {before after : List Char}

/-! ## Ampersands -/

/-- What is written for a character has an ampersand only at the start of a reference. -/
theorem reference_of_escapeChar (h : escapeChar c = before ++ '&' :: after) :
    ∃ reference ∈ writtenReferences, reference.toList = '&' :: after := by
  by_cases hc : isMarked c
  · have hname : '&' ∉ referenceName c ++ [';'] := by
      obtain rfl | rfl | rfl | rfl | rfl := isMarked_cases hc <;> decide
    have hwritten : ∃ reference ∈ writtenReferences, reference.toList = escapeChar c := by
      obtain rfl | rfl | rfl | rfl | rfl := isMarked_cases hc <;> decide
    cases before with
    | nil => rwa [h] at hwritten
    | cons d before =>
      rw [escapeChar_of_marked hc, List.cons_append, List.cons_append, List.cons.injEq] at h
      exact absurd (h.2 ▸ List.mem_append_right before List.mem_cons_self) hname
  · rw [Bool.not_eq_true] at hc
    have hmem : '&' ∈ escapeChar c := h ▸ List.mem_append_right before List.mem_cons_self
    rw [escapeChar_of_not_marked hc, List.mem_singleton] at hmem
    exact absurd hmem.symm (ne_ampersand_of_not_marked hc)

theorem exists_reference_of_escaped {cs : List Char} (h : escaped cs = before ++ '&' :: after) :
    ∃ reference ∈ writtenReferences, reference.toList <+: '&' :: after := by
  induction cs generalizing before with
  | nil => simp [escaped] at h
  | cons c cs ih =>
    rw [escaped_cons] at h
    rcases List.append_eq_append_iff.1 h with ⟨between, -, hrest⟩ | ⟨last, hchar, hafter⟩
    · exact ih hrest
    · cases last with
      | nil =>
        have hrest : escaped cs = [] ++ '&' :: after := hafter.symm
        exact ih hrest
      | cons d last =>
        -- the ampersand is in what is written for `c`
        rw [List.cons_append, List.cons.injEq] at hafter
        obtain ⟨rfl, rfl⟩ := hafter
        obtain ⟨reference, hmem, htext⟩ := reference_of_escapeChar hchar
        exact ⟨reference, hmem, by rw [htext, ← List.cons_append]; exact List.prefix_append ..⟩

/-! ## Reading back -/

theorem unescaped_escapeChar (c : Char) (rest : List Char) :
    unescaped (escapeChar c ++ rest) = c :: unescaped rest := by
  by_cases hc : isMarked c
  · obtain rfl | rfl | rfl | rfl | rfl := isMarked_cases hc <;> rfl
  · rw [Bool.not_eq_true] at hc
    rw [escapeChar_of_not_marked hc]
    simp [unescaped, ne_ampersand_of_not_marked hc]

theorem unescaped_escaped (cs : List Char) : unescaped (escaped cs) = cs := by
  induction cs with
  | nil => rfl
  | cons c cs ih => rw [escaped_cons, unescaped_escapeChar, ih]

theorem unescape_escape (text : String) : unescape (escape text) = text := by
  rw [unescape, toList_escape, unescaped_escaped, String.ofList_toList]

example : unescape (escape "&lt;") = "&lt;" ∧ unescape "&lt;" = "<" := by decide

/-- An escaped text has none of the other four marked characters, and ampersands only where one of
the written references begins. Replacing these gives the text back; so no two texts are escaped
alike, and texts may be escaped piece by piece. -/
theorem escape_undone :
    (∀ text : String, (∀ c ∈ ['<', '>', '"', '\''], c ∉ (escape text).toList) ∧
      (∀ before after, (escape text).toList = before ++ '&' :: after →
        ∃ reference ∈ writtenReferences, reference.toList <+: '&' :: after) ∧
      unescape (escape text) = text) ∧
    Function.Injective escape ∧ ∀ a b, escape (a ++ b) = escape a ++ escape b := by
  have hinverse : Function.LeftInverse unescape escape := unescape_escape
  refine ⟨fun text => ⟨fun c hc => not_mem_escape hc text, ?_, hinverse text⟩, hinverse.injective,
    escape_append⟩
  intro before after h
  rw [toList_escape] at h
  exact exists_reference_of_escaped h

/-- The ampersand of a text that looks like a reference. -/
theorem escape_undone_reference :
    '<' ∈ ['<', '>', '"', '\''] ∧ '<' ∉ (escape "<&lt;").toList ∧
      (escape "<&lt;").toList = "&lt;".toList ++ '&' :: "amp;lt;".toList ∧
      ∃ reference ∈ writtenReferences, reference.toList <+: '&' :: "amp;lt;".toList := by
  have hmem : '<' ∈ ['<', '>', '"', '\''] := by decide
  have hsplit : (escape "<&lt;").toList = "&lt;".toList ++ '&' :: "amp;lt;".toList := by decide
  obtain ⟨hclean, hampersands, -⟩ := escape_undone.1 "<&lt;"
  exact ⟨hmem, hclean _ hmem, hsplit, hampersands _ _ hsplit⟩

end ProgramDiagram.Xml
