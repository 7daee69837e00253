import ProgramDiagram.Proofs.Text.Lines
import ProgramDiagram.Xml.Escape
import ProgramDiagram.Xml.Reference

/-!
# Reading what is escaped

Five characters are escaped. The reader gives them back, but it still takes carriage returns, line
feeds and tabs for layout, as these are written as they are.

* `pieces?_escaped`: the references of an escaped text are those that escaping has put there;
* `textAgain`, `valueAgain`: what is read of an escaped text and of an escaped attribute value;
* `textAgain_eq_self_iff`, `valueAgain_eq_self_iff`: the texts and values that stay as they are.
-/

namespace ProgramDiagram.Xml

/-! ## Escaped characters -/

/-- The characters that are written as references. -/
def isMarked (c : Char) : Bool := c = '&' || c = '<' || c = '>' || c = '"' || c = '\''

/-- The reference for a character, without its ends. -/
def referenceName (c : Char) : List Char :=
  if c = '&' then "amp".toList
  else if c = '<' then "lt".toList
  else if c = '>' then "gt".toList
  else if c = '"' then "quot".toList
  else "#39".toList

theorem isMarked_cases {c : Char} (h : isMarked c) :
    c = '&' ∨ c = '<' ∨ c = '>' ∨ c = '"' ∨ c = '\'' := by
  simpa [isMarked, or_assoc] using h

theorem escapeChar_of_marked {c : Char} (h : isMarked c) :
    escapeChar c = '&' :: referenceName c ++ [';'] := by
  obtain rfl | rfl | rfl | rfl | rfl := isMarked_cases h <;> rfl

theorem ne_ampersand_of_not_marked {c : Char} (h : isMarked c = false) : c ≠ '&' := by
  rintro rfl
  cases h

theorem escapeChar_of_not_marked {c : Char} (h : isMarked c = false) : escapeChar c = [c] := by
  simp only [isMarked, Bool.or_eq_false_iff, decide_eq_false_iff_not] at h
  simp [escapeChar, h]

theorem referenced?_referenceName {c : Char} (h : isMarked c) :
    referenced? (referenceName c) = some c := by
  obtain rfl | rfl | rfl | rfl | rfl := isMarked_cases h <;> decide

theorem semicolon_not_mem_referenceName (c : Char) : ';' ∉ referenceName c := by
  unfold referenceName
  split_ifs <;> decide

theorem not_mem_escapeChar {c : Char} (hc : c ∈ ['<', '>', '"', '\'']) (d : Char) :
    c ∉ escapeChar d := by
  by_cases hd : isMarked d
  · have hname : c ∉ '&' :: referenceName d ++ [';'] := by
      simp only [List.mem_cons, List.not_mem_nil, or_false] at hc
      unfold referenceName
      obtain rfl | rfl | rfl | rfl := hc <;> split_ifs <;> decide
    rwa [escapeChar_of_marked hd]
  · rw [Bool.not_eq_true] at hd
    rw [escapeChar_of_not_marked hd, List.mem_singleton]
    rintro rfl
    simp only [List.mem_cons, List.not_mem_nil, or_false] at hc
    obtain rfl | rfl | rfl | rfl := hc <;> simp [isMarked] at hd

/-- A text as it is written. -/
def escaped (cs : List Char) : List Char := cs.flatMap escapeChar

theorem toList_escape (text : String) : (escape text).toList = escaped text.toList :=
  String.toList_ofList

theorem escaped_cons (c : Char) (cs : List Char) : escaped (c :: cs) = escapeChar c ++ escaped cs :=
  List.flatMap_cons

theorem escaped_append (as bs : List Char) : escaped (as ++ bs) = escaped as ++ escaped bs :=
  List.flatMap_append

theorem escaped_eq_nil_iff {cs : List Char} : escaped cs = [] ↔ cs = [] := by
  cases cs with
  | nil => simp [escaped]
  | cons c cs =>
    by_cases hc : isMarked c
    · simp [escaped, escapeChar_of_marked hc]
    · simp [escaped, escapeChar_of_not_marked (Bool.not_eq_true _ ▸ hc)]

/-- Escaped text has no characters that end a tag or a value. -/
theorem not_mem_escaped {c : Char} (hc : c ∈ ['<', '>', '"', '\'']) (cs : List Char) :
    c ∉ escaped cs := by
  rw [escaped, List.mem_flatMap]
  rintro ⟨d, -, hd⟩
  exact not_mem_escapeChar hc d hd

theorem not_mem_escape {c : Char} (hc : c ∈ ['<', '>', '"', '\'']) (text : String) :
    c ∉ (escape text).toList :=
  toList_escape text ▸ not_mem_escaped hc _

/-- Escaping neither brings in characters that no document may have nor takes them away. -/
theorem all_isDocumentChar_escaped (cs : List Char) :
    (escaped cs).all isDocumentChar = cs.all isDocumentChar := by
  have hchar : ∀ c, (escapeChar c).all isDocumentChar = isDocumentChar c := by
    intro c
    by_cases hc : isMarked c
    · obtain rfl | rfl | rfl | rfl | rfl := isMarked_cases hc <;> decide
    · simp [escapeChar_of_not_marked (Bool.not_eq_true _ ▸ hc)]
  induction cs with
  | nil => rfl
  | cons c cs ih =>
    rw [escaped_cons, List.all_append, hchar, List.all_cons, ih]

/-! ## References -/

/-- How a character of an escaped text is written. -/
def writtenPiece (c : Char) : Piece := if isMarked c then .reference c else .plain c

theorem pieces?_reference {name : List Char} {c : Char} (hname : ';' ∉ name)
    (hc : referenced? name = some c) (rest : List Char) :
    pieces? ('&' :: name ++ ';' :: rest) = (pieces? rest).map (.reference c :: ·) := by
  have hinside : ∀ d ∈ name, decide (d ≠ ';') = true := by
    intro d hd
    simpa using fun h : d = ';' => hname (h ▸ hd)
  have htake : (name ++ ';' :: rest).takeWhile (· ≠ ';') = name :=
    takeWhile_append_stop hinside rfl rest
  have hdrop : (name ++ ';' :: rest).dropWhile (· ≠ ';') = ';' :: rest :=
    dropWhile_append_stop hinside rfl rest
  rw [List.cons_append, pieces?, if_pos rfl]
  split
  · rename_i hnone
    rw [hdrop] at hnone
    cases hnone
  · rename_i after hsome
    rw [hdrop, List.cons.injEq] at hsome
    obtain ⟨-, rfl⟩ := hsome
    rw [htake, hc]
    cases pieces? rest <;> rfl

theorem pieces?_plain {c : Char} (hc : c ≠ '&') (rest : List Char) :
    pieces? (c :: rest) = (pieces? rest).map (.plain c :: ·) := by
  rw [pieces?, if_neg hc]
  cases pieces? rest <;> rfl

/-- The references of an escaped text are those that escaping has put there. -/
theorem pieces?_escaped (cs : List Char) : pieces? (escaped cs) = some (cs.map writtenPiece) := by
  induction cs with
  | nil => rw [escaped, List.flatMap_nil, pieces?, List.map_nil]
  | cons c cs ih =>
    rw [escaped_cons, List.map_cons, writtenPiece]
    by_cases hc : isMarked c
    · rw [escapeChar_of_marked hc, List.append_assoc, List.singleton_append,
        pieces?_reference (semicolon_not_mem_referenceName c) (referenced?_referenceName hc), ih,
        if_pos hc]
      rfl
    · rw [Bool.not_eq_true] at hc
      rw [escapeChar_of_not_marked hc, List.singleton_append,
        pieces?_plain (ne_ampersand_of_not_marked hc), ih, hc]
      rfl

/-! ## Texts -/

/-- What a carriage return in an escaped text is read as, by whether a reference comes before it and
by the character that comes next. -/
def returnAgain (afterReference : Bool) : Option Char → List Char
  | none => if afterReference then ['\r'] else ['\n']
  | some next => if isMarked next then ['\r'] else if next = '\n' then [] else ['\n']

theorem returnAgain_cases (afterReference : Bool) (next : Option Char) :
    returnAgain afterReference next = [] ∨ returnAgain afterReference next = ['\r'] ∨
      returnAgain afterReference next = ['\n'] := by
  cases next with
  | none => cases afterReference <;> simp [returnAgain]
  | some next =>
    rw [returnAgain]
    split_ifs <;> simp

/-- What is read of an escaped text. -/
def textAgain (afterReference : Bool) : List Char → List Char
  | [] => []
  | c :: cs =>
    (if c = '\r' then returnAgain afterReference cs.head? else [c]) ++ textAgain (isMarked c) cs

theorem textValue_written (afterReference : Bool) (cs : List Char) :
    textValue afterReference (cs.map writtenPiece) = textAgain afterReference cs := by
  induction cs generalizing afterReference with
  | nil => rfl
  | cons c cs ih =>
    rw [List.map_cons, textAgain, ← ih]
    by_cases hc : isMarked c
    · have hreturn : c ≠ '\r' := by
        rintro rfl
        simp [isMarked] at hc
      rw [writtenPiece, if_pos hc, textValue, if_neg hreturn, hc]
      rfl
    · rw [Bool.not_eq_true] at hc
      rw [writtenPiece, hc, if_neg Bool.false_ne_true]
      by_cases hreturn : c = '\r'
      · subst hreturn
        rw [if_pos rfl]
        cases cs with
        | nil => cases afterReference <;> rfl
        | cons next rest =>
          rw [List.map_cons, List.head?_cons, returnAgain, writtenPiece]
          by_cases hnext : isMarked next
          · simp [hnext, textValue]
          · by_cases hfeed : next = '\n'
            · subst hfeed
              simp [isMarked, textValue]
            · simp [hnext, hfeed, textValue]
      · rw [if_neg hreturn, textValue]
        · rfl
        all_goals simp [hreturn]

theorem length_textAgain_le (afterReference : Bool) (cs : List Char) :
    (textAgain afterReference cs).length ≤ cs.length := by
  induction cs generalizing afterReference with
  | nil => simp [textAgain]
  | cons c cs ih =>
    have hrest := ih (isMarked c)
    rw [textAgain, List.length_append, List.length_cons]
    split
    · obtain h | h | h := returnAgain_cases afterReference cs.head? <;> rw [h] <;>
        simp only [List.length_nil, List.length_singleton] <;> omega
    · rw [List.length_singleton]
      omega

/-- Whether all characters of a text have a property that line ends have. -/
theorem all_textAgain {p : Char → Bool} (hreturn : p '\r') (hfeed : p '\n')
    (afterReference : Bool) (cs : List Char) :
    (textAgain afterReference cs).all p = cs.all p := by
  induction cs generalizing afterReference with
  | nil => rfl
  | cons c cs ih =>
    have hagain : ∀ next, (returnAgain afterReference next).all p = true := by
      intro next
      obtain h | h | h := returnAgain_cases afterReference next <;> simp [h, hreturn, hfeed]
    rw [textAgain, List.all_append, ih, List.all_cons]
    split
    · rename_i hc
      rw [hagain, hc, hreturn]
    · simp

/-- Reading once more changes nothing more. -/
theorem textAgain_textAgain (afterReference : Bool) (cs : List Char) :
    textAgain afterReference (textAgain afterReference cs) = textAgain afterReference cs := by
  induction cs generalizing afterReference with
  | nil => rfl
  | cons c cs ih =>
    have hrest := ih (isMarked c)
    by_cases hc : c = '\r'
    · subst hc
      rw [textAgain, if_pos rfl]
      cases cs with
      | nil => cases afterReference <;> rfl
      | cons next rest =>
        have hplain : isMarked '\r' = false := rfl
        rw [hplain] at hrest ⊢
        rw [List.head?_cons, returnAgain]
        by_cases hnext : isMarked next
        · have hkept : next ≠ '\r' := by
            rintro rfl
            simp [isMarked] at hnext
          have hhead : (textAgain false (next :: rest)).head? = some next := by
            rw [textAgain, if_neg hkept]
            rfl
          rw [if_pos hnext, List.singleton_append, textAgain, if_pos rfl, hhead, returnAgain,
            if_pos hnext, hplain, hrest]
          rfl
        · rw [if_neg hnext]
          split
          · rename_i hfeed
            subst hfeed
            have hfrom : ∀ cs,
                textAgain afterReference ('\n' :: cs) = textAgain false ('\n' :: cs) :=
              fun _ => rfl
            have hnew : textAgain false ('\n' :: rest) = '\n' :: textAgain false rest := rfl
            rw [List.nil_append, hnew, hfrom, ← hnew, hrest]
          · have hnew : ∀ cs,
                textAgain afterReference (['\n'] ++ cs) = '\n' :: textAgain false cs :=
              fun _ => rfl
            rw [hnew, hrest]
            rfl
    · rw [textAgain, if_neg hc, List.singleton_append, textAgain, if_neg hc, hrest]
      rfl

/-- Whether each carriage return stands before a reference or ends the text after one. -/
def ReturnsKept (afterReference : Bool) (cs : List Char) : Prop :=
  ∀ before after, cs = before ++ '\r' :: after →
    (∃ next ∈ after.head?, isMarked next) ∨
      after = [] ∧ (before.getLast?.map isMarked).getD afterReference

theorem returnsKept_cons {afterReference : Bool} {c : Char} {cs : List Char} :
    ReturnsKept afterReference (c :: cs) ↔
      (c = '\r' → returnAgain afterReference cs.head? = ['\r']) ∧
        ReturnsKept (isMarked c) cs := by
  have hlast : ∀ before : List Char, ((c :: before).getLast?.map isMarked).getD afterReference
      = (before.getLast?.map isMarked).getD (isMarked c) := by
    intro before
    cases before with
    | nil => rfl
    | cons d before => rw [List.getLast?_cons_cons]; simp [List.getLast?_eq_some_getLast]
  have hhead : returnAgain afterReference cs.head? = ['\r'] ↔
      (∃ next ∈ cs.head?, isMarked next) ∨ cs = [] ∧ afterReference := by
    cases cs with
    | nil => cases afterReference <;> simp [returnAgain]
    | cons next rest =>
      simp only [List.head?_cons, returnAgain]
      split_ifs <;> simp_all
  constructor
  · intro h
    refine ⟨fun hc => hhead.2 ?_, fun before after hcs => ?_⟩
    · simpa using h [] cs (by rw [hc]; rfl)
    · simpa only [hlast] using h (c :: before) after (by rw [hcs]; rfl)
  · rintro ⟨hfirst, hrest⟩ before after hcs
    cases before with
    | nil =>
      obtain ⟨rfl, rfl⟩ := List.cons.inj hcs
      simpa using hhead.1 (hfirst rfl)
    | cons d before =>
      obtain ⟨rfl, rfl⟩ := List.cons.inj hcs
      rw [hlast]
      exact hrest before after rfl

/-- The texts that stay as they are when they are written and read. -/
theorem textAgain_eq_self_iff {afterReference : Bool} {cs : List Char} :
    textAgain afterReference cs = cs ↔ ReturnsKept afterReference cs := by
  induction cs generalizing afterReference with
  | nil => simp [textAgain, ReturnsKept]
  | cons c cs ih =>
    rw [returnsKept_cons, textAgain, ← ih]
    by_cases hc : c = '\r'
    · subst hc
      have hplain : isMarked '\r' = false := rfl
      simp only [if_true, true_implies]
      constructor
      · intro h
        have hlength := congrArg List.length h
        have hle := length_textAgain_le false cs
        have hone : returnAgain afterReference cs.head? = ['\r'] := by
          obtain hagain | hagain | hagain := returnAgain_cases afterReference cs.head?
          · rw [hagain, hplain] at hlength
            simp only [List.nil_append, List.length_cons] at hlength
            omega
          · exact hagain
          · rw [hagain] at h
            cases h
        rw [hone, List.singleton_append, List.cons.injEq] at h
        exact ⟨hone, h.2⟩
      · rintro ⟨hone, hrest⟩
        rw [hone, hrest]
        rfl
    · simp [hc]

/-! ## Attribute values -/

/-- Whether a value has no tabs and no line ends. -/
def isFlat (cs : List Char) : Bool := cs.all fun c => c != '\t' && c != '\n' && c != '\r'

/-- What is read of an escaped attribute value. -/
def valueAgain : List Char → List Char
  | [] => []
  | c :: cs =>
    (if c = '\r' ∧ cs.head? = some '\n' then []
      else if c = '\t' ∨ c = '\n' ∨ c = '\r' then [' '] else [c]) ++ valueAgain cs

theorem attributeValue_written (cs : List Char) :
    attributeValue (cs.map writtenPiece) = valueAgain cs := by
  induction cs with
  | nil => rfl
  | cons c cs ih =>
    rw [List.map_cons, valueAgain, ← ih]
    by_cases hc : isMarked c
    · rw [writtenPiece, if_pos hc, attributeValue]
      obtain rfl | rfl | rfl | rfl | rfl := isMarked_cases hc <;> rfl
    · rw [writtenPiece, if_neg hc]
      by_cases hreturn : c = '\r'
      · subst hreturn
        cases cs with
        | nil => rfl
        | cons next rest =>
          rw [List.map_cons, List.head?_cons, writtenPiece]
          by_cases hfeed : next = '\n'
          · subst hfeed
            rfl
          · by_cases hnext : isMarked next <;> simp [hnext, hfeed, attributeValue]
      · rw [attributeValue]
        · by_cases hlayout : c = '\t' ∨ c = '\n' <;> simp [hreturn, hlayout]
        all_goals simp [hreturn]

theorem isFlat_valueAgain (cs : List Char) : isFlat (valueAgain cs) := by
  induction cs with
  | nil => rfl
  | cons c cs ih =>
    rw [valueAgain, isFlat, List.all_append, ← isFlat, ← isFlat, ih, Bool.and_true]
    split_ifs with _ hspace
    · rfl
    · rfl
    · simpa [isFlat, not_or, and_assoc] using hspace

/-- The values that stay as they are when they are written and read. -/
theorem valueAgain_eq_self_iff {cs : List Char} : valueAgain cs = cs ↔ isFlat cs := by
  refine ⟨fun h => h ▸ isFlat_valueAgain cs, fun h => ?_⟩
  induction cs with
  | nil => rfl
  | cons c cs ih =>
    simp only [isFlat, List.all_cons, Bool.and_eq_true, bne_iff_ne, ne_eq] at h
    obtain ⟨⟨⟨htab, hfeed⟩, hreturn⟩, hrest⟩ := h
    rw [valueAgain, ih hrest]
    simp [htab, hfeed, hreturn]

/-- A value without spaces has no layout to lose. -/
theorem valueAgain_ne {cs fixed : List Char} (h : cs ≠ fixed) (hfixed : ' ' ∉ fixed) :
    valueAgain cs ≠ fixed := by
  intro hagain
  have hspace : ' ' ∉ valueAgain cs := hagain ▸ hfixed
  suffices valueAgain cs = cs from h (this ▸ hagain)
  clear h hagain
  induction cs with
  | nil => rfl
  | cons c cs ih =>
    rw [valueAgain, List.mem_append, not_or] at hspace
    rw [valueAgain, ih hspace.2]
    have hfirst := hspace.1
    split_ifs at hfirst ⊢ with hpair hblank
    · exfalso
      -- a line feed that comes next is read as a space
      obtain ⟨rfl, hnext⟩ := hpair
      cases cs with
      | nil => cases hnext
      | cons next rest =>
        cases hnext
        exact hspace.2 (by simp [valueAgain])
    · simp at hfirst
    · rfl

end ProgramDiagram.Xml
