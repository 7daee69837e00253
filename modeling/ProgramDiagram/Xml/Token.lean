import ProgramDiagram.Xml.Name
import ProgramDiagram.Xml.Reference

/-!
# Tokens of a document

* `token?`: the token that a text starts with and what follows it.
* `length_lt_of_token?`: a token takes at least one character.
-/

namespace ProgramDiagram.Xml

/-- A tag, a text, or a note: a comment or processing instruction, which has no effect. -/
inductive Token where
  | start (name : QName) (attributes : List (QName × String)) (closed : Bool)
  | finish (name : QName)
  | text (value : String)
  | note

/-- The document characters before the first occurrence of `stop`, and what follows it. -/
def splitBefore? (stop : List Char) : List Char → Option (List Char × List Char)
  | [] => none
  | c :: cs =>
    if stop.isPrefixOf (c :: cs) then some ([], (c :: cs).drop stop.length)
    else if isDocumentChar c then
      (splitBefore? stop cs).map fun (before, after) => (c :: before, after)
    else none

theorem length_le_of_splitBefore? {stop cs before after : List Char}
    (h : splitBefore? stop cs = some (before, after)) : after.length ≤ cs.length := by
  induction cs generalizing before after with
  | nil => simp [splitBefore?] at h
  | cons c cs ih =>
    simp only [splitBefore?] at h
    split at h
    · simp only [Option.some.injEq, Prod.mk.injEq] at h
      rw [← h.2, List.length_drop]
      omega
    · split at h
      · simp only [Option.map_eq_some_iff, Prod.mk.injEq] at h
        obtain ⟨⟨b, a⟩, hba, _, rfl⟩ := h
        exact Nat.le_succ_of_le (ih hba)
      · simp at h

def occursIn (run : List Char) : List Char → Bool
  | [] => run.isEmpty
  | c :: cs => run.isPrefixOf (c :: cs) || occursIn run cs

/-- What follows a comment whose opening is read. Two hyphens may stand at its end only. -/
def afterComment? (cs : List Char) : Option (List Char) := do
  let (comment, rest) ← splitBefore? "-->".toList cs
  if occursIn "--".toList comment || comment.getLast? = some '-' then none else some rest

/-- What follows a processing instruction whose opening is read. -/
def afterInstruction? (cs : List Char) : Option (List Char) := do
  if "xml ".toList.isPrefixOf cs || !startsName cs then none
  else
    let (_, rest) ← splitBefore? "?>".toList (cs.dropWhile isNameChar)
    some rest

/-- An attribute with its value as written, and what follows it. -/
def rawAttribute? (cs : List Char) : Option (QName × List Char × List Char) := do
  let (name, cs) ← qname? cs
  match skipSpaces cs with
  | '=' :: cs =>
    match skipSpaces cs with
    | quote :: cs =>
      if quote ≠ '"' ∧ quote ≠ '\'' then none
      else
        let inside (c : Char) : Bool := c ≠ quote && c ≠ '<'
        match cs.dropWhile inside with
        | [] => none
        | c :: rest =>
          if c = quote ∧ (cs.takeWhile inside).all isDocumentChar then
            some (name, cs.takeWhile inside, rest)
          else none
    | [] => none
  | _ => none

theorem length_lt_of_rawAttribute? {cs value rest : List Char} {name : QName}
    (h : rawAttribute? cs = some (name, value, rest)) : rest.length < cs.length := by
  simp only [rawAttribute?, Option.bind_eq_bind, Option.bind_eq_some_iff] at h
  obtain ⟨⟨n, afterName⟩, hn, h⟩ := h
  have h0 := length_le_of_qname? hn
  split at h
  case h_2 => simp at h
  rename_i afterEq he
  have h1 := length_skipSpaces_le afterName
  rw [he, List.length_cons] at h1
  split at h
  case h_2 => simp at h
  rename_i quote afterQuote hq
  have h2 := length_skipSpaces_le afterEq
  rw [hq, List.length_cons] at h2
  split at h
  · simp at h
  · split at h
    · simp at h
    · rename_i c afterValue hv
      have h3 :=
        length_dropWhile_le (p := fun c => decide (c ≠ quote) && decide (c ≠ '<')) afterQuote
      rw [hv, List.length_cons] at h3
      split at h
      · simp only [Option.some.injEq, Prod.mk.injEq] at h
        obtain ⟨_, _, rfl⟩ := h
        omega
      · simp at h

/-- The rest of a start tag: its attributes, whether it closes its element, and what follows. -/
def attributes? (cs : List Char) : Option (List (QName × String) × Bool × List Char) :=
  match skipSpaces cs with
  | '/' :: '>' :: rest => some ([], true, rest)
  | '>' :: rest => some ([], false, rest)
  | _ =>
    if !startsSpace cs then none
    else
      match h : rawAttribute? (skipSpaces cs) with
      | none => none
      | some (name, raw, rest) => do
        let ps ← pieces? raw
        have : rest.length < cs.length :=
          Nat.lt_of_lt_of_le (length_lt_of_rawAttribute? h) (length_skipSpaces_le cs)
        let (others, closed, after) ← attributes? rest
        some ((name, String.ofList (attributeValue ps)) :: others, closed, after)
termination_by cs.length

theorem length_lt_of_attributes? {cs rest : List Char} {attributes : List (QName × String)}
    {closed : Bool} (h : attributes? cs = some (attributes, closed, rest)) :
    rest.length < cs.length := by
  fun_induction attributes? cs generalizing attributes closed rest with
  | case1 cs after he =>
    simp only [Option.some.injEq, Prod.mk.injEq] at h
    obtain ⟨_, _, rfl⟩ := h
    have h0 := length_skipSpaces_le cs
    rw [he, List.length_cons, List.length_cons] at h0
    omega
  | case2 cs after he =>
    simp only [Option.some.injEq, Prod.mk.injEq] at h
    obtain ⟨_, _, rfl⟩ := h
    have h0 := length_skipSpaces_le cs
    rw [he, List.length_cons] at h0
    omega
  | case3 => simp at h
  | case4 => simp at h
  | case5 cs _ _ _ after hraw _ _ ih =>
    simp only [Option.bind_eq_bind, Option.bind_eq_some_iff] at h
    obtain ⟨_, _, ⟨others, c, a⟩, hrest, h⟩ := h
    simp only [Option.some.injEq, Prod.mk.injEq] at h
    obtain ⟨_, _, rfl⟩ := h
    have hlt : after.length < cs.length :=
      Nat.lt_of_lt_of_le (length_lt_of_rawAttribute? hraw) (length_skipSpaces_le cs)
    exact Nat.lt_trans (ih hrest) hlt

/-- The text before the next tag, and what follows it. -/
def text? (cs : List Char) : Option (Token × List Char) := do
  let raw := cs.takeWhile (· ≠ '<')
  if raw.isEmpty || !raw.all isDocumentChar || occursIn "]]>".toList raw then none
  else
    let ps ← pieces? raw
    some (.text (String.ofList (textValue false ps)), cs.dropWhile (· ≠ '<'))

/-- The token that a text starts with, and what follows it. -/
def token? : List Char → Option (Token × List Char)
  | '<' :: '!' :: '-' :: '-' :: cs => (afterComment? cs).map fun rest => (.note, rest)
  | '<' :: '!' :: cs => do
    if "[CDATA[".toList.isPrefixOf cs then
      let (data, rest) ← splitBefore? "]]>".toList (cs.drop 7)
      some (.text (String.ofList (textValue false (data.map .plain))), rest)
    else none
  | '<' :: '?' :: cs => (afterInstruction? cs).map fun rest => (.note, rest)
  | '<' :: '/' :: cs => do
    let (name, cs) ← qname? cs
    match skipSpaces cs with
    | '>' :: rest => some (.finish name, rest)
    | _ => none
  | '<' :: cs => do
    let (name, cs) ← qname? cs
    let (attributes, closed, rest) ← attributes? cs
    some (.start name attributes closed, rest)
  | cs => text? cs

theorem length_lt_of_token? {cs rest : List Char} {t : Token} (h : token? cs = some (t, rest)) :
    rest.length < cs.length := by
  unfold token? at h
  split at h
  · simp only [Option.map_eq_some_iff, Prod.mk.injEq] at h
    obtain ⟨_, h, _, rfl⟩ := h
    simp only [afterComment?, Option.bind_eq_bind, Option.bind_eq_some_iff] at h
    obtain ⟨⟨comment, after⟩, hs, h⟩ := h
    split at h
    · simp at h
    · simp only [Option.some.injEq] at h
      have := length_le_of_splitBefore? hs
      simp only [List.length_cons, ← h]
      omega
  · split at h
    · simp only [Option.bind_eq_bind, Option.bind_eq_some_iff, Option.some.injEq,
        Prod.mk.injEq] at h
      obtain ⟨⟨data, after⟩, hs, _, rfl⟩ := h
      have := length_le_of_splitBefore? hs
      simp only [List.length_cons, List.length_drop] at this ⊢
      omega
    · simp at h
  · rename_i cs
    simp only [Option.map_eq_some_iff, Prod.mk.injEq] at h
    obtain ⟨_, h, _, rfl⟩ := h
    simp only [afterInstruction?] at h
    split at h
    · simp at h
    · simp only [Option.bind_eq_bind, Option.bind_eq_some_iff, Option.some.injEq] at h
      obtain ⟨⟨data, after⟩, hs, rfl⟩ := h
      have h1 := length_le_of_splitBefore? hs
      have h2 := length_dropWhile_le (p := isNameChar) cs
      simp only [List.length_cons]
      omega
  · simp only [Option.bind_eq_bind, Option.bind_eq_some_iff] at h
    obtain ⟨⟨name, afterName⟩, hn, h⟩ := h
    have h0 := length_le_of_qname? hn
    split at h
    · rename_i he
      have h1 := length_skipSpaces_le afterName
      simp only [Option.some.injEq, Prod.mk.injEq] at h
      obtain ⟨_, rfl⟩ := h
      rw [he, List.length_cons] at h1
      simp only [List.length_cons]
      omega
    · simp at h
  · simp only [Option.bind_eq_bind, Option.bind_eq_some_iff, Option.some.injEq,
      Prod.mk.injEq] at h
    obtain ⟨⟨name, afterName⟩, hn, ⟨attributes, closed, after⟩, ha, _, rfl⟩ := h
    have h0 := length_le_of_qname? hn
    have h1 : after.length < afterName.length := length_lt_of_attributes? ha
    simp only [List.length_cons]
    omega
  · simp only [text?] at h
    split at h
    · simp at h
    · rename_i hraw
      simp only [Option.bind_eq_bind, Option.bind_eq_some_iff, Option.some.injEq,
        Prod.mk.injEq] at h
      obtain ⟨_, _, _, rfl⟩ := h
      cases cs with
      | nil => simp at hraw
      | cons c cs =>
        by_cases hc : c = '<'
        · simp [hc] at hraw
        · have h1 := length_dropWhile_le (p := fun c => decide (c ≠ '<')) cs
          rw [List.dropWhile_cons_of_pos (by simpa using hc), List.length_cons]
          omega

end ProgramDiagram.Xml
