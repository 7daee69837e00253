import ProgramDiagram.Proofs.Outline.Placement

/-!
# The wording of a statement

* `Directs`: a body that begins with a colon, taken apart into word and argument.
* `WellWritten`: a body that is a process or a known command with the argument it needs.
* `directs_iff`, `wellWritten_iff`: how the reader understands such bodies.
* `turn_indented`: how it reads a statement that stands on one line.
-/

namespace ProgramDiagram.Outline

/-- `body` is a colon and a word up to the first space or tab. What comes from there on is the
argument, without the white space at its ends. -/
def Directs (body : List Char) (word : String) (argument : Option String) : Prop :=
  ∃ tail, body = ':' :: (word.toList ++ tail) ∧ (∀ c ∈ word.toList, c ≠ ' ' ∧ c ≠ '\t') ∧
    (tail = [] ∧ argument = none ∨
      ∃ c rest, tail = c :: rest ∧ (c = ' ' ∨ c = '\t') ∧
        argument = some (String.ofList (trim tail)))

/-- The words of the commands that need an argument. -/
def labelledWords : List String :=
  ["call", "terminal", "comment", "while", "dowhile", "if", "switch", "case"]

/-- A body after a colon is an `else` and nothing more, or another command with its argument. -/
def WellWritten (body : List Char) : Prop :=
  body.head? = some ':' →
    Directs body "else" none ∨
      ∃ word ∈ labelledWords, ∃ argument, argument ≠ "" ∧ Directs body word (some argument)

def Command.word : Command → String
  | call => "call"
  | terminal => "terminal"
  | comment => "comment"
  | whileLoop => "while"
  | doWhileLoop => "dowhile"
  | decision => "if"
  | switch => "switch"
  | elseBranch => "else"
  | case => "case"

theorem Command.ofWord?_word (c : Command) : Command.ofWord? c.word = some c := by
  cases c <;> rfl

theorem Command.eq_word_of_ofWord? {w : String} {c : Command} (h : Command.ofWord? w = some c) :
    w = c.word := by
  unfold Command.ofWord? at h
  split at h <;> cases h <;> rfl

theorem Command.endsWord_word (c : Command) : ∀ x ∈ c.word.toList, endsWord x = false := by
  have hall : c.word.toList.all (!endsWord ·) = true := by cases c <;> rfl
  simpa using hall

theorem Command.mem_labelledWords_iff {word : String} :
    word ∈ labelledWords ↔ ∃ c, c ≠ Command.elseBranch ∧ word = c.word := by
  constructor
  · intro h
    simp only [labelledWords, List.mem_cons, List.not_mem_nil, or_false] at h
    rcases h with rfl | rfl | rfl | rfl | rfl | rfl | rfl | rfl
    · exact ⟨.call, by decide, rfl⟩
    · exact ⟨.terminal, by decide, rfl⟩
    · exact ⟨.comment, by decide, rfl⟩
    · exact ⟨.whileLoop, by decide, rfl⟩
    · exact ⟨.doWhileLoop, by decide, rfl⟩
    · exact ⟨.decision, by decide, rfl⟩
    · exact ⟨.switch, by decide, rfl⟩
    · exact ⟨.case, by decide, rfl⟩
  · rintro ⟨c, hc, rfl⟩
    cases c with
    | elseBranch => exact absurd rfl hc
    | _ => simp [labelledWords, Command.word]

/-- The reader stops a word at the first space or tab. -/
theorem endsWord_eq_false_iff {c : Char} : endsWord c = false ↔ c ≠ ' ' ∧ c ≠ '\t' := by
  simp [endsWord]

theorem ofBody_append {c : Command} {tail : List Char} (h : ∀ x ∈ tail.head?, endsWord x) :
    Statement.ofBody (':' :: (c.word.toList ++ tail)) = .command c (argument? tail) := by
  have htake : (c.word.toList ++ tail).takeWhile (!endsWord ·) = c.word.toList := by
    rw [List.takeWhile_append_of_pos (by simpa using c.endsWord_word)]
    cases tail with
    | nil => simp
    | cons x rest => simp [h x rfl]
  have hdrop : (c.word.toList ++ tail).dropWhile (!endsWord ·) = tail := by
    rw [List.dropWhile_append_of_pos (by simpa using c.endsWord_word)]
    cases tail with
    | nil => rfl
    | cons x rest => simp [h x rfl]
  simp only [Statement.ofBody, htake, hdrop, String.ofList_toList, Command.ofWord?_word]

theorem directs_iff {body : List Char} {c : Command} {argument : Option String} :
    Directs body c.word argument ↔ Statement.ofBody body = .command c argument := by
  constructor
  · rintro ⟨tail, rfl, _, ⟨rfl, rfl⟩ | ⟨x, rest, rfl, hx, rfl⟩⟩
    · exact ofBody_append (by simp)
    · exact ofBody_append (by simpa [endsWord] using hx)
  · intro h
    unfold Statement.ofBody at h
    split at h
    · rename_i directive
      simp only at h
      split at h
      · rename_i c' hword
        cases h
        have hw := congrArg String.toList (Command.eq_word_of_ofWord? hword)
        rw [String.toList_ofList] at hw
        refine ⟨directive.dropWhile (!endsWord ·), ?_, ?_, ?_⟩
        · rw [← hw, List.takeWhile_append_dropWhile]
        · intro x hx
          exact endsWord_eq_false_iff.1 (c.endsWord_word x hx)
        · cases hd : directive.dropWhile (!endsWord ·) with
          | nil => exact .inl ⟨rfl, rfl⟩
          | cons x rest =>
            have hx : endsWord x := by
              have := List.head?_dropWhile_not (!endsWord ·) directive
              rw [hd] at this
              simpa using this
            exact .inr ⟨x, rest, rfl, by simpa [endsWord] using hx, rfl⟩
      · cases h
    · cases h

theorem ofBody_process {body : List Char} (h : body.head? ≠ some ':') :
    Statement.ofBody body = .process (String.ofList body) := by
  unfold Statement.ofBody
  split
  · exact absurd rfl h
  · rfl

theorem wellWritten_iff {body : List Char} :
    WellWritten body ↔ (∃ t, Statement.ofBody body = .process t) ∨
      Statement.ofBody body = .command .elseBranch none ∨
      ∃ c t, c ≠ .elseBranch ∧ t ≠ "" ∧ Statement.ofBody body = .command c (some t) := by
  constructor
  · intro h
    by_cases hbody : body.head? = some ':'
    · rcases h hbody with helse | ⟨word, hword, t, ht, hdirects⟩
      · exact .inr (.inl (directs_iff (c := .elseBranch).1 helse))
      · obtain ⟨c, hc, rfl⟩ := Command.mem_labelledWords_iff.1 hword
        exact .inr (.inr ⟨c, t, hc, ht, directs_iff.1 hdirects⟩)
    · exact .inl ⟨_, ofBody_process hbody⟩
  · rintro (⟨t, h⟩ | h | ⟨c, t, hc, ht, h⟩) hbody
    · obtain ⟨rest, rfl⟩ := List.head?_eq_some_iff.1 hbody
      simp only [Statement.ofBody] at h
      split at h <;> cases h
    · exact .inl (directs_iff (c := .elseBranch).2 h)
    · exact .inr ⟨c.word, Command.mem_labelledWords_iff.2 ⟨c, hc, rfl⟩, t, ht, directs_iff.2 h⟩

/-! ## A statement on one line -/

/-- A line that begins with tabs. -/
def indented (depth : Nat) (body : List Char) : List Char := List.replicate depth '\t' ++ body

/-- A body with line breaks for markers. -/
def unmarked (body : List Char) : List Char := body.map fun c => if c = marker then '\n' else c

theorem indentation_indented {body : List Char} (h : body.head? ≠ some '\t') (depth : Nat) :
    indentation (indented depth body) = depth := by
  rw [indentation, indented, List.takeWhile_append_of_pos (by simp), List.length_append,
    List.length_replicate]
  cases body with
  | nil => rfl
  | cons c rest =>
    have hc : c ≠ '\t' := by simpa using h
    simp [hc]

theorem unindented_indented {body : List Char} (h : body.head? ≠ some '\t') (depth : Nat) :
    unindented (indented depth body) = body := by
  rw [unindented, indented, List.dropWhile_append_of_pos (by simp)]
  cases body with
  | nil => rfl
  | cons c rest =>
    have hc : c ≠ '\t' := by simpa using h
    simp [hc]

theorem isCommentLine_indented (depth : Nat) (body : List Char) :
    isCommentLine (indented depth body) = isCommentLine body := by
  have htabs : ∀ c ∈ List.replicate depth '\t', isBlank c = true := by
    intro c hc
    rw [List.eq_of_mem_replicate hc]
    rfl
  rw [isCommentLine, indented, List.dropWhile_append_of_pos htabs]
  rfl

theorem continues_indented {body : List Char} (h : body.head? ≠ some '\t')
    (hlast : body.getLast? ≠ some marker) (depth : Nat) :
    continues (indented depth body) = false := by
  rw [continues, unindented_indented h, continued?, dropLast?, if_neg hlast]
  rfl

theorem entry_indented {body : List Char} (h : body.head? ≠ some '\t')
    (hlast : body.getLast? ≠ some marker) (depth : Nat) :
    Passage.entry ⟨indented depth body, []⟩ = ⟨depth, unmarked body⟩ := by
  have hrow : row (indented depth body) = body := by
    rw [row, unindented_indented h, continued?, dropLast?, if_neg hlast]
    rfl
  simp only [Passage.entry, indentation_indented h, List.map_cons, List.map_nil, hrow]
  simp [bodyOf, unmarked]

theorem turn_indented {body : List Char} (h : body.head? ≠ some '\t')
    (hlast : body.getLast? ≠ some marker) (depth : Nat) (bs : Blocks)
    (rest : List (List Char)) :
    turn bs (indented depth body) rest = (bs.place (depth, .ofBody (unmarked body)), rest) := by
  have hnone := continuation_of_not_continues (continues_indented h hlast depth) rest
  refine Prod.ext ?_ ?_
  · rw [turn_fst, hnone, entry_indented h hlast]
    rfl
  · unfold turn
    cases bs.moveTo (indentation (indented depth body)) with
    | error failure => rfl
    | ok next => simp only [hnone]

end ProgramDiagram.Outline
