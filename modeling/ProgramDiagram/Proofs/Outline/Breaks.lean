import ProgramDiagram.Proofs.Outline.Wording
import ProgramDiagram.Proofs.Text.Lines

/-!
# Where a label is broken

A marker inside a line and one at its end both break the label, but the first stays in its row and
the second has the statement take a further line.

* `Entry.ahead`, `entriesOf_cons_line`: the statements of lines, taken line by line from the end.
* `lines_marker`, `lines_marker_feed`: the line of a text that holds a marker, whole and cut there.
* `parse_append_feed`: a line may be cut after any of its markers, unless what follows would not be
  read on as it stands.
-/

namespace ProgramDiagram

/-! ## The line that holds a place -/

/-- What a text has on its last line. -/
def lineBefore (text : String) : List Char := (splitAt '\n' text.toList).getLastD []

/-- What a text has on its first line. -/
def lineAfter (text : String) : List Char := (lines text).headD []

/-- Two texts put together share the last line of the first and the first line of the second. -/
theorem splitAt_append_shared (separator : Char) (xs ys : List Char) :
    splitAt separator (xs ++ ys) = (splitAt separator xs).dropLast ++
      ((splitAt separator xs).getLastD [] ++ (splitAt separator ys).headD []) ::
        (splitAt separator ys).tail := by
  induction xs with
  | nil =>
    obtain ⟨piece, pieces, hys⟩ := List.exists_cons_of_ne_nil (splitAt_ne_nil separator ys)
    simp [splitAt, hys]
  | cons c xs ih =>
    obtain ⟨piece, pieces, hxs⟩ := List.exists_cons_of_ne_nil (splitAt_ne_nil separator xs)
    rw [List.cons_append, splitAt, splitAt, ih, hxs]
    by_cases hc : c = separator
    · simp [hc]
    · cases pieces with
      | nil => simp [hc]
      | cons next pieces => simp [hc]

theorem getLast?_append_cons_cons (xs : List Char) (c y : Char) (ys : List Char) :
    (xs ++ c :: y :: ys).getLast? = (y :: ys).getLast? := by
  rw [List.getLast?_append_of_ne_nil _ (by simp), List.getLast?_cons_cons]

theorem dropLast?_append_cons {last c : Char} (hc : c ≠ last) (xs ys : List Char) :
    (dropLast? last (xs ++ c :: ys)).getD (xs ++ c :: ys) =
      xs ++ c :: (dropLast? last ys).getD ys := by
  cases ys with
  | nil => simp [dropLast?, hc]
  | cons y ys =>
    simp only [dropLast?, getLast?_append_cons_cons]
    split
    · simp
    · rfl

/-- The line of a text that holds a marker, between the lines before it and those after it. -/
theorem lines_marker (left right : String) :
    lines (left ++ "@" ++ right) = (lines left).dropLast ++
      (lineBefore left ++ '@' :: lineAfter right) :: (lines right).tail := by
  have hmarker : "@".toList = ['@'] := rfl
  obtain ⟨piece, pieces, hright⟩ :=
    List.exists_cons_of_ne_nil (splitAt_ne_nil '\n' right.toList)
  simp only [lines, lineBefore, lineAfter, String.toList_append, hmarker, List.append_assoc,
    List.singleton_append, splitAt_append_shared '\n' left.toList, splitAt, hright]
  simp [dropLast?_append_cons]

/-- The same text with a line feed put in after the marker. -/
theorem lines_marker_feed (left right : String) :
    lines (left ++ "@\n" ++ right) =
      (lines left).dropLast ++ (lineBefore left ++ ['@']) :: lines right := by
  have hcut : left ++ "@\n" ++ right = left ++ "@" ++ "" ++ "\n" ++ right := by
    have hfeed : "@\n" = "@" ++ "\n" := rfl
    simp only [String.append_empty, hfeed, String.append_assoc]
  rw [hcut, lines_append, lines_marker]
  simp [lines, lineAfter, splitAt, dropLast?]

namespace Outline

/-! ## Statements line by line -/

/-- The statements that begin with a line, which goes on in the first of those after it or stands
alone. -/
def Entry.ahead (line : List Char) (es : List Entry) : List Entry :=
  match continues line, es with
  | true, e :: es => ⟨indentation line, unmarked (row line) ++ '\n' :: e.body⟩ :: es
  | _, es => ⟨indentation line, unmarked (row line)⟩ :: es

theorem Passage.body_entry_cons (line next : List Char) (more : List (List Char)) :
    (Passage.entry ⟨line, next :: more⟩).body =
      unmarked (row line) ++ '\n' :: (Passage.entry ⟨next, more⟩).body := by
  simp [Passage.entry, bodyOf, unmarked, List.intercalate_cons_cons]

theorem entriesOf_cons_line (line : List Char) (rest : List (List Char)) :
    entriesOf (line :: rest) = Entry.ahead line (entriesOf rest) := by
  have halone : Passage.entry ⟨line, []⟩ = ⟨indentation line, unmarked (row line)⟩ := by
    simp [Passage.entry, bodyOf, unmarked]
  cases rest with
  | nil =>
    rw [entriesOf_cons]
    cases hline : continues line <;> simp [continuation, entriesOf, passages, Entry.ahead, halone]
  | cons next rest =>
    rw [entriesOf_cons, entriesOf_cons next]
    by_cases hline : continues line
    · simp only [continuation, hline, ↓reduceIte, Entry.ahead]
      refine congrArg (· :: _) ?_
      rw [← Passage.body_entry_cons]
      rfl
    · simp [continuation, hline, Entry.ahead, halone, entriesOf_cons next]

theorem entriesOf_eq_foldr (ls : List (List Char)) : entriesOf ls = ls.foldr Entry.ahead [] := by
  induction ls with
  | nil => rfl
  | cons line ls ih => rw [entriesOf_cons_line, ih, List.foldr_cons]

/-! ## Cutting a line -/

/-- Whatever is blank before a marker, the line up to it is no comment. -/
theorem isCommentLine_append_marker {u v : List Char} (hv : '\n' ∉ v)
    (h : isCommentLine (u ++ '@' :: v) = false) : isCommentLine (u ++ ['@']) = false := by
  have hblank : isBlank '@' = false := rfl
  have hdrop (w : List Char) :
      (u ++ '@' :: w).dropWhile isBlank = u.dropWhile isBlank ++ '@' :: w := by
    rw [List.dropWhile_append]
    split
    · rename_i hnil
      simp [List.isEmpty_iff.1 hnil, hblank]
    · rfl
  simp only [isCommentLine, hdrop] at h ⊢
  cases hu : u.dropWhile isBlank with
  | nil => rfl
  | cons c rest =>
    rw [hu] at h
    simp only [List.cons_append] at h ⊢
    by_cases hc : c = '#'
    · simpa [hc, hv] using h
    · simp [hc]

theorem unindented_append_marker (u v : List Char) :
    unindented (u ++ '@' :: v) = unindented u ++ '@' :: v := by
  rw [unindented, unindented, List.dropWhile_append]
  split
  · rename_i hnil
    simp [List.isEmpty_iff.1 hnil]
  · rfl

theorem indentation_append_marker (u v : List Char) :
    indentation (u ++ '@' :: v) = indentation (u ++ ['@']) := by
  simp only [indentation, List.takeWhile_append]
  split <;> simp

/-- A line cut after a marker gives the same statements if its second part is read as it stands. -/
theorem Entry.ahead_cut (u : List Char) {v : List Char} (hne : v ≠ [])
    (htab : v.head? ≠ some '\t') (es : List Entry) :
    Entry.ahead (u ++ ['@']) (Entry.ahead v es) = Entry.ahead (u ++ '@' :: v) es := by
  have hunindented : unindented v = v := by
    cases v with
    | nil => exact absurd rfl hne
    | cons c v =>
      have hc : c ≠ '\t' := by simpa using htab
      simp [unindented, hc]
  have hfirst : continued? (unindented (u ++ ['@'])) = some (unindented u) := by
    rw [unindented_append_marker, continued?, marker, dropLast?_concat]
  have hwhole : continued? (unindented (u ++ '@' :: v)) =
      (continued? v).map (unindented u ++ '@' :: ·) := by
    obtain ⟨c, v, rfl⟩ := List.exists_cons_of_ne_nil hne
    simp only [unindented_append_marker, continued?, dropLast?, getLast?_append_cons_cons]
    split
    · simp
    · rfl
  have hcontinues : continues (u ++ '@' :: v) = continues v := by
    simp [continues, hwhole, hunindented]
  have hrow : row (u ++ '@' :: v) = unindented u ++ '@' :: row v := by
    rw [row, row, hwhole, hunindented, unindented_append_marker]
    cases continued? v <;> rfl
  have hbody : unmarked (row (u ++ '@' :: v)) =
      unmarked (unindented u) ++ '\n' :: unmarked (row v) := by
    simp [hrow, unmarked, marker]
  have hcut : continues (u ++ ['@']) = true := by simp [continues, hfirst]
  have hcutRow : row (u ++ ['@']) = unindented u := by simp [row, hfirst]
  simp only [Entry.ahead, hcontinues, hbody, hcut, hcutRow, indentation_append_marker u v]
  cases continues v with
  | false => rfl
  | true =>
    cases es with
    | nil => rfl
    | cons e es => simp

/-- A source is parsed the same with a line feed put in after any marker of a line that is no
comment, whether the line begins a statement or continues one, if the rest of the line is neither a
comment nor begins with a tab. -/
theorem parse_append_feed {left right : String}
    (hline : isCommentLine (lineBefore left ++ '@' :: lineAfter right) = false)
    (hright : isCommentLine (lineAfter right) = false)
    (htab : (lineAfter right).head? ≠ some '\t') :
    parse (left ++ "@\n" ++ right) = parse (left ++ "@" ++ right) := by
  obtain ⟨v, rest, hlines⟩ : ∃ v rest, lines right = v :: rest :=
    List.exists_cons_of_ne_nil (by simp [lines, splitAt_ne_nil])
  have hv : lineAfter right = v := by rw [lineAfter, hlines, List.headD_cons]
  rw [hv] at hline hright htab
  have hfeed : '\n' ∉ v := not_mem_of_mem_lines (by rw [hlines]; exact List.mem_cons_self)
  have hne : v ≠ [] := by
    rintro rfl
    cases hright
  have hfirst := isCommentLine_append_marker hfeed hline
  have hentries : entries (left ++ "@\n" ++ right) = entries (left ++ "@" ++ right) := by
    simp only [entries, textLines, lines_marker_feed, lines_marker, hv, hlines, List.tail_cons,
      List.filter_append, List.filter_cons, hline, hfirst, hright, Bool.not_false, ↓reduceIte,
      entriesOf_eq_foldr, List.foldr_append, List.foldr_cons, Entry.ahead_cut _ hne htab]
  rw [parse_eq_placeAll, parse_eq_placeAll, hentries]

/-- A marker in a line that continues a statement and ends in a marker itself. -/
theorem parse_append_feed_continued :
    let left := ":if a@\n\t\tb"
    let right := "@c@\r\n# note\nd\n\te"
    let decision := Node.decision "a\nb\n\nc\nd" (some (.process "e" none)) none
    lineBefore left = "\t\tb".toList ∧ lineAfter right = "@c@".toList ∧
      isCommentLine (lineBefore left ++ '@' :: lineAfter right) = false ∧
      isCommentLine (lineAfter right) = false ∧ (lineAfter right).head? ≠ some '\t' ∧
      parse (left ++ "@" ++ right) = .ok (some (.list [decision])) ∧
      parse (left ++ "@\n" ++ right) = parse (left ++ "@" ++ right) := by
  intro left right decision
  have hbefore : lineBefore left = "\t\tb".toList := by decide
  have hafter : lineAfter right = "@c@".toList := by decide
  have hline : isCommentLine (lineBefore left ++ '@' :: lineAfter right) = false := by decide
  have hright : isCommentLine (lineAfter right) = false := by decide
  have htab : (lineAfter right).head? ≠ some '\t' := by decide
  refine ⟨hbefore, hafter, hline, hright, htab, ?_, parse_append_feed hline hright htab⟩
  subst left right decision
  rfl

end Outline

end ProgramDiagram
