import Mathlib.Data.List.Basic
import ProgramDiagram.Text.Lines

/-!
# Lines and the texts that have them

* `takeWhile_append_stop`, `dropWhile_append_stop`: a text up to a character that ends a scan;
* `splitAt_intercalate`: pieces put together with a separator are found again;
* `hasLines_labelLines`, `HasLines.eq_feedPieces`: a label has lines, and no others, that give it
  when they are put together with line feeds;
* `lines_ofList`: so are lines, if none ends in a carriage return;
* `exists_lines_eq`: any lines without line feeds are the lines of a source;
* `lines_append`, `lines_append_returnFeed`: how texts put together with either line end are read.
-/

namespace ProgramDiagram

/-! ## What a text starts with -/

theorem ne_of_not_mem {c : Char} {cs : List Char} (h : c ∉ cs) :
    ∀ d ∈ cs, decide (d ≠ c) = true := by
  intro d hd
  rw [decide_eq_true_eq]
  rintro rfl
  exact h hd

theorem takeWhile_append_stop {p : Char → Bool} {cs : List Char} {stop : Char}
    (hcs : ∀ c ∈ cs, p c = true) (hstop : p stop = false) (rest : List Char) :
    (cs ++ stop :: rest).takeWhile p = cs := by
  rw [List.takeWhile_append_of_pos hcs, List.takeWhile_cons_of_neg (by simp [hstop]),
    List.append_nil]

theorem dropWhile_append_stop {p : Char → Bool} {cs : List Char} {stop : Char}
    (hcs : ∀ c ∈ cs, p c = true) (hstop : p stop = false) (rest : List Char) :
    (cs ++ stop :: rest).dropWhile p = stop :: rest := by
  rw [List.dropWhile_append_of_pos hcs, List.dropWhile_cons_of_neg (by simp [hstop])]

/-! ## Pieces and lines -/

theorem splitAt_append (separator : Char) (cs rest : List Char) :
    splitAt separator (cs ++ separator :: rest) =
      splitAt separator cs ++ splitAt separator rest := by
  induction cs with
  | nil => simp [splitAt]
  | cons c cs ih =>
    rw [List.cons_append, splitAt, splitAt, ih]
    split
    · rfl
    · cases h : splitAt separator cs with
      | nil => exact absurd h (splitAt_ne_nil separator cs)
      | cons piece pieces => rfl

theorem splitAt_of_not_mem {separator : Char} {piece : List Char} (h : separator ∉ piece) :
    splitAt separator piece = [piece] := by
  induction piece with
  | nil => rfl
  | cons c piece ih =>
    simp only [List.mem_cons, not_or] at h
    rw [splitAt, if_neg (Ne.symm h.1), ih h.2]

theorem splitAt_append_cons {separator : Char} {piece : List Char} (h : separator ∉ piece)
    (rest : List Char) :
    splitAt separator (piece ++ separator :: rest) = piece :: splitAt separator rest := by
  rw [splitAt_append, splitAt_of_not_mem h, List.singleton_append]

theorem splitAt_intercalate {separator : Char} {pieces : List (List Char)} (hne : pieces ≠ [])
    (h : ∀ piece ∈ pieces, separator ∉ piece) :
    splitAt separator ([separator].intercalate pieces) = pieces := by
  induction pieces with
  | nil => exact absurd rfl hne
  | cons piece rest ih =>
    have hpiece := h piece List.mem_cons_self
    cases rest with
    | nil => simpa [List.intercalate] using splitAt_of_not_mem hpiece
    | cons next rest =>
      have hrest := ih (by simp) fun p hp => h p (List.mem_cons_of_mem _ hp)
      rw [List.intercalate_cons_cons, List.append_assoc, List.singleton_append,
        splitAt_append_cons hpiece, hrest]

theorem all_intercalate {p : Char → Bool} {separator : List Char} {pieces : List (List Char)}
    (hseparator : separator.all p) (h : ∀ piece ∈ pieces, piece.all p) :
    (separator.intercalate pieces).all p := by
  induction pieces with
  | nil => rfl
  | cons piece rest ih =>
    obtain ⟨hpiece, hrest⟩ := List.forall_mem_cons.1 h
    cases rest with
    | nil => rwa [List.intercalate_singleton]
    | cons next rest =>
      rw [List.intercalate_cons_cons, List.all_append, List.all_append, hpiece, hseparator,
        ih hrest]
      rfl

theorem not_mem_of_mem_splitAt {separator : Char} {cs piece : List Char}
    (h : piece ∈ splitAt separator cs) : separator ∉ piece := by
  induction cs generalizing piece with
  | nil =>
    simp only [splitAt, List.mem_singleton] at h
    simp [h]
  | cons c cs ih =>
    simp only [splitAt] at h
    split at h
    · rcases List.mem_cons.1 h with rfl | h
      · simp
      · exact ih h
    · rename_i hc
      split at h
      · rename_i hnil
        exact absurd hnil (splitAt_ne_nil separator cs)
      · rename_i first rest hsplit
        rcases List.mem_cons.1 h with rfl | h
        · have hfirst : first ∈ splitAt separator cs := by simp [hsplit]
          simp only [List.mem_cons, not_or]
          exact ⟨Ne.symm hc, ih hfirst⟩
        · exact ih (by simp [hsplit, h])

theorem intercalate_splitAt (separator : Char) (cs : List Char) :
    [separator].intercalate (splitAt separator cs) = cs := by
  induction cs with
  | nil => rfl
  | cons c cs ih =>
    obtain ⟨piece, pieces, hsplit⟩ := List.exists_cons_of_ne_nil (splitAt_ne_nil separator cs)
    rw [splitAt]
    split
    · rename_i hc
      rw [hsplit, List.intercalate_cons_cons, ← hsplit, ih, hc]
      rfl
    · rw [hsplit] at ih ⊢
      cases pieces with
      | nil => simpa using ih
      | cons next rest =>
        rw [List.intercalate_cons_cons] at ih
        simp only [List.intercalate_cons_cons, List.cons_append, ih]

/-! ## Lines of a label -/

/-- A text has these lines: put together with line feeds they give it, and none holds one. -/
structure HasLines (text : String) (ls : List String) : Prop where
  ne_nil : ls ≠ []
  noFeed : ∀ line ∈ ls, '\n' ∉ line.toList
  joined : "\n".intercalate ls = text

/-- The pieces of a text between its line feeds. -/
def feedPieces (text : String) : List String := (text.toList.splitOn '\n').map String.ofList

theorem HasLines.eq_feedPieces {text : String} {ls : List String} (h : HasLines text ls) :
    ls = feedPieces text := by
  have hne : ls.map String.toList ≠ [] := by simpa using h.ne_nil
  have hfeed : ∀ l ∈ ls.map String.toList, '\n' ∉ l := by simpa using h.noFeed
  have htext : text.toList = ['\n'].intercalate (ls.map String.toList) := by
    rw [← h.joined, String.toList_intercalate]
    rfl
  rw [feedPieces, htext, List.splitOn_intercalate '\n' hfeed hne, List.map_map]
  simp [Function.comp_def]

theorem hasLines_labelLines (text : String) : HasLines text (labelLines text) where
  ne_nil := by simpa [labelLines] using splitAt_ne_nil '\n' text.toList
  noFeed := by
    intro line hline
    obtain ⟨piece, hpiece, rfl⟩ := List.mem_map.1 hline
    rw [String.toList_ofList]
    exact not_mem_of_mem_splitAt hpiece
  joined := by
    have hpieces : (labelLines text).map String.toList = splitAt '\n' text.toList := by
      rw [labelLines, List.map_map]
      simp [Function.comp_def]
    apply String.toList_injective
    rw [String.toList_intercalate, hpieces]
    exact intercalate_splitAt '\n' text.toList

/-- The lines of a label are the pieces between its line feeds. -/
theorem labelLines_eq_feedPieces (text : String) : labelLines text = feedPieces text :=
  (hasLines_labelLines text).eq_feedPieces

theorem dropLast?_concat (last : Char) (cs : List Char) :
    dropLast? last (cs ++ [last]) = some cs := by
  simp [dropLast?]

theorem dropLast?_eq_none {last : Char} {cs : List Char} (h : cs.getLast? ≠ some last) :
    dropLast? last cs = none := by
  simp [dropLast?, h]

theorem lines_intercalate {ls : List (List Char)} (hne : ls ≠ []) (h : ∀ l ∈ ls, '\n' ∉ l) :
    lines (String.ofList (['\n'].intercalate ls)) =
      ls.map fun l => (dropLast? '\r' l).getD l := by
  rw [lines, String.toList_ofList, splitAt_intercalate hne h]

/-- Lines put together are the lines of the text, if none ends in a carriage return. -/
theorem lines_ofList {ls : List (List Char)} (hne : ls ≠ []) (h : ∀ l ∈ ls, '\n' ∉ l)
    (hcr : ∀ l ∈ ls, l.getLast? ≠ some '\r') :
    lines (String.ofList (['\n'].intercalate ls)) = ls := by
  rw [lines_intercalate hne h, List.map_congr_left (g := id), List.map_id]
  intro l hl
  simp [dropLast?_eq_none (hcr l hl)]

theorem exists_lines_eq {ls : List (List Char)} (hne : ls ≠ []) (h : ∀ l ∈ ls, '\n' ∉ l) :
    ∃ source, lines source = ls := by
  -- every line gets a carriage return of its own, which reading takes off again
  refine ⟨String.ofList (['\n'].intercalate (ls.map (· ++ ['\r']))), ?_⟩
  rw [lines_intercalate (by simpa using hne) (by simpa using h), List.map_map]
  rw [List.map_congr_left (g := id), List.map_id]
  intro l _
  simp [dropLast?_concat]

theorem not_mem_of_mem_lines {source : String} {l : List Char} (h : l ∈ lines source) :
    '\n' ∉ l := by
  obtain ⟨piece, hpiece, rfl⟩ := List.mem_map.1 h
  have hnot := not_mem_of_mem_splitAt hpiece
  unfold dropLast?
  split
  · exact fun h => hnot ((List.dropLast_sublist _).subset h)
  · exact hnot

theorem lines_append (before after : String) :
    lines (before ++ "\n" ++ after) = lines before ++ lines after := by
  have hfeed : "\n".toList = ['\n'] := rfl
  simp only [lines, String.toList_append, hfeed, List.append_assoc, List.singleton_append,
    splitAt_append, List.map_append]

/-- A carriage return at the end of a text is part of no line, unless one comes before it. -/
theorem lines_append_return {source : String} (h : source.toList.getLast? ≠ some '\r') :
    lines (source ++ "\r") = lines source := by
  have hreturn : "\r".toList = ['\r'] := rfl
  have last {l : List Char} (hfeed : '\n' ∉ l) (hl : l.getLast? ≠ some '\r') :
      (splitAt '\n' (l ++ ['\r'])).map (fun l => (dropLast? '\r' l).getD l) =
        (splitAt '\n' l).map fun l => (dropLast? '\r' l).getD l := by
    rw [splitAt_of_not_mem hfeed, splitAt_of_not_mem (by simpa using hfeed)]
    simp [dropLast?_concat, dropLast?_eq_none hl]
  simp only [lines, String.toList_append, hreturn]
  by_cases hfeed : '\n' ∈ source.toList
  · obtain ⟨l, before, hsplit, hl⟩ := List.eq_append_cons_of_mem (List.mem_reverse.2 hfeed)
    have hsource : source.toList = before.reverse ++ '\n' :: l.reverse := by
      rw [← List.reverse_reverse source.toList, hsplit]
      simp
    rw [hsource] at h ⊢
    have hlast : l.reverse.getLast? ≠ some '\r' := by
      intro hl
      rw [List.getLast?_append, List.getLast?_cons, hl] at h
      exact h rfl
    rw [List.append_assoc, List.cons_append, splitAt_append, splitAt_append, List.map_append,
      List.map_append, last (by simpa using hl) hlast]
  · exact last hfeed h

/-- A line may end in a line feed with or without a carriage return. -/
theorem lines_append_returnFeed {before : String} (h : before.toList.getLast? ≠ some '\r')
    (after : String) : lines (before ++ "\r\n" ++ after) = lines (before ++ "\n" ++ after) := by
  have hends : before ++ "\r\n" = before ++ "\r" ++ "\n" := by
    rw [String.append_assoc]
    rfl
  rw [hends, lines_append, lines_append_return h, lines_append]

end ProgramDiagram
