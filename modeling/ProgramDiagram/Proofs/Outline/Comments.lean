import ProgramDiagram.Proofs.Outline.Passage
import ProgramDiagram.Proofs.Text.Lines

/-!
# Comments and line ends

* `Recovery.Unplaced`: a recovery that decides without the line numbers.
* `textLines_append`: the lines of a text that holds statements, where two texts are put together.
* `course_eq_of_textLines`: for such a recovery a reading shows the same whichever comment and blank
  lines a source has, wherever they stand, and whichever line ends.
-/

namespace ProgramDiagram.Outline

/-- The decisions on the same refusals are the same, whatever numbers the lines have. -/
def Recovery.Unplaced (recovery : Recovery) : Prop :=
  ∀ before before' offer offer', before.map Offer.refusal = before'.map Offer.refusal →
    offer.refusal = offer'.refusal → recovery before offer = recovery before' offer'

/-- A refusal offered as if on the first line. -/
def Refusal.atStart (refusal : Refusal) : Offer := ⟨refusal.1, 0, refusal.2⟩

theorem Recovery.Unplaced.exists_answer {recovery : Recovery} (h : recovery.Unplaced) :
    ∃ a : Answer, recovery = a.recovery := by
  refine ⟨fun seen refusal => recovery (seen.map Refusal.atStart) refusal.atStart, ?_⟩
  funext before offer
  refine h _ _ _ _ ?_ rfl
  rw [List.map_map, List.map_map]
  rfl

/-- Every line of a text is blank or a comment. -/
def OnlyComments (note : String) : Prop := ∀ l ∈ lines note, isCommentLine l

theorem OnlyComments.textLines {note : String} (h : OnlyComments note) : textLines note = [] := by
  rw [Outline.textLines, List.filter_eq_nil_iff]
  intro l hl
  simp [h l hl]

theorem textLines_append (before after : String) :
    textLines (before ++ "\n" ++ after) = textLines before ++ textLines after := by
  simp only [textLines, lines_append, List.filter_append]

/-- A reading shows the same for two sources whose lines are the same apart from comment and blank
lines. So these may be put in or left out before, between and after any lines, also where a
statement goes on in the next line or would go on after the last, and a line may end in either
way. -/
theorem course_eq_of_textLines {recovery : Recovery} (hrecovery : recovery.Unplaced) :
    (∀ source other, textLines source = textLines other →
      (read recovery source).course = (read recovery other).course) ∧
    (∀ note, OnlyComments note → ∀ before after,
      (read recovery (note ++ "\n" ++ after)).course = (read recovery after).course ∧
      (read recovery (before ++ "\n" ++ note ++ "\n" ++ after)).course =
        (read recovery (before ++ "\n" ++ after)).course ∧
      (read recovery (before ++ "\n" ++ note)).course = (read recovery before).course) ∧
    (∀ before after, before.toList.getLast? ≠ some '\r' →
      (read recovery (before ++ "\r\n" ++ after)).course =
        (read recovery (before ++ "\n" ++ after)).course) := by
  have same {source other : String} (h : textLines source = textLines other) :
      (read recovery source).course = (read recovery other).course := by
    obtain ⟨a, rfl⟩ := hrecovery.exists_answer
    rw [course_read, course_read, h]
  refine ⟨fun source other => same, fun note hnote before after => ⟨?first, ?between, ?last⟩,
    fun before after hreturn => same ?ends⟩
  case first => exact same (by rw [textLines_append, hnote.textLines, List.nil_append])
  case between =>
    exact same (by simp only [textLines_append, hnote.textLines, List.append_nil])
  case last => exact same (by rw [textLines_append, hnote.textLines, List.append_nil])
  case ends => rw [textLines, textLines, lines_append_returnFeed hreturn]

/-- A comment inside a statement that goes on, and blank lines between its last line and the end.
The recovery skips the first refusal and stops at the second. -/
theorem course_eq_of_textLines_continued :
    let recovery : Recovery := fun before _ => if before.isEmpty then .skip else .stop
    let source := ":else@\nx\n:if c\n\ty@"
    let other := "# note\n:else@\r\n \t# inside @\nx\n:if c\r\n\ty@\n\n  "
    recovery.Unplaced ∧ textLines source = textLines other ∧
      (read recovery source).course = (read recovery other).course := by
  intro recovery source other
  have hrecovery : recovery.Unplaced := by
    intro before before' offer offer' hbefore _
    have hempty := congrArg List.isEmpty hbefore
    rw [List.isEmpty_map, List.isEmpty_map] at hempty
    simp only [recovery, hempty]
  have hlines : textLines source = textLines other := by decide
  exact ⟨hrecovery, hlines, (course_eq_of_textLines hrecovery).1 source other hlines⟩

end ProgramDiagram.Outline
