import ProgramDiagram.Proofs.Outline.Errors
import ProgramDiagram.Proofs.Outline.Recovery

/-!
# The wording of errors

* `isLineBreak`: the characters that break a line.
* `isLineBreak_quoted`: a quoted text has none;
* `Error.mem_message_iff`: so a message has one only from a word that is no command or from the
  reason of an interruption.
* `parse_error`: a source is refused for a statement that is attempted, for a depth, or for a block
  that cannot hold another one.
* `mem_message_of_parse_iff`: the line breaks in the message for a source are those in the command
  word of an attempted statement.
-/

namespace ProgramDiagram

/-! ## Line breaks -/

/-- The ranges of the characters that break a line. -/
def lineBreakRanges : List (Nat × Nat) := [(0xA, 0xD), (0x85, 0x85), (0x2028, 0x2029)]

def isLineBreak (c : Char) : Bool := inRanges c.toNat lineBreakRanges

theorem mem_toDigits {n : Nat} {c : Char} (h : c ∈ Nat.toDigits 16 n) :
    ∃ d < 16, c = Nat.digitChar d := by
  induction n using Nat.strongRecOn with
  | ind n ih =>
    rw [Nat.toDigits_eq_if (by decide)] at h
    split at h
    · rename_i hn
      exact ⟨n, hn, List.mem_singleton.1 h⟩
    · rename_i hn
      rcases List.mem_append.1 h with h | h
      · exact ih (n / 16) (by omega) h
      · exact ⟨n % 16, by omega, List.mem_singleton.1 h⟩

theorem isLineBreak_codeEscape (c : Char) : ∀ d ∈ codeEscape c, isLineBreak d = false := by
  have hdigits : ∀ n < 16, isLineBreak (Nat.digitChar n) = false := by decide
  intro d hd
  simp only [codeEscape, List.mem_append, List.mem_cons, List.not_mem_nil, or_false] at hd
  rcases hd with ((rfl | rfl | rfl) | hd) | rfl
  · decide
  · decide
  · decide
  · obtain ⟨n, hn, rfl⟩ := mem_toDigits hd
    exact hdigits n hn
  · decide

/-- Every line break has a short escape or is hidden. -/
theorem isHidden_of_isLineBreak {c : Char} (h : isLineBreak c) :
    c = '\n' ∨ c = '\r' ∨ isHidden c := by
  have hcode : c.toNat ∈ [0xA, 0xB, 0xC, 0xD, 0x85, 0x2028, 0x2029] := by
    simp only [isLineBreak, lineBreakRanges, inRanges, Bool.and_eq_true, Bool.or_eq_true,
      decide_eq_true_eq, Bool.false_eq_true, or_false] at h
    simp only [List.mem_cons, List.not_mem_nil, or_false]
    omega
  have hall : ∀ n ∈ [0xA, 0xB, 0xC, 0xD, 0x85, 0x2028, 0x2029],
      Char.ofNat n = '\n' ∨ Char.ofNat n = '\r' ∨ isHidden (Char.ofNat n) := by decide +kernel
  simpa only [Char.ofNat_toNat] using hall c.toNat hcode

theorem isLineBreak_quotedChar (c : Char) : ∀ d ∈ quotedChar c, isLineBreak d = false := by
  have short {e : Char} (he : isLineBreak e = false) : ∀ d ∈ ['\\', e], isLineBreak d = false := by
    simpa using ⟨by decide, he⟩
  unfold quotedChar
  split_ifs with _ _ hreturn hfeed _ _ hhidden
  · exact short (by decide)
  · exact short (by decide)
  · exact short (by decide)
  · exact short (by decide)
  · exact short (by decide)
  · exact short (by decide)
  · exact isLineBreak_codeEscape c
  · intro d hd
    rw [List.mem_singleton.1 hd, Bool.eq_false_iff]
    intro hbreak
    rcases isHidden_of_isLineBreak hbreak with rfl | rfl | h
    · exact hfeed rfl
    · exact hreturn rfl
    · exact hhidden h

theorem isLineBreak_quoted (text : String) : ∀ c ∈ (quoted text).toList, isLineBreak c = false := by
  intro c hc
  rw [quoted, String.toList_ofList] at hc
  simp only [List.mem_append, List.mem_cons, List.mem_flatMap, List.not_mem_nil, or_false] at hc
  rcases hc with (rfl | ⟨d, _, hd⟩) | rfl
  · decide
  · exact isLineBreak_quotedChar d c hd
  · decide

theorem not_mem_of_isLineBreak {text : String} {c : Char}
    (h : text.toList.all (!isLineBreak ·)) (hc : isLineBreak c) : c ∉ text.toList := by
  intro hmem
  have hnot := List.all_eq_true.1 h c hmem
  rw [hc] at hnot
  cases hnot

theorem mem_append_of_isLineBreak {before : String} {c : Char}
    (h : before.toList.all (!isLineBreak ·)) (hc : isLineBreak c) (text : String) :
    c ∈ (before ++ text).toList ↔ c ∈ text.toList := by
  rw [String.toList_append, List.mem_append]
  exact or_iff_right (not_mem_of_isLineBreak h hc)

namespace Outline

/-! ## Messages -/

theorem Inconsistency.isLineBreak_message (cause : Inconsistency) :
    cause.message.toList.all (!isLineBreak ·) := by
  cases cause with
  | noOwner | noPendingCase => decide
  | cannotHold kind => cases kind <;> decide

/-- A line break in a message comes from a word that is no command or from the reason of an
interruption. -/
theorem Error.mem_message_iff {e : Error} {c : Char} (hc : isLineBreak c) :
    c ∈ e.message.toList ↔
      (∃ word, e = .unknownCommand word ∧ c ∈ word.toList) ∨
        ∃ reason, e = .interrupted (some reason) ∧ c ∈ reason.toList := by
  cases e with
  | missingArgument | unexpectedArgument | illegalIndentation | misplacedElse | misplacedCase =>
    refine iff_of_false (fun h => ?_) (by simp)
    exact not_mem_of_isLineBreak (by decide) hc h
  | unknownCommand word =>
    refine (mem_append_of_isLineBreak (by decide) hc word).trans ?_
    simp
  | duplicateCase label =>
    have hlabel : c ∉ (quoted label).toList := fun h => by
      rw [isLineBreak_quoted label c h] at hc
      cases hc
    have hafter : c ∉ " already exists".toList := not_mem_of_isLineBreak (by decide) hc
    refine iff_of_false (fun h => ?_) (by simp)
    rw [show (duplicateCase label).message = "a case named " ++ (quoted label ++ " already exists")
      from String.append_assoc, mem_append_of_isLineBreak (by decide) hc,
      String.toList_append, List.mem_append] at h
    exact h.elim hlabel hafter
  | inconsistent cause =>
    refine (mem_append_of_isLineBreak (by decide) hc cause.message).trans ?_
    exact iff_of_false (not_mem_of_isLineBreak cause.isLineBreak_message hc) (by simp)
  | interrupted reason? =>
    refine (mem_append_of_isLineBreak (by decide) hc (reason?.getD "unknown panic")).trans ?_
    cases reason? with
    | none =>
      refine iff_of_false (fun h => ?_) (by simp)
      exact not_mem_of_isLineBreak (by decide) hc h
    | some reason => simp

/-! ## Command words -/

/-- A character stands in the command word of a body. -/
def WordHas (body : List Char) (c : Char) : Prop :=
  ∃ before after, body = ':' :: (before ++ c :: after) ∧ ' ' ∉ before ∧ '\t' ∉ before

theorem WordHas.exists_unknown {body : List Char} {c : Char} (h : WordHas body c)
    (hc : isLineBreak c) : ∃ word, Statement.ofBody body = .unknown word ∧ c ∈ word.toList := by
  obtain ⟨before, after, rfl, hspace, htab⟩ := h
  have hends : endsWord c = false := by
    rw [endsWord_eq_false_iff]
    constructor <;> rintro rfl <;> exact absurd hc (by decide)
  have hbefore : ∀ d ∈ before, (!endsWord d) = true := by
    intro d hd
    rw [Bool.not_eq_true', endsWord_eq_false_iff]
    exact ⟨fun h => hspace (h ▸ hd), fun h => htab (h ▸ hd)⟩
  have hword : (before ++ c :: after).takeWhile (!endsWord ·) =
      before ++ c :: after.takeWhile (!endsWord ·) := by
    rw [List.takeWhile_append_of_pos hbefore, List.takeWhile_cons_of_pos (by rw [hends]; rfl)]
  rw [Statement.ofBody, hword]
  generalize hall : before ++ c :: after.takeWhile (!endsWord ·) = cs
  have hmem : c ∈ (String.ofList cs).toList := by simp [← hall]
  refine ⟨_, ?_, hmem⟩
  cases hcommand : Command.ofWord? (String.ofList cs) with
  | none => rfl
  | some command =>
    -- no command has a line break in its word
    rw [Command.eq_word_of_ofWord? hcommand] at hmem
    exact absurd hmem (not_mem_of_isLineBreak (by cases command <;> decide) hc)

theorem wordHas_of_unknown {body : List Char} {word : String} {c : Char}
    (h : Statement.ofBody body = .unknown word) (hc : c ∈ word.toList) : WordHas body c := by
  unfold Statement.ofBody at h
  split at h
  · rename_i directive
    dsimp only at h
    split at h
    · cases h
    · cases h
      rw [String.toList_ofList] at hc
      obtain ⟨before, after, hsplit⟩ := List.append_of_mem hc
      have hends : ∀ d ∈ before, d ≠ ' ' ∧ d ≠ '\t' := by
        intro d hd
        have hword : d ∈ directive.takeWhile (!endsWord ·) := by simp [hsplit, hd]
        have hnot := List.all_eq_true.1 (List.all_takeWhile) d hword
        rw [← endsWord_eq_false_iff]
        simpa using hnot
      have hdirective :
          directive = before ++ c :: (after ++ directive.dropWhile (!endsWord ·)) := by
        rw [← List.cons_append, ← List.append_assoc, ← hsplit, List.takeWhile_append_dropWhile]
      exact ⟨before, _, congrArg (List.cons ':') hdirective, fun h => (hends _ h).1 rfl,
        fun h => (hends _ h).2 rfl⟩
  · cases h

/-! ## Refused sources -/

/-- A statement of a source is attempted if those before it are placed and it can stand at its
depth. -/
def Attempted (source : String) (entry : Entry) : Prop :=
  ∃ before after bs bs', entries source = before ++ entry :: after ∧
    Blocks.start.placeAll (before.map Entry.item) = .ok bs ∧ bs.moveTo entry.depth = .ok bs'

/-- Statements are not placed because of the first that is refused. -/
theorem Blocks.placeAll_error {bs : Blocks} {es : List Entry} {failure : Failure Blocks}
    (h : bs.placeAll (es.map Entry.item) = .error failure) :
    ∃ before entry after next, es = before ++ entry :: after ∧
      bs.placeAll (before.map Entry.item) = .ok next ∧ next.place entry.item = .error failure := by
  induction es generalizing bs with
  | nil => cases h
  | cons first es ih =>
    rw [List.map_cons, placeAll_cons] at h
    cases hfirst : bs.place first.item with
    | error failure' =>
      rw [hfirst] at h
      cases h
      exact ⟨[], first, es, bs, rfl, rfl, hfirst⟩
    | ok next =>
      rw [hfirst] at h
      obtain ⟨before, entry, after, last, hes, hbefore, hplace⟩ := ih h
      refine ⟨first :: before, entry, after, last, by rw [hes, List.cons_append], ?_, hplace⟩
      rw [List.map_cons, placeAll_cons_of_ok hfirst, hbefore]

/-- Blocks fail to close only because one cannot hold another one. -/
theorem Tracks.closeTo_error {before : List Entry} {bs : Blocks} (h : Tracks before bs) {d : Nat}
    {failure : Failure Blocks} (hclose : Blocks.closeTo d bs.current bs.outer = .error failure) :
    ∃ cause, failure.error = .inconsistent cause := by
  rcases h with ⟨_, rfl⟩ | ⟨_, hlevels⟩
  · cases hclose
  · exact (hlevels.2.closeTo_error hclose).2.2

/-- A source is refused for what a statement says that is attempted, for the depth of one, or for a
block that cannot hold another one. -/
theorem parse_error {source : String} {e : Error} (h : parse source = .error e) :
    (∃ entry, Attempted source entry ∧ RefusedFor entry.statement e) ∨
      e = .illegalIndentation ∨ ∃ cause, e = .inconsistent cause := by
  rw [parse_eq_placeAll] at h
  cases hplace : Blocks.start.placeAll ((entries source).map Entry.item) with
  | ok bs =>
    rw [hplace] at h
    obtain ⟨failure, hclose, rfl⟩ := Blocks.closeAll_error h
    exact .inr (.inr ((tracks_placeAll hplace).closeTo_error hclose))
  | error failure =>
    rw [hplace] at h
    cases h
    obtain ⟨before, entry, after, bs, hsplit, hbefore, hentry⟩ := Blocks.placeAll_error hplace
    rcases Blocks.place_error hentry with hmove | ⟨c, outer, hmove, _, hrefused⟩
    · rcases Blocks.moveTo_error hmove with rfl | hclose
      · exact .inr (.inl rfl)
      · exact .inr (.inr ((tracks_placeAll hbefore).closeTo_error hclose))
    · exact .inl ⟨entry, ⟨before, after, bs, _, hsplit, hbefore, hmove⟩, hrefused⟩

theorem Attempted.parse_eq {source : String} {entry : Entry} (h : Attempted source entry)
    {word : String} (hword : entry.statement = .unknown word) :
    parse source = .error (.unknownCommand word) := by
  obtain ⟨before, after, bs, bs', hsplit, hbefore, hmove⟩ := h
  have hentry : bs.place entry.item =
      .error ⟨.unknownCommand word, ⟨bs'.current.commit, bs'.outer⟩⟩ := by
    rw [Blocks.place, Entry.item, hmove, hword]
    rfl
  rw [parse_eq_placeAll, hsplit, List.map_append, List.map_cons,
    Blocks.placeAll_append_of_ok hbefore, Blocks.placeAll_cons, hentry]
  rfl

/-- The line breaks in the message for a source are those in the command word of a statement that is
attempted. -/
theorem mem_message_of_parse_iff {source : String} {c : Char} (hc : isLineBreak c) :
    (∃ e, parse source = .error e ∧ c ∈ e.message.toList) ↔
      ∃ entry, Attempted source entry ∧ WordHas entry.body c := by
  constructor
  · rintro ⟨e, herror, hmem⟩
    have hcases := (Error.mem_message_iff hc).1 hmem
    rcases parse_error herror with ⟨entry, hattempted, hrefused⟩ | rfl | ⟨cause, rfl⟩
    · rcases hcases with ⟨word, rfl, hword⟩ | ⟨reason, rfl, _⟩
      · refine ⟨entry, hattempted, ?_⟩
        generalize hst : entry.statement = st at hrefused
        cases hrefused
        exact wordHas_of_unknown hst hword
      · exact absurd rfl (hrefused.ne_interrupted _)
    · simp at hcases
    · simp at hcases
  · rintro ⟨entry, hattempted, hword⟩
    obtain ⟨word, hst, hmem⟩ := hword.exists_unknown hc
    exact ⟨_, hattempted.parse_eq hst, (Error.mem_message_iff hc).2 (.inl ⟨word, rfl, hmem⟩)⟩

end Outline

end ProgramDiagram
