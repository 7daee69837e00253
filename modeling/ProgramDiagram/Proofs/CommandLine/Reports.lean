import ProgramDiagram.Proofs.CommandLine.Drawing
import ProgramDiagram.Proofs.Outline.Messages

/-!
# Reports of refused sources

* `World.HasSource`: the source that a run draws or prints the tree of.
* `World.run_of_parse_error`: the run fails with the error of its source.
* `reportedOnOneLine_iff`: which sources get their report on one line.
-/

namespace ProgramDiagram.CommandLine

open Outline

namespace World

/-- The source of a run that draws, with a configuration that is accepted, or that prints a tree. -/
inductive HasSource (w : World) (arguments : List String) (source : String) : Prop
  | draw {given : Given} {config : Layer Binary64} {w' : World} (hspells : Spells arguments given)
      (hproper : Proper given) (hreads : Reads w given source config w')
  | tree {r : TreeRequest} {w' : World}
      (hrequest : Request.ofArguments arguments = .done (.tree r))
      (hsource : TakesSource w r.input (.ok source) w')

variable {w : World} {arguments : List String} {source : String} {e : Outline.Error}

theorem rendered_of_parse_error (herror : parse source = .error e) (given : Given)
    (config : Layer Binary64) : rendered given config source = .error (.outline e) := by
  have hby (layOut? : String → Option String) (o : Options Binary64) :
      Svg.drawSourceBy layOut? o source = .error (.outline e) := by
    simp only [Svg.drawSourceBy, Svg.drawSource, herror, Except.map]
  simp only [rendered, Svg.indentedSource, Svg.compactSource, hby, ite_self]

theorem run_of_parse_error (h : HasSource w arguments source) (herror : parse source = .error e) :
    (w.run arguments).1 = .failure (.outline e) := by
  cases h with
  | @draw given config w' hspells hproper hreads =>
    rw [run_of_spells hspells hproper, run_of_reads hreads, rendered_of_parse_error herror]
    rfl
  | @tree r w' hrequest hsource =>
    rw [run, CommandLine.run, hrequest]
    dsimp only
    rw [run_runTree, takesSource_iff.1 hsource]
    dsimp only
    rw [treeText, herror]

end World

/-- A text is one line with its end. -/
def OneLine (text : String) : Prop :=
  ∃ line : String, text = line ++ "\n" ∧ ∀ c ∈ line.toList, isLineBreak c = false

/-- If a source is refused, the message has no line break, and a run that takes the source reports
it on one line. -/
structure ReportedOnOneLine (source : String) : Prop where
  message : ∀ e, parse source = .error e → ∀ c ∈ e.message.toList, isLineBreak c = false
  report : ∀ w arguments e, World.HasSource w arguments source → parse source = .error e →
    ∃ f, (w.run arguments).1 = .failure f ∧ f.report = "Error: " ++ e.message ++ "\n" ∧
      OneLine f.report

theorem report_outline (e : Outline.Error) :
    (Failure.outline e).report = "Error: " ++ e.message ++ "\n" := by
  simp [Failure.report, Failure.headline, Failure.reason?]

theorem reportedOnOneLine_of_message {source : String}
    (h : ∀ e, parse source = .error e → ∀ c ∈ e.message.toList, isLineBreak c = false) :
    ReportedOnOneLine source where
  message := h
  report := by
    intro w arguments e hsource herror
    refine ⟨.outline e, World.run_of_parse_error hsource herror, report_outline e,
      "Error: " ++ e.message, report_outline e, fun c hc => ?_⟩
    cases hbreak : isLineBreak c with
    | false => rfl
    | true =>
      have hmessage := (mem_append_of_isLineBreak (by decide) hbreak e.message).1 hc
      rw [h e herror c hmessage] at hbreak
      cases hbreak

/-- A source gets its report on one line unless a statement that is attempted has a line break in
its command word. -/
theorem reportedOnOneLine_iff (source : String) :
    ReportedOnOneLine source ↔
      ∀ entry, Attempted source entry → ∀ c, isLineBreak c → ¬ WordHas entry.body c := by
  constructor
  · intro h entry hattempted c hc hword
    obtain ⟨e, herror, hmem⟩ := (mem_message_of_parse_iff hc).2 ⟨entry, hattempted, hword⟩
    rw [h.message e herror c hmem] at hc
    cases hc
  · intro h
    refine reportedOnOneLine_of_message fun e herror c hmem => ?_
    by_contra hbreak
    rw [Bool.not_eq_false] at hbreak
    obtain ⟨entry, hattempted, hword⟩ := (mem_message_of_parse_iff hbreak).1 ⟨e, herror, hmem⟩
    exact h entry hattempted c hbreak hword

/-- A marker inside a command word gives the message a second line. -/
theorem not_reportedOnOneLine_marker :
    parse ":foo@bar" = .error (.unknownCommand "foo\nbar") ∧
      ¬ ReportedOnOneLine ":foo@bar" := by
  have herror : parse ":foo@bar" = .error (.unknownCommand "foo\nbar") := rfl
  refine ⟨herror, fun h => ?_⟩
  have hfeed := h.message _ herror '\n' (by decide)
  exact absurd hfeed (by decide)

end ProgramDiagram.CommandLine
