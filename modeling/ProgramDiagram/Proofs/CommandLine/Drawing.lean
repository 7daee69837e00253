import ProgramDiagram.Proofs.CommandLine.Usage
import ProgramDiagram.Proofs.CommandLine.Writing
import ProgramDiagram.Proofs.Options.Layers
import ProgramDiagram.Proofs.Svg.Forms

/-!
# Drawings that are delivered

* `World.Prepares`: what a request to draw comes to before anything is written.
* `World.failsCleanly_run`: a run that fails changes nothing, unless its writing breaks off.
* `World.run_draws`: a request to draw that has a drawing delivers it, and one that has none fails.
* `World.run_not_atomic`: outputs that take no text, or a part of it only.
-/

namespace ProgramDiagram.CommandLine

/-- The drawing of a source, with what is given on top of a configuration on top of the standard
options. -/
def rendered (given : Given) (config : Layer Binary64) (source : String) :
    Except Svg.Error String :=
  let options := (Options.standard.merged config).merged (flagsOf given)
  if (given.lookup .indented).isSome then Svg.indentedSource options source
  else Svg.compactSource options source

/-- Why there is no drawing. -/
def undrawn : Svg.Error → Failure
  | .outline e => .outline e
  | .notDocument => .notDocument

theorem drawn_requestOf (given : Given) (config : Layer Binary64) (source : String) :
    drawn (requestOf given) config source = (rendered given config source).mapError undrawn := by
  have hflags : (requestOf given).flags = flagsOf given := rfl
  have hindented : (requestOf given).indented = (given.lookup .indented).isSome := rfl
  simp only [drawn, rendered, hflags, hindented, Options.merged_onto]
  split <;> simp only [*] <;> rfl

namespace World

variable {w w₁ w₂ : World} {arguments : List String} {given : Given}

/-- What a request to draw reads. -/
def Reads (w : World) (given : Given) (source : String) (config : Layer Binary64) (w' : World) :
    Prop :=
  ∃ w₁, TakesSource w (given.lookup .input) (.ok source) w₁ ∧
    TakesConfig w₁ (given.lookup .config) (.ok config) w'

/-- What a request to draw comes to before anything is written: a drawing, or the reason why there
is none. -/
inductive Prepares (w : World) (given : Given) : Except Failure String → World → Prop
  | noSource {e : FileError} {w' : World}
      (hsource : TakesSource w (given.lookup .input) (.error e) w') :
      Prepares w given (.error (.file e)) w'
  | noConfig {source : String} {f : Failure} {w₁ w' : World}
      (hsource : TakesSource w (given.lookup .input) (.ok source) w₁)
      (hconfig : TakesConfig w₁ (given.lookup .config) (.error f) w') :
      Prepares w given (.error f) w'
  | noDrawing {source : String} {config : Layer Binary64} {e : Svg.Error} {w' : World}
      (hreads : Reads w given source config w') (hdraws : rendered given config source = .error e) :
      Prepares w given (.error (undrawn e)) w'
  | drawing {source text : String} {config : Layer Binary64} {w' : World}
      (hreads : Reads w given source config w') (hdraws : rendered given config source = .ok text) :
      Prepares w given (.ok text) w'

theorem Reads.untouched {source : String} {config : Layer Binary64} {w' : World}
    (h : Reads w given source config w') : Untouched w w' := by
  obtain ⟨w₁, hsource, hconfig⟩ := h
  exact hsource.untouched.trans hconfig.untouched

theorem Prepares.untouched {result : Except Failure String} {w' : World}
    (h : Prepares w given result w') : Untouched w w' := by
  cases h with
  | noSource hsource => exact hsource.untouched
  | noConfig hsource hconfig => exact hsource.untouched.trans hconfig.untouched
  | noDrawing hreads | drawing hreads => exact hreads.untouched

theorem exists_prepares (w : World) (given : Given) :
    ∃ result w', Prepares w given result w' := by
  obtain ⟨source | source, w₁, hsource⟩ := exists_takesSource w (given.lookup .input)
  · exact ⟨_, _, .noSource hsource⟩
  · obtain ⟨f | config, w', hconfig⟩ := exists_takesConfig w₁ (given.lookup .config)
    · exact ⟨_, _, .noConfig hsource hconfig⟩
    · cases hdraws : rendered given config source with
      | error e => exact ⟨_, _, .noDrawing ⟨w₁, hsource, hconfig⟩ hdraws⟩
      | ok text => exact ⟨_, _, .drawing ⟨w₁, hsource, hconfig⟩ hdraws⟩

theorem run_of_spells (hspells : Spells arguments given) (hproper : Proper given) :
    w.run arguments = (runDraw system (requestOf given)).run w := by
  have hrequest : Request.ofArguments arguments = .done (.draw (requestOf given)) :=
    ofArguments_eq_draw_iff.2 ⟨given, hspells, hproper, rfl⟩
  rw [run, CommandLine.run, hrequest]

/-- A run that has read what it needs ends with the failure of its drawing, or writes it. -/
theorem run_of_reads {source : String} {config : Layer Binary64} {w' : World}
    (h : Reads w given source config w') :
    (runDraw system (requestOf given)).run w =
      match rendered given config source with
      | .error e => (.failure (undrawn e), w')
      | .ok text => (finishWith system (given.lookup .output) text).run w' := by
  obtain ⟨w₁, hsource, hconfig⟩ := h
  have hinput : (requestOf given).input = given.lookup .input := rfl
  have hload : (requestOf given).config = given.lookup .config := rfl
  rw [run_runDraw, hinput, takesSource_iff.1 hsource]
  dsimp only
  rw [hload, takesConfig_iff.1 hconfig]
  dsimp only
  rw [drawn_requestOf]
  cases rendered given config source <;> rfl

/-- A run fails with what keeps it from drawing, or writes its drawing. -/
def conclude (given : Given) (w' : World) : Except Failure String → Outcome × World
  | .error f => (.failure f, w')
  | .ok text => (finishWith system (given.lookup .output) text).run w'

theorem run_of_prepares {result : Except Failure String} {w' : World}
    (h : Prepares w given result w') :
    (runDraw system (requestOf given)).run w = conclude given w' result := by
  have hinput : (requestOf given).input = given.lookup .input := rfl
  have hload : (requestOf given).config = given.lookup .config := rfl
  cases h with
  | noSource hsource =>
    rw [run_runDraw, hinput, takesSource_iff.1 hsource]
    rfl
  | noConfig hsource hconfig =>
    rw [run_runDraw, hinput, takesSource_iff.1 hsource]
    dsimp only
    rw [hload, takesConfig_iff.1 hconfig]
    rfl
  | noDrawing hreads hdraws | drawing hreads hdraws =>
    rw [run_of_reads hreads, hdraws]
    rfl

/-- A run that fails leaves the world as it was, unless its writing breaks off. -/
def FailsCleanly (w : World) (result : Outcome × World) : Prop :=
  result.1.code ≠ 0 →
    Untouched w result.2 ∨ ∃ text output?, w.BreaksOff text output? result.1 result.2

theorem Untouched.failsCleanly {outcome : Outcome} (h : Untouched w w₁) :
    FailsCleanly w (outcome, w₁) :=
  fun _ => .inl h

theorem Untouched.failsCleanly_finishWith (h : Untouched w w₁) (output? : Option String)
    (text : String) : FailsCleanly w ((finishWith system output? text).run w₁) := by
  intro hcode
  have hdelivers := (delivers_finishWith w₁ output? text).of_untouched h
  exact (hdelivers.fails hcode).imp id fun hbreaks => ⟨_, _, hbreaks⟩

/-- A run that takes a tree fails for its source, or writes the tree. -/
theorem failsCleanly_runTree (w : World) (r : TreeRequest) :
    FailsCleanly w ((runTree system r).run w) := by
  obtain ⟨result, w₁, hsource⟩ := exists_takesSource w r.input
  have huntouched := hsource.untouched
  rw [run_runTree, takesSource_iff.1 hsource]
  cases result with
  | error e => exact huntouched.failsCleanly
  | ok source =>
    dsimp only
    cases treeText r.indented source with
    | error e => exact huntouched.failsCleanly
    | ok text => exact huntouched.failsCleanly_finishWith none text

theorem failsCleanly_runDraw (w : World) (given : Given) :
    FailsCleanly w ((runDraw system (requestOf given)).run w) := by
  obtain ⟨result, w', hprepares⟩ := exists_prepares w given
  rw [run_of_prepares hprepares]
  cases result with
  | error f => exact hprepares.untouched.failsCleanly
  | ok text => exact hprepares.untouched.failsCleanly_finishWith _ text

theorem failsCleanly_run (w : World) (arguments : List String) :
    FailsCleanly w (w.run arguments) := by
  unfold run CommandLine.run
  split
  · rename_i r hrequest
    obtain ⟨given, -, -, rfl⟩ := ofArguments_eq_draw_iff.1 hrequest
    exact failsCleanly_runDraw w given
  · exact failsCleanly_runTree w _
  · exact fun hcode => absurd rfl hcode
  · exact fun hcode => absurd rfl hcode
  · exact (Untouched.refl w).failsCleanly

/-- A request to draw is what is given, as long as each option is given once and has a value that it
accepts. It comes to a drawing, if the source can be read, the configuration is absent or its file
can be read and says one, and the source has a drawing under the options that they come to;
otherwise the run fails for the first of these reasons and changes nothing. A drawing is delivered:
the run ends well just if its output takes it, which then has it whole, with nothing else changed.
Whatever is asked for, a run that does not end well leaves the output and the files as they are,
unless its text is longer than the output allows, which then has the beginning of it. -/
theorem run_draws (w : World) (arguments : List String) :
    ((∃ r, Request.ofArguments arguments = .done (.draw r)) ↔
      ∃ given, Spells arguments given ∧ Proper given) ∧
    (∀ given, Spells arguments given → Proper given →
      (∃ result w', Prepares w given result w') ∧
      ∀ result w', Prepares w given result w' → Untouched w w' ∧
        (∀ f, result = .error f → w.run arguments = (.failure f, w')) ∧
        ∀ text, result = .ok text →
          Delivers w text (given.lookup .output) (w.run arguments).1 (w.run arguments).2) ∧
    ((w.run arguments).1.code ≠ 0 →
      Untouched w (w.run arguments).2 ∨ ∃ text output?,
        w.BreaksOff text output? (w.run arguments).1 (w.run arguments).2) := by
  refine ⟨⟨?_, ?_⟩, fun given hspells hproper => ?_, failsCleanly_run w arguments⟩
  · rintro ⟨r, hr⟩
    obtain ⟨given, hspells, hproper, -⟩ := ofArguments_eq_draw_iff.1 hr
    exact ⟨given, hspells, hproper⟩
  · rintro ⟨given, hspells, hproper⟩
    exact ⟨requestOf given, ofArguments_eq_draw_iff.2 ⟨given, hspells, hproper, rfl⟩⟩
  · refine ⟨exists_prepares w given, fun result w' hprepares => ?_⟩
    have huntouched := hprepares.untouched
    rw [run_of_spells hspells hproper, run_of_prepares hprepares]
    refine ⟨huntouched, fun f hf => by rw [hf, conclude], fun text htext => ?_⟩
    rw [htext, conclude]
    exact (delivers_finishWith w' _ text).of_untouched huntouched

/-- A flag goes before a configuration file, and the file before the standard options. Without the
file the run fails. -/
theorem run_draws_configured :
    let config := "\x7b\"strokeColor\":\"red\",\"textColor\":\"green\"\x7d"
    let layer : Layer Binary64 :=
      { Layer.empty with strokeColor := some "red", textColor := some "green" }
    let given : Given := [(.config, "conf.json"), (.strokeColor, "blue"), (.output, "out.svg")]
    let options := (Options.standard.merged layer).merged (flagsOf given)
    let w := ofFiles (some "a & <b>") [("conf.json", config)]
    let without := ofFiles (some "a & <b>") []
    let arguments := ["--config", "conf.json", "--stroke-color", "blue", "-o", "out.svg"]
    options.strokeColor = "blue" ∧ options.textColor = "green" ∧ options.fontFamily = "sans-serif" ∧
      (∃ text, Svg.compactSource options "a & <b>" = .ok text ∧ (w.run arguments).1.code = 0 ∧
        (w.run arguments).2.output = "" ∧ ((w.run arguments).2.read "out.svg").1 = .ok text) ∧
      without.run arguments = (.failure (.file .notFound), { without with input := some "" }) := by
  intro config layer given options w without arguments
  have hconfig : Says "--config".toList [] (some .config) :=
    Says.awaiting (o := .config) (by decide)
  have hcolor : Says "--stroke-color".toList [] (some .strokeColor) :=
    Says.awaiting (o := .strokeColor) (by decide)
  have houtput : Says "-o".toList [] (some .output) := .letters (by decide) (.awaiting rfl)
  have hspells : Spells arguments given :=
    .withValue hconfig (by decide)
      (.withValue hcolor (by decide) (.withValue houtput (by decide) .nil))
  have hproper : Proper given := ⟨by decide, by simp [given, DrawOption.Accepts]⟩
  refine ⟨rfl, rfl, rfl, ?drawing, ?noConfig⟩
  case drawing =>
    have hjson : Json.Source.read? config = some (.object
        [("strokeColor".toList.map .char, .string ("red".toList.map .char)),
          ("textColor".toList.map .char, .string ("green".toList.map .char))]) :=
      Json.read?_compact (.object [("strokeColor", .string "red"), ("textColor", .string "green")])
    have hlayer : Layer.read? config = some layer := by
      rw [Layer.read?, hjson]
      rfl
    have hreads : Reads w given "a & <b>" layer { w with input := some "" } :=
      ⟨_, takesSource_none rfl, .accepted rfl hlayer⟩
    have hparse : Outline.parse "a & <b>" = .ok (some (.list [.process "a & <b>" none])) := rfl
    obtain ⟨text, hcompact, -⟩ := Svg.exists_compactSource (o := options) hparse (by decide)
    have htext : rendered given layer "a & <b>" = .ok text := by
      rw [← hcompact, rendered, if_neg (by decide)]
    have hfree : w.entry? ⟨false, 0, ["out.svg"]⟩ = none := by decide
    obtain ⟨-, -, hdelivers⟩ :=
      ((run_draws w arguments).2.1 given hspells hproper).2 _ _ (.drawing hreads htext)
    obtain ⟨hsucceeds, hholds, -⟩ := hdelivers text rfl
    have hcode := hsucceeds.2 (.stored rfl (.inl hfree) (by simp [Fits, w, ofFiles]))
    cases hholds hcode with
    | stored _ _ houtput hread => exact ⟨text, hcompact, hcode, houtput, hread⟩
    | passed htarget hdevice =>
      cases htarget
      cases hfree.symm.trans hdevice
  case noConfig =>
    have hsource : TakesSource without none (.ok "a & <b>") { without with input := some "" } :=
      takesSource_none rfl
    have hprepares : Prepares without given (.error (.file .notFound))
        { without with input := some "" } :=
      .noConfig hsource (.unread rfl)
    obtain ⟨-, hfails, -⟩ :=
      ((run_draws without arguments).2.1 given hspells hproper).2 _ _ hprepares
    exact hfails _ rfl

/-! ## Outputs that take no text -/

/-- A run that draws one node for a file has a text for it that is not empty. -/
theorem run_single (w : World) (path : String) (hinput : w.input = some "A") (hvalue : isValue path)
    (hpath : path ≠ "") :
    ∃ text, Svg.compactSource .standard "A" = .ok text ∧ text ≠ "" ∧
      w.run ["-o", path] =
        (finishWith system (some path) text).run { w with input := some "" } := by
  have houtput : Says "-o".toList [] (some .output) := .letters (by decide) (.awaiting rfl)
  have hspells : Spells ["-o", path] [(.output, path)] := .withValue houtput hvalue .nil
  have hproper : Proper [(.output, path)] := ⟨by simp, by simp [DrawOption.Accepts, hpath]⟩
  have hreads : Reads w [(.output, path)] "A" .empty { w with input := some "" } :=
    ⟨_, takesSource_none hinput, .none⟩
  have hparse : Outline.parse "A" = .ok (some (.list [.process "A" none])) := rfl
  obtain ⟨text, hcompact, hne⟩ := Svg.exists_compactSource (o := .standard) hparse (by decide)
  have hoptions (o : Options Binary64) :
      (o.merged .empty).merged (flagsOf [(.output, path)]) = o := rfl
  have htext : rendered [(.output, path)] .empty "A" = .ok text := by
    have hcompact? : ¬ (List.lookup .indented [(DrawOption.output, path)]).isSome :=
      Bool.false_ne_true
    rw [← hcompact, rendered, hoptions, if_neg hcompact?]
  refine ⟨text, hcompact, hne, ?_⟩
  rw [run_of_spells hspells hproper, run_of_reads hreads, htext]
  rfl

/-- Outputs may take no drawing. A store without room takes nothing of it, and a file on one has
lost its content by then. Standard output has the beginning of a text if nobody takes the rest. -/
theorem run_not_atomic :
    let single := ofFiles (some "A") []
    let full := { ofFiles (some "A") [("out.svg", "old")] with
      fileLimit := fun _ => some ⟨0, .noSpace⟩ }
    let closed := { ofFiles (some "") [] with outputLimit := some ⟨2, .other "Broken pipe"⟩ }
    (∃ text, Svg.compactSource .standard "A" = .ok text ∧
      (single.run ["-o", "/dev/full"]).1.code ≠ 0) ∧
    ((full.run ["-o", "out.svg"]).1.code ≠ 0 ∧ (full.read "out.svg").1 = .ok "old" ∧
      ((full.run ["-o", "out.svg"]).2.read "out.svg").1 = .ok "") ∧
    (closed.run ["parse"]).1.code ≠ 0 ∧ (closed.run ["parse"]).2.output = "nu" := by
  intro single full closed
  refine ⟨?device, ?emptied, ?broken⟩
  case device =>
    obtain ⟨text, hcompact, hne, hrun⟩ :=
      run_single single "/dev/full" rfl (by decide) (by decide)
    refine ⟨text, hcompact, fun hcode => ?_⟩
    rw [hrun] at hcode
    have hroom : single.HasRoom text (some "/dev/full") :=
      ((delivers_finishWith _ (some "/dev/full") text).succeeds.1 hcode).of_untouched ⟨_, rfl⟩
    have htarget : single.target "/dev/full" = .ok ⟨true, 0, ["full", "dev"]⟩ := rfl
    have hdevice : single.entry? ⟨true, 0, ["full", "dev"]⟩ = some (.device .full) := rfl
    exact hne ((hasRoom_iff_of_device htarget hdevice).1 hroom)
  case emptied =>
    obtain ⟨text, -, hne, hrun⟩ := run_single full "out.svg" rfl (by decide) (by decide)
    have hlong : 0 < text.length := Nat.pos_of_ne_zero (mt String.length_eq_zero_iff.1 hne)
    let read := { full with input := some "" }
    have htarget : read.target "out.svg" = .ok ⟨false, 0, ["out.svg"]⟩ := rfl
    have hfree : read.TakesFile ⟨false, 0, ["out.svg"]⟩ := .inr ⟨"old", rfl⟩
    have hwrite : (writeOutput system (some "out.svg") text).run read =
        (.error .noSpace, read.withFile ⟨false, 0, ["out.svg"]⟩ "") := by
      refine (write_of_takesFile htarget hfree).trans ?_
      rw [show read.fileLimit _ = some ⟨0, .noSpace⟩ from rfl, written_of_exceeds hlong]
      rfl
    rw [hrun, run_finishWith, hwrite]
    have hread : (read.withFile ⟨false, 0, ["out.svg"]⟩ "").read "out.svg" = (.ok "", _) :=
      read_withFile htarget (isFilePlace_of_target htarget hfree)
    exact ⟨Nat.one_ne_zero, rfl, congrArg Prod.fst hread⟩
  case broken => decide

end World

end ProgramDiagram.CommandLine
