import ProgramDiagram.CommandLine.World

/-!
# The effects of a run

* `World.Untouched`: worlds that differ in what is left of the input at most.
* `World.TakesSource`, `World.TakesConfig`: what a run reads, with the errors that it can meet.
* `World.run_runDraw`, `World.run_runTree`: a run reads, then draws or takes the tree, and writes
  last.
* `World.run_printEnded`: a text and the line feed after it are printed as one text.
-/

namespace ProgramDiagram.CommandLine

namespace World

/-- Worlds that differ in what is left of the input at most. -/
def Untouched (w w' : World) : Prop := ∃ input, w' = { w with input }

variable {w w₁ w₂ : World}

theorem Untouched.refl (w : World) : Untouched w w := ⟨w.input, rfl⟩

theorem Untouched.trans (h : Untouched w w₁) (h' : Untouched w₁ w₂) : Untouched w w₂ := by
  obtain ⟨_, rfl⟩ := h
  obtain ⟨input, rfl⟩ := h'
  exact ⟨input, rfl⟩

/-! ## Reading -/

/-- What a run takes as its source: standard input, or the content of another file. -/
inductive TakesSource (w : World) : Option String → Except FileError String → World → Prop
  | input {path? : Option String} {result : Except FileError String} {w' : World}
      (h : ∀ path ∈ path?, (Path.ofText path).isStandardInput)
      (hread : w.readInput = (result, w')) : TakesSource w path? result w'
  | file {path : String} {result : Except FileError String} {w' : World}
      (h : (Path.ofText path).isStandardInput = false) (hread : w.read path = (result, w')) :
      TakesSource w (some path) result w'

/-- What a run takes as its configuration: nothing, or what is said in a file. It fails if the file
cannot be read, or if what is said in it is no configuration. -/
inductive TakesConfig (w : World) : Option String → Except Failure (Layer Binary64) → World → Prop
  | none : TakesConfig w none (.ok .empty) w
  | unread {path : String} {e : FileError} {w' : World} (hread : w.read path = (.error e, w')) :
      TakesConfig w (some path) (.error (.file e)) w'
  | refused {path text : String} {w' : World} (hread : w.read path = (.ok text, w'))
      (htext : Layer.read? text = none) : TakesConfig w (some path) (.error (.config path)) w'
  | accepted {path text : String} {layer : Layer Binary64} {w' : World}
      (hread : w.read path = (.ok text, w')) (htext : Layer.read? text = some layer) :
      TakesConfig w (some path) (.ok layer) w'

theorem untouched_readInput (w : World) : Untouched w w.readInput.2 := by
  unfold readInput
  split
  · exact ⟨some "", rfl⟩
  · exact .refl w

theorem untouched_read (w : World) (path : String) : Untouched w (w.read path).2 := by
  unfold read
  split
  · exact .refl w
  · rename_i device _
    cases device with
    | input => exact untouched_readInput w
    | nothing | full | output | terminal => exact .refl w
  · exact .refl w
  · exact .refl w

theorem TakesSource.untouched {path? : Option String} {result : Except FileError String}
    (h : TakesSource w path? result w₁) : Untouched w w₁ := by
  cases h with
  | input _ hread => simpa [hread] using untouched_readInput w
  | @file path _ _ _ hread => simpa [hread] using untouched_read w path

theorem TakesConfig.untouched {path? : Option String} {result : Except Failure (Layer Binary64)}
    (h : TakesConfig w path? result w₁) : Untouched w w₁ := by
  cases h with
  | none => exact .refl w
  | @unread path _ _ hread | @refused path _ _ hread | @accepted path _ _ _ hread =>
    simpa [hread] using untouched_read w path

theorem run_bind {α β : Type} (x : StateM World α) (f : α → StateM World β) (w : World) :
    (x >>= f).run w = (f (x.run w).1).run (x.run w).2 := rfl

theorem run_readFile (w : World) (path : String) : (system.readFile path).run w = w.read path := rfl

theorem takesSource_iff {path? : Option String} {result : Except FileError String} :
    TakesSource w path? result w₁ ↔ (readSource system path?).run w = (result, w₁) := by
  constructor
  · intro h
    cases h with
    | @input path? _ _ hinput hread =>
      rw [← hread]
      cases path? with
      | none => rfl
      | some path =>
        rw [readSource, if_pos (hinput path rfl)]
        rfl
    | file hfile hread =>
      rw [← hread, readSource, hfile]
      rfl
  · intro h
    cases path? with
    | none => exact .input (by simp) h
    | some path =>
      rw [readSource] at h
      cases hinput : (Path.ofText path).isStandardInput with
      | false =>
        rw [hinput] at h
        exact .file hinput h
      | true =>
        rw [hinput] at h
        exact .input (by simpa using hinput) h

theorem takesConfig_iff {path? : Option String} {result : Except Failure (Layer Binary64)} :
    TakesConfig w path? result w₁ ↔ (readConfig system path?).run w = (result, w₁) := by
  cases path? with
  | none =>
    refine ⟨fun h => ?_, fun h => ?_⟩
    · cases h
      rfl
    · cases h
      exact .none
  | some path =>
    rw [readConfig, run_bind, run_readFile]
    refine ⟨fun h => ?_, fun h => ?_⟩
    · cases h with
      | unread hread => rw [hread]; rfl
      | refused hread htext => simp only [hread, htext]; rfl
      | accepted hread htext => simp only [hread, htext]; rfl
    · rcases hread : w.read path with ⟨e | text, w'⟩ <;> rw [hread] at h
      · cases h
        exact .unread hread
      · cases htext : Layer.read? text with
        | none =>
          simp only [htext] at h
          cases h
          exact .refused hread htext
        | some layer =>
          simp only [htext] at h
          cases h
          exact .accepted hread htext

theorem takesSource_none {source : String} (hinput : w.input = some source) :
    TakesSource w none (.ok source) { w with input := some "" } := by
  have hread : w.readInput = (.ok source, { w with input := some "" }) := by
    rw [readInput, hinput]
  exact .input (by simp) hread

theorem exists_takesSource (w : World) (path? : Option String) :
    ∃ result w', TakesSource w path? result w' :=
  ⟨_, _, takesSource_iff.2 rfl⟩

theorem exists_takesConfig (w : World) (path? : Option String) :
    ∃ result w', TakesConfig w path? result w' :=
  ⟨_, _, takesConfig_iff.2 rfl⟩

/-! ## Writing -/

/-- A text is as short as a limit allows. -/
def Fits (limit? : Option Limit) (text : String) : Prop :=
  ∀ limit ∈ limit?, text.length ≤ limit.room

theorem written_of_fits {limit? : Option Limit} {text : String} (h : Fits limit? text) :
    written limit? text = (.ok (), text) := by
  cases limit? with
  | none => rfl
  | some limit => exact if_pos (h limit rfl)

theorem written_of_exceeds {limit : Limit} {text : String} (h : limit.room < text.length) :
    written (some limit) text =
      (.error limit.error, String.ofList (text.toList.take limit.room)) :=
  if_neg (Nat.not_le.2 h)

theorem exists_of_not_fits {limit? : Option Limit} {text : String} (h : ¬ Fits limit? text) :
    ∃ limit, limit? = some limit ∧ limit.room < text.length := by
  simpa [Fits] using h

/-- What a text has to be to stand on standard output with its last line ended. -/
def ended (text : String) : String :=
  text ++ if text ≠ "" ∧ text.toList.getLast? ≠ some '\n' then "\n" else ""

theorem isUnended_iff {text : String} :
    isUnended text ↔ text ≠ "" ∧ text.toList.getLast? ≠ some '\n' := by
  simp [isUnended]

theorem run_print (w : World) (text : String) : (system.print text).run w = w.print text := rfl

/-- A text that is printed after another one is printed as its end, if there is room for it. -/
theorem print_append {w : World} {first : String} (h : Fits w.outputLimit first) (second : String) :
    (w.print first).2.print second = w.print (first ++ second) := by
  obtain ⟨input, output, files, limit?, fileLimit, help⟩ := w
  cases limit? with
  | none => simp [print, written, String.append_assoc]
  | some limit =>
    have hfirst : first.length ≤ limit.room := h limit rfl
    by_cases hsecond : second.length ≤ limit.room - first.length
    · have hboth : first.length + second.length ≤ limit.room := by omega
      simp [print, written, hfirst, hsecond, hboth, String.append_assoc, Nat.sub_sub]
    · have hboth : ¬ first.length + second.length ≤ limit.room := by omega
      have htake : (first.toList ++ second.toList).take limit.room =
          first.toList ++ second.toList.take (limit.room - first.length) := by
        rw [List.take_append, List.take_of_length_le hfirst]
        rfl
      simp [print, written, hfirst, hsecond, hboth, htake, String.append_assoc, Nat.sub_sub]

/-- Without room for a text nothing is printed of what comes after it. -/
theorem print_append_of_not_fits {w : World} {first : String} (h : ¬ Fits w.outputLimit first)
    (second : String) : w.print (first ++ second) = w.print first := by
  obtain ⟨input, output, files, limit?, fileLimit, help⟩ := w
  obtain ⟨limit, hlimit, hroom⟩ := exists_of_not_fits h
  obtain rfl : limit? = some limit := hlimit
  have hfirst : ¬ first.length ≤ limit.room := Nat.not_le.2 hroom
  have hboth : ¬ first.length + second.length ≤ limit.room := by omega
  have htake : (first.toList ++ second.toList).take limit.room = first.toList.take limit.room :=
    List.take_append_of_le_length (Nat.le_of_lt hroom)
  have hleft : limit.room - (first.length + second.length) = limit.room - first.length := by omega
  simp [print, written, hfirst, hboth, htake, hleft]

/-- A text and the line feed after it are printed as one text. -/
theorem run_printEnded (w : World) (text : String) :
    (printEnded system text).run w = w.print (ended text) := by
  rw [printEnded, run_bind, run_print]
  by_cases hfits : Fits w.outputLimit text
  · have hprint : (w.print text).1 = .ok () := by rw [print, written_of_fits hfits]
    rw [hprint]
    dsimp only
    by_cases hunended : isUnended text
    · rw [if_pos hunended, run_print, print_append hfits, ended, if_pos (isUnended_iff.1 hunended)]
    · rw [if_neg hunended, ended, if_neg (mt isUnended_iff.2 hunended), String.append_empty]
      exact Prod.ext hprint.symm rfl
  · obtain ⟨limit, hlimit, hroom⟩ := exists_of_not_fits hfits
    have hprint : (w.print text).1 = .error limit.error := by
      rw [print, hlimit, written_of_exceeds hroom]
    rw [ended, print_append_of_not_fits hfits, hprint]
    exact Prod.ext hprint.symm rfl

/-! ## Runs -/

theorem run_finishWith (w : World) (path? : Option String) (text : String) :
    (finishWith system path? text).run w =
      match (writeOutput system path? text).run w with
      | (.ok (), w') => (.success, w')
      | (.error e, w') => (.failure (.file e), w') := by
  rw [finishWith, run_bind]
  rcases (writeOutput system path? text).run w with ⟨e | _, w'⟩ <;> rfl

theorem run_runDraw (w : World) (r : DrawRequest) :
    (runDraw system r).run w =
      match (readSource system r.input).run w with
      | (.error e, w₁) => (.failure (.file e), w₁)
      | (.ok source, w₁) =>
        match (readConfig system r.config).run w₁ with
        | (.error e, w₂) => (.failure e, w₂)
        | (.ok config, w₂) =>
          match drawn r config source with
          | .error e => (.failure e, w₂)
          | .ok text => (finishWith system r.output text).run w₂ := by
  rw [runDraw, run_bind]
  rcases (readSource system r.input).run w with ⟨e | source, w₁⟩
  · rfl
  · dsimp only
    rw [run_bind]
    rcases (readConfig system r.config).run w₁ with ⟨e | config, w₂⟩
    · rfl
    · dsimp only
      cases drawn r config source <;> rfl

theorem run_runTree (w : World) (r : TreeRequest) :
    (runTree system r).run w =
      match (readSource system r.input).run w with
      | (.error e, w₁) => (.failure (.file e), w₁)
      | (.ok source, w₁) =>
        match treeText r.indented source with
        | .error e => (.failure e, w₁)
        | .ok text => (finishWith system none text).run w₁ := by
  rw [runTree, run_bind]
  rcases (readSource system r.input).run w with ⟨e | source, w₁⟩
  · rfl
  · dsimp only
    cases treeText r.indented source <;> rfl

end World

end ProgramDiagram.CommandLine
