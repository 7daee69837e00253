import ProgramDiagram.Proofs.CommandLine.Effects
import ProgramDiagram.Proofs.CommandLine.Files

/-!
# Texts that are written

* `World.Holds`: what stands at an output, and that nothing else has changed;
* `World.HasRoom`, `World.LimitedTo`: whether an output takes a text, and where it stops;
* `World.Delivers`: what a run comes to that has a text for an output;
* `World.delivers_finishWith`: writing a text comes to just that.
-/

namespace ProgramDiagram.CommandLine

namespace World

variable {w w' : World} {text taken : String} {output? : Option String} {outcome : Outcome}

/-! ## Outputs -/

/-- A text stands at an output, and nothing else has changed. Without a path it is printed. A path
leads to a file, which then holds the text, or to a device, which may be standard output. -/
inductive Holds (w w' : World) (taken : String) : Option String → Prop
  | printed (hfiles : w'.files = w.files) (houtput : w'.output = w.output ++ taken) :
      Holds w w' taken none
  | stored {path : String} {l : Location} (htarget : w.target path = .ok l)
      (hfree : w.TakesFile l) (houtput : w'.output = w.output)
      (hread : (w'.read path).1 = .ok taken)
      (hothers : ∀ place ≠ l, w'.entry? place = w.entry? place) : Holds w w' taken (some path)
  | passed {path : String} {l : Location} {device : Device} (htarget : w.target path = .ok l)
      (hdevice : w.entry? l = some (.device device)) (hfiles : w'.files = w.files)
      (houtput : w'.output = w.output ++ if device = .output then taken else "") :
      Holds w w' taken (some path)

/-- A device takes a text. -/
def DeviceTakes (w : World) (text : String) : Device → Prop
  | .output => Fits w.outputLimit text
  | .full => text = ""
  | .terminal => False
  | .nothing | .input => True

/-- An output is there and takes a text. -/
inductive HasRoom (w : World) (text : String) : Option String → Prop
  | printed (hfits : Fits w.outputLimit text) : HasRoom w text none
  | stored {path : String} {l : Location} (htarget : w.target path = .ok l)
      (hfree : w.TakesFile l) (hfits : Fits (w.fileLimit l) text) : HasRoom w text (some path)
  | passed {path : String} {l : Location} {device : Device} (htarget : w.target path = .ok l)
      (hdevice : w.entry? l = some (.device device)) (htakes : w.DeviceTakes text device) :
      HasRoom w text (some path)

/-- An output takes no more than a limit allows. -/
inductive LimitedTo (w : World) (limit : Limit) : Option String → Prop
  | printed (hlimit : w.outputLimit = some limit) : LimitedTo w limit none
  | stored {path : String} {l : Location} (htarget : w.target path = .ok l)
      (hfree : w.TakesFile l) (hlimit : w.fileLimit l = some limit) : LimitedTo w limit (some path)
  | passed {path : String} {l : Location} (htarget : w.target path = .ok l)
      (hdevice : w.entry? l = some (.device .output)) (hlimit : w.outputLimit = some limit) :
      LimitedTo w limit (some path)

/-- A text is longer than its output allows, which has a beginning of it now. -/
def BreaksOff (w : World) (text : String) (output? : Option String) (outcome : Outcome)
    (w' : World) : Prop :=
  ∃ limit, LimitedTo w limit output? ∧ limit.room < text.length ∧
    Holds w w' (String.ofList (text.toList.take limit.room)) output? ∧
    outcome = .failure (.file limit.error)

/-- The text that is written for an output. On standard output its last line is ended. -/
def wholeText (text : String) : Option String → String
  | none => ended text
  | some _ => text

/-- What a run comes to that has a text for an output. It ends well if the output is there and takes
the whole text, which it then has. Otherwise the run fails, and the world is as it was, unless the
text breaks off. -/
structure Delivers (w : World) (text : String) (output? : Option String) (outcome : Outcome)
    (w' : World) : Prop where
  succeeds : outcome.code = 0 ↔ w.HasRoom (wholeText text output?) output?
  holds : outcome.code = 0 → Holds w w' (wholeText text output?) output?
  fails : outcome.code ≠ 0 →
    Untouched w w' ∨ w.BreaksOff (wholeText text output?) output? outcome w'

/-! ## Writing -/

/-- What writing a text to an output comes to, and the world after it. -/
inductive Writes (w : World) (text : String) (output? : Option String) :
    Except FileError Unit × World → Prop
  | whole {w' : World} (hroom : w.HasRoom text output?) (hholds : Holds w w' text output?) :
      Writes w text output? (.ok (), w')
  | refused {e : FileError} (hroom : ¬ w.HasRoom text output?) : Writes w text output? (.error e, w)
  | broken {w' : World} {limit : Limit} (hroom : ¬ w.HasRoom text output?)
      (hlimit : LimitedTo w limit output?) (hlong : limit.room < text.length)
      (hholds : Holds w w' (String.ofList (text.toList.take limit.room)) output?) :
      Writes w text output? (.error limit.error, w')

theorem print_of_fits (h : Fits w.outputLimit text) :
    ∃ w', w.print text = (.ok (), w') ∧ w'.files = w.files ∧ w'.output = w.output ++ text := by
  refine ⟨(w.print text).2, Prod.ext ?_ rfl, rfl, ?_⟩ <;> simp only [print, written_of_fits h]

theorem print_of_exceeds {limit : Limit} (hlimit : w.outputLimit = some limit)
    (hlong : limit.room < text.length) :
    ∃ w', w.print text = (.error limit.error, w') ∧ w'.files = w.files ∧
      w'.output = w.output ++ String.ofList (text.toList.take limit.room) := by
  refine ⟨(w.print text).2, Prod.ext ?_ rfl, rfl, ?_⟩ <;>
    simp only [print, hlimit, written_of_exceeds hlong]

theorem hasRoom_none_iff : w.HasRoom text none ↔ Fits w.outputLimit text := by
  refine ⟨fun h => ?_, .printed⟩
  cases h with
  | printed hfits => exact hfits

theorem writes_print (w : World) (text : String) : Writes w text none (w.print text) := by
  by_cases hfits : Fits w.outputLimit text
  · obtain ⟨w', hprint, hfiles, houtput⟩ := print_of_fits hfits
    rw [hprint]
    exact .whole (.printed hfits) (.printed hfiles houtput)
  · obtain ⟨limit, hlimit, hlong⟩ := exists_of_not_fits hfits
    obtain ⟨w', hprint, hfiles, houtput⟩ := print_of_exceeds hlimit hlong
    rw [hprint]
    exact .broken (mt hasRoom_none_iff.1 hfits) (.printed hlimit) hlong (.printed hfiles houtput)

section Path

variable {path : String} {l : Location} (htarget : w.target path = .ok l)

include htarget

theorem hasRoom_iff_of_takesFile (hfree : w.TakesFile l) :
    w.HasRoom text (some path) ↔ Fits (w.fileLimit l) text := by
  refine ⟨fun h => ?_, .stored htarget hfree⟩
  cases h with
  | stored htarget' _ hfits =>
    cases htarget.symm.trans htarget'
    exact hfits
  | passed htarget' hdevice =>
    cases htarget.symm.trans htarget'
    obtain ⟨_, hfile⟩ := hfree.eq_file hdevice
    cases hfile

theorem hasRoom_iff_of_device {device : Device} (hdevice : w.entry? l = some (.device device)) :
    w.HasRoom text (some path) ↔ w.DeviceTakes text device := by
  refine ⟨fun h => ?_, .passed htarget hdevice⟩
  cases h with
  | stored htarget' hfree =>
    cases htarget.symm.trans htarget'
    obtain ⟨_, hfile⟩ := hfree.eq_file hdevice
    cases hfile
  | passed htarget' hdevice' htakes =>
    cases htarget.symm.trans htarget'
    cases hdevice.symm.trans hdevice'
    exact htakes

theorem holds_withFile (hfree : w.TakesFile l) (taken : String) :
    Holds w (w.withFile l taken) taken (some path) := by
  have hplace := isFilePlace_of_target htarget hfree
  refine .stored htarget hfree rfl (by rw [read_withFile htarget hplace]) fun place hne => ?_
  rw [entry?_withFile hplace, if_neg hne]

theorem writes_file (hfree : w.TakesFile l) :
    Writes w text (some path) (w.write path text) := by
  have hroom : w.HasRoom text (some path) ↔ Fits (w.fileLimit l) text :=
    hasRoom_iff_of_takesFile htarget hfree
  rw [write_of_takesFile htarget hfree]
  by_cases hfits : Fits (w.fileLimit l) text
  · rw [written_of_fits hfits]
    exact .whole (hroom.2 hfits) (holds_withFile htarget hfree text)
  · obtain ⟨limit, hlimit, hlong⟩ := exists_of_not_fits hfits
    rw [hlimit, written_of_exceeds hlong]
    exact .broken (mt hroom.1 hfits) (.stored htarget hfree hlimit) hlong
      (holds_withFile htarget hfree _)

theorem writes_device {device : Device} (hdevice : w.entry? l = some (.device device)) :
    Writes w text (some path) (w.write path text) := by
  have hroom : w.HasRoom text (some path) ↔ w.DeviceTakes text device :=
    hasRoom_iff_of_device htarget hdevice
  have hwrite : w.write path text = w.writeDevice text device := by
    simp only [write, htarget, hdevice]
  have hsame : w.output = w.output ++ "" := (String.append_empty).symm
  rw [hwrite]
  cases device with
  | output =>
    show Writes w text (some path) (w.print text)
    by_cases hfits : Fits w.outputLimit text
    · obtain ⟨w', hprint, hfiles, houtput⟩ := print_of_fits hfits
      rw [hprint]
      exact .whole (hroom.2 hfits) (.passed htarget hdevice hfiles houtput)
    · obtain ⟨limit, hlimit, hlong⟩ := exists_of_not_fits hfits
      obtain ⟨w', hprint, hfiles, houtput⟩ := print_of_exceeds hlimit hlong
      rw [hprint]
      exact .broken (mt hroom.1 hfits) (.passed htarget hdevice hlimit) hlong
        (.passed htarget hdevice hfiles houtput)
  | full =>
    by_cases hempty : text = ""
    · subst hempty
      exact .whole (hroom.2 rfl) (.passed htarget hdevice rfl hsame)
    · have hdrop : w.writeDevice text .full = (.error .noSpace, w) := by simp [writeDevice, hempty]
      rw [hdrop]
      exact .refused (mt hroom.1 hempty)
  | terminal => exact .refused (mt hroom.1 id)
  | nothing | input => exact .whole (hroom.2 trivial) (.passed htarget hdevice rfl hsame)

end Path

theorem writes_write (w : World) (path text : String) :
    Writes w text (some path) (w.write path text) := by
  cases htarget : w.target path with
  | error e =>
    have hwrite : w.write path text = (.error e, w) := by simp only [write, htarget]
    rw [hwrite]
    refine .refused fun hroom => ?_
    cases hroom with
    | stored htarget' | passed htarget' => cases htarget.symm.trans htarget'
  | ok l =>
    cases hentry : w.entry? l with
    | none => exact writes_file htarget (.inl hentry)
    | some entry =>
      cases entry with
      | file old => exact writes_file htarget (.inr ⟨old, hentry⟩)
      | device device => exact writes_device htarget hentry
      | folder =>
        have hwrite : w.write path text = (.error .isFolder, w) := by
          simp only [write, htarget, hentry]
        rw [hwrite]
        refine .refused fun hroom => ?_
        cases hroom with
        | stored htarget' hfree =>
          cases htarget.symm.trans htarget'
          obtain ⟨_, hfile⟩ := hfree.eq_file hentry
          cases hfile
        | passed htarget' hdevice =>
          cases htarget.symm.trans htarget'
          cases hdevice.symm.trans hentry

theorem writes_writeOutput (w : World) (output? : Option String) (text : String) :
    Writes w (wholeText text output?) output? ((writeOutput system output? text).run w) := by
  cases output? with
  | none =>
    rw [writeOutput, run_printEnded]
    exact writes_print w (ended text)
  | some path => exact writes_write w path text

theorem delivers_finishWith (w : World) (output? : Option String) (text : String) :
    Delivers w text output? ((finishWith system output? text).run w).1
      ((finishWith system output? text).run w).2 := by
  have hwrites := writes_writeOutput w output? text
  rw [run_finishWith]
  rcases hout : (writeOutput system output? text).run w with ⟨e | _, w'⟩ <;> rw [hout] at hwrites
  · have hcode : (Outcome.failure (.file e)).code ≠ 0 := Nat.one_ne_zero
    cases hwrites with
    | refused hroom =>
      exact ⟨iff_of_false hcode hroom, fun h => absurd h hcode, fun _ => .inl (.refl w)⟩
    | broken hroom hlimit hlong hholds =>
      exact ⟨iff_of_false hcode hroom, fun h => absurd h hcode,
        fun _ => .inr ⟨_, hlimit, hlong, hholds, rfl⟩⟩
  · cases hwrites with
    | whole hroom hholds =>
      exact ⟨iff_of_true rfl hroom, fun _ => hholds, fun h => absurd rfl h⟩

/-! ## Worlds that differ in what is left of the input -/

variable {w₁ : World}

theorem Holds.of_untouched (huntouched : Untouched w w₁) (h : Holds w₁ w' taken output?) :
    Holds w w' taken output? := by
  obtain ⟨input, rfl⟩ := huntouched
  cases h with
  | printed hfiles houtput => exact .printed hfiles houtput
  | stored htarget hfree houtput hread hothers => exact .stored htarget hfree houtput hread hothers
  | passed htarget hdevice hfiles houtput => exact .passed htarget hdevice hfiles houtput

theorem LimitedTo.of_untouched {limit : Limit} (huntouched : Untouched w w₁)
    (h : LimitedTo w₁ limit output?) : LimitedTo w limit output? := by
  obtain ⟨input, rfl⟩ := huntouched
  cases h with
  | printed hlimit => exact .printed hlimit
  | stored htarget hfree hlimit => exact .stored htarget hfree hlimit
  | passed htarget hdevice hlimit => exact .passed htarget hdevice hlimit

theorem HasRoom.of_untouched (huntouched : Untouched w w₁) (h : w₁.HasRoom text output?) :
    w.HasRoom text output? := by
  obtain ⟨input, rfl⟩ := huntouched
  cases h with
  | printed hfits => exact .printed hfits
  | stored htarget hfree hfits => exact .stored htarget hfree hfits
  | passed htarget hdevice htakes =>
    refine .passed htarget hdevice ?_
    rename_i device
    cases device <;> exact htakes

theorem Untouched.symm (h : Untouched w w₁) : Untouched w₁ w := by
  obtain ⟨_, rfl⟩ := h
  exact ⟨w.input, rfl⟩

theorem BreaksOff.of_untouched (huntouched : Untouched w w₁)
    (h : w₁.BreaksOff text output? outcome w') : w.BreaksOff text output? outcome w' := by
  obtain ⟨limit, hlimit, hlong, hholds, houtcome⟩ := h
  exact ⟨limit, hlimit.of_untouched huntouched, hlong, hholds.of_untouched huntouched, houtcome⟩

theorem Delivers.of_untouched (huntouched : Untouched w w₁)
    (h : Delivers w₁ text output? outcome w') : Delivers w text output? outcome w' where
  succeeds := h.succeeds.trans ⟨.of_untouched huntouched, .of_untouched huntouched.symm⟩
  holds hcode := (h.holds hcode).of_untouched huntouched
  fails hcode := (h.fails hcode).imp huntouched.trans (.of_untouched huntouched)

end World

end ProgramDiagram.CommandLine
