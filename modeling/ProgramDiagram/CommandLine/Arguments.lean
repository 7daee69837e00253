/-!
# Command-line arguments

* `Grammar`: the parameters of a command, by name and by letter.
* `Grammar.read`: arguments are read from left to right, and the first one that is wrong or that
  stops the reading decides.
-/

namespace ProgramDiagram.CommandLine

/-- What a parameter that stops the reading asks for. -/
inductive Stop where
  | version
  | help
deriving DecidableEq

/-- A parameter changes the settings, unless it may not be given so. -/
inductive Parameter (σ : Type) where
  | switch (set? : σ → Option σ)
  | valued (set? : String → σ → Option σ)
  | stop (reason : Stop)

/-- The parameters of a command. -/
structure Grammar (σ : Type) where
  byName? : String → Option (Parameter σ)
  byLetter? : Char → Option (Parameter σ)

/-- What arguments come to. -/
inductive Reading (σ : Type) where
  | done (settings : σ)
  | stop (reason : Stop)
  | wrong

def Reading.map {σ τ : Type} (f : σ → τ) : Reading σ → Reading τ
  | done settings => .done (f settings)
  | stop reason => .stop reason
  | wrong => .wrong

/-- A reading that may need the next argument as a value. -/
inductive Step (σ : Type) where
  | ready (settings : σ)
  | awaiting (set? : String → Option σ)
  | stop (reason : Stop)
  | wrong

variable {σ : Type}

def Step.ofOption : Option σ → Step σ
  | some settings => .ready settings
  | none => .wrong

/-- An argument that starts with a hyphen is a value only if it is nothing else. -/
def isValue (argument : String) : Bool := argument = "-" || argument.toList.head? != some '-'

/-- A parameter given by name, with the value after an equals sign. -/
def Grammar.named (g : Grammar σ) (settings : σ) (argument : List Char) : Step σ :=
  let name := String.ofList (argument.takeWhile (· ≠ '='))
  let attached? :=
    match argument.dropWhile (· ≠ '=') with
    | [] => none
    | _ :: value => some (String.ofList value)
  match g.byName? name, attached? with
  | some (.switch set?), none => .ofOption (set? settings)
  | some (.valued set?), none => .awaiting fun value => set? value settings
  | some (.valued set?), some value => .ofOption (set? value settings)
  | some (.stop reason), none => .stop reason
  | _, _ => .wrong

/-- Parameters given by letters, the last of which may have its value behind it. -/
def Grammar.lettered (g : Grammar σ) (settings : σ) : List Char → Step σ
  | [] => .ready settings
  | c :: cs =>
    match g.byLetter? c with
    | some (.switch set?) =>
      match set? settings with
      | some settings => g.lettered settings cs
      | none => .wrong
    | some (.valued set?) =>
      match cs with
      | [] => .awaiting fun value => set? value settings
      | '=' :: value => .ofOption (set? (String.ofList value) settings)
      | value => .ofOption (set? (String.ofList value) settings)
    | some (.stop reason) => .stop reason
    | none => .wrong

/-- The effect of one argument. -/
def Grammar.step (g : Grammar σ) (settings : σ) (argument : String) : Step σ :=
  match argument.toList with
  | '-' :: '-' :: name => g.named settings name
  | '-' :: c :: letters => g.lettered settings (c :: letters)
  | _ => .wrong

/-- Reads arguments. Two hyphens end the parameters, and nothing may follow. -/
def Grammar.read (g : Grammar σ) (settings : σ) : List String → Reading σ
  | [] => .done settings
  | argument :: rest =>
    if argument = "--" then if rest.isEmpty then .done settings else .wrong
    else
      match g.step settings argument with
      | .ready settings => g.read settings rest
      | .stop reason => .stop reason
      | .wrong => .wrong
      | .awaiting set? =>
        match rest with
        | [] => .wrong
        | value :: rest =>
          if isValue value then
            match set? value with
            | some settings => g.read settings rest
            | none => .wrong
          else .wrong

end ProgramDiagram.CommandLine
