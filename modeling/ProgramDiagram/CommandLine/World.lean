import ProgramDiagram.CommandLine.Device
import ProgramDiagram.CommandLine.Run

/-!
# Worlds

* `World`: the standard streams and the files of a machine, as values.
* `World.read`, `World.write`: a path is followed step by step, and the first step that cannot be
  taken decides.
* `written`: what is written up to a limit stays behind.
* `World.system`: the machine that a world is.
-/

namespace ProgramDiagram.CommandLine

/-- What can still be written, in characters, and the error that comes after it. -/
structure Limit where
  room : Nat
  error : FileError

/-- What is left of standard input, none if it is not text; what stands on standard output; the
files by place; what standard output still takes, and what a place does; and the help text of the
program. -/
structure World where
  input : Option String
  output : String
  files : List (Location × String)
  outputLimit : Option Limit
  fileLimit : Location → Option Limit
  help : String

/-- What is at a place. -/
inductive Entry where
  | folder
  | device (device : Device)
  | file (content : String)

/-- The longest path and the longest step of a path, in bytes. -/
def longestPath : Nat := 4095

def longestStep : Nat := 255

namespace World

/-- A world with the given input and files and without limits, in which nothing is printed yet. -/
def ofFiles (input : Option String) (files : List (String × String)) : World where
  input
  output := ""
  files := files.map fun (name, content) => (.ofPath (.ofText name), content)
  outputLimit := none
  fileLimit _ := none
  help := ""

def content? (w : World) (l : Location) : Option String := w.files.lookup l

def isFolder (w : World) (l : Location) : Bool :=
  isCommonFolder l || w.files.any (·.1.isInside l)

def entry? (w : World) (l : Location) : Option Entry :=
  if w.isFolder l then some .folder
  else
    match deviceAt? l with
    | some device => some (.device device)
    | none => (w.content? l).map .file

/-- A place, if it is a folder. -/
def folder (w : World) (l : Location) : Except FileError Location :=
  match w.entry? l with
  | some .folder => .ok l
  | some _ => .error .notFolder
  | none => .error .notFound

/-- The place that a step leads to, which can be taken from a folder only. -/
def enter (w : World) (l : Location) (step : String) : Except FileError Location := do
  let l ← w.folder l
  if longestStep < step.utf8ByteSize then .error .nameTooLong else .ok (l.enter step)

/-- The place that steps lead to. -/
def follow (w : World) (p : Path) (steps : List String) : Except FileError Location :=
  steps.foldlM w.enter (.start p)

def path (text : String) : Except FileError Path :=
  if longestPath < text.utf8ByteSize then .error .nameTooLong else .ok (.ofText text)

/-- What a path for reading leads to. Only a path to a folder may end in a slash. -/
def lookUp (w : World) (text : String) : Except FileError Entry := do
  let p ← path text
  match w.entry? (← w.follow p p.steps) with
  | some .folder => .ok .folder
  | some entry => if p.endsInSlash then .error .notFolder else .ok entry
  | none => .error .notFound

/-- Whether a path leads to a folder by its form alone. -/
def spellsFolder (p : Path) (last : String) : Bool :=
  p.endsInSlash || last = Path.here || last = Path.outward

/-- The place that a path for writing leads to, which may be free. The folder around it has to be
there. -/
def target (w : World) (text : String) : Except FileError Location := do
  let p ← path text
  match p.steps.getLast? with
  | none => .error .isFolder
  | some last =>
    let parent ← w.folder (← w.follow p p.steps.dropLast)
    if spellsFolder p last then .error .isFolder else w.enter parent last

/-- Standard input can be read once; after that nothing is left of it. -/
def readInput (w : World) : Except FileError String × World :=
  match w.input with
  | some text => (.ok text, { w with input := some "" })
  | none => (.error .notText, w)

def readDevice (w : World) : Device → Except FileError String × World
  | .input => w.readInput
  | .terminal => (.error .noDevice, w)
  | .nothing | .full | .output => (.ok "", w)

/-- The content that a path leads to. -/
def read (w : World) (text : String) : Except FileError String × World :=
  match w.lookUp text with
  | .ok (.file content) => (.ok content, w)
  | .ok (.device device) => w.readDevice device
  | .ok .folder => (.error .isFolder, w)
  | .error e => (.error e, w)

/-- As much of a text as can be written, and whether that is all of it. -/
def written (limit? : Option Limit) (text : String) : Except FileError Unit × String :=
  match limit? with
  | none => (.ok (), text)
  | some limit =>
    if text.length ≤ limit.room then (.ok (), text)
    else (.error limit.error, String.ofList (text.toList.take limit.room))

/-- A text on standard output uses up what it takes. -/
def print (w : World) (text : String) : Except FileError Unit × World :=
  ((written w.outputLimit text).1,
    { w with
      output := w.output ++ (written w.outputLimit text).2
      outputLimit := w.outputLimit.map fun limit =>
        { limit with room := limit.room - text.length } })

/-- The files with one of them replaced or added. -/
def replaceFile (l : Location) (content : String) : List (Location × String) →
    List (Location × String)
  | [] => [(l, content)]
  | (place, old) :: rest =>
    if place = l then (place, content) :: rest else (place, old) :: replaceFile l content rest

/-- A file is emptied before it is written. -/
def store (w : World) (l : Location) (content : String) : Except FileError Unit × World :=
  ((written (w.fileLimit l) content).1,
    { w with files := replaceFile l (written (w.fileLimit l) content).2 w.files })

def writeDevice (w : World) (content : String) : Device → Except FileError Unit × World
  | .output => w.print content
  | .full => (if content.isEmpty then .ok () else .error .noSpace, w)
  | .terminal => (.error .noDevice, w)
  | .nothing | .input => (.ok (), w)

/-- Writes a content to where a path leads. -/
def write (w : World) (text content : String) : Except FileError Unit × World :=
  match w.target text with
  | .error e => (.error e, w)
  | .ok l =>
    match w.entry? l with
    | some .folder => (.error .isFolder, w)
    | some (.device device) => w.writeDevice content device
    | _ => w.store l content

/-- The machine whose state is a world. -/
def system : System (StateM World) where
  readInput := modifyGet readInput
  readFile path := modifyGet (read · path)
  writeFile path text := modifyGet (write · path text)
  print text := modifyGet (print · text)

/-- The outcome of a command line and the world that it leaves behind. -/
def run (w : World) (arguments : List String) : Outcome × World :=
  (CommandLine.run w.help system arguments).run w

end World

end ProgramDiagram.CommandLine
