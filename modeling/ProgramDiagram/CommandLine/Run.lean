import ProgramDiagram.CommandLine.Path
import ProgramDiagram.CommandLine.Request
import ProgramDiagram.Diagram.Written
import ProgramDiagram.Options.Reader
import ProgramDiagram.Svg.Source

/-!
# Running a command line

* `System`: what a run needs of the machine around it.
* `run`: reads the source, then the configuration, then draws or takes the tree, and writes last, so
  that only a run that fails in writing has written.
-/

namespace ProgramDiagram.CommandLine

/-- Why a file cannot be read or written. -/
inductive FileError where
  | notFound
  | isFolder
  | notFolder
  | nameTooLong
  | noSpace
  | noDevice
  | notText
  | other (message : String)

def FileError.message : FileError → String
  | notFound => "No such file or directory (os error 2)"
  | isFolder => "Is a directory (os error 21)"
  | notFolder => "Not a directory (os error 20)"
  | nameTooLong => "File name too long (os error 36)"
  | noSpace => "No space left on device (os error 28)"
  | noDevice => "No such device or address (os error 6)"
  | notText => "stream did not contain valid UTF-8"
  | other message => message

/-- Why a run fails. -/
inductive Failure where
  | file (error : FileError)
  | config (path : String)
  | outline (error : Outline.Error)
  | notDocument

/-- The first part of what is said about a failure. -/
def Failure.headline : Failure → String
  | file error => "I/O error: " ++ error.message
  | config path => "invalid config " ++ path
  | outline error => error.message
  | notDocument => "invalid SVG document"

/-- The reason that follows the headline. -/
def Failure.reason? : Failure → Option String
  | config _ => some "the text is not an object of options"
  | notDocument => some "the text holds a character that is not allowed"
  | _ => none

/-- The report of a failure on standard error. -/
def Failure.report (f : Failure) : String :=
  "Error: " ++ f.headline ++ (f.reason?.elim "" (": " ++ ·)) ++ "\n"

/-- The end of a run. -/
inductive Outcome where
  | success
  | failure (failure : Failure)
  | usage

def Outcome.code : Outcome → Nat
  | success => 0
  | failure _ => 1
  | usage => 2

/-- What a run needs of the machine around it. -/
structure System (m : Type → Type) where
  readInput : m (Except FileError String)
  readFile : String → m (Except FileError String)
  writeFile : String → String → m (Except FileError Unit)
  print : String → m (Except FileError Unit)

def versionText : String := "spd 0.1.0\n"

variable {m : Type → Type} [Monad m]

/-- The source: a file, or standard input if no other file is named. -/
def readSource (s : System m) (path? : Option String) : m (Except FileError String) :=
  match path? with
  | some path => if (Path.ofText path).isStandardInput then s.readInput else s.readFile path
  | none => s.readInput

/-- The layer of a configuration file. -/
def readConfig (s : System m) (path? : Option String) : m (Except Failure (Layer Binary64)) :=
  match path? with
  | none => pure (.ok .empty)
  | some path => do
    match ← s.readFile path with
    | .error e => pure (.error (.file e))
    | .ok text =>
      match Layer.read? text with
      | some layer => pure (.ok layer)
      | none => pure (.error (.config path))

/-- Whether a text needs a line feed at its end. -/
def isUnended (text : String) : Bool := !text.isEmpty && text.toList.getLast? != some '\n'

/-- Prints a text and ends its last line. -/
def printEnded (s : System m) (text : String) : m (Except FileError Unit) := do
  match ← s.print text with
  | .error e => pure (.error e)
  | .ok () => if isUnended text then s.print "\n" else pure (.ok ())

/-- Writes a text to a file, or to standard output if none is named. -/
def writeOutput (s : System m) (path? : Option String) (text : String) :
    m (Except FileError Unit) :=
  match path? with
  | some path => s.writeFile path text
  | none => printEnded s text

/-- Ends a run with its output. -/
def finishWith (s : System m) (path? : Option String) (text : String) : m Outcome := do
  match ← writeOutput s path? text with
  | .ok () => pure .success
  | .error e => pure (.failure (.file e))

/-- Shows a text, and does not mind if it cannot be printed. -/
def display (s : System m) (text : String) : m Outcome := do
  let _ ← s.print text
  pure .success

/-- The drawing of a source under a configuration and the flags on top of it. -/
def drawn (r : DrawRequest) (config : Layer Binary64) (source : String) : Except Failure String :=
  let options := Options.standard.merged (r.flags.onto config)
  let result :=
    if r.indented then Svg.indentedSource options source else Svg.compactSource options source
  match result with
  | .ok text => .ok text
  | .error (.outline e) => .error (.outline e)
  | .error .notDocument => .error .notDocument

def runDraw (s : System m) (r : DrawRequest) : m Outcome := do
  match ← readSource s r.input with
  | .error e => pure (.failure (.file e))
  | .ok source =>
    match ← readConfig s r.config with
    | .error e => pure (.failure e)
    | .ok config =>
      match drawn r config source with
      | .error e => pure (.failure e)
      | .ok text => finishWith s r.output text

/-- The tree of a source in JSON. -/
def treeText (indented : Bool) (source : String) : Except Failure String :=
  match Outline.parse source with
  | .error e => .error (.outline e)
  | .ok tree => .ok (if indented then (bodyJson tree).indented 0 else (bodyJson tree).compact)

def runTree (s : System m) (r : TreeRequest) : m Outcome := do
  match ← readSource s r.input with
  | .error e => pure (.failure (.file e))
  | .ok source =>
    match treeText r.indented source with
    | .error e => pure (.failure e)
    | .ok text => finishWith s none text

/-- Runs a command line, for which there is a help text. -/
def run (help : String) (s : System m) (arguments : List String) : m Outcome :=
  match Request.ofArguments arguments with
  | .done (.draw r) => runDraw s r
  | .done (.tree r) => runTree s r
  | .stop .version => display s versionText
  | .stop .help => display s help
  | .wrong => pure .usage

end ProgramDiagram.CommandLine
