import ProgramDiagram.CommandLine.Run

/-!
# The program

Runs the command line on the machine itself.
-/

namespace ProgramDiagram.CommandLine

/-- The kind of an error of the machine. -/
def FileError.ofMachine : IO.Error → FileError
  | .noFileOrDirectory .. => notFound
  | .noSuchThing _ code _ => if code = 6 then noDevice else notFound
  | .resourceExhausted _ 28 _ => noSpace
  | .inappropriateType _ code _ => if code = 20 then notFolder else isFolder
  | .invalidArgument _ 36 _ => nameTooLong
  | error => other (toString error)

def decoded (bytes : ByteArray) : Except FileError String :=
  match String.fromUTF8? bytes with
  | some text => .ok text
  | none => .error .notText

/-- The effect of an action that may fail. -/
def attempt {α : Type} (action : IO α) : IO (Except FileError α) := do
  match ← action.toBaseIO with
  | .ok a => pure (.ok a)
  | .error e => pure (.error (.ofMachine e))

def machine : System IO where
  readInput := do
    let result ← attempt (do (← IO.getStdin).readBinToEnd)
    pure (result.bind decoded)
  readFile path := do
    let result ← attempt (IO.FS.readBinFile path)
    pure (result.bind decoded)
  writeFile path text := attempt (IO.FS.writeFile path text)
  print text := attempt do
    let out ← IO.getStdout
    out.putStr text
    out.flush

/-- The help text of this program. -/
def usageText : String := "Usage: spd [OPTIONS]\n       spd parse [-i FILE] [--pretty]\n"

end ProgramDiagram.CommandLine

open ProgramDiagram.CommandLine in
def main (arguments : List String) : IO UInt32 := do
  let outcome ← run usageText machine arguments
  match outcome with
  | .success => pure ()
  | .failure f => (← IO.getStderr).putStr f.report
  | .usage => (← IO.getStderr).putStr "error: wrong usage, see spd --help\n"
  pure outcome.code.toUInt32
