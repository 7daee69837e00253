import ProgramDiagram.CommandLine.Path

/-!
# Devices

Some files of a machine hold nothing themselves: what is written to them goes elsewhere, and what
is read from them comes from elsewhere.

* `deviceAt?`: the device at a place.
-/

namespace ProgramDiagram.CommandLine

/-- What stands behind a file that is a device: nothing, a store without room, one of the standard
streams, or a terminal that is not there. -/
inductive Device where
  | nothing
  | full
  | input
  | output
  | terminal
deriving DecidableEq

/-- The devices of every machine. Standard error counts as nothing, since nobody reads it back. -/
def devices : List (String × Device) :=
  [("/dev/null", .nothing), ("/dev/full", .full), ("/dev/tty", .terminal),
   ("/dev/stdin", .input), ("/dev/stdout", .output), ("/dev/stderr", .nothing),
   ("/dev/fd/0", .input), ("/dev/fd/1", .output), ("/dev/fd/2", .nothing),
   ("/proc/self/fd/0", .input), ("/proc/self/fd/1", .output), ("/proc/self/fd/2", .nothing)]

/-- The places of the devices. -/
def devicePlaces : List (Location × Device) :=
  devices.map fun (name, device) => (.ofPath (.ofText name), device)

def deviceAt? (l : Location) : Option Device := devicePlaces.lookup l

/-- The folders at the root of every machine. -/
def rootFolders : List String :=
  ["bin", "boot", "dev", "etc", "home", "lib", "media", "mnt", "opt", "proc", "root", "run", "sbin",
   "srv", "sys", "tmp", "usr", "var"]

/-- Whether a place is a folder on every machine: one around all files, or at the root, or with a
device in it. -/
def isCommonFolder (l : Location) : Bool :=
  l.names.isEmpty || rootFolders.any (fun name => l = ⟨true, 0, [name]⟩)
    || devicePlaces.any (·.1.isInside l)

end ProgramDiagram.CommandLine
