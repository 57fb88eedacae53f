import MiniPascal.CommandLine.Command

/-!
# Commands on a directory of files

A directory is a set of files, each with the names of the directories on the way to it. A command is
run on a directory by looking its file up, and by putting the files it writes into the directory.

A path is followed name by name, and the first name that cannot be followed decides how that fails:
it is looked for in something that is no directory, it is too long, or there is nothing of that
name. A path as a whole must not be too long either, which is found before it is followed.
-/

namespace MiniPascal.CommandLine

/-- A directory: files with the names that lead to them. -/
structure Files where
  entries : List (List String × List UInt8) := []
deriving Inhabited

namespace Files

/-- The bytes of the file at a place. -/
def get? (fs : Files) (place : List String) : Option (List UInt8) := fs.entries.lookup place

/-- Whether a place is a directory: the top, or one on the way to a file. -/
def isDirectory (fs : Files) (place : List String) : Bool :=
  place.isEmpty || fs.entries.any fun (p, _) => place.isPrefixOf p && place != p

/-- The directory with a file put at a place. -/
def put (fs : Files) (place : List String) (bytes : List UInt8) : Files :=
  if (fs.get? place).isSome then
    { entries := fs.entries.map fun (p, b) => if p == place then (p, bytes) else (p, b) }
  else { entries := fs.entries ++ [(place, bytes)] }

/-- Where a path leads: to a place below the top, or outside of it, where nothing is known but that
there is a directory. -/
inductive Spot where
  | inside (place : List String)
  | outside
deriving Repr, DecidableEq

/-- Why a path leads nowhere. -/
inductive PathFault where
  | absent
  | tooLong
deriving Repr, DecidableEq

/-- The most bytes a name may have. -/
def maxNameBytes : Nat := 255

/-- The most bytes a path may have. -/
def maxPathBytes : Nat := 4095

/-- Follows names from a spot. The last name need not be that of a file. -/
def follow (fs : Files) : Spot → List String → Except PathFault Spot
  | spot, [] => .ok spot
  | .outside, name :: rest =>
    if name = ".." then follow fs .outside rest
    else if maxNameBytes < name.utf8ByteSize then .error .tooLong
    else .error .absent
  | .inside place, name :: rest =>
    if !fs.isDirectory place then .error .absent
    else if name = ".." then
      follow fs (if place.isEmpty then .outside else .inside place.dropLast) rest
    else if maxNameBytes < name.utf8ByteSize then .error .tooLong
    else follow fs (.inside (place ++ [name])) rest

/-- Where a path leads. A path with a zero character leads nowhere. -/
def locate (fs : Files) (p : Path) : Except PathFault Spot :=
  if p.text.toList.contains '\x00' then .error .absent
  else if maxPathBytes < p.text.utf8ByteSize then .error .tooLong
  else fs.follow (if p.root = "" then .inside [] else .outside) p.names

/-- The bytes of the file at a path, if there is one. -/
def read (fs : Files) (p : Path) : Except Failure (Option (List UInt8)) :=
  match fs.locate p with
  | .ok (.inside place) => .ok (fs.get? place)
  | .ok .outside | .error .absent => .ok none
  | .error .tooLong => .error (.nameTooLong p.text)

/-- The directory with a text written to the file at a path. -/
def write (fs : Files) (p : Path) (text : String) : Except Failure Files :=
  match fs.locate p with
  | .ok (.inside place) =>
    if fs.isDirectory place then .error (.isADirectory p.text)
    else .ok (fs.put place text.toUTF8.toList)
  | .ok .outside | .error .absent => .error (.noSuchFile p.text)
  | .error .tooLong => .error (.nameTooLong p.text)

/-- The directory with several texts written. -/
def writeAll (fs : Files) : List (Path × String) → Files × Except Failure Unit
  | [] => (fs, .ok ())
  | (p, text) :: rest =>
    match fs.write p text with
    | .ok fs => fs.writeAll rest
    | .error failure => (fs, .error failure)

/-- Whether the trace of a command cannot be opened. -/
def refusesTrace (fs : Files) (c : Command) : Bool :=
  c.verbosity != 0 && fs.isDirectory tracePath.names

/-- Runs a command on a directory, given the bytes of its file. -/
def runOn (fs : Files) (fuel : Nat) (c : Command) (bytes : Option (List UInt8)) :
    Files × Response :=
  let readable := match bytes with
    | some bytes => (Command.sourceOf bytes).isOk
    | none => false
  if readable && fs.refusesTrace c then
    (fs, { result := .error (.isADirectory tracePath.text) })
  else
    let r := c.respond fuel bytes
    match fs.writeAll r.writes with
    | (fs, .ok ()) => (fs, r)
    | (fs, .error failure) => (fs, { r with stdout := {}, result := .error failure })

/-- Runs a command on a directory. -/
def runCommand (fs : Files) (fuel : Nat) (c : Command) : Files × Response :=
  match fs.read c.path with
  | .ok bytes => fs.runOn fuel c bytes
  | .error failure => (fs, { result := .error failure })

/-- Runs a command line on a directory. -/
def run (fs : Files) (fuel : Nat) (texts : List String) : Files × Response :=
  match Command.ofTexts texts with
  | .error r => (fs, r)
  | .ok c => fs.runCommand fuel c

/-- The files of a directory that are new or have other bytes than in an earlier one, sorted by
path. -/
def changedSince (fs earlier : Files) : List (String × List UInt8) :=
  let changed := fs.entries.filter fun (p, b) => earlier.get? p != some b
  (changed.map fun (p, b) => ("/".intercalate p, b)).mergeSort fun a b => a.1 ≤ b.1

end Files

end MiniPascal.CommandLine
