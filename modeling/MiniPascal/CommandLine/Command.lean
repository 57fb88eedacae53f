import MiniPascal.CommandLine.Arguments
import MiniPascal.CommandLine.Path
import MiniPascal.Session

/-!
# Commands

The settings of a command line name one file to read. What a command does depends only on the
settings and on the bytes of that file; it puts out text, writes files and ends with a status:

* a program file is parsed and, if there is no diagnostic, run;
* with `--emit-ast` its tree is written to a file beside it instead of being run;
* with `--ast` a tree file is loaded and run.

The status is 1 for a file that is missing or cannot be used and 3 for a division by zero.
-/

namespace MiniPascal.CommandLine

/-- How the program is called. -/
def programName : String := "pascalette"

/-- The lines on how to call the program. -/
def usageText : String :=
  "usage: pascalette [-h] [-v] [--strict]\n" ++
  "                  [--emit-ast PROGRAM_FILE | --ast AST_JSON_FILE]\n" ++
  "                  [program]\n"

/-- The help on the program and its options. -/
def helpText : String :=
  usageText ++
  "\n" ++
  "Pascalette language interpreter\n" ++
  "\n" ++
  "positional arguments:\n" ++
  "  program               program file to execute\n" ++
  "\n" ++
  "options:\n" ++
  "  -h, --help            show this help message and exit\n" ++
  "  -v                    increase debug verbosity (can be repeated)\n" ++
  "  --strict              report variables read before assignment\n" ++
  "  --emit-ast PROGRAM_FILE\n" ++
  "                        emit AST JSON for the given program\n" ++
  "  --ast AST_JSON_FILE   execute AST from a JSON file\n"

/-- What a command puts out: its two texts, the files it writes, in order, and its status or the
failure that ended it. -/
structure Response where
  stdout : Text := {}
  stderr : Text := {}
  writes : List (Path × String) := []
  result : Except Failure Nat := .ok 0
deriving Inhabited

/-- What a command does with its file. -/
inductive Task where
  | runProgram
  | emitTree
  | runTree
deriving Repr, DecidableEq

/-- A command: what to do with which file. -/
structure Command where
  task : Task
  path : Path
  verbosity : Nat
  strict : Bool
deriving Repr, DecidableEq

/-- A name of a file that is not empty. -/
def present? (name : Option String) : Option String := name.filter (· != "")

/-- The command that settings ask for. An empty name counts as none. -/
def Settings.command? (s : Settings) : Option Command :=
  let make (task : Task) (name : String) : Command :=
    { task, path := .ofText name, verbosity := s.verbosity, strict := s.strict }
  match present? s.tree, present? s.emitTree, present? s.program with
  | some name, _, _ => some (make .runTree name)
  | none, some name, _ => some (make .emitTree name)
  | none, none, some name => some (make .runProgram name)
  | none, none, none => none

/-- The response to refused arguments. -/
def UsageFault.response (fault : UsageFault) : Response :=
  { stderr := usageText ++ programName ++ ": error: " ++ fault.message ++ "\n", result := .ok 2 }

/-- The command of a command line, or the response to one that asks for none. -/
def Command.ofTexts (texts : List String) : Except Response Command :=
  match Settings.ofTexts texts with
  | .error .help => .error { stdout := helpText }
  | .error (.usage fault) => .error fault.response
  | .ok settings =>
    match settings.command? with
    | some command => .ok command
    | none => .error UsageFault.missingProgram.response

/-- The file that holds the trace. -/
def tracePath : Path := .ofText "debug.txt"

namespace Command

/-- The text of a file. -/
def sourceOf (bytes : List UInt8) : Except Failure String :=
  ((Text.decode bytes).map Text.unifyNewlines).mapError .decode

/-- The response of a command that ends as its session is. With a trace, the trace is written. -/
def close (c : Command) (s : Session) (result : Except Failure Nat) : Response :=
  { stdout := s.output
    writes := if c.verbosity = 0 then [] else [(tracePath, s.trace)]
    result }

/-- Runs a program; a division by zero is reported after the output so far. -/
def execute (c : Command) (fuel : Nat) (s : Session) (program : Node) : Response :=
  match s.run fuel program with
  | (s, .ok ()) => c.close s (.ok 0)
  | (s, .error (.run (.divisionByZero line text))) =>
    let r := c.close s (.ok 3)
    let told := (Execution.Fault.divisionByZero line text).message
    { r with stdout := r.stdout ++ told ++ "\n" }
  | (s, .error failure) => c.close s (.error failure)

/-- Whether a failure of loading is told to the user. The others end the command. -/
def isTold : Failure → Bool
  | .json _ => true
  | .load (.notANode _) => true
  | _ => false

/-- Loads and runs a tree file. -/
def runTree (c : Command) (fuel : Nat) (source : String) : Response :=
  match (Session.start c.verbosity false).load source with
  | (s, .ok program) => c.execute fuel s program
  | (s, .error failure) =>
    if isTold failure then
      let r := c.close s (.ok 1)
      { r with stderr := "Error: " ++ failure.message ++ "\n" }
    else c.close s (.error failure)

/-- The file for the tree of a program file. -/
def treePath (c : Command) : Path := c.path.addEnding ".ast.json"

/-- Parses a program file, and runs the program or writes its tree. -/
def runSource (c : Command) (fuel : Nat) (source : String) : Response :=
  match (Session.start c.verbosity c.strict).parse source with
  | (s, .error failure) => c.close s (.error failure)
  | (s, .ok program) =>
    if s.errorCount ≠ 0 then
      let r := c.close s (.ok 1)
      { r with
        stderr := toString s.errorCount ++ " error(s) found, program not executed\n" }
    else if c.task = .emitTree then
      let r := c.close s (.ok 0)
      { r with
        stdout := r.stdout ++ c.treePath.text ++ "\n"
        writes := r.writes ++ [(c.treePath, Json.writeIndented program.toValue)] }
    else c.execute fuel s program

/-- The response of a command to the bytes of its file, if there is such a file. -/
def respond (c : Command) (fuel : Nat) (bytes : Option (List UInt8)) : Response :=
  match bytes with
  | none => { stderr := "Error: file " ++ c.path.text ++ " not found\n", result := .ok 1 }
  | some bytes =>
    match sourceOf bytes with
    | .error failure => { result := .error failure }
    | .ok source =>
      if c.task = .runTree then c.runTree fuel source else c.runSource fuel source

end Command

end MiniPascal.CommandLine
