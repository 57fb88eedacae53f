import MiniPascal.Parsing.Statement
import MiniPascal.Execution.Execute
import MiniPascal.Tree.Codec
import MiniPascal.Json.Reader
import MiniPascal.Json.Writer
import MiniPascal.Text.Utf8

/-!
# Sessions

A session keeps one table of variables over any number of programs that are parsed, loaded and run.
It collects the output, in which diagnostics and the texts written by programs appear in the order
they were made, counts the diagnostics, and keeps a trace.

Each message of the trace belongs to a level of detail, and the trace takes those up to its own:

1. diagnostics, the summary of a parse, start and end of a run;
2. assignments and writes;
3. the decisions of conditionals, selections and loops;
4. every token read.

The trace is closed for good at the end of a run.
-/

namespace MiniPascal

/-- Why a step of a session fails. -/
inductive Failure where
  | numeral (fault : Decimal.NumeralFault)
  | json (error : Json.Error)
  | load (fault : LoadFault)
  | run (fault : Execution.Fault)
  | outOfFuel
  | decode (fault : Text.DecodeFault)
  | encode (fault : Text.EncodeFault)
  | noSuchFile (path : String)
  | isADirectory (path : String)
  | nameTooLong (path : String)
deriving Inhabited

/-- The wording of a failure. -/
def Failure.message : Failure → Text
  | .numeral fault => fault.message
  | .json error => error.message
  | .load fault => fault.message
  | .run fault => fault.message
  | .outOfFuel => "out of fuel"
  | .decode fault => fault.message
  | .encode fault => fault.message
  | .noSuchFile path => "[Errno 2] No such file or directory: " ++ Text.quoted path
  | .isADirectory path => "[Errno 21] Is a directory: " ++ Text.quoted path
  | .nameTooLong path => "[Errno 36] File name too long: " ++ Text.quoted path

/-- A session: its variables and settings, and what it has put out. -/
structure Session where
  table : Table := {}
  strict : Bool := false
  errorCount : Nat := 0
  level : Int := 0
  tracing : Bool := false
  output : Text := {}
  trace : String := ""
deriving Inhabited

namespace Session

/-- A new session. There is a trace from level one on. -/
def start (level : Int) (strict : Bool) : Session :=
  { level, strict, tracing := 0 < level }

/-- Whether the trace is open and takes messages of a level. -/
def takes (s : Session) (level : Int) : Bool := level ≤ s.level && s.tracing

/-- Adds a line to the trace. -/
def addLine (s : Session) (message : String) : Session :=
  { s with trace := s.trace ++ message ++ "\n" }

/-- Adds a message of the given level to the trace, if the trace takes it. -/
def debug (s : Session) (level : Int) (message : String) : Session :=
  if s.takes level then s.addLine message else s

/-- Adds a message that may have surrogates, with which the trace cannot take it. -/
def tell (s : Session) (level : Int) (message : Text) : Except Failure Session :=
  if s.takes level then (message.encode.map s.addLine).mapError .encode else .ok s

/-- Puts out a diagnostic. -/
def report (s : Session) (line : String) : Session :=
  ({ s with output := s.output ++ (line ++ "\n") } : Session).debug 1 line

/-- Closes the trace. -/
def close (s : Session) : Session := { s with tracing := false }

/-- The session without what it has put out so far. -/
def clear (s : Session) : Session := { s with output := {}, trace := "" }

/-- Puts out what happened while tokens were read. -/
def replay (s : Session) (events : List Event) : Session :=
  events.foldl
    (fun s e => match e with
      | .report d => s.report d.render
      | .read t => if s.takes 4 then s.addLine t.traceLine else s)
    s

/-- Parses a program text. If a number cannot be read, what was entered and reported by then
stays. -/
def parse (s : Session) (source : String) : Session × Except Failure Node :=
  match Parsing.State.start (.ofSource source) s.table s.strict with
  | .error fault => (s, .error (.numeral fault))
  | .ok state =>
    match Parsing.program state with
    | .ok program state =>
      let s := { s.replay state.log.toList with
        table := state.table
        errorCount := s.errorCount + state.errorCount }
      match s.tell 1 ("parsed program " ++ program.text.display ++ ": "
          ++ toString state.errorCount ++ " error(s)") with
      | .ok s => (s, .ok program)
      | .error failure => (s, .error failure)
    | .error stop state =>
      let s := { s.replay state.log.toList with table := state.table }
      match stop with
      | .unreadable fault => (s, .error (.numeral fault))
      | _ => (s, .error .outOfFuel)

/-- Loads a program from JSON text. What was entered before a fault stays. -/
def load (s : Session) (json : String) : Session × Except Failure Node :=
  match Json.read json with
  | .error error => (s, .error (.json error))
  | .ok v =>
    match Node.load v s.table with
    | .ok program table => ({ s with table }, .ok program)
    | .error fault table => ({ s with table }, .error (.load fault))

/-- The session after a run, which ended in the given state. -/
def finish (s : Session) (program : Node) (m : Execution.Machine) (result : Except Failure Unit) :
    Session × Except Failure Unit :=
  let s := { s with table := m.table, output := s.output ++ m.output, trace := s.trace ++ m.trace }
  match s.tell 1 ("end of program " ++ program.text.display) with
  | .ok s => (s.close, result)
  | .error failure => (s, .error failure)

/-- Runs a program and closes the trace. If the trace cannot hold the name of the program, nothing
is run. -/
def run (s : Session) (fuel : Nat) (program : Node) : Session × Except Failure Unit :=
  match s.tell 1 ("execute program " ++ program.text.display) with
  | .error failure => (s, .error failure)
  | .ok s =>
    match Execution.run fuel program
        { table := s.table, level := if s.tracing then s.level else 0 } with
    | .ok _ m => s.finish program m (.ok ())
    | .error (.fault fault) m => s.finish program m (.error (.run fault))
    | .error .outOfFuel m => s.finish program m (.error .outOfFuel)

/-- Enters a variable and sets its value. -/
def set (s : Session) (name : Text) (v : Value) : Session :=
  { s with table := (s.table.enter name).set name v }

/-- Parses a program text, and runs the program if there is no diagnostic; tells whether it was
run. -/
def parseAndRun (s : Session) (fuel : Nat) (source : String) :
    Session × Bool × Except Failure Unit :=
  match s.parse source with
  | (s, .error failure) => (s, false, .error failure)
  | (s, .ok program) =>
    if s.errorCount ≠ 0 then (s.close, false, .ok ())
    else
      let (s, result) := s.run fuel program
      (s, true, result)

end Session

end MiniPascal
