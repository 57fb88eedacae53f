import MiniPascal.Token.Stream
import MiniPascal.Table

/-!
# Reading tokens with one token of lookahead

A parser looks at one current token and moves on by reading the next one. It enters names into a
table, makes diagnostics and counts them. A problem abandons the statement at hand; it becomes a
diagnostic where the parser recovers from it, by skipping tokens up to one at which it can go on.

Everything that happens is kept in order in a log, since the diagnostics of reading and those of
parsing are made in turn: a token is read one token before it is looked at.
-/

namespace MiniPascal.Parsing

/-- The state of a parser. -/
structure State where
  current : Token
  stream : Stream
  table : Table
  strict : Bool
  /-- Diagnostics made by the parser itself. -/
  problems : Nat := 0
  /-- Diagnostics made when tokens were read. -/
  tokenProblems : Nat := 0
  log : Array Event := #[]
deriving Inhabited

namespace State

/-- The count of all diagnostics. -/
def errorCount (s : State) : Nat := s.problems + s.tokenProblems

/-- The diagnostics made so far, in order. -/
def reports (s : State) : List Diagnostic := s.log.toList.filterMap Event.diagnostic?

/-- The state after a reading, with what is left of the stream. -/
def receive (s : State) (r : Reading) (rest : Stream) : State :=
  { s with
    current := r.token
    stream := rest
    tokenProblems := s.tokenProblems + (if r.report.isSome then 1 else 0)
    log := s.log ++ (Event.ofReading r).toArray }

/-- The state of a parser that looks at the first token of a stream. -/
def start (stream : Stream) (table : Table) (strict : Bool) :
    Except Decimal.NumeralFault State := do
  let (r, rest) ← stream.next
  let blank : State := { current := r.token, stream, table, strict }
  return blank.receive r rest

/-- A bound for the depth of parsing what is left. -/
def fuel (s : State) : Nat := 16 * (s.stream.items.length + 2)

end State

/-- Why parsing stops. -/
inductive Stop where
  /-- The statement at hand is abandoned. -/
  | problem (d : Diagnostic)
  /-- The next token cannot be read. -/
  | unreadable (fault : Decimal.NumeralFault)
  /-- The bound for the depth of parsing was too small. -/
  | outOfFuel
deriving Inhabited

/-- A parser. Stopping keeps the state reached by then. -/
abbrev Parser := EStateM Stop State

/-! ## Moving on -/

/-- The kind of the current token. -/
def peek : Parser TokenKind := return (← get).current.kind

/-- The line of the current token. -/
def currentLine : Parser Value := return .int (← get).current.line

/-- Moves to the next token and gives the one left behind. -/
def advance : Parser Token := fun s =>
  match s.stream.next with
  | .ok (r, rest) => .ok s.current (s.receive r rest)
  | .error fault => .error (.unreadable fault) s

/-- Abandons the statement with a problem at the current token. -/
def fail {α : Type} (p : Problem) : Parser α := do
  throw (.problem ((← get).current.diagnose p))

/-- Moves over a token of the given kind; any other token is the given problem. -/
def consume (kind : TokenKind) (p : Problem) : Parser Token := do
  if (← peek) = kind then advance else fail p

/-! ## Diagnostics -/

/-- Makes a diagnostic. -/
def report (d : Diagnostic) : Parser Unit :=
  modify fun s => { s with problems := s.problems + 1, log := s.log.push (.report d) }

/-- Makes a diagnostic of a problem at the current token. -/
def complain (p : Problem) : Parser Unit := do
  report ((← get).current.diagnose p)

/-- Moves over a token of the given kind, or makes a diagnostic; tells which. -/
def expect (kind : TokenKind) (p : Problem) : Parser Bool := do
  if (← peek) = kind then
    let _ ← advance
    return true
  else
    complain p
    return false

/-- Whether skipping ends at a kind: at the end of the text it always does. -/
def stopsAt (followers : TokenKind → Bool) (kind : TokenKind) : Bool :=
  followers kind || kind == .endOfFile

/-- Skips tokens, of the given ones still to be read, up to one at which skipping ends. -/
def skipAmong (ends : TokenKind → Bool) (ending : Ending) :
    List Reading → State → EStateM.Result Stop State Unit
  | [], s =>
    if ends s.current.kind then .ok () s
    else
      match ending with
      | .endOfFile line => .ok () (s.receive { token := .endOfFile line } ⟨[], ending⟩)
      | .unreadable fault => .error (.unreadable fault) s
  | r :: rest, s =>
    if ends s.current.kind then .ok () s
    else skipAmong ends ending rest (s.receive r ⟨rest, ending⟩)

/-- Skips tokens up to one of a kind among the followers, or to the end of the text. -/
def skipTo (followers : TokenKind → Bool) : Parser Unit := fun s =>
  skipAmong (stopsAt followers) s.stream.ending s.stream.items s

/-- Makes the diagnostic of a problem and skips to a follower. -/
def recover (followers : TokenKind → Bool) (d : Diagnostic) : Parser Unit := do
  report d
  skipTo followers

/-- Runs a parser; a problem is reported, and parsing goes on at a follower without a result. -/
def attempt {α : Type} (followers : TokenKind → Bool) (p : Parser α) : Parser (Option α) := fun s =>
  match p s with
  | .ok a s => .ok (some a) s
  | .error (.problem d) s =>
    match recover followers d s with
    | .ok _ s => .ok none s
    | .error e s => .error e s
  | .error e s => .error e s

/-- Moves over all semicolons. -/
def skipSemicolons : Parser Unit := fun s =>
  skipAmong (· != .symbol .semicolon) s.stream.ending s.stream.items s

/-! ## Names -/

/-- Enters a name into the table. -/
def enterName (name : String) : Parser Unit :=
  modify fun s => { s with table := s.table.enter name }

end MiniPascal.Parsing
