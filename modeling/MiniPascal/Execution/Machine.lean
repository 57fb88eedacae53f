import MiniPascal.Tree.Basic
import MiniPascal.Table
import MiniPascal.Diagnostic
import MiniPascal.Value.Format
import MiniPascal.Decimal.Numeral
import MiniPascal.Text.Utf8

/-!
# The state of a run

A run changes the values of the variables and appends to the output. It also keeps the line of the
statement at hand, and tells what it does in notes, each with the level of detail it belongs to.
Notes up to a given level are written to a trace, line by line.

A run ends normally, with a fault, or for want of fuel. The division by zero is the only fault that
a program can be blamed for; the others are values of a wrong type, numbers beyond the limits of the
machine, trees of a wrong shape, and names that the trace cannot hold.
-/

namespace MiniPascal.Execution

/-- The types that an operation may ask for. -/
inductive Tag where
  | real
  | boolean
deriving Repr, DecidableEq

/-- The name of a type. -/
def Tag.name : Tag → String
  | .real => "Real"
  | .boolean => "Boolean"

/-- A place that asks for a value of a type. -/
inductive Site where
  /-- The right-hand side of an assignment. -/
  | assignment (target line : Value)
  /-- An operand of an operator. -/
  | operand (kind : Kind) (line : Value)
  /-- An operand of a connective. -/
  | connective (op : Connective)
  /-- The condition of a conditional. -/
  | condition (line : Value)
  /-- The test of a loop. -/
  | loopTest (line : Value)
  | negation
  | not
  | fieldWidth
  | decimalPlaces
  /-- Any other place, by its name. -/
  | named (name : String)
deriving Inhabited

/-- The place as messages name it. -/
def Site.text : Site → Text
  | .assignment target line => "assignment to " ++ target.display ++ " at line " ++ line.display
  | .operand kind line => kind.name ++ " at line " ++ line.display
  | .connective op => op.name
  | .condition line => "IF at line " ++ line.display
  | .loopTest line => "loop test at line " ++ line.display
  | .negation => "negation"
  | .not => "NOT"
  | .fieldWidth => "field width"
  | .decimalPlaces => "decimal places"
  | .named name => name

/-- A fault that ends a run. -/
inductive Fault where
  /-- A division by zero by the operator of the given text, on the line of the statement at hand. -/
  | divisionByZero (line text : Value)
  /-- A value of another type than its place asks for. -/
  | wrongType (site : Site) (expected : Tag) (found : String)
  /-- A node that is no expression where one is evaluated. -/
  | notAnExpression (kind : Kind)
  /-- A node that is no statement where one is executed. -/
  | notAStatement (kind : Kind)
  /-- A node that is no program where one is run. -/
  | notAProgram (kind : Kind)
  /-- A node lacks a child that it needs. -/
  | missingChild
  /-- A node has fewer than its two children. -/
  | tooFewChildren (count : Nat)
  /-- A node has more than its two children. -/
  | tooManyChildren
  /-- An assignment to a node that is no variable. -/
  | notAssignable
  /-- A variable that is not in the table. -/
  | unbound
  /-- A literal that is no number. -/
  | notNumeric (className : String)
  /-- A literal text that is no number. -/
  | numeral (fault : Decimal.NumeralFault)
  /-- An integer beyond the finite reals. -/
  | integerTooLarge
  /-- A field width or count of places that is not finite. -/
  | notFinite (reason : Decimal.NotFinite)
  /-- A value that cannot be written in its field. -/
  | format (fault : FormatFault)
  /-- A note that the trace cannot hold. -/
  | unwritable (fault : Text.EncodeFault)
deriving Inhabited

/-- The wording of a fault. -/
def Fault.message : Fault → Text
  | .divisionByZero line text => Stage.running.line line Problem.divisionByZero.message text
  | .wrongType site expected found =>
    site.text ++ ": expected " ++ expected.name ++ ", got " ++ found
  | .notAnExpression kind => "evaluate: unexpected node kind NodeKind." ++ kind.name
  | .notAStatement kind => "execute: unexpected node kind NodeKind." ++ kind.name
  | .notAProgram kind => "run: expected a PROGRAM node, got NodeKind." ++ kind.name
  | .missingChild => "list index out of range"
  | .tooFewChildren count =>
    "not enough values to unpack (expected 2, got " ++ toString count ++ ")"
  | .tooManyChildren => "too many values to unpack (expected 2)"
  | .notAssignable => "'NoneType' object has no attribute 'set_value'"
  | .unbound => "'NoneType' object has no attribute 'get_value'"
  | .notNumeric className =>
    "float() argument must be a string or a real number, not '" ++ className ++ "'"
  | .numeral fault => fault.message
  | .integerTooLarge => "int too large to convert to float"
  | .notFinite .infinite => "cannot convert float infinity to integer"
  | .notFinite .nan => "cannot convert float NaN to integer"
  | .format fault => fault.message
  | .unwritable fault => fault.message

/-- Why a run stops early. -/
inductive Stop where
  | fault (f : Fault)
  /-- A loop was run as often as the fuel allows. -/
  | outOfFuel
deriving Inhabited

/-- Something a run tells. -/
inductive Note where
  | assigned (target : Value) (x : Float)
  | wrote (text : Text)
  /-- The outcome of a condition. -/
  | decided (line : Value) (holds : Bool)
  /-- The outcome of the test of a loop. -/
  | tested (line : Value) (holds : Bool)
  /-- The branch of a selection that was taken. -/
  | selected (line branchLine : Value)
  /-- A selection without a branch for its value. -/
  | unmatched (line : Value)
deriving Inhabited

namespace Note

/-- The level of detail of a note. -/
def level : Note → Nat
  | .assigned .. | .wrote _ => 2
  | _ => 3

/-- The wording of a note. -/
def message : Note → Text
  | .assigned target x => "assign " ++ target.display ++ " = " ++ Decimal.text x
  | .wrote text => "write " ++ text.quoted
  | .decided line holds =>
    "if condition at line " ++ line.display ++ " -> " ++ (Value.bool holds).quoted
  | .tested line holds =>
    "loop test at line " ++ line.display ++ " -> " ++ (Value.bool holds).quoted
  | .selected line branchLine =>
    "case at line " ++ line.display ++ " selects branch at line " ++ branchLine.display
  | .unmatched line => "case at line " ++ line.display ++ " matched no branch"

end Note

/-- The state of a run. -/
structure Machine where
  table : Table := {}
  output : Text := {}
  line : Value := .int 0
  notes : Array Note := #[]
  /-- Notes up to this level go to the trace. -/
  level : Int := 0
  trace : String := ""
deriving Inhabited

/-- A part of a run. Stopping keeps the state reached by then. -/
abbrev Run := EStateM Stop Machine

/-- Ends the run with a fault. -/
def raise {α : Type} (f : Fault) : Run α := throw (.fault f)

/-- Ends the run if the result is a fault. -/
def orRaise {α : Type} : Except Fault α → Run α
  | .ok a => pure a
  | .error f => raise f

/-- Tells something. What the trace takes is written to it at once, and the run ends there if that
is impossible. -/
def note (n : Note) : Run Unit := do
  if n.level ≤ (← get).level then
    let line ← orRaise (n.message.encode.mapError .unwritable)
    modify fun m => { m with trace := m.trace ++ line ++ "\n" }
  modify fun m => { m with notes := m.notes.push n }

/-- Appends to the output. -/
def emit (text : Text) : Run Unit :=
  modify fun m => { m with output := m.output ++ text }

/-- Sets the line of the statement at hand. -/
def setLine (line : Value) : Run Unit := modify fun m => { m with line }

/-- The real that a value is, where one is asked for. -/
def expectReal (v : Value) (site : Site) : Except Fault Float :=
  match v with
  | .real x => .ok x
  | v => .error (.wrongType site .real v.typeName)

/-- The Boolean that a value is, where one is asked for. -/
def expectBoolean (v : Value) (site : Site) : Except Fault Bool :=
  match v with
  | .bool b => .ok b
  | v => .error (.wrongType site .boolean v.typeName)

/-- The value of a number constant: integers and Booleans become reals, and texts are read. -/
def constantReal : Value → Except Fault Float
  | .real x => .ok x
  | .bool b => .ok (if b then 1.0 else 0.0)
  | .int n =>
    match Decimal.ofInt? n with
    | some x => .ok x
    | none => .error .integerTooLarge
  | .text t => (Decimal.readReal t).mapError .numeral
  | v => .error (.notNumeric v.className)

/-- The value of the variable that a node names. -/
def readVariable (text : Value) : Run Value := do
  match text with
  | .text name =>
    match (← get).table.find? name with
    | some c => return c.value
    | none => raise .unbound
  | _ => raise .unbound

/-- Sets the variable that a node names. -/
def writeVariable (target : Node) (x : Float) : Run Unit := do
  match target.kind, target.text with
  | .var, .text name =>
    if (← get).table.contains name then
      modify fun m => { m with table := m.table.set name (.real x) }
    else raise .notAssignable
  | _, _ => raise .notAssignable

end MiniPascal.Execution
