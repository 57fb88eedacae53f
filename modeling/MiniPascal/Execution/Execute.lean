import MiniPascal.Execution.Evaluate

/-!
# Executing statements

Statements are executed in order. A loop runs its children over and over until a test among them
holds. A selection executes the statement of the first branch with a constant equal to its value.

The fuel bounds how often one loop is run through. Everything else ends by itself, since it follows
the tree.
-/

namespace MiniPascal.Execution

/-- Repeats a pass until it tells that it is the last one. -/
def repeatPass : Nat → Run Bool → Run Unit
  | 0, _ => throw .outOfFuel
  | fuel + 1, pass => do
    if ← pass then return () else repeatPass fuel pass

/-- The integer part of a field width or count of places. -/
def fieldInteger (v : Value) (site : Site) : Except Fault Int := do
  let x ← expectReal v site
  (Decimal.truncate x).mapError .notFinite

/-- Writes the text of a value. -/
def writeValue (v : Value) (width places : Option Int) : Run Unit := do
  let text ← orRaise ((v.format width places).mapError .format)
  note (.wrote text)
  emit text

/-- Writes the first argument. The field width comes second and is evaluated first; the count of
decimal places comes third and is evaluated second. -/
def writeArguments : List Node → Run Unit
  | [] => raise .missingChild
  | [argument] => do writeValue (← evaluate argument) none none
  | [argument, width] => do
    let w ← orRaise (fieldInteger (← evaluate width) .fieldWidth)
    writeValue (← evaluate argument) (some w) none
  | argument :: width :: places :: _ => do
    let w ← orRaise (fieldInteger (← evaluate width) .fieldWidth)
    let p ← orRaise (fieldInteger (← evaluate places) .decimalPlaces)
    writeValue (← evaluate argument) (some w) (some p)

/-- The two children of a node that must have two. -/
def twoChildren : List Node → Except Fault (Node × Node)
  | [a, b] => .ok (a, b)
  | [] => .error (.tooFewChildren 0)
  | [_] => .error (.tooFewChildren 1)
  | _ => .error .tooManyChildren

/-- An assignment of the value of an expression to a variable. -/
def assign (line : Value) (target expression : Node) : Run Unit := do
  let x ← orRaise (expectReal (← evaluate expression) (.assignment target.text line))
  writeVariable target x
  note (.assigned target.text x)

/-- Whether one of the constants is the same as a value; later ones are then not evaluated. -/
def matchesAny (v : Value) : List Node → Run Bool
  | [] => return false
  | c :: rest => do
    if v.same (← evaluate c) then return true else matchesAny v rest

mutual

/-- Executes a statement or evaluates an expression, whose value is then given. -/
def visit (fuel : Nat) : Node → Run (Option Value)
  | ⟨kind, line, text, literal, children⟩ => do
    if kind == .program || kind.isStatement then
      execute fuel ⟨kind, line, text, literal, children⟩
      return none
    else return some (← evaluate ⟨kind, line, text, literal, children⟩)

/-- Executes a statement or a program. -/
def execute (fuel : Nat) : Node → Run Unit
  | ⟨.program, _, _, _, []⟩ => raise .missingChild
  | ⟨.program, _, _, _, first :: _⟩ => execute fuel first
  | ⟨kind, line, _, _, children⟩ => do
    setLine line
    match kind, children with
    | .compound, children => executeAll fuel children
    | .assign, children =>
      let (target, expression) ← orRaise (twoChildren children)
      assign line target expression
    | .loop, children => repeatPass fuel (runPass fuel children)
    | .cond, [] => raise .missingChild
    | .cond, condition :: branches =>
      let b ← orRaise (expectBoolean (← evaluate condition) (.condition line))
      note (.decided line b)
      match b, branches with
      | true, [] => raise .missingChild
      | true, first :: _ => let _ ← visit fuel first
      | false, _ :: second :: _ => let _ ← visit fuel second
      | false, _ => return ()
    | .select, [] => raise .missingChild
    | .select, discriminant :: branches =>
      let v ← evaluate discriminant
      executeBranch fuel line v branches
    | .write, children => writeArguments children
    | .writeln, children =>
      if !children.isEmpty then writeArguments children
      emit "\n"
    | kind, _ => raise (.notAStatement kind)

/-- Visits nodes in order. -/
def executeAll (fuel : Nat) : List Node → Run Unit
  | [] => return ()
  | n :: rest => do
    let _ ← visit fuel n
    executeAll fuel rest

/-- One pass through the children of a loop; tells whether a test held, which ends it. -/
def runPass (fuel : Nat) : List Node → Run Bool
  | [] => return false
  | ⟨kind, line, text, literal, children⟩ :: rest => do
    let v ← visit fuel ⟨kind, line, text, literal, children⟩
    if kind == .test && (v.map Value.isPresent).getD false then return true
    else runPass fuel rest

/-- Executes the first of the branches that has a constant equal to the value. -/
def executeBranch (fuel : Nat) (line v : Value) : List Node → Run Unit
  | [] => note (.unmatched line)
  | ⟨_, branchLine, _, _, parts⟩ :: rest => do
    match parts with
    | [constants, statement] =>
      if ← matchesAny v constants.children then
        note (.selected line branchLine)
        let _ ← visit fuel statement
      else executeBranch fuel line v rest
    | [] => raise (.tooFewChildren 0)
    | [_] => raise (.tooFewChildren 1)
    | _ => raise .tooManyChildren

end

/-- Runs a program. -/
def run (fuel : Nat) (program : Node) : Run Unit :=
  if program.kind = .program then do
    let _ ← visit fuel program
  else raise (.notAProgram program.kind)

end MiniPascal.Execution
