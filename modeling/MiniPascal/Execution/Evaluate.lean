import MiniPascal.Execution.Machine

/-!
# Evaluating expressions

Operands are evaluated from left to right, and each is checked before the next one is looked at. The
connectives have no short circuit: both operands are always evaluated. A division looks for zero
last, after both operands were checked.
-/

namespace MiniPascal.Execution

/-- The result of a relation between two reals. -/
def compareReals (op : Relation) (x y : Float) : Bool :=
  match op with
  | .eq => x == y
  | .lt => x < y
  | .le => x ≤ y
  | .gt => x > y
  | .ge => x ≥ y
  | .ne => x != y

/-- The result of a connective. -/
def connect (op : Connective) (a b : Bool) : Bool :=
  match op with
  | .and => a && b
  | .or => a || b

/-- The result of an operation on two reals, for the operator of the given text. -/
def calculate (op : Arithmetic) (text : Value) (x y : Float) : Run Value :=
  match op with
  | .add => return .real (x + y)
  | .subtract => return .real (x - y)
  | .multiply => return .real (x * y)
  | .divide => do
    if y == 0.0 then raise (.divisionByZero (← get).line text) else return .real (x / y)

/-- The value of an expression. -/
def evaluate : Node → Run Value
  | ⟨.var, _, text, _, _⟩ => readVariable text
  | ⟨.string, _, _, literal, _⟩ => return literal
  | ⟨.integer, _, _, literal, _⟩ => return .real (← orRaise (constantReal literal))
  | ⟨.real, _, _, literal, _⟩ => return .real (← orRaise (constantReal literal))
  | ⟨.test, line, _, _, operand :: _⟩ => do
    let b ← orRaise (expectBoolean (← evaluate operand) (.loopTest line))
    note (.tested line b)
    return .bool b
  | ⟨.not, _, _, _, operand :: _⟩ => do
    let b ← orRaise (expectBoolean (← evaluate operand) .not)
    return .bool (!b)
  | ⟨.negate, _, _, _, operand :: _⟩ => do
    let x ← orRaise (expectReal (← evaluate operand) .negation)
    return .real (-x)
  | ⟨.connective op, _, _, _, left :: rest⟩ => do
    let a ← orRaise (expectBoolean (← evaluate left) (.connective op))
    match rest with
    | [] => raise .missingChild
    | right :: _ =>
      let b ← orRaise (expectBoolean (← evaluate right) (.connective op))
      return .bool (connect op a b)
  | ⟨.relation op, line, _, _, left :: rest⟩ => do
    let site := Site.operand (.relation op) line
    let x ← orRaise (expectReal (← evaluate left) site)
    match rest with
    | [] => raise .missingChild
    | right :: _ =>
      let y ← orRaise (expectReal (← evaluate right) site)
      return .bool (compareReals op x y)
  | ⟨.arithmetic op, line, text, _, left :: rest⟩ => do
    let site := Site.operand (.arithmetic op) line
    let x ← orRaise (expectReal (← evaluate left) site)
    match rest with
    | [] => raise .missingChild
    | right :: _ =>
      let y ← orRaise (expectReal (← evaluate right) site)
      calculate op text x y
  | ⟨.test, _, _, _, []⟩ | ⟨.not, _, _, _, []⟩ | ⟨.negate, _, _, _, []⟩
  | ⟨.connective _, _, _, _, []⟩ | ⟨.relation _, _, _, _, []⟩ | ⟨.arithmetic _, _, _, _, []⟩ =>
    raise .missingChild
  | ⟨kind, _, _, _, _⟩ => raise (.notAnExpression kind)

end MiniPascal.Execution
