import MiniPascal.Parsing.State
import MiniPascal.Tree.Basic

/-!
# Parsing expressions

Operators bind in three levels, and those of one level group to the left:

* an expression is a simple expression, or two of them with a relation between;
* a simple expression is a sum of terms;
* a term is a product of factors, where the connectives stand beside multiplication and division;
* a factor is a variable, a number, a factor after a minus, an expression after `NOT`, or an
  expression in parentheses.

The fuel of the functions bounds the depth of their calls. `State.fuel` is always enough, and the
parsers at the end of the module use it.
-/

namespace MiniPascal.Parsing

variable {N : Type} [TreeNode N]

/-- The node of a token: its line, text and literal. -/
def nodeAt (kind : Kind) (t : Token) (children : List N) : N :=
  TreeNode.make kind (.int t.line) (.text t.text) t.literal none children

/-- The node of an operator token. -/
def operation (kind : Kind) (t : Token) (children : List N) : N :=
  TreeNode.make kind (.int t.line) (.text t.text) .null none children

/-- The node of a variable that a token names, at its place in the table. -/
def variableAt (t : Token) (place : Nat) : N :=
  TreeNode.make .var (.int t.line) (.text t.text) .null (some place) []

/-- Another node of a variable, with the same entry. -/
def copyVariable (n : N) : N :=
  TreeNode.make .var (TreeNode.line n) (TreeNode.text n) .null (TreeNode.entry n) []

/-- The relation a kind of token stands for. -/
def relation? : TokenKind → Option Kind
  | .symbol .equals => some (.relation .eq)
  | .symbol .lessThan => some (.relation .lt)
  | .symbol .lessEquals => some (.relation .le)
  | .symbol .greaterThan => some (.relation .gt)
  | .symbol .greaterEquals => some (.relation .ge)
  | .symbol .notEquals => some (.relation .ne)
  | _ => none

/-- The operator of a sum a kind of token stands for. -/
def sumOperator? : TokenKind → Option Kind
  | .symbol .plus => some (.arithmetic .add)
  | .symbol .minus => some (.arithmetic .subtract)
  | _ => none

/-- The operator of a product a kind of token stands for. -/
def productOperator? : TokenKind → Option Kind
  | .symbol .star => some (.arithmetic .multiply)
  | .symbol .slash => some (.arithmetic .divide)
  | .keyword .AND => some (.connective .and)
  | .keyword .OR => some (.connective .or)
  | _ => none

/-- A variable. A new name is entered, after all the others; in strict mode it is reported unless it
is being assigned. -/
def variableNode (assigned : Bool) : Parser N := do
  let t ← consume .identifier .expectingIdentifier
  let s ← get
  match s.table.place? t.text with
  | some place => return variableAt t place
  | none =>
    if s.strict && !assigned then report (t.diagnose .undeclaredIdentifier)
    enterName t.text
    return variableAt t s.table.size

/-- An integer; any other token is the given problem. -/
def integerNode (p : Problem) : Parser N := do
  let t ← consume .integer p
  return nodeAt .integer t []

mutual

/-- An expression. -/
def expressionWith : Nat → Parser N
  | 0 => throw .outOfFuel
  | fuel + 1 => do
    let left ← simpleExpressionWith fuel
    match relation? (← peek) with
    | none => return left
    | some kind =>
      let op ← advance
      let right ← simpleExpressionWith fuel
      return operation kind op [left, right]

/-- A sum of terms. -/
def simpleExpressionWith : Nat → Parser N
  | 0 => throw .outOfFuel
  | fuel + 1 => do
    let left ← termWith fuel
    sumRest fuel left

/-- The rest of a sum whose value so far is `left`. -/
def sumRest : Nat → N → Parser N
  | 0, _ => throw .outOfFuel
  | fuel + 1, left => do
    match sumOperator? (← peek) with
    | none => return left
    | some kind =>
      let op ← advance
      let right ← termWith fuel
      sumRest fuel (operation kind op [left, right])

/-- A product of factors. -/
def termWith : Nat → Parser N
  | 0 => throw .outOfFuel
  | fuel + 1 => do
    let left ← factorWith fuel
    productRest fuel left

/-- The rest of a product whose value so far is `left`. -/
def productRest : Nat → N → Parser N
  | 0, _ => throw .outOfFuel
  | fuel + 1, left => do
    match productOperator? (← peek) with
    | none => return left
    | some kind =>
      let op ← advance
      let right ← factorWith fuel
      productRest fuel (operation kind op [left, right])

/-- A factor. -/
def factorWith : Nat → Parser N
  | 0 => throw .outOfFuel
  | fuel + 1 => do
    match ← peek with
    | .identifier => variableNode false
    | .integer => integerNode .expectingInteger
    | .real =>
      let t ← advance
      return nodeAt .real t []
    | .symbol .minus =>
      let sign ← advance
      let operand ← factorWith fuel
      return operation .negate sign [operand]
    | .keyword .NOT =>
      let t ← advance
      let operand ← expressionWith fuel
      return operation .not t [operand]
    | .symbol .lparen =>
      let _ ← advance
      let inner ← expressionWith fuel
      let _ ← consume (.symbol .rparen) .expectingRightParenthesis
      return inner
    | _ => fail .unexpectedInExpression

end

/-- An expression. -/
def expression : Parser N := fun s => expressionWith s.fuel s

/-- A sum of terms. -/
def simpleExpression : Parser N := fun s => simpleExpressionWith s.fuel s

/-- A product of factors. -/
def term : Parser N := fun s => termWith s.fuel s

/-- A factor. -/
def factor : Parser N := fun s => factorWith s.fuel s

end MiniPascal.Parsing
