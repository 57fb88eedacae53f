import MiniPascal.Parsing.Expression

/-!
# Parsing statements and programs

Loops have one form in the tree: the statements and tests of a loop are run in order, over and over,
until a test holds. A `WHILE` loop starts with a test of the negated condition, a `REPEAT` loop ends
with its test. A `FOR` loop is an assignment to the control variable, followed by a loop that tests
whether the variable has passed the bound, runs the body, and steps the variable.

A problem abandons the innermost statement of a list, or branch of a selection. The parser reports
it and goes on at the next semicolon, `END` or `UNTIL`. A list leaves a closing word that is not its
own to the construct around it.
-/

namespace MiniPascal.Parsing

variable {N : Type} [TreeNode N]

/-! ## Where parsing goes on -/

/-- Kinds of tokens that start a statement. -/
def startsStatement : TokenKind → Bool
  | .identifier => true
  | .keyword k => [.BEGIN, .REPEAT, .WRITE, .WRITELN, .WHILE, .IF, .FOR, .CASE].contains k
  | _ => false

/-- Kinds of tokens at which parsing goes on after a problem in a statement. -/
def followsStatement : TokenKind → Bool
  | .symbol .semicolon | .keyword .END | .keyword .UNTIL | .endOfFile => true
  | _ => false

/-- Kinds of tokens in front of which a statement may be empty. -/
def followsEmpty (kind : TokenKind) : Bool :=
  followsStatement kind || kind == .keyword .ELSE

/-- Kinds of tokens that close a list of statements, if only that of an outer construct. -/
def closesBlock : TokenKind → Bool
  | .keyword .END | .keyword .UNTIL | .endOfFile => true
  | _ => false

/-- Kinds of tokens at which parsing goes on after a problem in the program's header. -/
def followsHeader (kind : TokenKind) : Bool := kind == .keyword .BEGIN

/-- Kinds of tokens that start a constant of a branch. -/
def startsConstant : TokenKind → Bool
  | .integer | .character | .symbol .minus => true
  | _ => false

/-! ## Statements without statements in them -/

/-- A node of a kind on a line, without a text of its own. -/
def nodeOn (kind : Kind) (line : Value) (children : List N) : N :=
  TreeNode.make kind line .null .null none children

@[simp] theorem nodeOn_eq (kind : Kind) (line : Value) (children : List Node) :
    nodeOn kind line children = { kind, line, children } := rfl

/-- An assignment. -/
def assignment : Parser N := do
  let line ← currentLine
  let target ← variableNode true
  let _ ← consume (.symbol .colonEquals) .missingAssign
  let value ← expression
  return nodeOn .assign line [target, value]

/-- A quoted text. -/
def stringNode : Parser N := do
  let t ← advance
  return nodeAt .string t []

/-- The argument of a write statement: a variable or a quoted text. -/
def writeArgument (required : Bool) : Parser (List N) := do
  match ← peek with
  | .identifier => return [← variableNode false]
  | .character | .string => return [← stringNode]
  | kind =>
    if required || kind ≠ .symbol .rparen then fail .invalidWrite else return []

/-- The field width and count of decimal places after an argument. -/
def writeField : Parser (List N) := do
  if (← peek) ≠ .symbol .colon then return []
  else
    let _ ← advance
    let width ← integerNode .invalidFieldWidth
    if (← peek) ≠ .symbol .colon then return [width]
    else
      let _ ← advance
      let places ← integerNode .invalidPlaces
      return [width, places]

/-- The arguments of a write statement in parentheses. -/
def writeArguments (required : Bool) : Parser (List N) := do
  let _ ← consume (.symbol .lparen) .missingLeftParenthesis
  let argument : List N ← writeArgument required
  let field : List N ← if argument.isEmpty then pure [] else writeField
  let _ ← consume (.symbol .rparen) .missingRightParenthesis
  return argument ++ field

/-- A `WRITE` statement. -/
def writeStatement : Parser N := do
  let line ← currentLine
  let _ ← advance
  let children ← writeArguments true
  return nodeOn .write line children

/-- A `WRITELN` statement, with or without arguments. -/
def writelnStatement : Parser N := do
  let line ← currentLine
  let _ ← advance
  if (← peek) = .symbol .lparen then
    let children ← writeArguments false
    return nodeOn .writeln line children
  else return nodeOn .writeln line []

/-- A constant of a branch: a character, or an integer with or without a minus. -/
def caseConstant : Parser N := do
  match ← peek with
  | .integer => integerNode .invalidCaseConstant
  | .character => stringNode
  | .symbol .minus =>
    let sign ← advance
    let n ← integerNode .invalidCaseConstant
    return operation .negate sign [n]
  | _ => fail .invalidCaseConstant

/-- The constants of a branch after the first one. -/
def moreConstants : Nat → Parser (List N)
  | 0 => throw .outOfFuel
  | fuel + 1 => do
    if (← peek) = .symbol .comma then
      let _ ← advance
      let c ← caseConstant
      let rest ← moreConstants fuel
      return c :: rest
    else return []

/-- The constants of a branch, with commas between. -/
def caseConstants : Parser (List N) := do
  let first ← caseConstant
  let rest ← fun s => moreConstants s.fuel s
  return first :: rest

/-! ## The trees of loops -/

/-- A loop that tests the negated condition before each run of the body. -/
def whileLoop (line testLine : Value) (condition body : N) : N :=
  let negated : N := TreeNode.make .not testLine (.text "NOT") .null none [condition]
  nodeOn .loop line [nodeOn .test testLine [negated], body]

/-- The direction of a `FOR` loop. -/
inductive Direction where
  | up
  | down
deriving Repr, DecidableEq

/-- The direction a kind of token stands for. -/
def direction? : TokenKind → Option Direction
  | .keyword .TO => some .up
  | .keyword .DOWNTO => some .down
  | _ => none

/-- The relation that tells that the control variable has passed the bound. -/
def Direction.passed (d : Direction) (line : Value) (control bound : N) : N :=
  match d with
  | .up => TreeNode.make (.relation .gt) line (.text ">") .null none [control, bound]
  | .down => TreeNode.make (.relation .lt) line (.text "<") .null none [control, bound]

/-- The control variable plus or minus one. -/
def Direction.stepped (d : Direction) (line : Value) (control : N) : N :=
  let one : N := TreeNode.make .integer line (.text "1") (.int 1) none []
  match d with
  | .up => TreeNode.make (.arithmetic .add) line (.text "+") .null none [control, one]
  | .down => TreeNode.make (.arithmetic .subtract) line (.text "-") .null none [control, one]

/-- The tree of a `FOR` loop, given its first assignment and a copy of the control variable. -/
def forLoop (d : Direction) (line boundLine : Value) (initial control bound body : N) : N :=
  let test : N := nodeOn .test boundLine [d.passed boundLine control bound]
  let step : N := nodeOn .assign line [control, d.stepped line control]
  nodeOn .compound line [initial, nodeOn .loop line [test, body, step]]

/-- A copy of the control variable of a `FOR` loop, given its first assignment. -/
def controlOf (initial : N) : N :=
  match TreeNode.children initial with
  | target :: _ => copyVariable target
  | [] => copyVariable initial

/-! ## Statements -/

/-- After a statement of a list: moves over semicolons, and reports a missing one or a token that
cannot follow. -/
def separate : Parser Unit := do
  let kind ← peek
  if kind = .symbol .semicolon then skipSemicolons
  else if startsStatement kind then complain .missingSemicolon
  else if !closesBlock kind then
    recover followsStatement ((← get).current.diagnose .unexpectedToken)

/-- After a branch of a selection: moves over semicolons, and reports a missing one. -/
def separateBranch : Parser Unit := do
  let kind ← peek
  if kind = .symbol .semicolon then skipSemicolons
  else if startsConstant kind then complain .missingSemicolon

mutual

/-- A statement, or nothing in front of a token that may follow an empty one. -/
def statementWith : Nat → Parser (Option N)
  | 0 => throw .outOfFuel
  | fuel + 1 => do
    match ← peek with
    | .identifier => return some (← assignment)
    | .keyword .BEGIN =>
      let line ← currentLine
      let _ ← advance
      let children ← statementsWith fuel
      let _ ← expect (.keyword .END) .expectingEnd
      return some (nodeOn .compound line children)
    | .keyword .REPEAT =>
      let line ← currentLine
      let _ ← advance
      let children ← statementsWith fuel
      let testLine ← currentLine
      let _ ← consume (.keyword .UNTIL) .expectingUntil
      let condition ← expression
      let test : N := nodeOn .test testLine [condition]
      return some (nodeOn .loop line (children ++ [test]))
    | .keyword .WRITE => return some (← writeStatement)
    | .keyword .WRITELN => return some (← writelnStatement)
    | .keyword .WHILE =>
      let line ← currentLine
      let _ ← advance
      let testLine ← currentLine
      let condition ← expression
      let _ ← consume (.keyword .DO) .expectingDo
      let body ← branchWith fuel
      return some (whileLoop line testLine condition body)
    | .keyword .FOR =>
      let line ← currentLine
      let _ ← advance
      let initial ← assignment
      match direction? (← peek) with
      | none => fail .expectingDirection
      | some d =>
        let word ← advance
        let bound ← expression
        let _ ← consume (.keyword .DO) .expectingDo
        let body ← branchWith fuel
        return some (forLoop d line (.int word.line) initial (controlOf initial) bound body)
    | .keyword .IF =>
      let line ← currentLine
      let _ ← advance
      let condition ← expression
      let _ ← consume (.keyword .THEN) .expectingThen
      let first ← branchWith fuel
      if (← peek) = .keyword .ELSE then
        let _ ← advance
        let second ← branchWith fuel
        return some (nodeOn .cond line [condition, first, second])
      else return some (nodeOn .cond line [condition, first])
    | .keyword .CASE =>
      let line ← currentLine
      let _ ← advance
      let value ← expression
      let _ ← consume (.keyword .OF) .missingOf
      let branches ← caseBranchesWith fuel
      let _ ← expect (.keyword .END) .expectingEnd
      return some (nodeOn .select line (value :: branches))
    | kind => if followsEmpty kind then return none else fail .unexpectedToken

/-- A statement that is a branch or a body: an empty one is a compound without statements. -/
def branchWith : Nat → Parser N
  | 0 => throw .outOfFuel
  | fuel + 1 => do
    let line ← currentLine
    match ← statementWith fuel with
    | some n => return n
    | none => return nodeOn .compound line []

/-- A list of statements up to a closing word. -/
def statementsWith : Nat → Parser (List N)
  | 0 => throw .outOfFuel
  | fuel + 1 => do
    if closesBlock (← peek) then return []
    else
      let found ← attempt followsStatement (statementWith fuel)
      separate
      let rest ← statementsWith fuel
      return found.join.toList ++ rest

/-- The branches of a selection up to a closing word. -/
def caseBranchesWith : Nat → Parser (List N)
  | 0 => throw .outOfFuel
  | fuel + 1 => do
    if closesBlock (← peek) then return []
    else
      let found ← attempt followsStatement (caseBranchWith fuel)
      separateBranch
      let rest ← caseBranchesWith fuel
      return found.toList ++ rest

/-- A branch of a selection: its constants and its statement. -/
def caseBranchWith : Nat → Parser N
  | 0 => throw .outOfFuel
  | fuel + 1 => do
    let line ← currentLine
    let constants ← caseConstants
    let _ ← consume (.symbol .colon) .expectingColon
    let body ← branchWith fuel
    return nodeOn .selectBranch line [nodeOn .selectConstants line constants, body]

end

/-- A statement, or nothing in front of a token that may follow an empty one. -/
def statement : Parser (Option N) := fun s => statementWith s.fuel s

/-- A statement that is a branch or a body. -/
def branch : Parser N := fun s => branchWith s.fuel s

/-- A list of statements up to a closing word. -/
def statements : Parser (List N) := fun s => statementsWith s.fuel s

/-- A branch of a selection. -/
def caseBranch : Parser N := fun s => caseBranchWith s.fuel s

/-! ## Programs -/

/-- The header of a program, up to its first `BEGIN`. A name that was read counts also when the
semicolon after it is missing. -/
def header : Parser (Option Token) := do
  let name ← attempt followsHeader do
    let _ ← consume (.keyword .PROGRAM) .expectingProgram
    let name ← consume .identifier .expectingProgramName
    enterName name.text
    return name
  match name with
  | none => return none
  | some name =>
    let _ ← attempt followsHeader (consume (.symbol .semicolon) .missingSemicolon)
    return some name

/-- The body of a program: a compound statement and a period. Without a `BEGIN` at the end of the
text there is nothing more to read. -/
def body : Parser N := do
  let line ← currentLine
  let opened ← expect (.keyword .BEGIN) .expectingBegin
  if !opened && (← peek) = .endOfFile then return nodeOn .compound line []
  else
    let children ← statements
    let _ ← expect (.keyword .END) .expectingEnd
    let _ ← expect (.symbol .period) .expectingPeriod
    return nodeOn .compound line children

/-- A program. -/
def program : Parser N := do
  let line ← currentLine
  let name ← header
  let compound : N ← body
  let text : Value := match name with
    | some t => .text t.text
    | none => .null
  return TreeNode.make .program line text .null none [compound]

end MiniPascal.Parsing
