import MiniPascal.Parsing.Statement

/-!
# Rules of the grammar

The parts of the grammar that can be parsed on their own, by name.
-/

namespace MiniPascal.Parsing

/-- A rule of the grammar. -/
inductive Rule where
  | expression
  | simpleExpression
  | term
  | factor
  | statement
  | branch
  | caseBranch
  | caseConstant
  | variableName
deriving Repr, DecidableEq

namespace Rule

/-- The name of a rule. -/
def name : Rule → String
  | .expression => "expression"
  | .simpleExpression => "simple_expression"
  | .term => "term"
  | .factor => "factor"
  | .statement => "statement"
  | .branch => "branch"
  | .caseBranch => "case_branch"
  | .caseConstant => "case_constant"
  | .variableName => "variable"

/-- All rules. -/
def all : List Rule :=
  [.expression, .simpleExpression, .term, .factor, .statement, .branch, .caseBranch, .caseConstant,
    .variableName]

/-- The rule of a name. -/
def ofName? (name : String) : Option Rule := all.find? (·.name == name)

/-- The parser of a rule. Only a statement can be empty. -/
def parser : Rule → Parser (Option Node)
  | .expression => return some (← Parsing.expression)
  | .simpleExpression => return some (← Parsing.simpleExpression)
  | .term => return some (← Parsing.term)
  | .factor => return some (← Parsing.factor)
  | .statement => Parsing.statement
  | .branch => return some (← Parsing.branch)
  | .caseBranch => return some (← Parsing.caseBranch)
  | .caseConstant => return some (← Parsing.caseConstant)
  | .variableName => return some (← Parsing.variableNode false)

end Rule

end MiniPascal.Parsing
