import MiniPascal.Value.Basic

/-!
# Diagnostics

A diagnostic is one line about a problem in a program: the stage that found it, the source line, the
wording, and the text of the token or operator it was found at.
-/

namespace MiniPascal

/-- The stage of processing that finds a problem. -/
inductive Stage where
  | scanning
  | parsing
  | naming
  | running
deriving Repr, DecidableEq, Inhabited

/-- The word for a stage at the start of a diagnostic. -/
def Stage.word : Stage → String
  | .scanning => "TOKEN"
  | .parsing => "SYNTAX"
  | .naming => "SEMANTIC"
  | .running => "RUNTIME"

/-- A problem in a program. -/
inductive Problem where
  | invalidNumber
  | stringNotClosed
  | invalidToken
  | expectingProgram
  | expectingProgramName
  | missingSemicolon
  | expectingBegin
  | expectingEnd
  | expectingPeriod
  | unexpectedToken
  | missingAssign
  | expectingUntil
  | expectingDo
  | expectingDirection
  | expectingThen
  | missingOf
  | expectingColon
  | invalidCaseConstant
  | missingLeftParenthesis
  | invalidWrite
  | invalidFieldWidth
  | invalidPlaces
  | missingRightParenthesis
  | expectingInteger
  | expectingRightParenthesis
  | unexpectedInExpression
  | expectingIdentifier
  | undeclaredIdentifier
  | divisionByZero
deriving Repr, DecidableEq, Inhabited

namespace Problem

/-- The stage that finds a problem. -/
def stage : Problem → Stage
  | .invalidNumber | .stringNotClosed | .invalidToken => .scanning
  | .undeclaredIdentifier => .naming
  | .divisionByZero => .running
  | _ => .parsing

/-- The wording of a problem. -/
def message : Problem → String
  | .invalidNumber => "Invalid number"
  | .stringNotClosed => "String not closed"
  | .invalidToken => "Invalid token"
  | .expectingProgram => "Expecting PROGRAM"
  | .expectingProgramName => "Expecting program name"
  | .missingSemicolon => "Missing ;"
  | .expectingBegin => "Expecting BEGIN"
  | .expectingEnd => "Expecting END"
  | .expectingPeriod => "Expecting ."
  | .unexpectedToken => "Unexpected token"
  | .missingAssign => "Missing :="
  | .expectingUntil => "Expecting UNTIL"
  | .expectingDo => "Expecting DO"
  | .expectingDirection => "Expecting TO or DOWNTO"
  | .expectingThen => "Expecting THEN"
  | .missingOf => "Missing OF"
  | .expectingColon => "Expecting :"
  | .invalidCaseConstant => "Invalid case constant. Must be character or integer"
  | .missingLeftParenthesis => "Missing left parenthesis"
  | .invalidWrite => "Invalid WRITE or WRITELN statement"
  | .invalidFieldWidth => "Invalid field width"
  | .invalidPlaces => "Invalid count of decimal places"
  | .missingRightParenthesis => "Missing right parenthesis"
  | .expectingInteger => "Expecting integer"
  | .expectingRightParenthesis => "Expecting )"
  | .unexpectedInExpression => "Unexpected token in expression"
  | .expectingIdentifier => "Expecting identifier"
  | .undeclaredIdentifier => "Undeclared identifier"
  | .divisionByZero => "Division by zero"

end Problem

/-- The line that tells of a problem: stage, source line, wording, and the text if there is one.
Line and text may be any values, since a tree file may give such. -/
def Stage.line (stage : Stage) (line : Value) (message : String) (text : Value) : Text :=
  let shown : Text := match text with
    | .null => ""
    | v => v.display
  stage.word ++ " ERROR at line " ++ line.display ++ ": " ++ message ++ " at '" ++ shown ++ "'"

/-- A problem at a source line and at the text it was found at. -/
structure Diagnostic where
  problem : Problem
  line : Int
  text : String
deriving Repr, DecidableEq, Inhabited

/-- The diagnostic as one line. -/
def Diagnostic.render (d : Diagnostic) : String :=
  d.problem.stage.word ++ " ERROR at line " ++ toString d.line ++ ": " ++ d.problem.message
    ++ " at '" ++ d.text ++ "'"

end MiniPascal
