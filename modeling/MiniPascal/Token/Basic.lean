import MiniPascal.Diagnostic

/-!
# Tokens

A token is a word, a symbol, a number or a quoted text of a program, with the line it starts on. A
token that could not be read is an error token. The end of the text is a token of its own.
-/

namespace MiniPascal

/-- The reserved words. Some of them have no use in the grammar and only cannot be identifiers. -/
inductive Keyword where
  | PROGRAM | BEGIN | END | REPEAT | UNTIL | WRITE | WRITELN | DIV | MOD | AND | OR | NOT | CONST
  | TYPE | VAR | PROCEDURE | FUNCTION | WHILE | DO | FOR | TO | DOWNTO | IF | THEN | ELSE | CASE
  | OF
deriving Repr, DecidableEq, Inhabited

namespace Keyword

/-- The word in capital letters. -/
def word : Keyword → String
  | .PROGRAM => "PROGRAM" | .BEGIN => "BEGIN" | .END => "END" | .REPEAT => "REPEAT"
  | .UNTIL => "UNTIL" | .WRITE => "WRITE" | .WRITELN => "WRITELN" | .DIV => "DIV"
  | .MOD => "MOD" | .AND => "AND" | .OR => "OR" | .NOT => "NOT" | .CONST => "CONST"
  | .TYPE => "TYPE" | .VAR => "VAR" | .PROCEDURE => "PROCEDURE" | .FUNCTION => "FUNCTION"
  | .WHILE => "WHILE" | .DO => "DO" | .FOR => "FOR" | .TO => "TO" | .DOWNTO => "DOWNTO"
  | .IF => "IF" | .THEN => "THEN" | .ELSE => "ELSE" | .CASE => "CASE" | .OF => "OF"

/-- All reserved words. -/
def all : List Keyword :=
  [.PROGRAM, .BEGIN, .END, .REPEAT, .UNTIL, .WRITE, .WRITELN, .DIV, .MOD, .AND, .OR, .NOT, .CONST,
    .TYPE, .VAR, .PROCEDURE, .FUNCTION, .WHILE, .DO, .FOR, .TO, .DOWNTO, .IF, .THEN, .ELSE, .CASE,
    .OF]

end Keyword

/-- The symbols made of one or two characters. -/
inductive Symbol where
  | period | comma | colon | colonEquals | semicolon | plus | minus | star | slash | lparen | rparen
  | equals | notEquals | lessThan | lessEquals | greaterThan | greaterEquals | dotDot | lbracket
  | rbracket | carat
deriving Repr, DecidableEq, Inhabited

namespace Symbol

/-- The name of a symbol, as traces give it. -/
def name : Symbol → String
  | .period => "PERIOD" | .comma => "COMMA" | .colon => "COLON" | .colonEquals => "COLON_EQUALS"
  | .semicolon => "SEMICOLON" | .plus => "PLUS" | .minus => "MINUS" | .star => "STAR"
  | .slash => "SLASH" | .lparen => "LPAREN" | .rparen => "RPAREN" | .equals => "EQUALS"
  | .notEquals => "NOT_EQUALS" | .lessThan => "LESS_THAN" | .lessEquals => "LESS_EQUALS"
  | .greaterThan => "GREATER_THAN" | .greaterEquals => "GREATER_EQUALS" | .dotDot => "DOT_DOT"
  | .lbracket => "LBRACKET" | .rbracket => "RBRACKET" | .carat => "CARAT"

/-- All symbols. -/
def all : List Symbol :=
  [.period, .comma, .colon, .colonEquals, .semicolon, .plus, .minus, .star, .slash, .lparen,
    .rparen, .equals, .notEquals, .lessThan, .lessEquals, .greaterThan, .greaterEquals, .dotDot,
    .lbracket, .rbracket, .carat]

/-- The symbol that a character is alone. -/
def ofChar? : Char → Option Symbol
  | '.' => some .period
  | ',' => some .comma
  | ':' => some .colon
  | ';' => some .semicolon
  | '+' => some .plus
  | '-' => some .minus
  | '*' => some .star
  | '/' => some .slash
  | '(' => some .lparen
  | ')' => some .rparen
  | '=' => some .equals
  | '<' => some .lessThan
  | '>' => some .greaterThan
  | '[' => some .lbracket
  | ']' => some .rbracket
  | '^' => some .carat
  | _ => none

/-- The symbol that two characters are together. -/
def ofPair? : Char → Char → Option Symbol
  | ':', '=' => some .colonEquals
  | '<', '=' => some .lessEquals
  | '<', '>' => some .notEquals
  | '>', '=' => some .greaterEquals
  | '.', '.' => some .dotDot
  | _, _ => none

end Symbol

/-- The kinds of tokens. A quoted text of length one is a character. -/
inductive TokenKind where
  | keyword (k : Keyword)
  | symbol (s : Symbol)
  | identifier
  | integer
  | real
  | character
  | string
  | endOfFile
  | error
deriving Repr, DecidableEq, Inhabited

namespace TokenKind

/-- The name of a kind, as traces give it. -/
def name : TokenKind → String
  | .keyword k => k.word
  | .symbol s => s.name
  | .identifier => "IDENTIFIER"
  | .integer => "INTEGER"
  | .real => "REAL"
  | .character => "CHARACTER"
  | .string => "STRING"
  | .endOfFile => "END_OF_FILE"
  | .error => "ERROR"

/-- All kinds. -/
def all : List TokenKind :=
  Keyword.all.map .keyword ++ Symbol.all.map .symbol ++
    [.identifier, .integer, .real, .character, .string, .endOfFile, .error]

/-- The kind of a name. -/
def ofName? (name : String) : Option TokenKind := all.find? (·.name == name)

end TokenKind

/-- A token: its kind, its text as written, its line, and the value of a number or quoted text. -/
structure Token where
  kind : TokenKind
  text : String
  line : Int
  literal : Value := .null
deriving Inhabited

namespace Token

/-- The token at the end of a text. -/
def endOfFile (line : Int) : Token := { kind := .endOfFile, text := "", line }

/-- The line of a trace that tells of a token read. -/
def traceLine (t : Token) : String :=
  "token " ++ t.kind.name ++ " " ++ Text.quoted t.text ++ " line " ++ toString t.line

/-- A problem at a token. -/
def diagnose (t : Token) (problem : Problem) : Diagnostic :=
  { problem, line := t.line, text := t.text }

end Token

end MiniPascal
