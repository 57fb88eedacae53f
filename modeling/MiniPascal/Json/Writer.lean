import MiniPascal.Value.Basic

/-!
# Values as JSON text

Two layouts are written. The compact one is a single line with a blank after every comma and colon.
The indented one puts every item on a line of its own, two columns further in than its container.
Strings escape the quote, the backslash and the controls below the space. Other characters stand for
themselves, and a surrogate, which no string can hold, is written by its code.
-/

namespace MiniPascal.Json

/-- How one character is written inside a string. -/
def escapeChar (c : Char) : List Char :=
  if c = '"' ∨ c = '\\' then ['\\', c]
  else if c = '\n' then ['\\', 'n']
  else if c = '\r' then ['\\', 'r']
  else if c = '\t' then ['\\', 't']
  else if c = '\x08' then ['\\', 'b']
  else if c = '\x0c' then ['\\', 'f']
  else if c.toNat < 32 then '\\' :: 'u' :: Text.hexDigits 4 c.toNat
  else [c]

/-- How one code point is written inside a string. -/
def escapePoint : CodePoint → List Char
  | .char c => escapeChar c
  | .surrogate offset => '\\' :: 'u' :: Text.hexDigits 4 (CodePoint.surrogate offset).code

/-- A text with its quotes. -/
def stringText (t : Text) : String :=
  String.ofList ('"' :: t.toList.flatMap escapePoint ++ ['"'])

/-- A real: its shortest text, and words for what is not finite. -/
def realText (x : Float) : String :=
  match Decimal.parts x with
  | .nan => "NaN"
  | .infinite negative => if negative then "-Infinity" else "Infinity"
  | .finite _ _ _ => Decimal.text x

mutual

/-- A text followed by the value on a single line. -/
def writeAfter (out : String) : Value → String
  | .null => out ++ "null"
  | .bool b => out ++ if b then "true" else "false"
  | .int n => out ++ toString n
  | .real x => out ++ realText x
  | .text t => out ++ stringText t
  | .list items => writeItems (out ++ "[") "" items ++ "]"
  | .object fields => writeFields (out ++ "\x7b") "" fields ++ "\x7d"

/-- A text followed by the items of a list, the first of them after the given separator. -/
def writeItems (out separator : String) : List Value → String
  | [] => out
  | v :: rest => writeItems (writeAfter (out ++ separator) v) ", " rest

/-- A text followed by the fields of an object, the first of them after the given separator. -/
def writeFields (out separator : String) : List (Text × Value) → String
  | [] => out
  | (name, v) :: rest =>
    writeFields (writeAfter (out ++ separator ++ stringText name ++ ": ") v) ", " rest

end

/-- The value on a single line. -/
def write (v : Value) : String := writeAfter "" v

/-- A line break and the indentation of a depth. -/
def newLine (depth : Nat) : String :=
  String.ofList ('\n' :: List.replicate (2 * depth) ' ')

mutual

/-- A text followed by the value inside a container of the given depth, where every item is on a
line of its own. -/
def indentAfter (depth : Nat) (out : String) : Value → String
  | .null => out ++ "null"
  | .bool b => out ++ if b then "true" else "false"
  | .int n => out ++ toString n
  | .real x => out ++ realText x
  | .text t => out ++ stringText t
  | .list [] => out ++ "[]"
  | .list (v :: rest) =>
    indentItems (depth + 1) (indentAfter (depth + 1) (out ++ "[" ++ newLine (depth + 1)) v) rest
      ++ newLine depth ++ "]"
  | .object [] => out ++ "\x7b\x7d"
  | .object ((name, v) :: rest) =>
    let opened := out ++ "\x7b" ++ newLine (depth + 1) ++ stringText name ++ ": "
    indentFields (depth + 1) (indentAfter (depth + 1) opened v) rest ++ newLine depth ++ "\x7d"

/-- A text followed by the later items of a list. -/
def indentItems (depth : Nat) (out : String) : List Value → String
  | [] => out
  | v :: rest => indentItems depth (indentAfter depth (out ++ "," ++ newLine depth) v) rest

/-- A text followed by the later fields of an object. -/
def indentFields (depth : Nat) (out : String) : List (Text × Value) → String
  | [] => out
  | (name, v) :: rest =>
    let named := out ++ "," ++ newLine depth ++ stringText name ++ ": "
    indentFields depth (indentAfter depth named v) rest

end

/-- The value with every item on a line of its own. -/
def writeIndented (v : Value) : String := indentAfter 0 "" v

end MiniPascal.Json
