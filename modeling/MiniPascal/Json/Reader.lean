import MiniPascal.Value.Basic
import MiniPascal.Decimal.Numeral

/-!
# Reading JSON text

`read` turns a text into a value. It keeps the order of an object's fields, tells integers from
reals (a fraction or an exponent makes a real), and also accepts the words `NaN`, `Infinity` and
`-Infinity`. A repeated field keeps its first place and its last value. Two escapes that name the
halves of a surrogate pair are one character; a half alone is kept as such.

A fault is placed by the number of characters that were still to be read. The position in the text,
its line and its column follow from that.
-/

namespace MiniPascal.Json

/-- What is wrong with a text. -/
inductive Problem where
  | expectingValue
  | expectingName
  | expectingColon
  | expectingComma
  | unterminatedString
  | invalidControl
  | invalidEscape
  | invalidUnicodeEscape
  | extraData
  | byteOrderMark
deriving Repr, DecidableEq

/-- The wording of a problem. -/
def Problem.message : Problem → String
  | .expectingValue => "Expecting value"
  | .expectingName => "Expecting property name enclosed in double quotes"
  | .expectingColon => "Expecting ':' delimiter"
  | .expectingComma => "Expecting ',' delimiter"
  | .unterminatedString => "Unterminated string starting at"
  | .invalidControl => "Invalid control character at"
  | .invalidEscape => "Invalid \\escape"
  | .invalidUnicodeEscape => "Invalid \\uXXXX escape"
  | .extraData => "Extra data"
  | .byteOrderMark => "Unexpected UTF-8 BOM (decode using utf-8-sig)"

/-- A reading that failed: a problem with the count of characters still to be read, or an integer
that is too long. -/
inductive Failure where
  | malformed (problem : Problem) (remaining : Nat)
  | numeral (fault : Decimal.NumeralFault)
deriving Repr, DecidableEq

/-- Fails with a problem in front of the given rest. -/
def failAt {α : Type} (problem : Problem) (rest : List Char) : Except Failure α :=
  .error (.malformed problem rest.length)

/-- Blanks between the parts of a text. -/
def isBlank (c : Char) : Bool := c == ' ' || c == '\t' || c == '\n' || c == '\r'

/-- The text without the blanks at its start. -/
def skipBlanks (cs : List Char) : List Char := cs.dropWhile isBlank

/-! ## Strings -/

/-- The value of a hexadecimal digit. -/
def hexValue? (c : Char) : Option Nat :=
  if c.isDigit then some (c.toNat - 48)
  else if 'a' ≤ c ∧ c ≤ 'f' then some (c.toNat - 87)
  else if 'A' ≤ c ∧ c ≤ 'F' then some (c.toNat - 55)
  else none

/-- The value of four hexadecimal digits. -/
def hexCode? (a b c d : Char) : Option Nat := do
  let a ← hexValue? a
  let b ← hexValue? b
  let c ← hexValue? c
  let d ← hexValue? d
  return ((a * 16 + b) * 16 + c) * 16 + d

/-- The character a letter stands for after a backslash. -/
def escaped? (c : Char) : Option Char :=
  match c with
  | '"' => some '"'
  | '\\' => some '\\'
  | '/' => some '/'
  | 'b' => some '\x08'
  | 'f' => some '\x0c'
  | 'n' => some '\n'
  | 'r' => some '\r'
  | 't' => some '\t'
  | _ => none

/-- Whether a code is the first half of a character beyond the basic plane. -/
def isHighHalf (n : Nat) : Bool := 0xD800 ≤ n && n ≤ 0xDBFF

/-- Whether a code is the second half of a character beyond the basic plane. -/
def isLowHalf (n : Nat) : Bool := 0xDC00 ≤ n && n ≤ 0xDFFF

/-- The character of two halves. -/
def joinHalves (high low : Nat) : CodePoint :=
  .char (Char.ofNat (0x10000 + (high - 0xD800) * 1024 + (low - 0xDC00)))

/-- The code points read so far, last one first, with a first half that found no second one. -/
def settle (done : List CodePoint) : Option Nat → List CodePoint
  | none => done
  | some high => .ofCode high :: done

/-- Reads a string after its opening quote. `start` is the text from that quote on, `done` holds the
code points read so far, last one first, and `half` a first half that waits for its second one. At
least one character must follow an escape by code. -/
def readString (start : List Char) (done : List CodePoint) (half : Option Nat) :
    List Char → Except Failure (Text × List Char)
  | [] => failAt .unterminatedString start
  | '"' :: rest => .ok (.ofList (settle done half).reverse, rest)
  | '\\' :: 'u' :: a :: b :: c :: d :: z :: rest =>
    match hexCode? a b c d, half with
    | none, _ => .error (.malformed .invalidUnicodeEscape (rest.length + 6))
    | some code, some high =>
      if isLowHalf code then readString start (joinHalves high code :: done) none (z :: rest)
      else if isHighHalf code then readString start (settle done half) (some code) (z :: rest)
      else readString start (.ofCode code :: settle done half) none (z :: rest)
    | some code, none =>
      if isHighHalf code then readString start done (some code) (z :: rest)
      else readString start (.ofCode code :: done) none (z :: rest)
  | '\\' :: 'u' :: rest => .error (.malformed .invalidUnicodeEscape (rest.length + 1))
  | ['\\'] => failAt .unterminatedString start
  | '\\' :: c :: rest =>
    match escaped? c with
    | some x => readString start (.char x :: settle done half) none rest
    | none => .error (.malformed .invalidEscape (rest.length + 2))
  | c :: rest =>
    if c.toNat < 32 then .error (.malformed .invalidControl (rest.length + 1))
    else readString start (.char c :: settle done half) none rest

/-! ## Numbers -/

/-- A fraction: a point and at least one digit. -/
def takeFraction : List Char → List Char × List Char
  | '.' :: rest =>
    let digits := rest.takeWhile Char.isDigit
    if digits.isEmpty then ([], '.' :: rest) else ('.' :: digits, rest.dropWhile Char.isDigit)
  | cs => ([], cs)

/-- An exponent: its mark, an optional sign and at least one digit. -/
def takeExponent : List Char → List Char × List Char
  | [] => ([], [])
  | mark :: rest =>
    if mark = 'e' ∨ mark = 'E' then
      let sign := match rest with
        | '+' :: _ => ['+']
        | '-' :: _ => ['-']
        | _ => []
      let unsigned := rest.drop sign.length
      let digits := unsigned.takeWhile Char.isDigit
      if digits.isEmpty then ([], mark :: rest)
      else (mark :: sign ++ digits, unsigned.dropWhile Char.isDigit)
    else ([], mark :: rest)

/-- The digits of an integer: a single zero, or digits that do not start with one. -/
def takeWhole : List Char → List Char × List Char
  | '0' :: rest => (['0'], rest)
  | cs => (cs.takeWhile Char.isDigit, cs.dropWhile Char.isDigit)

/-- Reads a number. -/
def readNumber (cs : List Char) : Except Failure (Value × List Char) :=
  let negative := cs.head? == some '-'
  let unsigned := if negative then cs.drop 1 else cs
  let (whole, afterWhole) := takeWhole unsigned
  if whole.isEmpty then failAt .expectingValue cs
  else
    let (fraction, afterFraction) := takeFraction afterWhole
    let (exponent, rest) := takeExponent afterFraction
    if fraction.isEmpty && exponent.isEmpty then
      if Decimal.maxDigits < whole.length then .error (.numeral (.tooManyDigits whole.length))
      else
        let n : Int := Decimal.digitsValue whole
        .ok (.int (if negative then -n else n), rest)
    else
      match Decimal.unsignedDecimal? negative (whole ++ fraction ++ exponent) with
      | some x => .ok (.real x, rest)
      | none => failAt .expectingValue cs

/-! ## Values -/

/-- The rest of a text after a word, if the text starts with it. -/
def afterWord? (word : String) (cs : List Char) : Option (List Char) :=
  if word.toList.isPrefixOf cs then some (cs.drop word.length) else none

/-- The words that stand for values. -/
def words : List (String × Value) :=
  [("null", .null), ("true", .bool true), ("false", .bool false),
    ("NaN", .real (Float.ofBits 0x7FF8000000000000)),
    ("Infinity", .real (Decimal.ofMagnitude false Decimal.infinityBits)),
    ("-Infinity", .real (Decimal.ofMagnitude true Decimal.infinityBits))]

/-- Reads a word or a number. -/
def readAtom (cs : List Char) : Except Failure (Value × List Char) :=
  match words.findSome? fun (word, v) => (afterWord? word cs).map fun rest => (v, rest) with
  | some result => .ok result
  | none => readNumber cs

/-- Sets a field: a known one keeps its place. -/
def setField (name : Text) (v : Value) : List (Text × Value) → List (Text × Value)
  | [] => [(name, v)]
  | (n, w) :: rest => if n = name then (n, v) :: rest else (n, w) :: setField name v rest

mutual

/-- Reads a value. The fuel bounds the depth of reading; two for every character are enough. -/
def readValue : Nat → List Char → Except Failure (Value × List Char)
  | 0, cs => failAt .expectingValue cs
  | _ + 1, [] => failAt .expectingValue []
  | fuel + 1, c :: rest =>
    if c = '"' then
      (readString (c :: rest) [] none rest).map fun (t, rest) => (.text t, rest)
    else if c = '[' then
      let inner := skipBlanks rest
      if inner.head? = some ']' then .ok (.list [], inner.drop 1)
      else readItems fuel [] inner
    else if c = '\x7b' then
      let inner := skipBlanks rest
      if inner.head? = some '\x7d' then .ok (.object [], inner.drop 1)
      else readFields fuel [] inner
    else readAtom (c :: rest)

/-- Reads the items of a list up to its bracket; `done` holds the earlier ones, last one first. -/
def readItems : Nat → List Value → List Char → Except Failure (Value × List Char)
  | 0, _, cs => failAt .expectingValue cs
  | fuel + 1, done, cs => do
    let (v, rest) ← readValue fuel cs
    match skipBlanks rest with
    | ']' :: rest => return (.list (v :: done).reverse, rest)
    | ',' :: rest => readItems fuel (v :: done) (skipBlanks rest)
    | rest => failAt .expectingComma rest

/-- Reads the fields of an object up to its brace; `done` holds the earlier ones. -/
def readFields : Nat → List (Text × Value) → List Char → Except Failure (Value × List Char)
  | 0, _, cs => failAt .expectingName cs
  | fuel + 1, done, cs => do
    match cs with
    | '"' :: rest =>
      let (name, rest) ← readString cs [] none rest
      match skipBlanks rest with
      | ':' :: rest =>
        let (v, rest) ← readValue fuel (skipBlanks rest)
        match skipBlanks rest with
        | '\x7d' :: rest => return (.object (setField name v done), rest)
        | ',' :: rest => readFields fuel (setField name v done) (skipBlanks rest)
        | rest => failAt .expectingComma rest
      | rest => failAt .expectingColon rest
    | cs => failAt .expectingName cs

end

/-! ## Texts -/

/-- Why a text is no JSON text, with the place of the fault: line and column from one, and the
count of characters before it. -/
inductive Error where
  | malformed (problem : Problem) (line column position : Nat)
  | numeral (fault : Decimal.NumeralFault)
deriving Repr, DecidableEq

/-- The wording of an error. -/
def Error.message : Error → String
  | .malformed problem line column position =>
    problem.message ++ ": line " ++ toString line ++ " column " ++ toString column ++ " (char "
      ++ toString position ++ ")"
  | .numeral fault => fault.message

/-- The error of a failed reading in a text. -/
def Failure.locate (text : List Char) : Failure → Error
  | .malformed problem remaining =>
    let position := text.length - remaining
    let before := text.take position
    let column := (before.reverse.takeWhile (· != '\n')).length + 1
    .malformed problem (before.count '\n' + 1) column position
  | .numeral fault => .numeral fault

/-- Reads a whole text: one value with blanks around it. -/
def readText (text : List Char) : Except Failure Value := do
  if text.head? = some '\uFEFF' then failAt .byteOrderMark text
  else
    let (v, rest) ← readValue (2 * text.length + 2) (skipBlanks text)
    let rest := skipBlanks rest
    if rest.isEmpty then return v else failAt .extraData rest

/-- The value a JSON text stands for. -/
def read (s : String) : Except Error Value :=
  (readText s.toList).mapError (Failure.locate s.toList)

end MiniPascal.Json
