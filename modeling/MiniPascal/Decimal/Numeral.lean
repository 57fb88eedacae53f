import MiniPascal.Decimal.Binary
import MiniPascal.Text.Digit
import MiniPascal.Text.Quoted

/-!
# Reading number texts

A number text may have blanks around it, a sign, digits of any script, and single underscores
between digits. `readReal?` accepts a decimal with an optional fraction and exponent, or a word for
infinity or for "not a number"; `readInteger` accepts digits only, and at most `maxDigits` of them.
-/

namespace MiniPascal.Decimal

/-- Why a text is no number. -/
inductive NumeralFault where
  /-- The integer has more digits than are read. -/
  | tooManyDigits (count : Nat)
  | notInteger (source : String)
  | notReal (source : Text)
deriving Repr, DecidableEq

/-- The most digits an integer may have. -/
def maxDigits : Nat := 4300

/-- The wording of a fault. The text that is no integer is shown cut to 200 characters. -/
def NumeralFault.message : NumeralFault → String
  | .tooManyDigits count =>
    "Exceeds the limit (" ++ toString maxDigits
      ++ " digits) for integer string conversion: value has "
      ++ toString count ++ " digits; use sys.set_int_max_str_digits() to increase the limit"
  | .notInteger source =>
    "invalid literal for int() with base 10: "
      ++ String.ofList ((Text.quoted source).toList.take 200)
  | .notReal source => "could not convert string to float: " ++ Text.quoted source

/-- The number a text of plain digits stands for. -/
def digitsValue (cs : List Char) : Nat :=
  cs.foldl (fun n c => 10 * n + (c.toNat - 48)) 0

/-- The characters of a number text: plain digits, and no blanks at either end. -/
def numeralChars (s : String) : List Char :=
  let inner := (s.toList.dropWhile Text.isBlank).reverse.dropWhile Text.isBlank
  inner.reverse.map Text.plainDigit

/-- Removes the underscores of a text, each of which must stand between two digits. -/
def dropUnderscores (previous : Char) : List Char → Option (List Char)
  | [] => if previous = '_' then none else some []
  | c :: rest =>
    if c = '_' then if previous.isDigit then dropUnderscores c rest else none
    else if previous = '_' ∧ ¬ c.isDigit then none
    else (dropUnderscores c rest).map (c :: ·)

/-- Splits a sign off; the flag tells a minus. -/
def splitSign : List Char → Bool × List Char
  | '-' :: rest => (true, rest)
  | '+' :: rest => (false, rest)
  | cs => (false, cs)

/-- An exponent after its mark: an optional sign and at least one digit, to the end. -/
def exponent? (cs : List Char) : Option Int :=
  let signed := splitSign cs
  if signed.2.isEmpty || !signed.2.all Char.isDigit then none
  else some (if signed.1 then -(digitsValue signed.2 : Int) else digitsValue signed.2)

/-- The value of an unsigned decimal: digits, an optional fraction and an optional exponent. -/
def unsignedDecimal? (negative : Bool) (cs : List Char) : Option Float :=
  let whole := cs.takeWhile Char.isDigit
  let rest := cs.dropWhile Char.isDigit
  let afterPoint := match rest with
    | '.' :: r => r
    | _ => []
  let fraction := afterPoint.takeWhile Char.isDigit
  let tail := match rest with
    | '.' :: r => r.dropWhile Char.isDigit
    | r => r
  let digits := digitsValue (whole ++ fraction)
  let places : Int := fraction.length
  if whole.isEmpty && fraction.isEmpty then none
  else match tail with
    | [] => some (ofDecimal negative digits (-places))
    | mark :: r =>
      if mark = 'e' ∨ mark = 'E' then
        (exponent? r).map fun e => ofDecimal negative digits (e - places)
      else none

/-- The words that stand for infinity. -/
def infinityWords : List String := ["inf", "infinity"]

/-- The double a number text stands for. -/
def readReal? (s : String) : Option Float := do
  let cs ← dropUnderscores ' ' (numeralChars s)
  let signed := splitSign cs
  let word := String.ofList (signed.2.map Char.toLower)
  if infinityWords.contains word then some (ofMagnitude signed.1 infinityBits)
  else if word == "nan" then some (Float.ofBits 0x7FF8000000000000)
  else unsignedDecimal? signed.1 signed.2

/-- The double a number text stands for, or the fault that it stands for none. -/
def readReal (t : Text) : Except NumeralFault Float :=
  match t.toString?.bind readReal? with
  | some x => .ok x
  | none => .error (.notReal t)

/-- The integer a number text stands for. Its first run of digits and underscores is measured
before what follows it is looked at. -/
def readInteger (s : String) : Except NumeralFault Int :=
  let signed := splitSign (numeralChars s)
  let isPart (c : Char) : Bool := c.isDigit || c == '_'
  match dropUnderscores ' ' (signed.2.takeWhile isPart) with
  | none => .error (.notInteger s)
  | some digits =>
    if maxDigits < digits.length then .error (.tooManyDigits digits.length)
    else if digits.isEmpty || (signed.2.any fun c => !isPart c) then .error (.notInteger s)
    else .ok (if signed.1 then -(digitsValue digits : Int) else digitsValue digits)

end MiniPascal.Decimal
