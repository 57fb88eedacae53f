import MiniPascal.Text.Basic
import MiniPascal.Text.Printable

/-!
# Quoted texts

`quoted s` shows a text between quotes so that it is one line of printable characters. Single
quotes are used, or double quotes when the text has a single quote and no double one. The quote in
use and the backslash are escaped by a backslash; line feed, carriage return and tab by a letter;
any other character that is not printable, and a surrogate, by its code in two, four or eight
hexadecimal digits. So every text, also one with surrogates, is shown as a string.
-/

namespace MiniPascal.Text

/-- The `width` lowest hexadecimal digits of `n`. -/
def hexDigits : Nat → Nat → List Char
  | 0, _ => []
  | width + 1, n => hexDigits width (n / 16) ++ [Nat.digitChar (n % 16)]

/-- The escape of a code point by its code. -/
def codeEscape (code : Nat) : List Char :=
  if code < 0x100 then '\\' :: 'x' :: hexDigits 2 code
  else if code < 0x10000 then '\\' :: 'u' :: hexDigits 4 code
  else '\\' :: 'U' :: hexDigits 8 code

/-- How one character is shown between quotes. -/
def escapeChar (quote : Char) (c : Char) : List Char :=
  if c = quote ∨ c = '\\' then ['\\', c]
  else if c = '\n' then ['\\', 'n']
  else if c = '\r' then ['\\', 'r']
  else if c = '\t' then ['\\', 't']
  else if isPrintable c then [c]
  else codeEscape c.toNat

/-- How one code point is shown between quotes. -/
def escapePoint (quote : Char) : CodePoint → List Char
  | .char c => escapeChar quote c
  | .surrogate offset => codeEscape (CodePoint.surrogate offset).code

/-- The text with every surrogate as an escape, and no quotes. -/
def shown (t : Text) : String :=
  String.ofList (t.toList.flatMap fun p => (p.char?.map fun c => [c]).getD (codeEscape p.code))

/-- The quote a text is shown in. -/
def quoteFor (ps : List CodePoint) : Char :=
  if ps.contains (.char '\'') && !ps.contains (.char '"') then '"' else '\''

/-- The text between quotes, with escapes. -/
def quoted (t : Text) : String :=
  let quote := quoteFor t.toList
  String.ofList (quote :: t.toList.flatMap (escapePoint quote) ++ [quote])

end MiniPascal.Text
