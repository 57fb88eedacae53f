/-!
# Decimal digits and blanks of all scripts

Number texts may be written with the decimal digits of any script and may be surrounded by blanks.
Each script has its ten digits in a row, so a digit is found from the code point of its zero.
-/

namespace MiniPascal.Text

/-- The code points above the first 128 at which a row of ten decimal digits starts. -/
def zeroCodes : List Nat :=
  [
    1632, 1776, 1984, 2406, 2534, 2662, 2790, 2918, 3046, 3174, 3302, 3430, 3558, 3664, 3792,
    3872, 4160, 4240, 6112, 6160, 6470, 6608, 6784, 6800, 6992, 7088, 7232, 7248, 42528, 43216,
    43264, 43472, 43504, 43600, 44016, 65296, 66720, 68912, 69734, 69872, 69942, 70096, 70384,
    70736, 70864, 71248, 71360, 71472, 71904, 72016, 72784, 73040, 73120, 92768, 92864, 93008,
    120782, 120792, 120802, 120812, 120822, 123200, 123632, 125264, 130032]

/-- The decimal digit a code point above the first 128 stands for. -/
def digitOf? : List Nat → Nat → Option Nat
  | [], _ => none
  | z :: rest, c => if c < z then none else if c < z + 10 then some (c - z) else digitOf? rest c

/-- Blanks around a number text: tab to carriage return, space, and the wider blanks above the
first 128 code points. The four separators below the space are not among them. -/
def isBlank (c : Char) : Bool :=
  let n := c.toNat
  (9 ≤ n && n ≤ 13) || n == 32 || n == 0x85 || n == 0xA0 || n == 0x1680 ||
    (0x2000 ≤ n && n ≤ 0x200A) || n == 0x2028 || n == 0x2029 || n == 0x202F || n == 0x205F ||
    n == 0x3000

/-- The character with a decimal digit of any script replaced by the plain digit. -/
def plainDigit (c : Char) : Char :=
  if c.toNat < 128 then c
  else match digitOf? zeroCodes c.toNat with
    | some d => Char.ofNat (48 + d)
    | none => c

end MiniPascal.Text
