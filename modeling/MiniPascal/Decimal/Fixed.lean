import MiniPascal.Decimal.Shortest

/-!
# Fixed-point texts

`fixed x places` writes the exact value of a double rounded to a number of decimal places, a tie
going to the even last digit. The sign of a negative number is kept also when it rounds to zero.
-/

namespace MiniPascal.Decimal

/-- A natural number of `10^-places` in positional notation. -/
def pointed (n places : Nat) : String :=
  if places = 0 then toString n
  else
    let digits := toString n
    let padded := zeros (places + 1 - digits.length) ++ digits
    let whole := padded.length - places
    let cs := padded.toList
    String.ofList (cs.take whole) ++ "." ++ String.ofList (cs.drop whole)

/-- The double rounded to a number of decimal places. -/
def fixed (x : Float) (places : Nat) : String :=
  match parts x with
  | .nan => "nan"
  | .infinite negative => if negative then "-inf" else "inf"
  | .finite negative mantissa exponent =>
    let scaled := scaleTwo (mantissa * Nat.pow 10 places) 1 exponent
    (if negative then "-" else "") ++ pointed (roundDiv scaled.1 scaled.2) places

end MiniPascal.Decimal
