/-!
# Doubles as exact numbers

A double is taken apart into sign, integer mantissa and binary exponent, so that every question
about its decimal text becomes one about natural numbers. In the other direction `nearestBits`
rounds an exact quotient to the nearest double, a tie going to the even mantissa.

The bit pattern of a magnitude is `(e + 1074) · 2^52 + m` for `m · 2^e`, for normal numbers (where
`2^52 ≤ m < 2^53`) as for the smaller ones (where `e = -1074`). A mantissa rounded up to `2^53` is
carried into the exponent by the same formula.
-/

namespace MiniPascal.Decimal

/-- A double taken apart: a finite one is `± mantissa · 2^exponent`. -/
inductive Parts where
  | nan
  | infinite (negative : Bool)
  | finite (negative : Bool) (mantissa : Nat) (exponent : Int)
deriving Repr, DecidableEq

/-- The bit pattern of the infinite magnitude, above that of every finite one. -/
def infinityBits : Nat := 2047 * Nat.pow 2 52

/-- The parts of a double. -/
def parts (x : Float) : Parts :=
  let bits : Nat := x.toBits.toNat
  let negative := bits / Nat.pow 2 63 == 1
  let biased : Nat := bits / Nat.pow 2 52 % 2048
  let fraction : Nat := bits % Nat.pow 2 52
  if biased = 2047 then if fraction = 0 then .infinite negative else .nan
  else if biased = 0 then .finite negative fraction (-1074)
  else .finite negative (fraction + Nat.pow 2 52) ((biased : Int) - 1075)

/-- The quotient rounded to the nearest natural number, a tie going to the even one. -/
def roundDiv (num den : Nat) : Nat :=
  let q := num / den
  let r := num % den
  if 2 * r < den then q
  else if den < 2 * r then q + 1
  else if q % 2 = 0 then q else q + 1

/-- `num · 2^e` over `den`, as a pair of natural numbers. -/
def scaleTwo (num den : Nat) (e : Int) : Nat × Nat :=
  if 0 ≤ e then (num * Nat.pow 2 e.toNat, den) else (num, den * Nat.pow 2 (-e).toNat)

/-- `num · 10^e` over `den`, as a pair of natural numbers. -/
def scaleTen (num den : Nat) (e : Int) : Nat × Nat :=
  if 0 ≤ e then (num * Nat.pow 10 e.toNat, den) else (num, den * Nat.pow 10 (-e).toNat)

/-- The greatest `k` with `2^k ≤ num / den`, for positive `num` and `den`. -/
def floorLog2 (num den : Nat) : Int :=
  let k : Int := (num.log2 : Int) - den.log2
  let scaled := scaleTwo num den (-k)
  if scaled.2 ≤ scaled.1 then k else k - 1

/-- The bit pattern of the double nearest to `num / den`; infinite from halfway above the greatest
finite double on. -/
def nearestBits (num den : Nat) : Nat :=
  if num = 0 then 0
  else
    let e := max (floorLog2 num den - 52) (-1074)
    let scaled := scaleTwo num den (-e)
    min ((e + 1074).toNat * Nat.pow 2 52 + roundDiv scaled.1 scaled.2) infinityBits

/-- The double with the given sign and bit pattern of the magnitude. -/
def ofMagnitude (negative : Bool) (bits : Nat) : Float :=
  Float.ofBits (UInt64.ofNat (bits + if negative then Nat.pow 2 63 else 0))

/-- The double nearest to an integer, if the integer is not beyond the finite doubles. -/
def ofInt? (n : Int) : Option Float :=
  let bits := nearestBits n.natAbs 1
  if bits = infinityBits then none else some (ofMagnitude (n < 0) bits)

/-- The double nearest to `± digits · 10^exponent`. An exponent far outside the range of doubles
is settled without computing the power. -/
def ofDecimal (negative : Bool) (digits : Nat) (exponent : Int) : Float :=
  let top : Int := exponent + (digits.log2 : Int) * 30103 / 100000
  if digits = 0 then ofMagnitude negative 0
  else if 400 < top then ofMagnitude negative infinityBits
  else if top < -400 then ofMagnitude negative 0
  else
    let scaled := scaleTen digits 1 exponent
    ofMagnitude negative (nearestBits scaled.1 scaled.2)

/-- Why a double has no integer part. -/
inductive NotFinite where
  | infinite
  | nan
deriving Repr, DecidableEq

/-- The integer part of a double: what remains when the fraction is cut off. -/
def truncate (x : Float) : Except NotFinite Int :=
  match parts x with
  | .nan => .error .nan
  | .infinite _ => .error .infinite
  | .finite negative mantissa exponent =>
    let scaled := scaleTwo mantissa 1 exponent
    let magnitude : Int := scaled.1 / scaled.2
    .ok (if negative then -magnitude else magnitude)

end MiniPascal.Decimal
