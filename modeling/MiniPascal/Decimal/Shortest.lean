import MiniPascal.Decimal.Binary

/-!
# The shortest decimal text of a double

`shortest` gives the fewest digits that read back as the same double; of several such numbers the
nearest, and of two equally near ones the one with the even last digit.

The doubles that a decimal rounds to `m · 2^q` form an interval around it. Multiples of `10^p` are
tried from coarse to fine: the first grid with a point in the interval has the fewest digits. If a
grid has a point there, one of the two neighbours of the value on that grid is such a point, so
only these two are tested. All comparisons are between natural numbers.

`text` lays the digits out: positional with at least one decimal for exponents from -4 to 15, and
otherwise with an exponent of at least two digits.
-/

namespace MiniPascal.Decimal

/-- A positive value with the ends of its rounding interval, as numerators over `den`. -/
structure Interval where
  value : Nat
  low : Nat
  high : Nat
  den : Nat
  closed : Bool

/-- The rounding interval of `mantissa · 2^exponent`, counted in quarters of its last place. Just
above a power of two the neighbour below is only half as far away as the one above. -/
def Interval.around (mantissa : Nat) (exponent : Int) : Interval :=
  let below := if mantissa = Nat.pow 2 52 ∧ exponent ≠ -1074 then 1 else 2
  let scale := scaleTwo 1 1 (exponent - 2)
  { value := 4 * mantissa * scale.1
    low := (4 * mantissa - below) * scale.1
    high := (4 * mantissa + 2) * scale.1
    den := scale.2
    closed := mantissa % 2 = 0 }

/-- Whether `c · 10^p` lies in the interval. -/
def Interval.contains (i : Interval) (c : Nat) (p : Int) : Bool :=
  let scaled := scaleTen (c * i.den) 1 p
  let low := i.low * scaled.2
  let high := i.high * scaled.2
  if i.closed then low ≤ scaled.1 && scaled.1 ≤ high else low < scaled.1 && scaled.1 < high

/-- The better of the two neighbours of the value on the grid of `10^p`, if one of them lies in the
interval. -/
def Interval.onGrid (i : Interval) (p : Int) : Option Nat :=
  let scaled := scaleTen i.value i.den (-p)
  let c := scaled.1 / scaled.2
  let r := scaled.1 % scaled.2
  match i.contains c p, i.contains (c + 1) p with
  | true, true =>
    if 2 * r < scaled.2 then some c
    else if scaled.2 < 2 * r then some (c + 1)
    else if c % 2 = 0 then some c else some (c + 1)
  | true, false => some c
  | false, true => some (c + 1)
  | false, false => none

/-- The first grid from `10^p` downwards, of `n` tried, with a point in the interval. -/
def Interval.coarsest (i : Interval) : Nat → Int → Nat × Int
  | 0, p => (i.value / i.den, p)
  | n + 1, p =>
    match i.onGrid p with
    | some c => (c, p)
    | none => i.coarsest n (p - 1)

/-- Removes trailing zeros from the digits, raising the exponent. -/
def trimZeros : Nat → Nat → Int → Nat × Int
  | 0, c, p => (c, p)
  | n + 1, c, p => if c ≠ 0 ∧ c % 10 = 0 then trimZeros n (c / 10) (p + 1) else (c, p)

/-- Digits and decimal exponent of the shortest decimal that reads back as `mantissa · 2^exponent`,
for a positive mantissa. The coarsest grid tried lies above the value; seventeen digits always
suffice. -/
def shortest (mantissa : Nat) (exponent : Int) : Nat × Int :=
  let i := Interval.around mantissa exponent
  let top : Int := (floorLog2 i.value i.den + 1) * 30103 / 100000 + 1
  let hit := i.coarsest 20 top
  trimZeros 20 hit.1 hit.2

/-- A text of zeros. -/
def zeros (n : Nat) : String := String.ofList (List.replicate n '0')

/-- Positional notation for `0.digits · 10^point`, with at least one decimal. -/
def positional (digits : String) (point : Int) : String :=
  if point ≤ 0 then "0." ++ zeros (-point).toNat ++ digits
  else if digits.length ≤ point.toNat then
    digits ++ zeros (point.toNat - digits.length) ++ ".0"
  else
    let cs := digits.toList
    String.ofList (cs.take point.toNat) ++ "." ++ String.ofList (cs.drop point.toNat)

/-- An exponent with its sign and at least two digits. -/
def exponentText (e : Int) : String :=
  let digits := toString e.natAbs
  (if e < 0 then "e-" else "e+") ++ (if digits.length < 2 then "0" ++ digits else digits)

/-- Notation with an exponent for `0.digits · 10^point`. -/
def scientific (digits : String) (point : Int) : String :=
  match digits.toList with
  | [] => exponentText (point - 1)
  | [d] => String.ofList [d] ++ exponentText (point - 1)
  | d :: rest => String.ofList (d :: '.' :: rest) ++ exponentText (point - 1)

/-- The text of a positive value given by its digits and decimal exponent. -/
def layout (digits : Nat) (exponent : Int) : String :=
  let ds := toString digits
  let point := exponent + ds.length
  if -4 < point ∧ point ≤ 16 then positional ds point else scientific ds point

/-- The shortest text of a double. -/
def text (x : Float) : String :=
  match parts x with
  | .nan => "nan"
  | .infinite negative => if negative then "-inf" else "inf"
  | .finite negative mantissa exponent =>
    let sign := if negative then "-" else ""
    if mantissa = 0 then sign ++ "0.0"
    else
      let s := shortest mantissa exponent
      sign ++ layout s.1 s.2

end MiniPascal.Decimal
