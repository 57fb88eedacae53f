import MiniPascal.Value.Basic

/-!
# Equality of values

Numbers are equal when they are the same number: an integer is compared exactly with a real, and
the Booleans count as one and zero. Texts equal only texts, lists are compared item by item, and
objects field by field in any order.

There are two equalities. `equal` compares two values as the language does, where a real that is
not a number differs from itself. `alike` compares the contents of trees and of lists, where a
value is always like itself.
-/

namespace MiniPascal.Value

/-- Whether an integer and a double are the same number. -/
def intEqReal (n : Int) (x : Float) : Bool :=
  match Decimal.parts x with
  | .finite negative mantissa exponent =>
    let scaled := Decimal.scaleTwo mantissa 1 exponent
    n * (scaled.2 : Int) == if negative then -(scaled.1 : Int) else scaled.1
  | _ => false

/-- A number among the values: an integer, where the Booleans are one and zero, or a double. -/
def number? : Value → Option (Int ⊕ Float)
  | .bool b => some (.inl (if b then 1 else 0))
  | .int n => some (.inl n)
  | .real x => some (.inr x)
  | _ => none

/-- Whether two numbers are the same. -/
def sameNumber : Int ⊕ Float → Int ⊕ Float → Bool
  | .inl m, .inl n => m == n
  | .inl n, .inr x => intEqReal n x
  | .inr x, .inl n => intEqReal n x
  | .inr x, .inr y => x == y

/-- Whether two reals agree, where "not a number" agrees with itself. -/
def likeReal (x y : Float) : Bool := x == y || (x.isNaN && y.isNaN)

mutual

/-- Equality of contents: every value is like itself. -/
def alike : Value → Value → Bool
  | .null, .null => true
  | .text s, .text t => s == t
  | .real x, .real y => likeReal x y
  | .list xs, .list ys => alikeItems xs ys
  | .object fs, .object gs => fs.length == gs.length && alikeFields fs gs
  | v, w =>
    match v.number?, w.number? with
    | some m, some n => sameNumber m n
    | _, _ => false

/-- Equality of lists, item by item. -/
def alikeItems : List Value → List Value → Bool
  | [], [] => true
  | x :: xs, y :: ys => alike x y && alikeItems xs ys
  | _, _ => false

/-- Whether every field of the first object is in the second one. -/
def alikeFields : List (Text × Value) → List (Text × Value) → Bool
  | [], _ => true
  | (name, v) :: rest, gs =>
    (match gs.lookup name with
      | some w => alike v w
      | none => false) && alikeFields rest gs

end

/-- Equality as the language compares: "not a number" differs from itself. -/
def equal : Value → Value → Bool
  | .real x, .real y => x == y
  | v, w => v.alike w

/-- The equality of case selection: the same type and equal. -/
def same (v w : Value) : Bool := v.typeName == w.typeName && v.equal w

end MiniPascal.Value
