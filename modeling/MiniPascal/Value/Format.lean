import MiniPascal.Value.Basic
import MiniPascal.Decimal.Fixed

/-!
# Values as written by a program

Without a field width a value is written as it is. With one, a number is written with a fixed
count of decimal places, and numbers and texts are moved to the right end of the field. A Boolean
is written as a word, whatever the width.
-/

namespace MiniPascal

/-- Why a value cannot be written in a field. -/
inductive FormatFault where
  /-- The width or the count of places is beyond what a field can have. -/
  | fieldTooLarge
  /-- The count of places is beyond what a number can have. -/
  | tooManyPlaces
  /-- The integer is beyond the finite reals. -/
  | integerTooLarge
  /-- The value is neither a number nor a text. -/
  | noFixedForm (className : String)
deriving Repr, DecidableEq

/-- The wording of a fault. -/
def FormatFault.message : FormatFault → String
  | .fieldTooLarge => "Too many decimal digits in format string"
  | .tooManyPlaces => "precision too big"
  | .integerTooLarge => "int too large to convert to float"
  | .noFixedForm className => "unsupported format string passed to " ++ className ++ ".__format__"

namespace Value

/-- The greatest width and count of places of a field. -/
def maxField : Int := 9223372036854775807

/-- The greatest count of decimal places of a number. -/
def maxPlaces : Int := 2147483647

/-- The text at the right end of a field; a text that is too long is left as it is. -/
def alignRight (width : Nat) (t : Text) : Text :=
  .ofList (List.replicate (width - t.length) (.char ' ')) ++ t

/-- The word for a Boolean. -/
def booleanWord (b : Bool) : String := if b then "TRUE" else "FALSE"

/-- A real with a fixed count of places at the right end of a field. -/
def fixedField (x : Float) (width places : Int) : Except FormatFault Text :=
  if maxPlaces < places then .error .tooManyPlaces
  else .ok (alignRight width.toNat (Decimal.fixed x places.toNat))

/-- The text a program writes for a value. A negative width or count of places is taken as zero. -/
def format (v : Value) (width places : Option Int) : Except FormatFault Text :=
  match v, width with
  | .text t, some w =>
    if maxField < w then .error .fieldTooLarge else .ok (alignRight w.toNat t)
  | .text t, none => .ok t
  | .bool b, _ => .ok (booleanWord b)
  | v, none => .ok v.display
  | .real x, some w =>
    let p := places.getD 0
    if maxField < w ∨ maxField < p then .error .fieldTooLarge else fixedField x w p
  | .int n, some w =>
    let p := places.getD 0
    if maxField < w ∨ maxField < p then .error .fieldTooLarge
    else match Decimal.ofInt? n with
      | none => .error .integerTooLarge
      | some x => fixedField x w p
  | v, some _ => .error (.noFixedForm v.className)

end Value

end MiniPascal
