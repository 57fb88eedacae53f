import MiniPascal.Value.Basic
import MiniPascal.Text.Lower

/-!
# The table of names

A table holds the variables of a program in the order in which they were entered. Names that differ
only in letter case are one variable, which keeps the spelling of its first occurrence. A new
variable holds zero. Entries are never removed.
-/

namespace MiniPascal

/-- One variable: its name in small letters, its name as first written, and its value. -/
structure Cell where
  key : Text
  name : Text
  value : Value
deriving Inhabited

/-- The variables, in the order of entry. -/
structure Table where
  cells : List Cell := []
deriving Inhabited

namespace Table

/-- The name in small letters, which identifies a variable. -/
def keyOf (name : Text) : Text := name.lower

/-- The variable of a name. -/
def find? (t : Table) (name : Text) : Option Cell :=
  let key := keyOf name
  t.cells.find? (·.key == key)

/-- Whether a name has been entered. -/
def contains (t : Table) (name : Text) : Bool := (t.find? name).isSome

/-- The place of the variable of a name. Places are counted from the first variable entered, and a
variable never leaves its place. -/
def place? (t : Table) (name : Text) : Option Nat :=
  let key := keyOf name
  t.cells.findIdx? (·.key == key)

/-- The table with the name entered at the end, if it is new. -/
def enter (t : Table) (name : Text) : Table :=
  if t.contains name then t
  else { cells := t.cells ++ [{ key := keyOf name, name, value := .real 0.0 }] }

/-- The table with the value of a variable replaced; an unknown name changes nothing. -/
def set (t : Table) (name : Text) (v : Value) : Table :=
  let key := keyOf name
  { cells := t.cells.map fun c => if c.key == key then { c with value := v } else c }

/-- The count of variables. -/
def size (t : Table) : Nat := t.cells.length

/-- The names, as first written. -/
def names (t : Table) : List Text := t.cells.map (·.name)

/-- Whether both names have been entered and are one variable. -/
def sameCell (t : Table) (a b : Text) : Bool :=
  match t.find? a, t.find? b with
  | some c, some d => c.key == d.key
  | _, _ => false

/-- The table with each pair entered and set, in order. -/
def assignAll (t : Table) (pairs : List (Text × Value)) : Table :=
  pairs.foldl (fun t (name, v) => (t.enter name).set name v) t

end Table

end MiniPascal
