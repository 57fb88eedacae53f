import MiniPascal.Decimal.Shortest
import MiniPascal.Text.Quoted

/-!
# Values

A value is what a variable or a literal holds. Programs compute with reals, Booleans and texts. A
tree read from a file may also carry integers, nothing at all, lists and objects, and these reach
the same places; so there is one type for all of them.

`display` is the plain text of a value, and `quoted` the string in which texts stand between quotes.
-/

namespace MiniPascal

/-- A value of a program or of a tree file. Fields of an object keep the order of their first
appearance. -/
inductive Value where
  | null
  | bool (b : Bool)
  | int (n : Int)
  | real (x : Float)
  | text (t : Text)
  | list (items : List Value)
  | object (fields : List (Text × Value))
deriving Inhabited

namespace Value

/-- Induction on the depth of a value. -/
theorem induct {P : Value → Prop} (null : P .null) (bool : ∀ b, P (.bool b))
    (int : ∀ n, P (.int n)) (real : ∀ x, P (.real x)) (text : ∀ t, P (.text t))
    (list : ∀ items : List Value, (∀ v ∈ items, P v) → P (.list items))
    (object : ∀ fields : List (Text × Value), (∀ f ∈ fields, P f.2) → P (.object fields))
    (v : Value) : P v :=
  @Value.rec P (fun vs => ∀ v ∈ vs, P v) (fun fs => ∀ f ∈ fs, P f.2) (fun f => P f.2)
    null bool int real text list object
    (by simp) (fun _ _ hv hvs => List.forall_mem_cons.2 ⟨hv, hvs⟩)
    (by simp) (fun _ _ hf hfs => List.forall_mem_cons.2 ⟨hf, hfs⟩)
    (fun _ _ hv => hv) v

/-- The name of the representation of a value, as messages about misused values give it. -/
def className : Value → String
  | .null => "NoneType"
  | .bool _ => "bool"
  | .int _ => "int"
  | .real _ => "float"
  | .text _ => "str"
  | .list _ => "list"
  | .object _ => "dict"

/-- The name of the type of a value: the language's own three types, and else the name of the
representation. -/
def typeName : Value → String
  | .bool _ => "Boolean"
  | .real _ => "Real"
  | .text _ => "String"
  | v => v.className

/-- Whether a value counts as present: not nothing, false, zero or empty. -/
def isPresent : Value → Bool
  | .null => false
  | .bool b => b
  | .int n => n != 0
  | .real x => x != 0.0
  | .text t => !t.isEmpty
  | .list items => !items.isEmpty
  | .object fields => !fields.isEmpty

mutual

/-- The value as a string in which texts stand between quotes. -/
def quoted : Value → String
  | .null => "None"
  | .bool b => if b then "True" else "False"
  | .int n => toString n
  | .real x => Decimal.text x
  | .text t => t.quoted
  | .list items => "[" ++ ", ".intercalate (quotedItems items) ++ "]"
  | .object fields => "\x7b" ++ ", ".intercalate (quotedFields fields) ++ "\x7d"

/-- The items of a list, each quoted. -/
def quotedItems : List Value → List String
  | [] => []
  | v :: rest => v.quoted :: quotedItems rest

/-- The fields of an object, each with its name quoted. -/
def quotedFields : List (Text × Value) → List String
  | [] => []
  | (name, v) :: rest => (name.quoted ++ ": " ++ v.quoted) :: quotedFields rest

end

/-- The value as a plain text: a text as it is, anything else quoted. -/
def display : Value → Text
  | .text t => t
  | v => v.quoted

end Value

end MiniPascal
