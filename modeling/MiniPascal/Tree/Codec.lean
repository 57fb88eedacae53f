import MiniPascal.Tree.Basic
import MiniPascal.Table

/-!
# Trees as values

A tree is exchanged as a value: every node is an object with its kind, line, text, literal and
children. Loading a tree enters the names of its variables, and that of the program, into a table,
each node before its children. What was entered before a fault stays entered.

Missing fields have defaults and unknown ones are ignored. The children may be any sequence: the
code points of a text and the field names of an object are then tried as nodes, and refused.
-/

namespace MiniPascal

/-- Why a value is no tree. -/
inductive LoadFault where
  /-- A value that is no object with a known kind. -/
  | notANode (v : Value)
  /-- A name that is not a text. -/
  | notAName (className : String)
  /-- Children that are no sequence. -/
  | notASequence (className : String)
deriving Inhabited

/-- The wording of a fault. -/
def LoadFault.message : LoadFault → String
  | .notANode v => "not a Pascalette AST node: " ++ v.quoted
  | .notAName className => "'" ++ className ++ "' object has no attribute 'lower'"
  | .notASequence className => "'" ++ className ++ "' object is not iterable"

namespace Node

mutual

/-- The tree as a value. -/
def toValue : Node → Value
  | ⟨kind, line, text, literal, children⟩ =>
    .object [("kind", .text kind.name), ("line", line), ("text", text), ("literal", literal),
      ("children", .list (toValues children))]

/-- Several trees as values. -/
def toValues : List Node → List Value
  | [] => []
  | n :: rest => n.toValue :: toValues rest

end

/-- Loading: a fault keeps the table as it is by then. -/
abbrev Load := EStateM LoadFault Table

/-- The field of a name. -/
def fieldOf? (fields : List (Text × Value)) (name : Text) : Option Value := fields.lookup name

/-- The kind that the fields of a node name. -/
def kindOf? (fields : List (Text × Value)) : Option Kind :=
  match fieldOf? fields "kind" with
  | some (.text name) => name.toString?.bind Kind.ofName?
  | _ => none

/-- Enters a name given by a value. -/
def enterName : Value → Load Unit
  | .text name => modify (·.enter name)
  | v => throw (.notAName v.className)

/-- Enters the name that a node of the kind brings: that of a variable, and that of a program which
has one. -/
def enterNames (kind : Kind) (text : Value) : Load Unit :=
  match kind with
  | .var => enterName text
  | .program => if text.isPresent then enterName text else pure ()
  | _ => pure ()

mutual

/-- The tree that a value stands for. -/
def load : Value → Load Node
  | .object fields =>
    match kindOf? fields with
    | none => throw (.notANode (.object fields))
    | some kind => do
      let text := (fieldOf? fields "text").getD .null
      enterNames kind text
      let children ← loadChildren fields
      return {
        kind, text, children
        line := (fieldOf? fields "line").getD (.int 0)
        literal := (fieldOf? fields "literal").getD .null }
  | v => throw (.notANode v)

/-- The trees in the field of the children, if there is one. -/
def loadChildren : List (Text × Value) → Load (List Node)
  | [] => return []
  | (name, v) :: rest => if name = ("children" : Text) then loadSequence v else loadChildren rest

/-- The trees of a sequence. -/
def loadSequence : Value → Load (List Node)
  | .list items => loadItems items
  | .text t =>
    match t.toList with
    | [] => return []
    | p :: _ => throw (.notANode (.text (.ofList [p])))
  | .object [] => return []
  | .object ((name, _) :: _) => throw (.notANode (.text name))
  | v => throw (.notASequence v.className)

/-- The trees of several values, in order. -/
def loadItems : List Value → Load (List Node)
  | [] => return []
  | v :: rest => do
    let n ← load v
    let ns ← loadItems rest
    return n :: ns

end

end Node

end MiniPascal
