import MiniPascal.Value.Equality

/-!
# Program trees

A program is a tree of nodes of one shape: a kind, a source line, a text, a literal value and the
children. The kind says what the children mean:

* a program has a compound statement; a compound has statements;
* an assignment has a variable and an expression;
* a loop has statements and tests, and ends when a test holds; a test has an expression;
* a write statement has an argument, a field width and a count of decimal places, of which a
  `writeln` may lack all;
* a conditional has an expression, a statement, and perhaps a second statement;
* a selection has an expression and branches; a branch has its constants and a statement;
* an operator has its operands; variables and constants have no children.

A tree read from a file need not keep to this, so the type does not ask for it: line, text and
literal may be any values, and there may be any children.
-/

namespace MiniPascal

/-- The operators from two reals to a real. -/
inductive Arithmetic where
  | add | subtract | multiply | divide
deriving Repr, DecidableEq, Inhabited

/-- The operators from two reals to a Boolean. -/
inductive Relation where
  | eq | lt | le | gt | ge | ne
deriving Repr, DecidableEq, Inhabited

/-- The operators from two Booleans to a Boolean. -/
inductive Connective where
  | and | or
deriving Repr, DecidableEq, Inhabited

def Arithmetic.name : Arithmetic → String
  | .add => "ADD" | .subtract => "SUBTRACT" | .multiply => "MULTIPLY" | .divide => "DIVIDE"

def Relation.name : Relation → String
  | .eq => "EQ" | .lt => "LT" | .le => "LE" | .gt => "GT" | .ge => "GE" | .ne => "NE"

def Connective.name : Connective → String
  | .and => "AND" | .or => "OR"

/-- The kinds of nodes. -/
inductive Kind where
  | program
  | compound
  | assign
  | loop
  | test
  | not
  | write
  | writeln
  | cond
  | select
  | selectBranch
  | selectConstants
  | negate
  | arithmetic (op : Arithmetic)
  | relation (op : Relation)
  | connective (op : Connective)
  | var
  | integer
  | real
  | string
deriving Repr, DecidableEq, Inhabited

namespace Kind

/-- The name of a kind, as tree files give it. -/
def name : Kind → String
  | .program => "PROGRAM"
  | .compound => "COMPOUND"
  | .assign => "ASSIGN"
  | .loop => "LOOP"
  | .test => "TEST"
  | .not => "NOT"
  | .write => "WRITE"
  | .writeln => "WRITELN"
  | .cond => "IF"
  | .select => "SELECT"
  | .selectBranch => "SELECT_BRANCH"
  | .selectConstants => "SELECT_CONSTANTS"
  | .negate => "NEGATE"
  | .arithmetic op => op.name
  | .relation op => op.name
  | .connective op => op.name
  | .var => "VARIABLE"
  | .integer => "INTEGER_CONSTANT"
  | .real => "REAL_CONSTANT"
  | .string => "STRING_CONSTANT"

/-- All kinds. -/
def all : List Kind :=
  [.program, .compound, .assign, .loop, .test, .not, .write, .writeln, .cond, .select,
    .selectBranch, .selectConstants, .negate, .arithmetic .add, .arithmetic .subtract,
    .arithmetic .multiply, .arithmetic .divide, .relation .eq, .relation .lt, .relation .le,
    .relation .gt, .relation .ge, .relation .ne, .connective .and, .connective .or, .var, .integer,
    .real, .string]

/-- The kind of a name. -/
def ofName? (name : String) : Option Kind := all.find? (·.name == name)

/-- Whether a node of the kind is a statement. -/
def isStatement : Kind → Bool
  | .compound | .assign | .loop | .write | .writeln | .cond | .select => true
  | _ => false

end Kind

/-- A node of a program tree. -/
structure Node where
  kind : Kind
  line : Value := .int 0
  text : Value := .null
  literal : Value := .null
  children : List Node := []
deriving Inhabited

/-- What parsing asks of the trees it builds. A node of a variable is made with the entry of the
variable, which is its place in the table; a type of trees is free to forget it. -/
class TreeNode (N : Type) where
  make (kind : Kind) (line text literal : Value) (entry : Option Nat) (children : List N) : N
  line : N → Value
  text : N → Value
  entry : N → Option Nat
  children : N → List N

/-- Trees for everything but the parser find the entry of a variable by its name. -/
@[default_instance] instance : TreeNode Node where
  make kind line text literal _ children := { kind, line, text, literal, children }
  line := Node.line
  text := Node.text
  entry _ := none
  children := Node.children

namespace Node

@[simp] theorem make_eq (kind : Kind) (line text literal : Value) (entry : Option Nat)
    (children : List Node) : TreeNode.make kind line text literal entry children =
      { kind, line, text, literal, children } := rfl

mutual

/-- The node and all below it, each node before its children. -/
def walk : Node → List Node
  | ⟨kind, line, text, literal, children⟩ =>
    ⟨kind, line, text, literal, children⟩ :: walkAll children

/-- The nodes of several trees, one tree after the other. -/
def walkAll : List Node → List Node
  | [] => []
  | n :: rest => n.walk ++ walkAll rest

end

mutual

/-- Equality of trees: kind, line, text, literal and children. -/
def alike : Node → Node → Bool
  | ⟨kind, line, text, literal, children⟩, n =>
    kind == n.kind && line.alike n.line && text.alike n.text && literal.alike n.literal &&
      alikeAll children n.children

/-- Equality of lists of trees. -/
def alikeAll : List Node → List Node → Bool
  | [], [] => true
  | m :: ms, n :: ns => m.alike n && alikeAll ms ns
  | _, _ => false

end

end Node

end MiniPascal
