import MiniPascal.Tree.Basic

/-!
# Trees with entries

A bound tree is a program tree in which the nodes of variables keep their entries. Parsing builds
bound trees as well as plain ones; without its entries a bound tree is a plain one (`erase`).
-/

namespace MiniPascal

/-- A node of a program tree, with the entry of the variable that it stands for. -/
structure BoundNode where
  kind : Kind
  line : Value := .int 0
  text : Value := .null
  literal : Value := .null
  entry : Option Nat := none
  children : List BoundNode := []
deriving Inhabited

instance : TreeNode BoundNode where
  make kind line text literal entry children := { kind, line, text, literal, entry, children }
  line := BoundNode.line
  text := BoundNode.text
  entry := BoundNode.entry
  children := BoundNode.children

namespace BoundNode

mutual

/-- The node and all below it, each node before its children. -/
def walk : BoundNode → List BoundNode
  | ⟨kind, line, text, literal, entry, children⟩ =>
    ⟨kind, line, text, literal, entry, children⟩ :: walkAll children

/-- The nodes of several trees, one tree after the other. -/
def walkAll : List BoundNode → List BoundNode
  | [] => []
  | n :: rest => n.walk ++ walkAll rest

end

mutual

/-- The tree without its entries. -/
def erase : BoundNode → Node
  | ⟨kind, line, text, literal, _, children⟩ => ⟨kind, line, text, literal, eraseAll children⟩

/-- Several trees without their entries. -/
def eraseAll : List BoundNode → List Node
  | [] => []
  | n :: rest => n.erase :: eraseAll rest

end

end BoundNode

end MiniPascal
