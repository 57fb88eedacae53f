import MiniPascal.Proofs.Tree.Names
import MiniPascal.Table

/-!
# The shape of trees

A node can have any children. `Kind.Takes` says which ones a node of a kind is meant to have, with
one rule for each kind, or two where there is a choice. A tree is well shaped if this holds of all
its nodes (`WellShaped`).

**Expressions have only expressions in them** (`isExpression_of_wellShaped`). Quoted texts and
statements are no expressions, and no operator takes them.
-/

namespace MiniPascal

/-- Whether a node of the kind is an expression. -/
def Kind.isExpression : Kind → Bool
  | .not | .negate | .arithmetic _ | .relation _ | .connective _ | .var | .integer | .real => true
  | _ => false

namespace Node

/-- What can be written: a variable or a quoted text. -/
def IsArgument (n : Node) : Prop := n.kind = .var ∨ n.kind = .string

/-- A field: at most a width and a count of decimal places, both of them integers. -/
def IsField (ns : List Node) : Prop := ns.length ≤ 2 ∧ ∀ n ∈ ns, n.kind = .integer

/-- A constant of a branch: an integer, a quoted text, or an integer after a minus. -/
def IsConstant (n : Node) : Prop :=
  n.kind = .integer ∨ n.kind = .string ∨
    n.kind = .negate ∧ ∃ c : Node, n.children = [c] ∧ c.kind = .integer

end Node

open Node (IsArgument IsField IsConstant)

/-- The children that a node of a kind is meant to have. -/
inductive Kind.Takes : Kind → List Node → Prop
  | program {body : Node} : body.kind = .compound → Takes .program [body]
  | compound {ns : List Node} : (∀ n ∈ ns, n.kind.isStatement = true) → Takes .compound ns
  | assign {target value : Node} :
      target.kind = .var → value.kind.isExpression = true → Takes .assign [target, value]
  | loop {ns : List Node} :
      (∀ n ∈ ns, n.kind.isStatement = true ∨ n.kind = .test) → (∃ n ∈ ns, n.kind = .test) →
      Takes .loop ns
  | test {operand : Node} : operand.kind.isExpression = true → Takes .test [operand]
  | not {operand : Node} : operand.kind.isExpression = true → Takes .not [operand]
  | negate {operand : Node} : operand.kind.isExpression = true → Takes .negate [operand]
  | write {argument : Node} {field : List Node} :
      IsArgument argument → IsField field → Takes .write (argument :: field)
  | writelnBare : Takes .writeln []
  | writeln {argument : Node} {field : List Node} :
      IsArgument argument → IsField field → Takes .writeln (argument :: field)
  | ifThen {condition first : Node} :
      condition.kind.isExpression = true → first.kind.isStatement = true →
      Takes .cond [condition, first]
  | ifThenElse {condition first second : Node} :
      condition.kind.isExpression = true → first.kind.isStatement = true →
      second.kind.isStatement = true → Takes .cond [condition, first, second]
  | select {discriminant : Node} {branches : List Node} :
      discriminant.kind.isExpression = true → (∀ b ∈ branches, b.kind = .selectBranch) →
      Takes .select (discriminant :: branches)
  | selectBranch {constants body : Node} :
      constants.kind = .selectConstants → body.kind.isStatement = true →
      Takes .selectBranch [constants, body]
  | selectConstants {ns : List Node} :
      ns ≠ [] → (∀ n ∈ ns, IsConstant n) → Takes .selectConstants ns
  | arithmetic {op : Arithmetic} {left right : Node} :
      left.kind.isExpression = true → right.kind.isExpression = true →
      Takes (.arithmetic op) [left, right]
  | relation {op : Relation} {left right : Node} :
      left.kind.isExpression = true → right.kind.isExpression = true →
      Takes (.relation op) [left, right]
  | connective {op : Connective} {left right : Node} :
      left.kind.isExpression = true → right.kind.isExpression = true →
      Takes (.connective op) [left, right]
  | var : Takes .var []
  | integer : Takes .integer []
  | real : Takes .real []
  | string : Takes .string []

/-- The children of an expression are expressions. -/
theorem Kind.Takes.isExpression {kind : Kind} {ns : List Node} (h : kind.Takes ns)
    (hk : kind.isExpression = true) : ∀ n ∈ ns, n.kind.isExpression = true := by
  cases h with
  | not ho | negate ho => simpa using ho
  | arithmetic hl hr | relation hl hr | connective hl hr =>
    simp [hl, hr]
  | var | integer | real => simp
  | _ => cases hk

/-- Programs stand in no other node. -/
theorem Kind.Takes.ne_program {kind : Kind} {ns : List Node} (h : kind.Takes ns) :
    ∀ n ∈ ns, n.kind ≠ .program := by
  have hstatement {n : Node} (h : n.kind.isStatement = true) : n.kind ≠ .program := by
    intro he
    rw [he] at h
    cases h
  have hexpression {n : Node} (h : n.kind.isExpression = true) : n.kind ≠ .program := by
    intro he
    rw [he] at h
    cases h
  have hwritten {argument : Node} {field : List Node} (ha : IsArgument argument)
      (hf : IsField field) : ∀ n ∈ argument :: field, n.kind ≠ .program := by
    intro n hn
    obtain rfl | hn := List.mem_cons.1 hn
    · obtain ha | ha := ha <;> simp [ha]
    · simp [hf.2 n hn]
  cases h with
  | program hb => simp [hb]
  | compound hs => exact fun n hn => hstatement (hs n hn)
  | assign ht hv => simp [ht, hexpression hv]
  | loop hs =>
    intro n hn
    obtain hk | hk := hs n hn
    · exact hstatement hk
    · simp [hk]
  | test ho | not ho | negate ho => simpa using hexpression ho
  | write ha hf | writeln ha hf => exact hwritten ha hf
  | ifThen hc hf => simp [hexpression hc, hstatement hf]
  | ifThenElse hc hf hs => simp [hexpression hc, hstatement hf, hstatement hs]
  | select hd hb =>
    intro n hn
    obtain rfl | hn := List.mem_cons.1 hn
    · exact hexpression hd
    · simp [hb n hn]
  | selectBranch hc hb => simp [hc, hstatement hb]
  | selectConstants _ hc =>
    intro n hn
    obtain hk | hk | ⟨hk, -⟩ := hc n hn <;> simp [hk]
  | arithmetic hl hr | relation hl hr | connective hl hr => simp [hexpression hl, hexpression hr]
  | writelnBare | var | integer | real | string => simp

namespace Node

/-- A node has children of the sorts that its kind takes. -/
def WellShaped (n : Node) : Prop := n.kind.Takes n.children

/-- The parts of a branch. -/
theorem WellShaped.branch {n constants body : Node} (h : n.WellShaped)
    (hk : n.kind = .selectBranch) (hc : n.children = [constants, body]) :
    constants.kind = .selectConstants ∧ body.kind.isStatement = true := by
  obtain ⟨kind, line, text, literal, children⟩ := n
  obtain rfl : kind = .selectBranch := hk
  obtain rfl : children = [constants, body] := hc
  cases h with
  | selectBranch hconstants hbody => exact ⟨hconstants, hbody⟩

theorem WellShaped.constants {n : Node} (h : n.WellShaped) (hk : n.kind = .selectConstants) :
    ∀ c ∈ n.children, IsConstant c := by
  obtain ⟨kind, line, text, literal, children⟩ := n
  obtain rfl : kind = .selectConstants := hk
  cases h with
  | selectConstants _ hall => exact hall

/-- A node that, if it is a variable, is one of a table. -/
def Bound (table : Table) (n : Node) : Prop :=
  n.kind = .var → ∃ name : Text, n.text = .text name ∧ table.contains name = true

/-- There are only expressions in an expression. -/
theorem isExpression_of_wellShaped {n : Node} (h : ∀ k ∈ n.walk, k.WellShaped)
    (hn : n.kind.isExpression = true) : ∀ k ∈ n.walk, k.kind.isExpression = true := by
  induction n using induct with
  | h n ih =>
    intro k hk
    obtain rfl | ⟨c, hc, hk⟩ := mem_walk.1 hk
    · exact hn
    · have hself : n.WellShaped := h n self_mem_walk
      exact ih c hc (fun j hj => h j (mem_walk_of_child hc hj))
        (Kind.Takes.isExpression hself hn c hc) k hk

/-- No node below another one is a program. -/
theorem ne_program_of_wellShaped {n : Node} (h : ∀ k ∈ n.walk, k.WellShaped) :
    ∀ k ∈ walkAll n.children, k.kind ≠ .program := by
  induction n using induct with
  | h n ih =>
    intro k hk
    obtain ⟨c, hc, hk⟩ := mem_walkAll.1 hk
    have hself : n.WellShaped := h n self_mem_walk
    obtain rfl | ⟨d, hd, hk⟩ := mem_walk.1 hk
    · exact hself.ne_program k hc
    · refine ih c hc (fun j hj => h j (mem_walk_of_child hc hj)) k ?_
      exact mem_walkAll.2 ⟨d, hd, hk⟩

end Node

end MiniPascal
