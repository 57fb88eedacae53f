import MiniPascal.Proofs.Parsing.Total
import MiniPascal.Proofs.Tree.Likeness

/-!
# Tokens of two parses

Two parses can differ in the tokens that they see. A `Wording` says which tokens and diagnostics
correspond, and how alike the trees are that are made of them: every tree that a parser makes of
tokens and trees that correspond resembles the one that it makes of the others.

The kinds of tokens are sorted by where they can stand: at the end of a statement, in front of a
list, or inside a statement.
-/

namespace MiniPascal.Parsing

variable {α : Type}

/-! ## Kinds of tokens -/

/-- Kinds of tokens with which statements end, if no part of them is empty. -/
def endsStatement : TokenKind → Bool
  | .identifier | .integer | .real | .symbol .rparen | .keyword .END | .keyword .WRITELN => true
  | _ => false

/-- Kinds of tokens that start statements with a list in them. -/
def opensBlock : TokenKind → Bool
  | .keyword .BEGIN | .keyword .REPEAT | .keyword .CASE => true
  | _ => false

theorem startsStatement_cases {k : TokenKind} (h : startsStatement k = true) :
    k = .identifier ∨ ∃ word ∈ [Keyword.BEGIN, .REPEAT, .WRITE, .WRITELN, .WHILE, .IF, .FOR, .CASE],
      k = .keyword word := by
  cases k with
  | identifier => exact .inl rfl
  | keyword word => exact .inr ⟨word, List.contains_iff_mem.1 h, rfl⟩
  | _ => cases h

theorem ne_of_startsStatement {k k' : TokenKind} (h : startsStatement k = true)
    (hk : startsStatement k' = false) : k ≠ k' := by
  rintro rfl
  rw [hk] at h
  cases h

/-- Tokens that stand between the parts of a statement, and start none. -/
def isInside (k : TokenKind) : Bool :=
  !followsStatement k && !endsStatement k && !startsStatement k

theorem isInside_iff {k : TokenKind} : isInside k = true ↔
    followsStatement k = false ∧ endsStatement k = false ∧ startsStatement k = false := by
  simp [isInside, and_assoc]

theorem isInside_of_relation? {k : TokenKind} {kind : Kind} (h : relation? k = some kind) :
    isInside k = true := by
  unfold relation? at h
  split at h <;> first | rfl | cases h

theorem isInside_of_sumOperator? {k : TokenKind} {kind : Kind} (h : sumOperator? k = some kind) :
    isInside k = true := by
  unfold sumOperator? at h
  split at h <;> first | rfl | cases h

theorem isInside_of_productOperator? {k : TokenKind} {kind : Kind}
    (h : productOperator? k = some kind) : isInside k = true := by
  unfold productOperator? at h
  split at h <;> first | rfl | cases h

theorem isInside_of_direction? {k : TokenKind} {d : Direction} (h : direction? k = some d) :
    isInside k = true := by
  unfold direction? at h
  split at h <;> first | rfl | cases h

/-- Nothing is found where a statement starts, if it is found inside statements only. -/
theorem eq_none_of_startsStatement {found : TokenKind → Option α}
    (hinside : ∀ {k a}, found k = some a → isInside k = true) {k : TokenKind}
    (h : startsStatement k = true) : found k = none := by
  cases hf : found k with
  | none => rfl
  | some a => simp [(isInside_iff.1 (hinside hf)).2.2] at h

/-! ## Tokens and trees that correspond -/

/-- Which tokens correspond, and what is made of them. -/
structure Wording where
  likeness : Likeness
  token : Token → Token → Prop
  diagnostic : Diagnostic → Diagnostic → Prop
  kind {t u : Token} : token t u → t.kind = u.kind
  literal {t u : Token} : token t u → t.literal = u.literal
  line {t u : Token} : token t u → likeness.line (.int t.line) (.int u.line)
  text {t u : Token} : token t u → likeness.text (.text t.text) (.text u.text)
  name {t u : Token} : token t u → likeness.name (.text t.text) (.text u.text)
  /-- Nodes may have no text. -/
  noText : likeness.text .null .null
  noName : likeness.name .null .null
  /-- Nodes may have a text that the parser makes up. -/
  madeText (text : String) : likeness.text (.text text) (.text text)
  madeName (text : String) : likeness.name (.text text) (.text text)
  diagnose {t u : Token} (p : Problem) : token t u → diagnostic (t.diagnose p) (u.diagnose p)

namespace Wording

/-- Tokens that are the same. -/
def same : Wording where
  likeness := .same fun _ => True
  token := Eq
  diagnostic := Eq
  kind h := congrArg Token.kind h
  literal h := congrArg Token.literal h
  line h := congrArg (fun t : Token => Value.int t.line) h
  text h := congrArg (fun t : Token => Value.text t.text) h
  name h := ⟨congrArg (fun t : Token => Value.text t.text) h, fun _ _ => trivial⟩
  noText := rfl
  noName := ⟨rfl, fun _ _ => trivial⟩
  madeText _ := rfl
  madeName _ := ⟨rfl, fun _ _ => trivial⟩
  diagnose p h := congrArg (·.diagnose p) h

variable {w : Wording}

/-- Trees that correspond. -/
abbrev Tree (w : Wording) (n n' : Node) : Prop := n.Resembles w.likeness n'

section Nodes

variable {t u : Token} {ns ns' : List Node} {line line' : Value}

theorem resembles_operation (kind : Kind) (h : w.token t u) (hs : List.Forall₂ w.Tree ns ns') :
    w.Tree (operation kind t ns) (operation kind u ns') :=
  .mk (w.line h) (w.text h) (fun _ => w.name h) hs

theorem resembles_nodeAt (kind : Kind) (h : w.token t u) :
    w.Tree (nodeAt kind t []) (nodeAt kind u []) := by
  unfold nodeAt
  rw [w.literal h]
  exact .mk (w.line h) (w.text h) (fun _ => w.name h) .nil

/-- A node without a text. -/
theorem resembles_plain (kind : Kind) (h : w.likeness.line line line')
    (hs : List.Forall₂ w.Tree ns ns') :
    w.Tree { kind, line, children := ns } { kind, line := line', children := ns' } :=
  .mk h w.noText (fun _ => w.noName) hs

/-- A node with a text that the parser makes up. -/
theorem resembles_made (kind : Kind) (text : String) (literal : Value)
    (h : w.likeness.line line line') (hs : List.Forall₂ w.Tree ns ns') :
    w.Tree { kind, line, text := .text text, literal, children := ns }
      { kind, line := line', text := .text text, literal, children := ns' } :=
  .mk h (w.madeText text) (fun _ => w.madeName text) hs

end Nodes

theorem resembles_whileLoop {line line' testLine testLine' : Value}
    {condition condition' body body' : Node} (hline : w.likeness.line line line')
    (htest : w.likeness.line testLine testLine')
    (hc : w.Tree condition condition') (hb : w.Tree body body') :
    w.Tree (whileLoop line testLine condition body)
      (whileLoop line' testLine' condition' body') := by
  have hnegated := resembles_made .not "NOT" .null htest (.cons hc .nil)
  have hfirst := resembles_plain .test htest (.cons hnegated .nil)
  exact resembles_plain .loop hline (.cons hfirst (.cons hb .nil))

theorem resembles_forLoop (d : Direction) {line line' boundLine boundLine' : Value}
    {initial initial' control control' bound bound' body body' : Node}
    (hline : w.likeness.line line line') (hboundLine : w.likeness.line boundLine boundLine')
    (hi : w.Tree initial initial') (hc : w.Tree control control') (hbound : w.Tree bound bound')
    (hbody : w.Tree body body') :
    w.Tree (forLoop d line boundLine initial control bound body)
      (forLoop d line' boundLine' initial' control' bound' body') := by
  have hone := resembles_made .integer "1" (.int 1) hline .nil
  have hpassed : w.Tree (d.passed boundLine control bound)
      (d.passed boundLine' control' bound') := by
    cases d <;> exact resembles_made _ _ _ hboundLine (.cons hc (.cons hbound .nil))
  have hstepped : w.Tree (d.stepped line control) (d.stepped line' control') := by
    cases d <;> exact resembles_made _ _ _ hline (.cons hc (.cons hone .nil))
  have htest := resembles_plain .test hboundLine (.cons hpassed .nil)
  have hstep := resembles_plain .assign hline (.cons hc (.cons hstepped .nil))
  have hloop := resembles_plain .loop hline (.cons htest (.cons hbody (.cons hstep .nil)))
  exact resembles_plain .compound hline (.cons hi (.cons hloop .nil))

end Wording

end MiniPascal.Parsing
