import MiniPascal.Proofs.Grammar.AcceptExpression

/-!
# Printing expressions

A tree is printed with the parentheses that the levels of the grammar ask for, and no others. Each
operator prints its operands at the levels at which they are parsed, and a node that stands at a
level above its own is put in parentheses. A minus takes a factor, while a `NOT` takes all that
follows, so it stands at the lowest level though it is parsed as a factor.

**Parsing inverts printing** (`expression_print`). In front of the tokens of a printed tree, with
a token after them that is no operator, an expression is parsed that moves over just these tokens
and gives the tree back.

The proof follows the tree. Sums and products are parsed in a loop that carries the tree built so
far, so what is shown of an operand on the left is how the loop goes on after it
(`Recovered.term`, `Recovered.simple`).
-/

namespace MiniPascal

/-! ## Trees as parsing builds them -/

/-- Expression trees whose nodes have the line and the text of some token, and the literal of one if
they are constants. -/
inductive Formula : Node → Prop
  | name (x : Token) : Formula (Parsing.operation .var x [])
  | integer (x : Token) : Formula (Parsing.nodeAt .integer x [])
  | real (x : Token) : Formula (Parsing.nodeAt .real x [])
  | negate (x : Token) {n : Node} : Formula n → Formula (Parsing.operation .negate x [n])
  | not (x : Token) {n : Node} : Formula n → Formula (Parsing.operation .not x [n])
  | relation (r : Relation) (x : Token) {left right : Node} :
      Formula left → Formula right → Formula (Parsing.operation (.relation r) x [left, right])
  | arithmetic (a : Arithmetic) (x : Token) {left right : Node} :
      Formula left → Formula right → Formula (Parsing.operation (.arithmetic a) x [left, right])
  | connective (c : Connective) (x : Token) {left right : Node} :
      Formula left → Formula right → Formula (Parsing.operation (.connective c) x [left, right])

/-! ## Printing -/

namespace Grammar

/-- The place of a level, counted from the one that binds least. -/
def Level.rank : Level → Nat
  | .expression => 0
  | .simple => 1
  | .term => 2
  | .factor => 3

/-- The level of nodes of a kind. -/
def levelOf : Kind → Level
  | .relation _ | .not => .expression
  | .arithmetic .add | .arithmetic .subtract => .simple
  | .arithmetic .multiply | .arithmetic .divide | .connective _ => .term
  | _ => .factor

/-- The level of the operand on the left. -/
def leftLevel : Kind → Level
  | .arithmetic .multiply | .arithmetic .divide | .connective _ => .term
  | _ => .simple

/-- The level of the operand on the right. -/
def rightLevel : Kind → Level
  | .arithmetic .multiply | .arithmetic .divide | .connective _ => .factor
  | .arithmetic .add | .arithmetic .subtract => .term
  | _ => .simple

/-- The level of a single operand. -/
def operandLevel : Kind → Level
  | .not => .expression
  | _ => .factor

/-- The kind of the token that stands for a node of a kind. -/
def signOf : Kind → TokenKind
  | .var => .identifier
  | .integer => .integer
  | .real => .real
  | .negate | .arithmetic .subtract => .symbol .minus
  | .not => .keyword .NOT
  | .arithmetic .add => .symbol .plus
  | .arithmetic .multiply => .symbol .star
  | .arithmetic .divide => .symbol .slash
  | .connective .and => .keyword .AND
  | .connective .or => .keyword .OR
  | .relation .eq => .symbol .equals
  | .relation .lt => .symbol .lessThan
  | .relation .le => .symbol .lessEquals
  | .relation .gt => .symbol .greaterThan
  | .relation .ge => .symbol .greaterEquals
  | .relation .ne => .symbol .notEquals
  | _ => .error

/-- The line that a value gives. -/
def lineOf : Value → Int
  | .int i => i
  | _ => 0

/-- The string that a value gives. -/
def wordOf : Value → String
  | .text t => t.toString?.getD ""
  | _ => ""

/-- Tokens in parentheses on a line. -/
def inParens (line : Int) (w : List Token) : List Token :=
  { kind := .symbol .lparen, text := "(", line } :: w ++
    [{ kind := .symbol .rparen, text := ")", line }]

/-- The token that stands for a node, with the node's line, text and literal. -/
def sign (n : Node) : Token :=
  { kind := signOf n.kind, text := wordOf n.text, line := lineOf n.line, literal := n.literal }

/-- The tokens of an expression at a level. -/
def print (level : Level) : Node → List Token
  | ⟨kind, line, text, literal, children⟩ =>
    let x := sign { kind, line, text, literal }
    let bare := match children with
      | [] => [x]
      | [operand] => x :: print (operandLevel kind) operand
      | left :: right :: _ => print (leftLevel kind) left ++ x :: print (rightLevel kind) right
    if (levelOf kind).rank < level.rank then inParens x.line bare else bare

section Print

variable {n : Node} {level : Level}

theorem print_eq (level : Level) (n : Node) :
    print level n = if (levelOf n.kind).rank < level.rank then
      inParens (sign n).line (print .expression n) else print .expression n := by
  obtain ⟨kind, line, text, literal, _ | ⟨left, _ | ⟨right, others⟩⟩⟩ := n <;>
    rw [print, print] <;> rfl

theorem print_of_le (h : level.rank ≤ (levelOf n.kind).rank) :
    print level n = print .expression n := by
  rw [print_eq, if_neg (Nat.not_lt.2 h)]

theorem print_of_lt (h : (levelOf n.kind).rank < level.rank) :
    print level n = inParens (sign n).line (print .expression n) := by
  rw [print_eq, if_pos h]

theorem print_leaf (h : n.children = []) : print .expression n = [sign n] := by
  obtain ⟨kind, line, text, literal, children⟩ := n
  obtain rfl : children = [] := h
  rw [print]
  rfl

theorem print_unary {operand : Node} (h : n.children = [operand]) :
    print .expression n = sign n :: print (operandLevel n.kind) operand := by
  obtain ⟨kind, line, text, literal, children⟩ := n
  obtain rfl : children = [operand] := h
  rw [print]
  rfl

theorem print_binary_append {left right : Node} (h : n.children = [left, right])
    (w : List Token) :
    print .expression n ++ w =
      print (leftLevel n.kind) left ++ sign n :: (print (rightLevel n.kind) right ++ w) := by
  obtain ⟨kind, line, text, literal, children⟩ := n
  obtain rfl : children = [left, right] := h
  rw [print, ← List.cons_append, ← List.append_assoc]
  rfl

end Print

/-- Parsing the sign of a node gives a node with the same line and text. -/
theorem operation_sign (kind : Kind) (x : Token) (ns ms : List Node) :
    Parsing.operation kind (sign (Parsing.operation kind x ns)) ms =
      Parsing.operation kind x ms := by
  simp [Parsing.operation, sign, wordOf, lineOf, Text.toString?_ofString]

theorem nodeAt_sign (kind : Kind) (x : Token) (ns : List Node) :
    Parsing.nodeAt kind (sign (Parsing.nodeAt kind x ns)) ns = Parsing.nodeAt kind x ns := by
  simp [Parsing.nodeAt, sign, wordOf, lineOf, Text.toString?_ofString]

end Grammar

/-! ## Tokens that are seen -/

/-- The given tokens are read from a stream, which leaves another. -/
inductive Stream.Reads : Stream → List Token → Stream → Prop
  | nil (s : Stream) : Reads s [] s
  | cons {s rest last : Stream} {r : Reading} {w : List Token} :
      s.next = .ok (r, rest) → Reads rest w last → Reads s (r.token :: w) last

theorem Stream.reads_ofTokens (w : List Token) :
    (Stream.ofTokens w).Reads w { Stream.ofTokens w with items := [] } := by
  have h : ∀ (v : List Token) (ending : Ending),
      Stream.Reads ⟨v.map fun token => { token }, ending⟩ v ⟨[], ending⟩ := by
    intro v ending
    induction v with
    | nil => exact .nil _
    | cons x v ih => exact .cons (r := { token := x }) rfl ih
  exact h w _

namespace Parsing

open Grammar

variable {α β : Type}

/-- The parser sees the given tokens, the current one first, and after them the stream `rest`. -/
def State.Sees (s : State) (w : List Token) (rest : Stream) : Prop :=
  ∃ v, s.current :: v = w ∧ s.stream.Reads v rest

section Sees

variable {s : State} {x : Token} {w : List Token} {rest : Stream}

theorem State.Sees.current (h : s.Sees (x :: w) rest) : s.current = x := by
  obtain ⟨v, hv, -⟩ := h
  exact (List.cons.inj hv).1

theorem State.sees_singleton : s.Sees [x] rest ↔ s.current = x ∧ s.stream = rest := by
  constructor
  · rintro ⟨v, hv, hr⟩
    obtain ⟨hx, rfl⟩ := List.cons.inj hv
    cases hr
    exact ⟨hx, rfl⟩
  · rintro ⟨rfl, rfl⟩
    exact ⟨[], rfl, .nil _⟩

theorem State.Sees.next (h : s.Sees (x :: w) rest) (hw : w ≠ []) :
    ∃ r q, s.stream.next = .ok (r, q) ∧ (s.receive r q).Sees w rest := by
  obtain ⟨v, hv, hr⟩ := h
  obtain ⟨-, rfl⟩ := List.cons.inj hv
  cases hr with
  | nil => exact absurd rfl hw
  | @cons _ q _ r v hn hq => exact ⟨r, q, hn, v, rfl, hq⟩

theorem State.Sees.named (h : s.Sees w rest) (t : Token) (assigned : Bool) :
    (s.named t assigned).Sees w rest := by
  obtain ⟨v, hv, hr⟩ := h
  exact ⟨v, by simpa using hv, by simpa using hr⟩

end Sees

/-! ## Results up to fuel -/

/-- There is a result that satisfies `Q`, or not enough fuel. -/
def Gives (p : Parser α) (s : State) (Q : α → State → Prop) : Prop :=
  match p s with
  | .ok a t => Q a t
  | .error e _ => e = .outOfFuel

theorem Gives.pure {a : α} {s : State} {Q : α → State → Prop} (h : Q a s) :
    Gives (pure a) s Q := h

theorem Gives.outOfFuel {s : State} {Q : α → State → Prop} : Gives (throw .outOfFuel) s Q := rfl

theorem Gives.bind {p : Parser α} {f : α → Parser β} {s : State} {Q : α → State → Prop}
    {R : β → State → Prop} (hp : Gives p s Q) (hf : ∀ a t, Q a t → Gives (f a) t R) :
    Gives (p >>= f) s R := by
  unfold Gives at hp ⊢
  rw [bind_apply]
  cases he : p s with
  | error e t =>
    rw [he] at hp
    exact hp
  | ok a t =>
    rw [he] at hp
    exact hf a t hp

theorem gives_peek {f : TokenKind → Parser β} {s : State} {R : β → State → Prop} :
    Gives (peek >>= f) s R ↔ Gives (f s.current.kind) s R := Iff.rfl

section Tokens

variable {s : State} {x : Token} {w : List Token} {rest : Stream}

theorem gives_advance (h : s.Sees (x :: w) rest) (hw : w ≠ []) :
    Gives advance s fun a t => a = x ∧ t.Sees w rest := by
  obtain ⟨r, q, hn, hq⟩ := h.next hw
  unfold Gives
  rw [advance_eq, hn]
  exact ⟨h.current, hq⟩

theorem gives_advance_bind {f : Token → Parser β} {R : β → State → Prop}
    (h : s.Sees (x :: w) rest) (hw : w ≠ []) (hf : ∀ t, t.Sees w rest → Gives (f x) t R) :
    Gives (advance >>= f) s R :=
  (gives_advance h hw).bind fun _ t ht => ht.1 ▸ hf t ht.2

theorem gives_consume {kind : TokenKind} {p : Problem} (h : s.Sees (x :: w) rest) (hw : w ≠ [])
    (hk : x.kind = kind) : Gives (consume kind p) s fun a t => a = x ∧ t.Sees w rest := by
  unfold consume
  rw [gives_peek, h.current, if_pos hk]
  exact gives_advance h hw

theorem gives_variableNode (h : s.Sees (x :: w) rest) (hw : w ≠ []) (hk : x.kind = .identifier) :
    Gives (variableNode false) s fun n t => n = operation .var x [] ∧ t.Sees w rest := by
  have hc := gives_consume (p := .expectingIdentifier) h hw hk
  unfold Gives at hc ⊢
  rw [variableNode_apply]
  cases he : consume .identifier .expectingIdentifier s with
  | error e t =>
    rw [he] at hc
    exact hc
  | ok a t =>
    rw [he] at hc
    obtain ⟨rfl, ht⟩ := hc
    exact ⟨rfl, ht.named _ _⟩

end Tokens

/-! ## Loops that carry a tree -/

section Levels

variable {fuel : Nat} {s : State} {n : Node} {P Q : Node → State → Prop}

theorem gives_productRest_done (hp : productOperator? s.current.kind = none) (hq : Q n s) :
    Gives (productRest fuel n) s Q := by
  cases fuel with
  | zero => rw [productRest]; exact .outOfFuel
  | succ fuel =>
    rw [productRest, gives_peek, hp]
    exact .pure hq

theorem gives_sumRest_done (hs : sumOperator? s.current.kind = none) (hq : Q n s) :
    Gives (sumRest fuel n) s Q := by
  cases fuel with
  | zero => rw [sumRest]; exact .outOfFuel
  | succ fuel =>
    rw [sumRest, gives_peek, hs]
    exact .pure hq

/-- The loop over products takes the next factor. -/
theorem gives_productRest_next {op : Token} {kind : Kind} {w : List Token} {rest : Stream}
    (hs : s.Sees (op :: w) rest) (hw : w ≠ []) (ho : productOperator? op.kind = some kind)
    (h : ∀ k t, t.Sees w rest → Gives (factorWith k) t P)
    (hq : ∀ k m t, P m t → Gives (productRest k (operation kind op [n, m])) t Q) :
    Gives (productRest fuel n) s Q := by
  cases fuel with
  | zero => rw [productRest]; exact .outOfFuel
  | succ fuel =>
    rw [productRest, gives_peek, hs.current, ho]
    exact gives_advance_bind hs hw fun t ht => (h fuel t ht).bind (hq fuel)

/-- The loop over sums takes the next term. -/
theorem gives_sumRest_next {op : Token} {kind : Kind} {w : List Token} {rest : Stream}
    (hs : s.Sees (op :: w) rest) (hw : w ≠ []) (ho : sumOperator? op.kind = some kind)
    (h : ∀ k t, t.Sees w rest → Gives (termWith k) t P)
    (hq : ∀ k m t, P m t → Gives (sumRest k (operation kind op [n, m])) t Q) :
    Gives (sumRest fuel n) s Q := by
  cases fuel with
  | zero => rw [sumRest]; exact .outOfFuel
  | succ fuel =>
    rw [sumRest, gives_peek, hs.current, ho]
    exact gives_advance_bind hs hw fun t ht => (h fuel t ht).bind (hq fuel)

/-- A term is a factor, with which the loop over products starts. -/
theorem gives_termWith (h : ∀ k, Gives (factorWith k) s P)
    (hq : ∀ k m t, P m t → Gives (productRest k m) t Q) : Gives (termWith fuel) s Q := by
  cases fuel with
  | zero => rw [termWith]; exact .outOfFuel
  | succ fuel =>
    rw [termWith]
    exact (h fuel).bind (hq fuel)

/-- A simple expression is a term, with which the loop over sums starts. -/
theorem gives_simpleWith (h : ∀ k, Gives (termWith k) s P)
    (hq : ∀ k m t, P m t → Gives (sumRest k m) t Q) : Gives (simpleExpressionWith fuel) s Q := by
  cases fuel with
  | zero => rw [simpleExpressionWith]; exact .outOfFuel
  | succ fuel =>
    rw [simpleExpressionWith]
    exact (h fuel).bind (hq fuel)

/-- An expression is a simple one, if no relation follows. -/
theorem gives_expressionWith (h : ∀ k, Gives (simpleExpressionWith k) s P)
    (hq : ∀ m t, P m t → relation? t.current.kind = none ∧ Q m t) :
    Gives (expressionWith fuel) s Q := by
  cases fuel with
  | zero => rw [expressionWith]; exact .outOfFuel
  | succ fuel =>
    rw [expressionWith]
    refine (h fuel).bind fun m t hm => ?_
    rw [gives_peek, (hq m t hm).1]
    exact .pure (hq m t hm).2

/-- A relation stands between two simple expressions. -/
theorem gives_expressionWith_relation {op : Token} {kind : Kind} {w : List Token} {rest : Stream}
    (h : ∀ k, Gives (simpleExpressionWith k) s fun m t => m = n ∧ t.Sees (op :: w) rest)
    (hw : w ≠ []) (ho : relation? op.kind = some kind)
    (h' : ∀ k t, t.Sees w rest → Gives (simpleExpressionWith k) t P)
    (hq : ∀ m t, P m t → Q (operation kind op [n, m]) t) : Gives (expressionWith fuel) s Q := by
  cases fuel with
  | zero => rw [expressionWith]; exact .outOfFuel
  | succ fuel =>
    rw [expressionWith]
    refine (h fuel).bind ?_
    rintro m t ⟨rfl, ht⟩
    rw [gives_peek, ht.current, ho]
    exact gives_advance_bind ht hw fun u hu => (h' fuel u hu).bind fun m v hm => .pure (hq m v hm)

/-- A factor after which no operator follows is an expression. -/
theorem gives_expressionWith_of_factor (h : ∀ k, Gives (factorWith k) s P)
    (he : ∀ m t, P m t → EndsExpression [t.current]) : Gives (expressionWith fuel) s P := by
  have hterm : ∀ k, Gives (termWith k) s P := fun k =>
    gives_termWith h fun _ m t ht => gives_productRest_done (he m t ht).product ht
  have hsimple : ∀ k, Gives (simpleExpressionWith k) s P := fun k =>
    gives_simpleWith hterm fun _ m t ht => gives_sumRest_done (he m t ht).sum ht
  exact gives_expressionWith hsimple fun m t ht => ⟨(he m t ht).relation, ht⟩

end Levels

/-! ## Trees that are given back -/

/-- The tokens `w` are parsed as a factor, whatever follows, and give the tree `n`. -/
def FactorGives (w : List Token) (n : Node) : Prop :=
  ∀ (fuel : Nat) (s : State) (x : Token) (v : List Token) (rest : Stream),
    s.Sees (w ++ x :: v) rest →
    Gives (factorWith fuel) s fun m t => m = n ∧ t.Sees (x :: v) rest

/-- A term that starts with the tokens `w` goes on, after them, as one whose value so far is `n`. -/
def TermGives (w : List Token) (n : Node) : Prop :=
  ∀ (fuel : Nat) (s : State) (x : Token) (v : List Token) (rest : Stream)
    (Q : Node → State → Prop), s.Sees (w ++ x :: v) rest →
    (∀ k t, t.Sees (x :: v) rest → Gives (productRest k n) t Q) → Gives (termWith fuel) s Q

/-- A simple expression that starts with the tokens `w` goes on, unless a product sign follows, as
one whose value so far is `n`. -/
def SimpleGives (w : List Token) (n : Node) : Prop :=
  ∀ (fuel : Nat) (s : State) (x : Token) (v : List Token) (rest : Stream)
    (Q : Node → State → Prop), productOperator? x.kind = none → s.Sees (w ++ x :: v) rest →
    (∀ k t, t.Sees (x :: v) rest → Gives (sumRest k n) t Q) →
    Gives (simpleExpressionWith fuel) s Q

/-- The tokens `w` are parsed as an expression, if no operator follows, and give the tree `n`. -/
def ExpressionGives (w : List Token) (n : Node) : Prop :=
  ∀ (fuel : Nat) (s : State) (x : Token) (v : List Token) (rest : Stream),
    EndsExpression (x :: v) → s.Sees (w ++ x :: v) rest →
    Gives (expressionWith fuel) s fun m t => m = n ∧ t.Sees (x :: v) rest

section Conversions

variable {w : List Token} {n : Node}

theorem FactorGives.term (h : FactorGives w n) : TermGives w n := by
  intro fuel s x v rest Q hs hq
  refine gives_termWith (fun k => h k s x v rest hs) ?_
  rintro k m t ⟨rfl, ht⟩
  exact hq k t ht

theorem TermGives.simple (h : TermGives w n) : SimpleGives w n := by
  intro fuel s x v rest Q hp hs hq
  have hterm : ∀ k, Gives (termWith k) s fun m t => m = n ∧ t.Sees (x :: v) rest :=
    fun k => h k s x v rest _ hs fun k t ht =>
      gives_productRest_done (by rw [ht.current, hp]) ⟨rfl, ht⟩
  refine gives_simpleWith hterm ?_
  rintro k m t ⟨rfl, ht⟩
  exact hq k t ht

theorem SimpleGives.expression (h : SimpleGives w n) : ExpressionGives w n := by
  intro fuel s x v rest he hs
  have hsimple : ∀ k, Gives (simpleExpressionWith k) s fun m t => m = n ∧ t.Sees (x :: v) rest :=
    fun k => h k s x v rest _ he.product hs fun k t ht =>
      gives_sumRest_done (by rw [ht.current]; exact he.sum) ⟨rfl, ht⟩
  refine gives_expressionWith hsimple ?_
  rintro m t ⟨rfl, ht⟩
  exact ⟨by rw [ht.current]; exact he.relation, rfl, ht⟩

/-- In parentheses an expression is a factor. -/
theorem ExpressionGives.factor (h : ExpressionGives w n) (line : Int) :
    FactorGives (inParens line w) n := by
  intro fuel s x v rest hs
  cases fuel with
  | zero => rw [factorWith]; exact .outOfFuel
  | succ fuel =>
    simp only [inParens, List.cons_append, List.append_assoc, List.nil_append] at hs
    rw [factorWith, gives_peek, hs.current]
    refine gives_advance_bind hs (by simp) fun t ht => ?_
    refine (h fuel t _ _ rest ⟨rfl, rfl, rfl⟩ ht).bind ?_
    rintro m t ⟨rfl, ht⟩
    exact (gives_consume ht (by simp) rfl).bind fun a t ha => .pure ⟨rfl, ha.2⟩

end Conversions

/-- A tree that every level gives back where it is printed at that level. -/
structure Recovered (n : Node) : Prop where
  expression : ExpressionGives (print .expression n) n
  simple : SimpleGives (print .simple n) n
  term : TermGives (print .term n) n
  factor : FactorGives (print .factor n) n

namespace Recovered

variable {n : Node}

/-- Where parentheses are set, a tree is parsed as a factor. -/
theorem factor_of_lt (h : ExpressionGives (print .expression n) n) {level : Level}
    (hl : (levelOf n.kind).rank < level.rank) : FactorGives (print level n) n :=
  print_of_lt hl ▸ h.factor _

theorem of_factor (hl : levelOf n.kind = .factor) (h : FactorGives (print .expression n) n) :
    Recovered n where
  expression := h.term.simple.expression
  simple := by rw [print_of_le (by rw [hl]; decide)]; exact h.term.simple
  term := by rw [print_of_le (by rw [hl]; decide)]; exact h.term
  factor := by rw [print_of_le (by rw [hl])]; exact h

theorem of_term (hl : levelOf n.kind = .term) (h : TermGives (print .expression n) n) :
    Recovered n where
  expression := h.simple.expression
  simple := by rw [print_of_le (by rw [hl]; decide)]; exact h.simple
  term := by rw [print_of_le (by rw [hl])]; exact h
  factor := factor_of_lt h.simple.expression (by rw [hl]; decide)

theorem of_simple (hl : levelOf n.kind = .simple) (h : SimpleGives (print .expression n) n) :
    Recovered n where
  expression := h.expression
  simple := by rw [print_of_le (by rw [hl])]; exact h
  term := (factor_of_lt h.expression (by rw [hl]; decide)).term
  factor := factor_of_lt h.expression (by rw [hl]; decide)

theorem of_expression (hl : levelOf n.kind = .expression)
    (h : ExpressionGives (print .expression n) n) : Recovered n where
  expression := h
  simple := (factor_of_lt h (by rw [hl]; decide)).term.simple
  term := (factor_of_lt h (by rw [hl]; decide)).term
  factor := factor_of_lt h (by rw [hl]; decide)

/-! ### One case for each kind -/

theorem name (x : Token) : Recovered (operation .var x []) := by
  refine of_factor rfl fun fuel s y v rest hs => ?_
  cases fuel with
  | zero => rw [factorWith]; exact .outOfFuel
  | succ fuel =>
    rw [print_leaf rfl] at hs
    rw [factorWith, gives_peek, hs.current, ← operation_sign .var x [] []]
    exact gives_variableNode hs (by simp) rfl

theorem integer (x : Token) : Recovered (nodeAt .integer x []) := by
  refine of_factor rfl fun fuel s y v rest hs => ?_
  cases fuel with
  | zero => rw [factorWith]; exact .outOfFuel
  | succ fuel =>
    rw [print_leaf rfl] at hs
    rw [factorWith, gives_peek, hs.current, ← nodeAt_sign .integer x []]
    refine (gives_consume hs (by simp) rfl).bind ?_
    rintro a t ⟨rfl, ht⟩
    exact .pure ⟨rfl, ht⟩

theorem real (x : Token) : Recovered (nodeAt .real x []) := by
  refine of_factor rfl fun fuel s y v rest hs => ?_
  cases fuel with
  | zero => rw [factorWith]; exact .outOfFuel
  | succ fuel =>
    rw [print_leaf rfl] at hs
    rw [factorWith, gives_peek, hs.current, ← nodeAt_sign .real x []]
    exact gives_advance_bind hs (by simp) fun t ht => .pure ⟨rfl, ht⟩

theorem negate (x : Token) (h : Recovered n) : Recovered (operation .negate x [n]) := by
  refine of_factor rfl fun fuel s y v rest hs => ?_
  cases fuel with
  | zero => rw [factorWith]; exact .outOfFuel
  | succ fuel =>
    rw [print_unary rfl] at hs
    rw [factorWith, gives_peek, hs.current]
    refine gives_advance_bind hs (by simp) fun t ht => ?_
    refine (h.factor fuel t y v rest ht).bind ?_
    rintro m u ⟨rfl, hu⟩
    exact .pure ⟨operation_sign .negate x [m] [m], hu⟩

/-- A `NOT` is a factor, but one that takes all that follows up to the end of an expression. -/
theorem not (x : Token) (h : Recovered n) : Recovered (operation .not x [n]) := by
  refine of_expression rfl fun fuel s y v rest he hs => ?_
  rw [print_unary rfl] at hs
  refine gives_expressionWith_of_factor (fun k => ?_) fun m t ht => ?_
  · cases k with
    | zero => rw [factorWith]; exact .outOfFuel
    | succ k =>
      rw [factorWith, gives_peek, hs.current]
      refine gives_advance_bind hs (by simp) fun t ht => ?_
      refine (h.expression k t y v rest he ht).bind ?_
      rintro m u ⟨rfl, hu⟩
      exact .pure ⟨operation_sign .not x [m] [m], hu⟩
  · rw [ht.2.current]
    exact ⟨he.relation, he.sum, he.product⟩

section Binary

variable {left right : Node} {kind : Kind}

theorem relation (r : Relation) (x : Token) (hl : Recovered left) (hr : Recovered right) :
    Recovered (operation (.relation r) x [left, right]) := by
  refine of_expression rfl fun fuel s y v rest he hs => ?_
  rw [print_binary_append rfl] at hs
  have hrelation : relation? (signOf (.relation r)) = some (.relation r) := by cases r <;> rfl
  have hsum : sumOperator? (signOf (.relation r)) = none := by cases r <;> rfl
  have hproduct : productOperator? (signOf (.relation r)) = none := by cases r <;> rfl
  have hleft : ∀ k, Gives (simpleExpressionWith k) s fun m t => m = left ∧
      t.Sees (sign (operation (.relation r) x [left, right]) :: (print .simple right ++ y :: v))
        rest :=
    fun k => hl.simple k s _ _ rest _ hproduct hs fun _ t ht =>
      gives_sumRest_done (by rw [ht.current]; exact hsum) ⟨rfl, ht⟩
  have hright : ∀ k t, t.Sees (print .simple right ++ y :: v) rest →
      Gives (simpleExpressionWith k) t fun m u => m = right ∧ u.Sees (y :: v) rest :=
    fun k t ht => hr.simple k t y v rest _ he.product ht fun _ u hu =>
      gives_sumRest_done (by rw [hu.current]; exact he.sum) ⟨rfl, hu⟩
  refine gives_expressionWith_relation hleft (by simp) hrelation hright ?_
  rintro m t ⟨rfl, ht⟩
  exact ⟨operation_sign (.relation r) x _ [left, m], ht⟩

/-- The operand on the left is a sum itself, so the loop over sums has it as its value so far. -/
theorem sum (x : Token) (hk : sumOperator? (signOf kind) = some kind)
    (hlevel : levelOf kind = .simple) (hleft : leftLevel kind = .simple)
    (hright : rightLevel kind = .term) (hl : Recovered left) (hr : Recovered right) :
    Recovered (operation kind x [left, right]) := by
  have hproduct : productOperator? (signOf kind) = none :=
    Option.eq_none_iff_forall_ne_some.2 fun op ho => by
      rw [sumOperator?_of_product ho] at hk
      cases hk
  refine of_simple hlevel fun fuel s y v rest Q hp hs hq => ?_
  rw [print_binary_append rfl] at hs
  change s.Sees (print (leftLevel kind) left ++ _ :: (print (rightLevel kind) right ++ _)) rest
    at hs
  rw [hleft, hright] at hs
  refine hl.simple fuel s _ _ rest Q hproduct hs fun k t ht => ?_
  refine gives_sumRest_next ht (by simp) hk (P := fun m u => m = right ∧ u.Sees (y :: v) rest)
    (fun j u hu => ?_) ?_
  · exact hr.term j u y v rest _ hu fun i u hu =>
      gives_productRest_done (by rw [hu.current]; exact hp) ⟨rfl, hu⟩
  · rintro j m u ⟨rfl, hu⟩
    rw [operation_sign]
    exact hq j u hu

/-- The operand on the left is a product itself, which the loop over products has as its value. -/
theorem product (x : Token) (hk : productOperator? (signOf kind) = some kind)
    (hlevel : levelOf kind = .term) (hleft : leftLevel kind = .term)
    (hright : rightLevel kind = .factor) (hl : Recovered left) (hr : Recovered right) :
    Recovered (operation kind x [left, right]) := by
  refine of_term hlevel fun fuel s y v rest Q hs hq => ?_
  rw [print_binary_append rfl] at hs
  change s.Sees (print (leftLevel kind) left ++ _ :: (print (rightLevel kind) right ++ _)) rest
    at hs
  rw [hleft, hright] at hs
  refine hl.term fuel s _ _ rest Q hs fun k t ht => ?_
  refine gives_productRest_next ht (by simp) hk (fun j u hu => hr.factor j u y v rest hu) ?_
  rintro j m u ⟨rfl, hu⟩
  rw [operation_sign]
  exact hq j u hu

end Binary

end Recovered

/-- Every tree is given back at every level. -/
theorem recovered_of_formula {n : Node} (h : Formula n) : Recovered n := by
  induction h with
  | name x => exact .name x
  | integer x => exact .integer x
  | real x => exact .real x
  | negate x _ ih => exact .negate x ih
  | not x _ ih => exact .not x ih
  | relation r x _ _ hl hr => exact .relation r x hl hr
  | arithmetic a x _ _ hl hr =>
    cases a with
    | add | subtract => exact .sum x rfl rfl rfl rfl hl hr
    | multiply | divide => exact .product x rfl rfl rfl rfl hl hr
  | connective c x _ _ hl hr =>
    cases c with
    | and | or => exact .product x rfl rfl rfl rfl hl hr

/-- **Parsing inverts printing.** Let the tokens of a printed expression tree be in front of the
parser, with a token after them that is no operator and then any rest. Then an expression is parsed,
it moves over just these tokens, and it is the tree that was printed, with all its lines, texts and
literals. -/
theorem expression_print {n : Node} (h : Formula n) {s : State} {next : Token} {rest : Stream}
    (hs : s.Sees (print .expression n ++ [next]) rest) (hnext : EndsExpression [next]) :
    ∃ t, expression s = .ok n t ∧ t.current = next ∧ t.stream = rest := by
  have hgives := (recovered_of_formula h).expression s.fuel s next [] rest hnext hs
  unfold Gives at hgives
  rw [← expression_apply] at hgives
  cases he : expression s with
  | error e t =>
    rw [he] at hgives
    have hat := ((meets_expression s).of_error he).2
    rw [hgives] at hat
    exact hat.elim
  | ok m t =>
    rw [he] at hgives
    obtain ⟨rfl, ht⟩ := hgives
    exact ⟨t, rfl, State.sees_singleton.1 ht⟩

/-- Here all levels meet: a difference on the right of another, a `NOT` under an operator, and a
minus before a factor. -/
theorem expression_print_nested :
    ∃ n : Node,
      (print .expression n).map (·.text) =
        ["a", "-", "(", "b", "-", "(", "NOT", "c", ")", ")", "<", "-", "d"] ∧
      ∃ t, expression
          { current := { kind := .identifier, text := "a", line := 1 }
            stream := .ofTokens ((print .expression n).tail ++
              [{ kind := .symbol .semicolon, text := ";", line := 2 }])
            table := {}
            strict := true } = .ok n t ∧
        t.current.text = ";" ∧ t.stream.items = [] := by
  let name (text : String) : Node := operation .var { kind := .identifier, text, line := 1 } []
  let minus : Token := { kind := .symbol .minus, text := "-", line := 1 }
  let denied : Node := operation .not { kind := .keyword .NOT, text := "NOT", line := 1 } [name "c"]
  let inner : Node := operation (.arithmetic .subtract) minus [name "b", denied]
  let n : Node := operation (.relation .lt) { kind := .symbol .lessThan, text := "<", line := 1 }
    [operation (.arithmetic .subtract) minus [name "a", inner], operation .negate minus [name "d"]]
  have h : Formula n :=
    .relation _ _ (.arithmetic _ _ (.name _) (.arithmetic _ _ (.name _) (.not _ (.name _))))
      (.negate _ (.name _))
  have hfirst : print .expression n =
      { kind := .identifier, text := "a", line := 1 } :: (print .expression n).tail := by
    simp [n, name, operation, print, sign, wordOf, lineOf, signOf, Text.toString?_ofString,
      levelOf, Level.rank, leftLevel]
  let last : Token := { kind := .symbol .semicolon, text := ";", line := 2 }
  have hlast : EndsExpression [last] := ⟨rfl, rfl, rfl⟩
  obtain ⟨t, ht, hc, hr⟩ := expression_print h (s := ⟨_, .ofTokens _, {}, true, 0, 0, #[]⟩)
    ⟨_, (congrArg (· ++ [last]) hfirst).symm, Stream.reads_ofTokens _⟩ hlast
  exact ⟨n, by decide +kernel, t, ht, by rw [hc], by rw [hr]⟩

end Parsing

end MiniPascal
