import MiniPascal.Proofs.Parsing.Total
import MiniPascal.Proofs.Grammar.Word

/-!
# Expressions are accepted

`Accepts p s Q` says that from the state `s` the parser `p` gives a result that satisfies `Q`, with
nothing reported, if the stream can be read to an end and names need not be declared. It only leaves
open whether there is enough fuel.

**Parsers follow chains** (`expressionParsersAccept`). In front of the tokens of a chain each parser
of expressions moves over some of them and leaves a chain. A parser of a whole expression leaves one
in which no relation is open any more.
-/

namespace MiniPascal.Parsing

open Grammar

variable {α β : Type}

/-! ## The judgement -/

/-- Reading never fails, and names need not be declared. -/
structure State.Lenient (s : State) : Prop where
  strict : s.strict = false
  ending : ∃ line, s.stream.ending = .endOfFile line

theorem Reaches.lenient {s t : State} (h : Reaches s t) (hs : s.Lenient) : t.Lenient :=
  ⟨h.strict_eq.trans hs.strict, hs.ending.imp fun _ he => h.ending_eq.trans he⟩

/-- There is a result that satisfies `Q`, and nothing is reported. -/
def Accepts (p : Parser α) (s : State) (Q : α → State → Prop) : Prop :=
  s.Lenient → match p s with
    | .ok a t => t.Lenient ∧ t.problems = s.problems ∧ Q a t
    | .error e _ => e = .outOfFuel

theorem Accepts.pure {a : α} {s : State} {Q : α → State → Prop} (h : Q a s) :
    Accepts (pure a) s Q :=
  fun hs => ⟨hs, rfl, h⟩

theorem Accepts.outOfFuel {s : State} {Q : α → State → Prop} :
    Accepts (throw .outOfFuel) s Q :=
  fun _ => rfl

theorem Accepts.bind {p : Parser α} {f : α → Parser β} {s : State} {Q : α → State → Prop}
    {R : β → State → Prop} (hp : Accepts p s Q) (hf : ∀ a t, Q a t → Accepts (f a) t R) :
    Accepts (p >>= f) s R := by
  intro hs
  have h := hp hs
  rw [bind_apply]
  cases he : p s with
  | error e t =>
    rw [he] at h
    exact h
  | ok a t =>
    rw [he] at h
    obtain ⟨ht, hpr, hq⟩ := h
    have hg := hf a t hq ht
    dsimp only
    split
    · next he' =>
      rw [he'] at hg
      exact ⟨hg.1, hg.2.1.trans hpr, hg.2.2⟩
    · next he' =>
      rw [he'] at hg
      exact hg

theorem Accepts.mono {p : Parser α} {s : State} {Q R : α → State → Prop} (h : Accepts p s Q)
    (hqr : ∀ a t, Q a t → R a t) : Accepts p s R := by
  intro hs
  have hp := h hs
  split
  · next he =>
    rw [he] at hp
    exact ⟨hp.1, hp.2.1, hqr _ _ hp.2.2⟩
  · next he =>
    rw [he] at hp
    exact hp

theorem Accepts.of_apply_eq {p q : Parser α} {s : State} {Q : α → State → Prop} (he : p s = q s)
    (h : Accepts q s Q) : Accepts p s Q := by
  rwa [Accepts, he]

theorem accepts_peek {f : TokenKind → Parser β} {s : State} {R : β → State → Prop} :
    Accepts (peek >>= f) s R ↔ Accepts (f s.current.kind) s R := Iff.rfl

theorem accepts_currentLine {f : Value → Parser β} {s : State} {R : β → State → Prop} :
    Accepts (currentLine >>= f) s R ↔ Accepts (f (.int s.current.line)) s R := Iff.rfl

/-- What a parser meets it accepts where no problem can arise. -/
theorem Accepts.of_meets {p : Parser α} {s : State} {Q : α → State → Prop}
    (hp : ∀ d t, p s ≠ .error (.problem d) t)
    (h : s.Lenient → Meets p s fun a t => t.problems = s.problems ∧ Q a t) : Accepts p s Q := by
  intro hs
  have hm := h hs
  unfold Meets at hm
  cases he : p s with
  | ok a t =>
    rw [he] at hm
    exact ⟨hm.1.lenient hs, hm.2⟩
  | error e t =>
    rw [he] at hm
    obtain ⟨hr, ha⟩ := hm
    cases e with
    | problem d => exact absurd he (hp d t)
    | outOfFuel => rfl
    | unreadable fault =>
      obtain ⟨line, hl⟩ := (hr.lenient hs).ending
      have hu : t.stream.ending = .unreadable fault := ha
      rw [hl] at hu
      cases hu

/-! ## Moving over tokens -/

/-- The kind of the first token, or of the end of the text. -/
def firstKind : List Token → TokenKind
  | [] => .endOfFile
  | x :: _ => x.kind

theorem State.kind_eq_firstKind (s : State) : s.current.kind = firstKind s.ahead := by
  by_cases h : s.current.kind = .endOfFile
  · rw [State.ahead_of_end h, h]; rfl
  · rw [State.ahead_of_ne h]; rfl

theorem State.kind_of_ahead {s : State} {w : List Token} (h : s.ahead = w) :
    s.current.kind = firstKind w :=
  h ▸ s.kind_eq_firstKind

section Tokens

variable {s : State} {x : Token} {w : List Token}

theorem Moves.ahead_of_cons {t : State} (h : Moves s t) (ha : s.ahead = x :: w) : t.ahead = w := by
  rw [h.ahead] at ha
  exact (List.cons.inj ha).2

theorem accepts_advance (ha : s.ahead = x :: w) :
    Accepts advance s fun a t => a = x ∧ t.ahead = w :=
  .of_meets (handles_advance s) fun _ => meets_advance (State.ne_endOfFile_of_ahead ha)
    fun _ ht => ⟨ht.problems, State.current_of_ahead ha, ht.ahead_of_cons ha⟩

theorem accepts_advance_bind {f : Token → Parser β} {R : β → State → Prop}
    (ha : s.ahead = x :: w) (h : ∀ t, t.ahead = w → Accepts (f x) t R) :
    Accepts (advance >>= f) s R :=
  (accepts_advance ha).bind fun _ t ha => ha.1 ▸ h t ha.2

theorem accepts_consume {kind : TokenKind} {p : Problem} {Q : Token → State → Prop}
    (ha : s.ahead = x :: w) (hk : x.kind = kind) (h : ∀ t, t.ahead = w → Q x t) :
    Accepts (consume kind p) s Q := by
  unfold consume
  rw [accepts_peek, State.current_of_ahead ha, if_pos hk]
  have hacc := accepts_advance_bind (f := Pure.pure) ha fun t ht => Accepts.pure (h t ht)
  rwa [bind_pure] at hacc

theorem accepts_consume_bind {kind : TokenKind} {p : Problem} {f : Token → Parser β}
    {R : β → State → Prop} (ha : s.ahead = x :: w) (hk : x.kind = kind)
    (h : ∀ t, t.ahead = w → Accepts (f x) t R) : Accepts (consume kind p >>= f) s R :=
  (accepts_consume (Q := fun a t => a = x ∧ t.ahead = w) ha hk fun _ ht => ⟨rfl, ht⟩).bind
    fun _ t ha => ha.1 ▸ h t ha.2

theorem accepts_expect_bind {kind : TokenKind} {p : Problem} {f : Bool → Parser β}
    {R : β → State → Prop} (ha : s.ahead = x :: w) (hk : x.kind = kind)
    (h : ∀ t, t.ahead = w → Accepts (f true) t R) : Accepts (expect kind p >>= f) s R := by
  have hacc : Accepts (expect kind p) s fun b t => b = true ∧ t.ahead = w := by
    unfold expect
    rw [accepts_peek, State.current_of_ahead ha, if_pos hk]
    exact accepts_advance_bind ha fun t ht => .pure ⟨rfl, ht⟩
  exact hacc.bind fun _ t hb => hb.1 ▸ h t hb.2

theorem accepts_variableNode {assigned : Bool} (ha : s.ahead = x :: w) (hk : x.kind = .identifier) :
    Accepts (variableNode assigned) s fun _ t => t.ahead = w := by
  have hcons := accepts_consume (p := .expectingIdentifier) (Q := fun _ t => t.ahead = w) ha hk
    fun _ ht => ht
  intro hs
  have h := hcons hs
  rw [variableNode_apply]
  cases he : consume .identifier .expectingIdentifier s with
  | error e t =>
    rw [he] at h
    exact h
  | ok tok t =>
    rw [he] at h
    obtain ⟨ht, hp, hw⟩ := h
    refine ⟨⟨by rw [State.strict_named, ht.strict], by rw [State.stream_named]; exact ht.ending⟩,
      (State.problems_named ht.strict).trans hp, ?_⟩
    exact (State.ahead_named _ _ _).trans hw

theorem accepts_integerNode {p : Problem} (ha : s.ahead = x :: w) (hk : x.kind = .integer) :
    Accepts (integerNode p) s fun _ t => t.ahead = w :=
  accepts_consume_bind ha hk fun _ ht => .pure ht

end Tokens

/-! ## Expressions -/

/-- No operator comes first. -/
structure EndsExpression (w : List Token) : Prop where
  relation : relation? (firstKind w) = none
  sum : sumOperator? (firstKind w) = none
  product : productOperator? (firstKind w) = none

/-- The rest of a chain is ahead, and then other tokens. -/
def State.InChain (s : State) (k : Nat) (rest : List Token) : Prop :=
  ∃ v, Chain .rest k v ∧ s.ahead = v ++ rest

theorem relation?_of_sum {kind : TokenKind} {op : Kind} (h : sumOperator? kind = some op) :
    relation? kind = none := by
  unfold sumOperator? at h
  split at h <;> first | rfl | cases h

theorem relation?_of_product {kind : TokenKind} {op : Kind} (h : productOperator? kind = some op) :
    relation? kind = none := by
  unfold productOperator? at h
  split at h <;> first | rfl | cases h

theorem sumOperator?_of_product {kind : TokenKind} {op : Kind}
    (h : productOperator? kind = some op) : sumOperator? kind = none := by
  unfold productOperator? at h
  split at h <;> first | rfl | cases h

namespace State.InChain

variable {s : State} {k : Nat} {rest : List Token} {kind : Kind}

/-- Before a product sign comes another factor. -/
theorem product (h : s.InChain k rest) (he : EndsExpression rest)
    (ho : productOperator? s.current.kind = some kind) :
    ∃ x w, Chain .operand k w ∧ s.ahead = x :: (w ++ rest) := by
  obtain ⟨v, hv, ha⟩ := h
  rw [State.kind_of_ahead ha] at ho
  cases hv with
  | done => cases he.product.symm.trans ho
  | sum hs _ => cases (sumOperator?_of_product ho).symm.trans hs
  | product _ hw => exact ⟨_, _, hw, ha⟩
  | relation hr _ => cases (relation?_of_product ho).symm.trans hr

/-- Before the sign of a sum comes another term. -/
theorem sum (h : s.InChain k rest) (he : EndsExpression rest)
    (ho : sumOperator? s.current.kind = some kind) :
    ∃ x w, Chain .operand k w ∧ s.ahead = x :: (w ++ rest) := by
  obtain ⟨v, hv, ha⟩ := h
  rw [State.kind_of_ahead ha] at ho
  cases hv with
  | done => cases he.sum.symm.trans ho
  | sum _ hw => exact ⟨_, _, hw, ha⟩
  | product hp _ => cases (sumOperator?_of_product hp).symm.trans ho
  | relation hr _ => cases (relation?_of_sum ho).symm.trans hr

/-- Before a relation come other operands, and one relation less is open. -/
theorem relation (h : s.InChain (k + 1) rest) (he : EndsExpression rest)
    (ho : relation? s.current.kind = some kind) :
    ∃ x w, Chain .operand k w ∧ s.ahead = x :: (w ++ rest) := by
  obtain ⟨v, hv, ha⟩ := h
  rw [State.kind_of_ahead ha] at ho
  cases hv with
  | done => cases he.relation.symm.trans ho
  | sum hs _ => cases (relation?_of_sum hs).symm.trans ho
  | product hp _ => cases (relation?_of_product hp).symm.trans ho
  | relation _ hw => exact ⟨_, _, hw, ha⟩

/-- A chain can end in front of no operator other than one that it has no place for. -/
theorem ahead_eq (h : s.InChain k rest) (hs : sumOperator? s.current.kind = none)
    (hp : productOperator? s.current.kind = none)
    (hr : k = 0 ∨ relation? s.current.kind = none) : s.ahead = rest := by
  obtain ⟨v, hv, ha⟩ := h
  rw [State.kind_of_ahead ha] at hs hp hr
  cases hv with
  | done => exact ha
  | sum ho _ => cases hs.symm.trans ho
  | product ho _ => cases hp.symm.trans ho
  | relation ho _ =>
    obtain h0 | hr := hr
    · cases h0
    · cases hr.symm.trans ho

end State.InChain

/-- What the parsers of expressions accept with some fuel, in front of tokens that start with no
operator. -/
structure ExpressionParsersAccept (fuel : Nat) : Prop where
  expression : ∀ {s : State} {k : Nat} {w rest : List Token}, Chain .operand (k + 1) w →
    EndsExpression rest → s.ahead = w ++ rest → Accepts (expressionWith fuel) s fun _ t =>
      t.InChain k rest ∧ sumOperator? t.current.kind = none ∧
        productOperator? t.current.kind = none
  simple : ∀ {s : State} {k : Nat} {w rest : List Token}, Chain .operand k w →
    EndsExpression rest → s.ahead = w ++ rest → Accepts (simpleExpressionWith fuel) s fun _ t =>
      t.InChain k rest ∧ sumOperator? t.current.kind = none ∧
        productOperator? t.current.kind = none
  sumRest : ∀ {s : State} {k : Nat} {rest : List Token} {left : Node}, s.InChain k rest →
    productOperator? s.current.kind = none → EndsExpression rest →
    Accepts (sumRest fuel left) s fun _ t => t.InChain k rest ∧
      sumOperator? t.current.kind = none ∧ productOperator? t.current.kind = none
  term : ∀ {s : State} {k : Nat} {w rest : List Token}, Chain .operand k w →
    EndsExpression rest → s.ahead = w ++ rest → Accepts (termWith fuel) s fun _ t =>
      t.InChain k rest ∧ productOperator? t.current.kind = none
  productRest : ∀ {s : State} {k : Nat} {rest : List Token} {left : Node}, s.InChain k rest →
    EndsExpression rest → Accepts (productRest fuel left) s fun _ t =>
      t.InChain k rest ∧ productOperator? t.current.kind = none
  factor : ∀ {s : State} {k : Nat} {w rest : List Token}, Chain .operand k w →
    EndsExpression rest → s.ahead = w ++ rest →
    Accepts (factorWith fuel) s fun _ t => t.InChain k rest

namespace ExpressionParsersAccept

variable {fuel : Nat} {s : State} {k : Nat} {w rest : List Token} {left : Node}

theorem expression_succ (ih : ExpressionParsersAccept fuel) (hw : Chain .operand (k + 1) w)
    (he : EndsExpression rest) (ha : s.ahead = w ++ rest) :
    Accepts (expressionWith (fuel + 1)) s fun _ t => t.InChain k rest ∧
      sumOperator? t.current.kind = none ∧ productOperator? t.current.kind = none := by
  rw [expressionWith]
  refine (ih.simple hw he ha).bind ?_
  rintro left t ⟨ht, hs, hp⟩
  rw [accepts_peek]
  split
  · next hr =>
    have hrest := ht.ahead_eq hs hp (.inr hr)
    exact .pure ⟨⟨[], .done, hrest⟩, hs, hp⟩
  · next hr =>
    obtain ⟨x, u, hu, hau⟩ := ht.relation he hr
    exact accepts_advance_bind hau fun v hv =>
      (ih.simple hu he hv).bind fun _ _ h => .pure h

theorem simple_succ (ih : ExpressionParsersAccept fuel) (hw : Chain .operand k w)
    (he : EndsExpression rest) (ha : s.ahead = w ++ rest) :
    Accepts (simpleExpressionWith (fuel + 1)) s fun _ t => t.InChain k rest ∧
      sumOperator? t.current.kind = none ∧ productOperator? t.current.kind = none := by
  rw [simpleExpressionWith]
  exact (ih.term hw he ha).bind fun _ _ ht => ih.sumRest ht.1 ht.2 he

theorem sumRest_succ (ih : ExpressionParsersAccept fuel) (h : s.InChain k rest)
    (hp : productOperator? s.current.kind = none) (he : EndsExpression rest) :
    Accepts (Parsing.sumRest (fuel + 1) left) s fun _ t => t.InChain k rest ∧
      sumOperator? t.current.kind = none ∧ productOperator? t.current.kind = none := by
  rw [Parsing.sumRest, accepts_peek]
  split
  · next hs => exact .pure ⟨h, hs, hp⟩
  · next hs =>
    obtain ⟨x, u, hu, hau⟩ := h.sum he hs
    exact accepts_advance_bind hau fun v hv =>
      (ih.term hu he hv).bind fun _ _ ht => ih.sumRest ht.1 ht.2 he

theorem term_succ (ih : ExpressionParsersAccept fuel) (hw : Chain .operand k w)
    (he : EndsExpression rest) (ha : s.ahead = w ++ rest) :
    Accepts (termWith (fuel + 1)) s fun _ t => t.InChain k rest ∧
      productOperator? t.current.kind = none := by
  rw [termWith]
  exact (ih.factor hw he ha).bind fun _ _ ht => ih.productRest ht he

theorem productRest_succ (ih : ExpressionParsersAccept fuel) (h : s.InChain k rest)
    (he : EndsExpression rest) :
    Accepts (Parsing.productRest (fuel + 1) left) s fun _ t => t.InChain k rest ∧
      productOperator? t.current.kind = none := by
  rw [Parsing.productRest, accepts_peek]
  split
  · next hp => exact .pure ⟨h, hp⟩
  · next hp =>
    obtain ⟨x, u, hu, hau⟩ := h.product he hp
    exact accepts_advance_bind hau fun v hv =>
      (ih.factor hu he hv).bind fun _ _ ht => ih.productRest ht he

theorem factor_succ (ih : ExpressionParsersAccept fuel) (hw : Chain .operand k w)
    (he : EndsExpression rest) (ha : s.ahead = w ++ rest) :
    Accepts (factorWith (fuel + 1)) s fun _ t => t.InChain k rest := by
  rw [factorWith, accepts_peek]
  cases hw with
  | @name x _ v hx hv =>
    rw [State.current_of_ahead ha, hx]
    exact (accepts_variableNode ha hx).mono fun _ t ht => ⟨v, hv, ht⟩
  | @integer x _ v hx hv =>
    rw [State.current_of_ahead ha, hx]
    exact (accepts_integerNode ha hx).mono fun _ t ht => ⟨v, hv, ht⟩
  | @real x _ v hx hv =>
    rw [State.current_of_ahead ha, hx]
    exact accepts_advance_bind ha fun t ht => .pure ⟨v, hv, ht⟩
  | @negate x _ v hx hv =>
    rw [State.current_of_ahead ha, hx]
    exact accepts_advance_bind ha fun t ht =>
      (ih.factor hv he ht).bind fun _ _ hu => .pure hu
  -- `NOT` takes a whole expression, so what is left of the chain is behind that.
  | @not x _ v hx hv =>
    rw [State.current_of_ahead ha, hx]
    exact accepts_advance_bind ha fun t ht =>
      (ih.expression hv he ht).bind fun _ _ hu => .pure hu.1
  | @paren x y _ u v hx hu hy hv =>
    simp only [List.cons_append, List.append_assoc] at ha
    rw [State.current_of_ahead ha, hx]
    refine accepts_advance_bind ha fun t ht => ?_
    -- The closing parenthesis ends the expression, and not what follows the chain.
    have hend : EndsExpression (y :: (v ++ rest)) := by
      constructor <;> rw [firstKind, hy] <;> rfl
    refine (ih.expression hu hend ht).bind ?_
    rintro _ t' ⟨ht', hs, hp⟩
    have hclose := ht'.ahead_eq hs hp (.inl rfl)
    exact accepts_consume_bind hclose hy fun _ h => .pure ⟨v, hv, h⟩

end ExpressionParsersAccept

/-- The parsers of expressions accept chains, whatever the fuel. -/
theorem expressionParsersAccept (fuel : Nat) : ExpressionParsersAccept fuel := by
  induction fuel with
  | zero => constructor <;> intros <;> exact .outOfFuel
  | succ fuel ih =>
    exact ⟨ih.expression_succ, ih.simple_succ, ih.sumRest_succ, ih.term_succ, ih.productRest_succ,
      ih.factor_succ⟩

/-- A whole expression is moved over. -/
theorem accepts_expression {s : State} {w rest : List Token} (hw : IsExpression w)
    (he : EndsExpression rest) (ha : s.ahead = w ++ rest) :
    Accepts expression s fun _ t => t.ahead = rest :=
  .of_apply_eq (expression_apply s) <|
    ((expressionParsersAccept s.fuel).expression hw he ha).mono fun _ _ ht =>
      ht.1.ahead_eq ht.2.1 ht.2.2 (.inl rfl)

end MiniPascal.Parsing
