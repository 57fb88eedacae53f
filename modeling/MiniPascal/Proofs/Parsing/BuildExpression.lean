import MiniPascal.Proofs.Parsing.Outcome
import MiniPascal.Proofs.Grammar.Sentence
import MiniPascal.Proofs.Table

/-!
# The expressions that are built

`BuildsExpression level s n t` says that an expression of a level was parsed from the state `s`,
built the tree `n` and ended in the state `t`. There is one rule for each way to go on, and none for
failures, so facts about the trees are proved by induction without a word about problems or fuel.

**Parsers build** (`expressionParsersBuild`): every result of a parser of
expressions is built by these rules.
-/

namespace MiniPascal.Parsing

open Grammar (Level)

/-! ## Variables -/

/-- The state after the name `t` was moved over: it is entered, and reported in strict mode if it is
new and not being assigned. -/
def State.named (s : State) (t : Token) (assigned : Bool) : State :=
  (if s.strict && !assigned && !s.table.contains t.text then
    s.reported (t.diagnose .undeclaredIdentifier) else s).entered t.text

section Named

variable (s : State) (t : Token) (assigned : Bool)

@[simp] theorem State.current_named : (s.named t assigned).current = s.current := by
  unfold State.named; split <;> rfl

@[simp] theorem State.stream_named : (s.named t assigned).stream = s.stream := by
  unfold State.named; split <;> rfl

@[simp] theorem State.strict_named : (s.named t assigned).strict = s.strict := by
  unfold State.named; split <;> rfl

@[simp] theorem State.table_named : (s.named t assigned).table = s.table.enter t.text := by
  unfold State.named; split <;> rfl

@[simp] theorem State.ahead_named : (s.named t assigned).ahead = s.ahead := by
  simp [State.ahead]

variable {s t assigned}

theorem State.problems_named (h : s.strict = false) :
    (s.named t assigned).problems = s.problems := by
  simp [State.named, h, State.entered]

end Named

theorem Moves.reaches_named {s t : State} (h : Moves s t) (hk : s.current.kind = .identifier)
    (assigned : Bool) : Reaches s (t.named s.current assigned) := by
  unfold State.named
  split
  · next hc =>
    simp only [Bool.and_eq_true, Bool.not_eq_eq_eq_not, Bool.not_true] at hc
    obtain ⟨⟨hs, -⟩, ht⟩ := hc
    have hstrict := h.strict ▸ hs
    have htable := h.table ▸ ht
    obtain ⟨-, hn⟩ := h
    exact (Relation.ReflTransGen.single (.undeclared hstrict hk htable hn)).tail (.enter _)
  · exact h.reaches.tail (.enter _)

/-- A variable gets the place of its name, which is the next one if the name is new. -/
theorem variableNode_place {N : Type} [TreeNode N] (assigned : Bool) (s : State) :
    (variableNode assigned : Parser N) s = match consume .identifier .expectingIdentifier s with
      | .ok tok t => .ok (variableAt tok ((t.table.place? tok.text).getD t.table.size))
          (t.named tok assigned)
      | .error e t => .error e t := by
  unfold variableNode
  rw [bind_apply]
  cases consume .identifier .expectingIdentifier s with
  | error e t => rfl
  | ok tok t =>
    have hget : ∀ f : State → Parser N, (get >>= f) t = f t t := fun _ => rfl
    have hcontains := Table.isSome_place? t.table tok.text
    dsimp only
    rw [hget]
    cases hp : t.table.place? tok.text with
    | some place =>
      have hc : t.table.contains tok.text = true := by rw [← hcontains, hp]; rfl
      have hsame : t.named tok assigned = t := by
        simp [State.named, hc, State.entered, Table.enter_of_contains hc]
      rw [hsame]
      rfl
    | none =>
      have hc : t.table.contains tok.text = false := by rw [← hcontains, hp]; rfl
      cases hs : (t.strict && !assigned) with
      | true => simp [State.named, hc, hs]; rfl
      | false => simp [State.named, hc, hs]; rfl

theorem variableNode_apply (assigned : Bool) (s : State) :
    variableNode assigned s = match consume .identifier .expectingIdentifier s with
      | .ok tok t => .ok (operation .var tok []) (t.named tok assigned)
      | .error e t => .error e t :=
  variableNode_place assigned s

theorem meets_variableNode {assigned : Bool} {s : State} {Q : Node → State → Prop}
    (h : ∀ t, s.current.kind = .identifier → Moves s t →
      Q (operation .var s.current []) (t.named s.current assigned)) :
    Meets (variableNode assigned) s Q := by
  have hc : Meets (consume .identifier .expectingIdentifier) s fun tok t =>
      tok = s.current ∧ s.current.kind = .identifier ∧ Moves s t :=
    meets_consume (by decide) rfl fun t hk ht => ⟨rfl, hk, ht⟩
  unfold Meets at hc ⊢
  rw [variableNode_apply]
  cases he : consume .identifier .expectingIdentifier s with
  | error e t => rw [he] at hc; exact hc
  | ok tok t =>
    rw [he] at hc
    obtain ⟨-, rfl, hk, ht⟩ := hc
    exact ⟨ht.reaches_named hk assigned, h t hk ht⟩

theorem meets_integerNode {p : Problem} {s : State} {Q : Node → State → Prop}
    (hp : p.stage = .parsing)
    (h : ∀ t, s.current.kind = .integer → Moves s t → Q (nodeAt .integer s.current []) t) :
    Meets (integerNode p) s Q :=
  meets_consume_bind (by decide) hp fun t hk ht => .pure (h t hk ht)

theorem meets_integerNode_bind {β : Type} {p : Problem} {s : State} {f : Node → Parser β}
    {R : β → State → Prop} (hp : p.stage = .parsing)
    (h : ∀ t, s.current.kind = .integer → Moves s t →
      Meets (f (nodeAt .integer s.current [])) t R) :
    Meets (integerNode p >>= f) s R :=
  (meets_integerNode (Q := fun n t => n = nodeAt .integer s.current [] ∧
    s.current.kind = .integer ∧ Moves s t) hp fun _ hk ht => ⟨rfl, hk, ht⟩).bind
    fun _ t _ hn => hn.1 ▸ h t hn.2.1 hn.2.2

/-! ## Expressions -/

/-- An expression of a level is parsed from a state to another, and builds a tree. -/
inductive BuildsExpression : Level → State → Node → State → Prop
  | simple {s t : State} {n : Node} :
      BuildsExpression .simple s n t → relation? t.current.kind = none →
      BuildsExpression .expression s n t
  | relation {s t u v : State} {left right : Node} {kind : Kind} :
      BuildsExpression .simple s left t → relation? t.current.kind = some kind → Moves t u →
      BuildsExpression .simple u right v →
      BuildsExpression .expression s (operation kind t.current [left, right]) v
  | term {s t : State} {n : Node} : BuildsExpression .term s n t → BuildsExpression .simple s n t
  | sum {s t u v : State} {left right : Node} {kind : Kind} :
      BuildsExpression .simple s left t → sumOperator? t.current.kind = some kind → Moves t u →
      BuildsExpression .term u right v →
      BuildsExpression .simple s (operation kind t.current [left, right]) v
  | factor {s t : State} {n : Node} : BuildsExpression .factor s n t → BuildsExpression .term s n t
  | product {s t u v : State} {left right : Node} {kind : Kind} :
      BuildsExpression .term s left t → productOperator? t.current.kind = some kind → Moves t u →
      BuildsExpression .factor u right v →
      BuildsExpression .term s (operation kind t.current [left, right]) v
  | name {s t : State} :
      s.current.kind = .identifier → Moves s t →
      BuildsExpression .factor s (operation .var s.current []) (t.named s.current false)
  | integer {s t : State} :
      s.current.kind = .integer → Moves s t →
      BuildsExpression .factor s (nodeAt .integer s.current []) t
  | real {s t : State} :
      s.current.kind = .real → Moves s t →
      BuildsExpression .factor s (nodeAt .real s.current []) t
  | negate {s t u : State} {n : Node} :
      s.current.kind = .symbol .minus → Moves s t → BuildsExpression .factor t n u →
      BuildsExpression .factor s (operation .negate s.current [n]) u
  | not {s t u : State} {n : Node} :
      s.current.kind = .keyword .NOT → Moves s t → BuildsExpression .expression t n u →
      BuildsExpression .factor s (operation .not s.current [n]) u
  | paren {s t u v : State} {n : Node} :
      s.current.kind = .symbol .lparen → Moves s t → BuildsExpression .expression t n u →
      u.current.kind = .symbol .rparen → Moves u v → BuildsExpression .factor s n v

theorem BuildsExpression.reaches {level : Level} {s t : State} {n : Node}
    (h : BuildsExpression level s n t) : Reaches s t := by
  induction h with
  | simple _ _ ih | term _ ih | factor _ ih => exact ih
  | relation _ _ hm _ ih₁ ih₂ | sum _ _ hm _ ih₁ ih₂ | product _ _ hm _ ih₁ ih₂ =>
    exact ih₁.trans (hm.reaches.trans ih₂)
  | name hk hm => exact hm.reaches_named hk false
  | integer _ hm | real _ hm => exact hm.reaches
  | negate _ hm _ ih | not _ hm _ ih => exact hm.reaches.trans ih
  | paren _ hm _ _ hm' ih => exact hm.reaches.trans (ih.trans hm'.reaches)

/-- An expression has at least one token. -/
theorem BuildsExpression.length_ahead {level : Level} {s t : State} {n : Node}
    (h : BuildsExpression level s n t) : t.ahead.length < s.ahead.length := by
  induction h with
  | simple _ _ ih | term _ ih | factor _ ih => exact ih
  | relation _ _ hm h₂ ih₁ _ | sum _ _ hm h₂ ih₁ _ | product _ _ hm h₂ ih₁ _ =>
    have := h₂.reaches.length_ahead_le
    have := hm.length_ahead
    omega
  | name hk hm => simpa using hm.length_ahead
  | integer _ hm | real _ hm => exact hm.length_ahead
  | negate _ hm _ ih | not _ hm _ ih => exact ih.trans hm.length_ahead
  | paren _ hm _ _ hm' ih => exact hm'.length_ahead.trans (ih.trans hm.length_ahead)

theorem kind_ne_of_relation? {k : TokenKind} {kind : Kind} (h : relation? k = some kind) :
    k ≠ .endOfFile := by
  rintro rfl; cases h

theorem kind_ne_of_sumOperator? {k : TokenKind} {kind : Kind} (h : sumOperator? k = some kind) :
    k ≠ .endOfFile := by
  rintro rfl; cases h

theorem kind_ne_of_productOperator? {k : TokenKind} {kind : Kind}
    (h : productOperator? k = some kind) : k ≠ .endOfFile := by
  rintro rfl; cases h

/-! ## Parsers of expressions -/

/-- What is shown of the parsers of expressions by induction on the fuel, of which they need four
for each token ahead. The rest of a sum or a product is given by what was built before it, so that
operators group to the left. -/
structure ExpressionParsersBuild (fuel : Nat) : Prop where
  expression (s : State) : 4 * s.ahead.length + 4 ≤ fuel →
    Meets (expressionWith fuel) s (BuildsExpression .expression s)
  simple (s : State) : 4 * s.ahead.length + 3 ≤ fuel →
    Meets (simpleExpressionWith fuel) s fun n t =>
      BuildsExpression .simple s n t ∧ sumOperator? t.current.kind = none
  sumRest (s₀ s : State) (left : Node) : 4 * s.ahead.length + 1 ≤ fuel →
    BuildsExpression .simple s₀ left s → Meets (sumRest fuel left) s fun n t =>
      BuildsExpression .simple s₀ n t ∧ sumOperator? t.current.kind = none
  term (s : State) : 4 * s.ahead.length + 2 ≤ fuel →
    Meets (termWith fuel) s fun n t =>
      BuildsExpression .term s n t ∧ productOperator? t.current.kind = none
  productRest (s₀ s : State) (left : Node) : 4 * s.ahead.length + 1 ≤ fuel →
    BuildsExpression .term s₀ left s → Meets (productRest fuel left) s fun n t =>
      BuildsExpression .term s₀ n t ∧ productOperator? t.current.kind = none
  factor (s : State) : 4 * s.ahead.length + 1 ≤ fuel →
    Meets (factorWith fuel) s (BuildsExpression .factor s)

namespace ExpressionParsersBuild

variable {fuel : Nat}

theorem expression_succ (ih : ExpressionParsersBuild fuel) (s : State)
    (hf : 4 * s.ahead.length + 4 ≤ fuel + 1) :
    Meets (expressionWith (fuel + 1)) s (BuildsExpression .expression s) := by
  rw [expressionWith]
  refine (ih.simple s (by omega)).bind ?_
  rintro left t ht ⟨hl, -⟩
  rw [meets_peek]
  split
  · next hr => exact .pure (.simple hl hr)
  · next kind hr =>
    refine meets_advance_bind (kind_ne_of_relation? hr) fun u hm => ?_
    have := ht.length_ahead_le
    have := hm.length_ahead
    exact (ih.simple u (by omega)).bind fun right v _ hv => .pure (.relation hl hr hm hv.1)

theorem simple_succ (ih : ExpressionParsersBuild fuel) (s : State)
    (hf : 4 * s.ahead.length + 3 ≤ fuel + 1) :
    Meets (simpleExpressionWith (fuel + 1)) s fun n t =>
      BuildsExpression .simple s n t ∧ sumOperator? t.current.kind = none := by
  rw [simpleExpressionWith]
  refine (ih.term s (by omega)).bind ?_
  rintro left t ht ⟨hl, -⟩
  have := ht.length_ahead_le
  exact ih.sumRest s t left (by omega) (.term hl)

theorem sumRest_succ (ih : ExpressionParsersBuild fuel) (s₀ s : State) (left : Node)
    (hf : 4 * s.ahead.length + 1 ≤ fuel + 1) (hl : BuildsExpression .simple s₀ left s) :
    Meets (Parsing.sumRest (fuel + 1) left) s fun n t =>
      BuildsExpression .simple s₀ n t ∧ sumOperator? t.current.kind = none := by
  rw [Parsing.sumRest, meets_peek]
  split
  · next ho => exact .pure ⟨hl, ho⟩
  · next kind ho =>
    refine meets_advance_bind (kind_ne_of_sumOperator? ho) fun u hm => ?_
    have := hm.length_ahead
    refine (ih.term u (by omega)).bind ?_
    rintro right v hv ⟨hr, -⟩
    have := hv.length_ahead_le
    exact ih.sumRest s₀ v _ (by omega) (.sum hl ho hm hr)

theorem term_succ (ih : ExpressionParsersBuild fuel) (s : State)
    (hf : 4 * s.ahead.length + 2 ≤ fuel + 1) :
    Meets (termWith (fuel + 1)) s fun n t =>
      BuildsExpression .term s n t ∧ productOperator? t.current.kind = none := by
  rw [termWith]
  refine (ih.factor s (by omega)).bind fun left t ht hl => ?_
  have := ht.length_ahead_le
  exact ih.productRest s t left (by omega) (.factor hl)

theorem productRest_succ (ih : ExpressionParsersBuild fuel) (s₀ s : State) (left : Node)
    (hf : 4 * s.ahead.length + 1 ≤ fuel + 1) (hl : BuildsExpression .term s₀ left s) :
    Meets (Parsing.productRest (fuel + 1) left) s fun n t =>
      BuildsExpression .term s₀ n t ∧ productOperator? t.current.kind = none := by
  rw [Parsing.productRest, meets_peek]
  split
  · next ho => exact .pure ⟨hl, ho⟩
  · next kind ho =>
    refine meets_advance_bind (kind_ne_of_productOperator? ho) fun u hm => ?_
    have := hm.length_ahead
    refine (ih.factor u (by omega)).bind fun right v hv hr => ?_
    have := hv.length_ahead_le
    exact ih.productRest s₀ v _ (by omega) (.product hl ho hm hr)

theorem factor_succ (ih : ExpressionParsersBuild fuel) (s : State)
    (hf : 4 * s.ahead.length + 1 ≤ fuel + 1) :
    Meets (factorWith (fuel + 1)) s (BuildsExpression .factor s) := by
  rw [factorWith, meets_peek]
  split
  · exact meets_variableNode fun t hk hm => .name hk hm
  · exact meets_integerNode rfl fun t hk hm => .integer hk hm
  · next hk =>
    exact meets_advance_bind (by rw [hk]; decide) fun t hm => .pure (.real hk hm)
  · next hk =>
    refine meets_advance_bind (by rw [hk]; decide) fun t hm => ?_
    have := hm.length_ahead
    exact (ih.factor t (by omega)).bind fun n u _ hn => .pure (.negate hk hm hn)
  · next hk =>
    refine meets_advance_bind (by rw [hk]; decide) fun t hm => ?_
    have := hm.length_ahead
    exact (ih.expression t (by omega)).bind fun n u _ hn => .pure (.not hk hm hn)
  · next hk =>
    refine meets_advance_bind (by rw [hk]; decide) fun t hm => ?_
    have := hm.length_ahead
    exact (ih.expression t (by omega)).bind fun n u _ hn =>
      meets_consume_bind (by decide) rfl fun v hr hv => .pure (.paren hk hm hn hr hv)
  · exact meets_fail rfl

end ExpressionParsersBuild

theorem expressionParsersBuild (fuel : Nat) : ExpressionParsersBuild fuel := by
  induction fuel with
  | zero => constructor <;> intros <;> omega
  | succ fuel ih =>
    exact ⟨ih.expression_succ, ih.simple_succ, ih.sumRest_succ, ih.term_succ, ih.productRest_succ,
      ih.factor_succ⟩

theorem expression_apply {N : Type} [TreeNode N] (s : State) :
    (expression : Parser N) s = expressionWith s.fuel s := by
  rw [expression]

/-- **Every parsed expression is built**, and there is always enough fuel. -/
theorem meets_expression (s : State) : Meets expression s (BuildsExpression .expression s) := by
  refine Meets.of_apply_eq (expression_apply s) ((expressionParsersBuild s.fuel).expression s ?_)
  have := s.length_ahead_le
  unfold State.fuel
  omega

end MiniPascal.Parsing
