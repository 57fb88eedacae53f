import MiniPascal.Proofs.Parsing.BuildExpression

/-!
# The statements that are built

`BuildsStatement phrase s ns t` says that a phrase was parsed from the state `s`, built the trees
`ns` and ended in the state `t`. As for expressions, the rules speak of what is built only. What a
list or a selection loses by a problem is a gap in it, of which no more is said than that parsing
went on, a problem was reported, and the gap ends at a token that can follow a statement.

**Parsers build** (`statementParsersBuild`, `meets_program`): every result of a parser of
statements, and every program, is built by these rules.
-/

namespace MiniPascal.Parsing

open Grammar (Phrase assignmentNode repeatLoop caseBranchNode)

/-! ## Parts of statements -/

/-- An assignment to the variable that a token names. -/
inductive BuildsAssignment : State → Token → Node → State → Prop
  | mk {s t u v : State} {value : Node} :
      s.current.kind = .identifier → Moves s t → t.current.kind = .symbol .colonEquals →
      Moves (t.named s.current true) u → BuildsExpression .expression u value v →
      BuildsAssignment s s.current value v

/-- A variable or a quoted text to be written. -/
inductive BuildsArgument : State → Node → State → Prop
  | name {s t : State} :
      s.current.kind = .identifier → Moves s t →
      BuildsArgument s (operation .var s.current []) (t.named s.current false)
  | text {s t : State} :
      s.current.kind = .character ∨ s.current.kind = .string → Moves s t →
      BuildsArgument s (nodeAt .string s.current []) t

/-- A field width and a count of decimal places. -/
inductive BuildsField : State → List Node → State → Prop
  | none {s : State} : s.current.kind ≠ .symbol .colon → BuildsField s [] s
  | width {s t u : State} :
      s.current.kind = .symbol .colon → Moves s t → t.current.kind = .integer → Moves t u →
      u.current.kind ≠ .symbol .colon → BuildsField s [nodeAt .integer t.current []] u
  | places {s t u v w : State} :
      s.current.kind = .symbol .colon → Moves s t → t.current.kind = .integer → Moves t u →
      u.current.kind = .symbol .colon → Moves u v → v.current.kind = .integer → Moves v w →
      BuildsField s [nodeAt .integer t.current [], nodeAt .integer v.current []] w

/-- The arguments of a write statement in parentheses. -/
inductive BuildsArguments (required : Bool) : State → List Node → State → Prop
  | none {s t u : State} :
      required = false → s.current.kind = .symbol .lparen → Moves s t →
      t.current.kind = .symbol .rparen → Moves t u → BuildsArguments required s [] u
  | some {s t u v w : State} {argument : Node} {field : List Node} :
      s.current.kind = .symbol .lparen → Moves s t → BuildsArgument t argument u →
      BuildsField u field v → v.current.kind = .symbol .rparen → Moves v w →
      BuildsArguments required s (argument :: field) w

/-- A constant of a branch. -/
inductive BuildsConstant : State → Node → State → Prop
  | integer {s t : State} :
      s.current.kind = .integer → Moves s t → BuildsConstant s (nodeAt .integer s.current []) t
  | character {s t : State} :
      s.current.kind = .character → Moves s t → BuildsConstant s (nodeAt .string s.current []) t
  | negated {s t u : State} :
      s.current.kind = .symbol .minus → Moves s t → t.current.kind = .integer → Moves t u →
      BuildsConstant s (operation .negate s.current [nodeAt .integer t.current []]) u

/-- The constants of a branch. -/
inductive BuildsConstants : State → List Node → State → Prop
  | one {s t : State} {c : Node} :
      BuildsConstant s c t → t.current.kind ≠ .symbol .comma → BuildsConstants s [c] t
  | more {s t u v : State} {c : Node} {cs : List Node} :
      BuildsConstant s c t → t.current.kind = .symbol .comma → Moves t u →
      BuildsConstants u cs v → BuildsConstants s (c :: cs) v

/-! ## What stands between statements -/

/-- What is done after a statement of a list. -/
inductive Separates : State → State → Prop
  | semicolons {s t : State} :
      s.current.kind = .symbol .semicolon → SkipsSemicolons s t → Separates s t
  | missing {s : State} :
      startsStatement s.current.kind = true →
      Separates s (s.reported (s.current.diagnose .missingSemicolon))
  | stray {s t : State} :
      s.current.kind ≠ .symbol .semicolon → closesBlock s.current.kind = false →
      Recovers followsStatement s t → Separates s t
  | closed {s : State} : closesBlock s.current.kind = true → Separates s s

/-- What is done after a branch of a selection. -/
inductive SeparatesBranch : State → State → Prop
  | semicolons {s t : State} :
      s.current.kind = .symbol .semicolon → SkipsSemicolons s t → SeparatesBranch s t
  | missing {s : State} :
      startsConstant s.current.kind = true →
      SeparatesBranch s (s.reported (s.current.diagnose .missingSemicolon))
  | other {s : State} :
      s.current.kind ≠ .symbol .semicolon → startsConstant s.current.kind = false →
      SeparatesBranch s s

/-! ## Statements -/

/-- A phrase is parsed from a state to another, and builds trees. -/
inductive BuildsStatement : Phrase → State → List Node → State → Prop
  | empty {s : State} : followsEmpty s.current.kind = true → BuildsStatement .statement s [] s
  | assign {s t : State} {target : Token} {value : Node} :
      BuildsAssignment s target value t →
      BuildsStatement .statement s [assignmentNode target value] t
  | compound {s t u v : State} {ns : List Node} :
      s.current.kind = .keyword .BEGIN → Moves s t → BuildsStatement .list t ns u →
      Expects (.keyword .END) .expectingEnd u v →
      BuildsStatement .statement s
        [{ kind := .compound, line := .int s.current.line, children := ns }] v
  | repeatUntil {s t u v w : State} {ns : List Node} {condition : Node} :
      s.current.kind = .keyword .REPEAT → Moves s t → BuildsStatement .list t ns u →
      u.current.kind = .keyword .UNTIL → Moves u v → BuildsExpression .expression v condition w →
      BuildsStatement .statement s [repeatLoop s.current.line u.current.line ns condition] w
  | write {s t u : State} {ns : List Node} :
      s.current.kind = .keyword .WRITE → Moves s t → BuildsArguments true t ns u →
      BuildsStatement .statement s
        [{ kind := .write, line := .int s.current.line, children := ns }] u
  | writeln {s t u : State} {ns : List Node} :
      s.current.kind = .keyword .WRITELN → Moves s t → BuildsArguments false t ns u →
      BuildsStatement .statement s
        [{ kind := .writeln, line := .int s.current.line, children := ns }] u
  | writelnBare {s t : State} :
      s.current.kind = .keyword .WRITELN → Moves s t → t.current.kind ≠ .symbol .lparen →
      BuildsStatement .statement s [{ kind := .writeln, line := .int s.current.line }] t
  | whileDo {s t u v w : State} {condition body : Node} :
      s.current.kind = .keyword .WHILE → Moves s t → BuildsExpression .expression t condition u →
      u.current.kind = .keyword .DO → Moves u v → BuildsStatement .branch v [body] w →
      BuildsStatement .statement s
        [whileLoop (.int s.current.line) (.int t.current.line) condition body] w
  | forDo {s t u v w x y : State} {target : Token} {value bound body : Node} {d : Direction} :
      s.current.kind = .keyword .FOR → Moves s t → BuildsAssignment t target value u →
      direction? u.current.kind = some d → Moves u v → BuildsExpression .expression v bound w →
      w.current.kind = .keyword .DO → Moves w x → BuildsStatement .branch x [body] y →
      BuildsStatement .statement s
        [forLoop d (.int s.current.line) (.int u.current.line) (assignmentNode target value)
          (operation .var target []) bound body] y
  | ifThen {s t u v w : State} {condition first : Node} :
      s.current.kind = .keyword .IF → Moves s t → BuildsExpression .expression t condition u →
      u.current.kind = .keyword .THEN → Moves u v → BuildsStatement .branch v [first] w →
      w.current.kind ≠ .keyword .ELSE →
      BuildsStatement .statement s
        [{ kind := .cond, line := .int s.current.line, children := [condition, first] }] w
  | ifThenElse {s t u v w x y : State} {condition first second : Node} :
      s.current.kind = .keyword .IF → Moves s t → BuildsExpression .expression t condition u →
      u.current.kind = .keyword .THEN → Moves u v → BuildsStatement .branch v [first] w →
      w.current.kind = .keyword .ELSE → Moves w x → BuildsStatement .branch x [second] y →
      BuildsStatement .statement s
        [{ kind := .cond, line := .int s.current.line,
           children := [condition, first, second] }] y
  | caseOf {s t u v w x : State} {value : Node} {branches : List Node} :
      s.current.kind = .keyword .CASE → Moves s t → BuildsExpression .expression t value u →
      u.current.kind = .keyword .OF → Moves u v → BuildsStatement .cases v branches w →
      Expects (.keyword .END) .expectingEnd w x →
      BuildsStatement .statement s
        [{ kind := .select, line := .int s.current.line, children := value :: branches }] x
  | emptyBranch {s t : State} :
      BuildsStatement .statement s [] t →
      BuildsStatement .branch s [{ kind := .compound, line := .int s.current.line }] t
  | branch {s t : State} {n : Node} :
      BuildsStatement .statement s [n] t → BuildsStatement .branch s [n] t
  | listEnd {s : State} : closesBlock s.current.kind = true → BuildsStatement .list s [] s
  | listItem {s t u v : State} {ns ms : List Node} :
      closesBlock s.current.kind = false → BuildsStatement .statement s ns t → Separates t u →
      BuildsStatement .list u ms v → BuildsStatement .list s (ns ++ ms) v
  | listGap {s t u v : State} {ms : List Node} :
      closesBlock s.current.kind = false → Recovers followsStatement s t → Separates t u →
      BuildsStatement .list u ms v → BuildsStatement .list s ms v
  | caseBranch {s t u v : State} {cs : List Node} {body : Node} :
      BuildsConstants s cs t → t.current.kind = .symbol .colon → Moves t u →
      BuildsStatement .branch u [body] v →
      BuildsStatement .caseBranch s [caseBranchNode s.current.line cs body] v
  | casesEnd {s : State} : closesBlock s.current.kind = true → BuildsStatement .cases s [] s
  | casesItem {s t u v : State} {n : Node} {ms : List Node} :
      closesBlock s.current.kind = false → BuildsStatement .caseBranch s [n] t →
      SeparatesBranch t u → BuildsStatement .cases u ms v →
      BuildsStatement .cases s (n :: ms) v
  | casesGap {s t u v : State} {ms : List Node} :
      closesBlock s.current.kind = false → Recovers followsStatement s t →
      SeparatesBranch t u → BuildsStatement .cases u ms v → BuildsStatement .cases s ms v

/-! ## States reached -/

theorem Expects.reaches {kind : TokenKind} {p : Problem} {s t : State} (hp : p.stage = .parsing)
    (h : Expects kind p s t) : Reaches s t := by
  cases h with
  | found _ hm => exact hm.reaches
  | missing => exact .single (.report hp)

theorem BuildsAssignment.reaches {s t : State} {target : Token} {value : Node}
    (h : BuildsAssignment s target value t) : Reaches s t := by
  obtain ⟨hk, hm, -, hm', he⟩ := h
  exact (hm.reaches_named hk true).trans (hm'.reaches.trans he.reaches)

theorem BuildsArgument.reaches {s t : State} {n : Node} (h : BuildsArgument s n t) :
    Reaches s t := by
  cases h with
  | name hk hm => exact hm.reaches_named hk false
  | text _ hm => exact hm.reaches

theorem BuildsField.reaches {s t : State} {ns : List Node} (h : BuildsField s ns t) :
    Reaches s t := by
  cases h with
  | none => exact .refl
  | width _ hm _ hm' => exact hm.reaches.trans hm'.reaches
  | places _ h₁ _ h₂ _ h₃ _ h₄ =>
    exact h₁.reaches.trans (h₂.reaches.trans (h₃.reaches.trans h₄.reaches))

theorem BuildsArguments.reaches {required : Bool} {s t : State} {ns : List Node}
    (h : BuildsArguments required s ns t) : Reaches s t := by
  cases h with
  | none _ _ hm _ hm' => exact hm.reaches.trans hm'.reaches
  | some _ hm ha hf _ hm' =>
    exact hm.reaches.trans (ha.reaches.trans (hf.reaches.trans hm'.reaches))

theorem BuildsConstant.reaches {s t : State} {n : Node} (h : BuildsConstant s n t) :
    Reaches s t := by
  cases h with
  | integer _ hm | character _ hm => exact hm.reaches
  | negated _ hm _ hm' => exact hm.reaches.trans hm'.reaches

theorem BuildsConstants.reaches {s t : State} {ns : List Node} (h : BuildsConstants s ns t) :
    Reaches s t := by
  induction h with
  | one hc _ => exact hc.reaches
  | more hc _ hm _ ih => exact hc.reaches.trans (hm.reaches.trans ih)

theorem Separates.reaches {s t : State} (h : Separates s t) : Reaches s t := by
  cases h with
  | semicolons _ hs => exact hs.skips.reaches
  | missing => exact .single (.report rfl)
  | stray _ _ hr => exact hr.reaches
  | closed => exact .refl

theorem SeparatesBranch.reaches {s t : State} (h : SeparatesBranch s t) : Reaches s t := by
  cases h with
  | semicolons _ hs => exact hs.skips.reaches
  | missing => exact .single (.report rfl)
  | other => exact .refl

theorem BuildsStatement.reaches {phrase : Phrase} {s t : State} {ns : List Node}
    (h : BuildsStatement phrase s ns t) : Reaches s t := by
  induction h with
  | empty | listEnd | casesEnd => exact .refl
  | assign ha => exact ha.reaches
  | compound _ hm _ he ih => exact hm.reaches.trans (ih.trans (he.reaches rfl))
  | repeatUntil _ hm _ _ hm' he ih =>
    exact hm.reaches.trans (ih.trans (hm'.reaches.trans he.reaches))
  | write _ hm ha | writeln _ hm ha => exact hm.reaches.trans ha.reaches
  | writelnBare _ hm _ => exact hm.reaches
  | whileDo _ hm he _ hm' _ ih => exact hm.reaches.trans (he.reaches.trans (hm'.reaches.trans ih))
  | forDo _ hm ha _ hd he _ hm' _ ih =>
    exact hm.reaches.trans (ha.reaches.trans (hd.reaches.trans
      (he.reaches.trans (hm'.reaches.trans ih))))
  | ifThen _ hm he _ hm' _ _ ih => exact hm.reaches.trans (he.reaches.trans (hm'.reaches.trans ih))
  | ifThenElse _ hm he _ hm' _ _ hl _ ih₁ ih₂ =>
    exact hm.reaches.trans (he.reaches.trans (hm'.reaches.trans
      (ih₁.trans (hl.reaches.trans ih₂))))
  | caseOf _ hm he _ hm' _ hx ih =>
    exact hm.reaches.trans (he.reaches.trans (hm'.reaches.trans (ih.trans (hx.reaches rfl))))
  | emptyBranch _ ih | branch _ ih => exact ih
  | listItem _ _ hs _ ih₁ ih₂ | casesItem _ _ hs _ ih₁ ih₂ =>
    exact ih₁.trans (hs.reaches.trans ih₂)
  | listGap _ hr hs _ ih | casesGap _ hr hs _ ih => exact hr.reaches.trans (hs.reaches.trans ih)
  | caseBranch hc _ hm _ ih => exact hc.reaches.trans (hm.reaches.trans ih)

/-! ## Parsers of parts -/

theorem meets_assignment {s : State} {Q : Node → State → Prop}
    (h : ∀ target value t, BuildsAssignment s target value t → Q (assignmentNode target value) t) :
    Meets assignment s Q := by
  unfold assignment
  rw [meets_currentLine]
  refine Meets.bind (Q := fun n u => ∃ t, s.current.kind = .identifier ∧ Moves s t ∧
    n = operation .var s.current [] ∧ u = t.named s.current true)
    (meets_variableNode fun t hk hm => ⟨t, hk, hm, rfl, rfl⟩) ?_
  rintro n u - ⟨t, hk, hm, rfl, rfl⟩
  refine meets_consume_bind (by decide) rfl fun u hc hm' => ?_
  rw [State.current_named] at hc
  exact (meets_expression u).bind fun value v _ he => .pure (h _ _ _ ⟨hk, hm, hc, hm', he⟩)

theorem meets_stringNode {s : State} {Q : Node → State → Prop} (hc : s.current.kind ≠ .endOfFile)
    (h : ∀ t, Moves s t → Q (nodeAt .string s.current []) t) : Meets stringNode s Q :=
  meets_advance_bind hc fun t ht => .pure (h t ht)

/-- A missing argument is only accepted in front of the closing parenthesis. -/
theorem meets_writeArgument {required : Bool} {s : State} {Q : List Node → State → Prop}
    (hsome : ∀ n t, BuildsArgument s n t → Q [n] t)
    (hnone : required = false → s.current.kind = .symbol .rparen → Q [] s) :
    Meets (writeArgument required) s Q := by
  unfold writeArgument
  rw [meets_peek]
  split
  · exact Meets.bind (Q := fun n t => BuildsArgument s n t)
      (meets_variableNode fun t hk hm => .name hk hm) fun n t _ hn => .pure (hsome n t hn)
  · next hk =>
    exact Meets.bind (Q := fun n t => BuildsArgument s n t)
      (meets_stringNode (by rw [hk]; decide) fun t hm => .text (.inl hk) hm)
      fun n t _ hn => .pure (hsome n t hn)
  · next hk =>
    exact Meets.bind (Q := fun n t => BuildsArgument s n t)
      (meets_stringNode (by rw [hk]; decide) fun t hm => .text (.inr hk) hm)
      fun n t _ hn => .pure (hsome n t hn)
  · split
    · exact meets_fail rfl
    · next hc =>
      simp only [Bool.or_eq_true, decide_eq_true_eq, not_or, Bool.not_eq_true, not_not] at hc
      exact .pure (hnone hc.1 hc.2)

theorem meets_writeField {s : State} {Q : List Node → State → Prop}
    (h : ∀ ns t, BuildsField s ns t → Q ns t) : Meets writeField s Q := by
  unfold writeField
  rw [meets_peek]
  split
  · next hc => exact .pure (h _ _ (.none hc))
  · next hc =>
    rw [not_not] at hc
    refine meets_advance_bind (by rw [hc]; decide) fun t hm => ?_
    refine meets_integerNode_bind rfl fun u hi hm' => ?_
    rw [meets_peek]
    split
    · next hu => exact .pure (h _ _ (.width hc hm hi hm' hu))
    · next hu =>
      rw [not_not] at hu
      refine meets_advance_bind (by rw [hu]; decide) fun v hv => ?_
      exact meets_integerNode_bind rfl fun w hj hw =>
        .pure (h _ _ (.places hc hm hi hm' hu hv hj hw))

theorem meets_writeArguments {required : Bool} {s : State} {Q : List Node → State → Prop}
    (h : ∀ ns t, BuildsArguments required s ns t → Q ns t) :
    Meets (writeArguments required) s Q := by
  unfold writeArguments
  refine meets_consume_bind (by decide) rfl fun t hl hm => ?_
  refine Meets.bind (Q := fun ns u => (∃ n, ns = [n] ∧ BuildsArgument t n u) ∨
    (ns = [] ∧ u = t ∧ required = false ∧ t.current.kind = .symbol .rparen))
    (meets_writeArgument (fun n u hn => .inl ⟨n, rfl, hn⟩) fun hr hk => .inr ⟨rfl, rfl, hr, hk⟩) ?_
  rintro ns u - (⟨n, rfl, hn⟩ | ⟨rfl, rfl, hr, hk⟩)
  · refine Meets.bind (Q := fun fs v => BuildsField u fs v) (meets_writeField fun _ _ hf => hf) ?_
    exact fun fs v _ hf => meets_consume_bind (by decide) rfl fun w hw hm' =>
      .pure (h _ _ (.some hl hm hn hf hw hm'))
  · exact meets_consume_bind (by decide) rfl fun w hw hm' =>
      .pure (h _ _ (.none hr hl hm hw hm'))

theorem meets_caseConstant {s : State} {Q : Node → State → Prop}
    (h : ∀ n t, BuildsConstant s n t → Q n t) : Meets caseConstant s Q := by
  unfold caseConstant
  rw [meets_peek]
  split
  · exact meets_integerNode rfl fun t hk hm => h _ _ (.integer hk hm)
  · next hk =>
    exact meets_stringNode (by rw [hk]; decide) fun t hm => h _ _ (.character hk hm)
  · next hk =>
    refine meets_advance_bind (by rw [hk]; decide) fun t hm => ?_
    exact meets_integerNode_bind rfl fun u hi hm' => .pure (h _ _ (.negated hk hm hi hm'))
  · exact meets_fail rfl

/-- The constants after the first one, given that one. -/
theorem meets_moreConstants (fuel : Nat) {s₀ s : State} {c : Node}
    (hf : s.ahead.length + 1 ≤ fuel) (hc : BuildsConstant s₀ c s) :
    Meets (moreConstants fuel) s fun cs t => BuildsConstants s₀ (c :: cs) t := by
  induction fuel generalizing s₀ s c with
  | zero => omega
  | succ fuel ih =>
    rw [moreConstants, meets_peek]
    split
    · next hk =>
      refine meets_advance_bind (by rw [hk]; decide) fun t hm => ?_
      refine Meets.bind (Q := fun n u => BuildsConstant t n u)
        (meets_caseConstant fun _ _ hn => hn) ?_
      intro n u hu hn
      have := hm.length_ahead
      have := hu.length_ahead_le
      exact (ih (by omega) hn).bind fun cs v _ hv => .pure (.more hc hk hm hv)
    · next hk => exact .pure (.one hc hk)

theorem meets_caseConstants {s : State} {Q : List Node → State → Prop}
    (h : ∀ cs t, BuildsConstants s cs t → Q cs t) : Meets caseConstants s Q := by
  unfold caseConstants
  refine Meets.bind (Q := fun n u => BuildsConstant s n u) (meets_caseConstant fun _ _ hn => hn) ?_
  intro c t _ hc
  have hfuel : t.ahead.length + 1 ≤ t.fuel := by
    have := t.length_ahead_le
    unfold State.fuel
    omega
  have hrest : Meets (fun u => moreConstants u.fuel u) t
      fun cs u => BuildsConstants s (c :: cs) u :=
    Meets.of_apply_eq (q := moreConstants t.fuel) rfl (meets_moreConstants t.fuel hfuel hc)
  exact hrest.bind fun cs u _ hu => .pure (h _ _ hu)

theorem meets_separate {s : State} {Q : Unit → State → Prop} (h : ∀ t, Separates s t → Q () t) :
    Meets separate s Q := by
  unfold separate
  rw [meets_peek]
  split
  · next hk => exact meets_skipSemicolons fun t ht => h t (.semicolons hk ht)
  · next hk =>
    split
    · next hs => exact meets_complain rfl (h _ (.missing hs))
    · split
      · next hc =>
        rw [meets_get]
        exact meets_recover _ rfl fun t ht => h t (.stray hk (by simpa using hc) ht)
      · next hc => exact .pure (h s (.closed (by simpa using hc)))

theorem meets_separateBranch {s : State} {Q : Unit → State → Prop}
    (h : ∀ t, SeparatesBranch s t → Q () t) : Meets separateBranch s Q := by
  unfold separateBranch
  rw [meets_peek]
  split
  · next hk => exact meets_skipSemicolons fun t ht => h t (.semicolons hk ht)
  · next hk =>
    split
    · next hs => exact meets_complain rfl (h _ (.missing hs))
    · next hs => exact .pure (h s (.other hk (by simpa using hs)))

/-! ## Progress -/

theorem BuildsAssignment.length_ahead {s t : State} {target : Token} {value : Node}
    (h : BuildsAssignment s target value t) : t.ahead.length < s.ahead.length := by
  obtain ⟨-, hm, -, hm', he⟩ := h
  have h₁ := hm.length_ahead
  have h₂ := hm'.length_ahead
  rw [State.ahead_named] at h₂
  exact he.length_ahead.trans (h₂.trans h₁)

theorem BuildsConstant.length_ahead {s t : State} {n : Node} (h : BuildsConstant s n t) :
    t.ahead.length < s.ahead.length := by
  cases h with
  | integer _ hm | character _ hm => exact hm.length_ahead
  | negated _ hm _ hm' => exact hm'.length_ahead.trans hm.length_ahead

theorem BuildsConstants.length_ahead {s t : State} {ns : List Node} (h : BuildsConstants s ns t) :
    t.ahead.length < s.ahead.length := by
  induction h with
  | one hc _ => exact hc.length_ahead
  | more hc _ hm _ ih => exact ih.trans (hm.length_ahead.trans hc.length_ahead)

theorem BuildsStatement.length_ahead_of_caseBranch {s t : State} {ns : List Node}
    (h : BuildsStatement .caseBranch s ns t) : t.ahead.length < s.ahead.length := by
  cases h with
  | caseBranch hc _ hm hb =>
    exact hb.reaches.length_ahead_le.trans_lt (hm.length_ahead.trans hc.length_ahead)

/-- A statement is empty, or has at least one token. -/
theorem BuildsStatement.empty_or_length_ahead {s t : State} {ns : List Node}
    (h : BuildsStatement .statement s ns t) :
    (t = s ∧ followsEmpty s.current.kind = true) ∨ t.ahead.length < s.ahead.length := by
  have hmoved : ∀ {u : State}, Moves s u → Reaches u t → t.ahead.length < s.ahead.length :=
    fun hm hr => hr.length_ahead_le.trans_lt hm.length_ahead
  cases h with
  | empty hf => exact .inl ⟨rfl, hf⟩
  | assign ha => exact .inr ha.length_ahead
  | compound _ hm hl he => exact .inr (hmoved hm (hl.reaches.trans (he.reaches rfl)))
  | repeatUntil _ hm hl _ hm' hc =>
    exact .inr (hmoved hm (hl.reaches.trans (hm'.reaches.trans hc.reaches)))
  | write _ hm ha | writeln _ hm ha => exact .inr (hmoved hm ha.reaches)
  | writelnBare _ hm _ => exact .inr hm.length_ahead
  | whileDo _ hm hc _ hm' hb =>
    exact .inr (hmoved hm (hc.reaches.trans (hm'.reaches.trans hb.reaches)))
  | forDo _ hm ha _ hd hb _ hm' hy =>
    exact .inr (hmoved hm (ha.reaches.trans (hd.reaches.trans
      (hb.reaches.trans (hm'.reaches.trans hy.reaches)))))
  | ifThen _ hm hc _ hm' hb _ =>
    exact .inr (hmoved hm (hc.reaches.trans (hm'.reaches.trans hb.reaches)))
  | ifThenElse _ hm hc _ hm' hb _ hl hs =>
    exact .inr (hmoved hm (hc.reaches.trans (hm'.reaches.trans
      (hb.reaches.trans (hl.reaches.trans hs.reaches)))))
  | caseOf _ hm hv _ hm' hb he =>
    exact .inr (hmoved hm (hv.reaches.trans (hm'.reaches.trans
      (hb.reaches.trans (he.reaches rfl)))))

theorem stopsAt_followsStatement (k : TokenKind) :
    stopsAt followsStatement k = followsStatement k := by
  unfold stopsAt followsStatement
  split <;> simp_all

/-- A token that can follow a statement and closes no block is a semicolon. -/
theorem eq_semicolon_of_follows {k : TokenKind} (hf : followsStatement k = true)
    (hc : closesBlock k = false) : k = .symbol .semicolon := by
  unfold followsStatement at hf
  split at hf <;> simp_all [closesBlock]

theorem not_startsStatement_of_followsEmpty {k : TokenKind} (h : followsEmpty k = true) :
    ¬ startsStatement k = true := by
  unfold followsEmpty followsStatement at h
  split at h <;> simp_all <;> decide

/-- After a recovery, or at a semicolon, what separates statements has left the first token. -/
theorem Separates.length_ahead_of_recovers {s t u : State} (hc : closesBlock s.current.kind = false)
    (hr : Recovers followsStatement s t) (hs : Separates t u) :
    u.ahead.length < s.ahead.length := by
  have hstop := hr.stops
  rw [stopsAt_followsStatement] at hstop
  have hle := hs.reaches.length_ahead_le
  by_cases hk : t.current.kind = s.current.kind
  · have hsemi := eq_semicolon_of_follows hstop (hk ▸ hc)
    have htu : u.ahead.length < t.ahead.length := by
      cases hs with
      | semicolons _ hs => exact hs.skips.reaches.length_ahead_lt (hsemi ▸ hs.stops)
      | missing hm => rw [hsemi] at hm; cases hm
      | stray hne _ _ => exact absurd hsemi hne
      | closed hcl => rw [hsemi] at hcl; cases hcl
    exact htu.trans_le hr.reaches.length_ahead_le
  · exact hle.trans_lt (hr.reaches.length_ahead_lt hk)

theorem SeparatesBranch.length_ahead_of_recovers {s t u : State}
    (hc : closesBlock s.current.kind = false) (hr : Recovers followsStatement s t)
    (hs : SeparatesBranch t u) : u.ahead.length < s.ahead.length := by
  have hstop := hr.stops
  rw [stopsAt_followsStatement] at hstop
  have hle := hs.reaches.length_ahead_le
  by_cases hk : t.current.kind = s.current.kind
  · have hsemi := eq_semicolon_of_follows hstop (hk ▸ hc)
    have htu : u.ahead.length < t.ahead.length := by
      cases hs with
      | semicolons _ hs => exact hs.skips.reaches.length_ahead_lt (hsemi ▸ hs.stops)
      | missing hm => rw [hsemi] at hm; cases hm
      | other hne _ => exact absurd hsemi hne
    exact htu.trans_le hr.reaches.length_ahead_le
  · exact hle.trans_lt (hr.reaches.length_ahead_lt hk)

/-- **Every statement of a list makes progress**, also the empty one, since a token that follows it
is then moved over. -/
theorem Separates.length_ahead_of_statement {s t u : State} {ns : List Node}
    (hc : closesBlock s.current.kind = false) (hn : BuildsStatement .statement s ns t)
    (hs : Separates t u) : u.ahead.length < s.ahead.length := by
  rcases hn.empty_or_length_ahead with ⟨rfl, he⟩ | hlt
  · cases hs with
    | semicolons hk hs => exact hs.skips.reaches.length_ahead_lt (hk ▸ hs.stops)
    | missing hm => exact absurd hm (not_startsStatement_of_followsEmpty he)
    | stray hne _ hr =>
      refine hr.reaches.length_ahead_lt fun hk => hne ?_
      have hstop := hr.stops
      rw [stopsAt_followsStatement, hk] at hstop
      exact eq_semicolon_of_follows hstop hc
    | closed hcl => rw [hc] at hcl; cases hcl
  · exact hs.reaches.length_ahead_le.trans_lt hlt

/-! ## Parsers of statements -/

theorem kind_ne_of_direction? {k : TokenKind} {d : Direction} (h : direction? k = some d) :
    k ≠ .endOfFile := by
  rintro rfl; cases h

/-- What is shown of the parsers of statements by induction on the fuel, of which they need four for
each token ahead. -/
structure StatementParsersBuild (fuel : Nat) : Prop where
  statement (s : State) : 4 * s.ahead.length + 1 ≤ fuel →
    Meets (statementWith fuel) s fun o t => BuildsStatement .statement s o.toList t
  branch (s : State) : 4 * s.ahead.length + 2 ≤ fuel →
    Meets (branchWith fuel) s fun n t => BuildsStatement .branch s [n] t
  statements (s : State) : 4 * s.ahead.length + 2 ≤ fuel →
    Meets (statementsWith fuel) s (BuildsStatement .list s)
  caseBranches (s : State) : 4 * s.ahead.length + 2 ≤ fuel →
    Meets (caseBranchesWith fuel) s (BuildsStatement .cases s)
  caseBranch (s : State) : 4 * s.ahead.length + 1 ≤ fuel →
    Meets (caseBranchWith fuel) s fun n t => BuildsStatement .caseBranch s [n] t

namespace StatementParsersBuild

variable {fuel : Nat}

theorem statement_succ (ih : StatementParsersBuild fuel) (s : State)
    (hf : 4 * s.ahead.length + 1 ≤ fuel + 1) :
    Meets (statementWith (fuel + 1)) s fun o t => BuildsStatement .statement s o.toList t := by
  -- After the first token there is enough fuel for whatever follows.
  have hfuel : ∀ {t u : State}, Moves s t → Reaches t u → 4 * u.ahead.length + 2 ≤ fuel := by
    intro t u hm hr
    have := hm.length_ahead
    have := hr.length_ahead_le
    omega
  rw [statementWith, meets_peek]
  split
  · -- An assignment.
    exact Meets.bind (Q := fun n t => BuildsStatement .statement s [n] t)
      (meets_assignment fun _ _ _ ha => .assign ha) fun _ _ _ hn => .pure hn
  · -- A compound statement.
    next hk =>
    rw [meets_currentLine]
    refine meets_advance_bind (by rw [hk]; decide) fun t hm => ?_
    refine (ih.statements t (hfuel hm .refl)).bind fun ns u _ hn => ?_
    exact Meets.bind (Q := fun _ v => Expects (.keyword .END) .expectingEnd u v)
      (meets_expect (by decide) rfl fun _ _ _ he => he)
      fun _ v _ he => .pure (.compound hk hm hn he)
  · -- A `REPEAT` loop.
    next hk =>
    rw [meets_currentLine]
    refine meets_advance_bind (by rw [hk]; decide) fun t hm => ?_
    refine (ih.statements t (hfuel hm .refl)).bind fun ns u _ hn => ?_
    rw [meets_currentLine]
    refine meets_consume_bind (by decide) rfl fun v hu hm' => ?_
    exact (meets_expression v).bind fun c w _ hc => .pure (.repeatUntil hk hm hn hu hm' hc)
  · -- A `WRITE` statement.
    next hk =>
    refine Meets.bind (Q := fun n t => BuildsStatement .statement s [n] t) ?_
      fun _ _ _ hn => .pure hn
    unfold writeStatement
    rw [meets_currentLine]
    refine meets_advance_bind (by rw [hk]; decide) fun t hm => ?_
    exact Meets.bind (Q := fun ns u => BuildsArguments true t ns u)
      (meets_writeArguments fun _ _ ha => ha) fun ns u _ ha => .pure (.write hk hm ha)
  · -- A `WRITELN` statement.
    next hk =>
    refine Meets.bind (Q := fun n t => BuildsStatement .statement s [n] t) ?_
      fun _ _ _ hn => .pure hn
    unfold writelnStatement
    rw [meets_currentLine]
    refine meets_advance_bind (by rw [hk]; decide) fun t hm => ?_
    rw [meets_peek]
    split
    · exact Meets.bind (Q := fun ns u => BuildsArguments false t ns u)
        (meets_writeArguments fun _ _ ha => ha) fun ns u _ ha => .pure (.writeln hk hm ha)
    · next hp => exact .pure (.writelnBare hk hm hp)
  · -- A `WHILE` loop.
    next hk =>
    rw [meets_currentLine]
    refine meets_advance_bind (by rw [hk]; decide) fun t hm => ?_
    rw [meets_currentLine]
    refine (meets_expression t).bind fun c u hu hc => ?_
    refine meets_consume_bind (by decide) rfl fun v hd hm' => ?_
    exact (ih.branch v (hfuel hm (hu.trans hm'.reaches))).bind fun b w _ hb =>
      .pure (.whileDo hk hm hc hd hm' hb)
  · -- A `FOR` loop.
    next hk =>
    rw [meets_currentLine]
    refine meets_advance_bind (by rw [hk]; decide) fun t hm => ?_
    -- The node is needed in its form later, when its target is copied into the loop.
    refine Meets.bind (Q := fun n u => ∃ target value, n = assignmentNode target value ∧
      BuildsAssignment t target value u)
      (meets_assignment fun target value _ ha => ⟨target, value, rfl, ha⟩) ?_
    rintro n u hu ⟨target, value, rfl, ha⟩
    rw [meets_peek]
    split
    · exact meets_fail rfl
    · next d hd =>
      refine meets_advance_bind (kind_ne_of_direction? hd) fun v hv => ?_
      refine (meets_expression v).bind fun b w hw hb => ?_
      refine meets_consume_bind (by decide) rfl fun x hdo hm' => ?_
      -- Assignment, direction, bound and `DO` are behind when the body is parsed.
      have hx := hu.trans (hv.reaches.trans (hw.trans hm'.reaches))
      exact (ih.branch x (hfuel hm hx)).bind fun body y _ hy =>
        .pure (.forDo hk hm ha hd hv hb hdo hm' hy)
  · -- A conditional.
    next hk =>
    rw [meets_currentLine]
    refine meets_advance_bind (by rw [hk]; decide) fun t hm => ?_
    refine (meets_expression t).bind fun c u hu hc => ?_
    refine meets_consume_bind (by decide) rfl fun v hd hm' => ?_
    have hv := hu.trans hm'.reaches
    -- An `ELSE` that is here after the first branch belongs to this conditional.
    refine (ih.branch v (hfuel hm hv)).bind fun first w hw hf => ?_
    rw [meets_peek]
    split
    · next he =>
      refine meets_advance_bind (by rw [he]; decide) fun x hx => ?_
      exact (ih.branch x (hfuel hm (hv.trans (hw.trans hx.reaches)))).bind fun second y _ hy =>
        .pure (.ifThenElse hk hm hc hd hm' hf he hx hy)
    · next he => exact .pure (.ifThen hk hm hc hd hm' hf he)
  · -- A selection.
    next hk =>
    rw [meets_currentLine]
    refine meets_advance_bind (by rw [hk]; decide) fun t hm => ?_
    refine (meets_expression t).bind fun value u hu hv => ?_
    refine meets_consume_bind (by decide) rfl fun v ho hm' => ?_
    refine (ih.caseBranches v (hfuel hm (hu.trans hm'.reaches))).bind fun branches w _ hb => ?_
    exact Meets.bind (Q := fun _ x => Expects (.keyword .END) .expectingEnd w x)
      (meets_expect (by decide) rfl fun _ _ _ he => he)
      fun _ x _ he => .pure (.caseOf hk hm hv ho hm' hb he)
  -- Whatever else the token is: it may follow an empty statement, or it is none.
  · split
    · next he => exact .pure (.empty he)
    · exact meets_fail rfl

theorem branch_succ (ih : StatementParsersBuild fuel) (s : State)
    (hf : 4 * s.ahead.length + 2 ≤ fuel + 1) :
    Meets (branchWith (fuel + 1)) s fun n t => BuildsStatement .branch s [n] t := by
  rw [branchWith, meets_currentLine]
  refine (ih.statement s (by omega)).bind fun o t _ hn => ?_
  cases o with
  | some n => exact .pure (.branch hn)
  | none => exact .pure (.emptyBranch hn)

theorem statements_succ (ih : StatementParsersBuild fuel) (s : State)
    (hf : 4 * s.ahead.length + 2 ≤ fuel + 1) :
    Meets (statementsWith (fuel + 1)) s (BuildsStatement .list s) := by
  rw [statementsWith, meets_peek]
  split
  · next hc => exact .pure (.listEnd hc)
  · next hc =>
    rw [Bool.not_eq_true] at hc
    refine (meets_attempt (ih.statement s (by omega))).bind fun o t _ ho => ?_
    refine Meets.bind (Q := fun _ u => Separates t u) (meets_separate fun _ hs => hs) ?_
    intro _ u _ hs
    have hlt : u.ahead.length < s.ahead.length := by
      cases o with
      | some o => exact hs.length_ahead_of_statement hc ho
      | none => exact hs.length_ahead_of_recovers hc ho
    refine (ih.statements u (by omega)).bind fun ms v _ hv => ?_
    cases o with
    | some o => exact .pure (.listItem hc ho hs hv)
    | none => exact .pure (.listGap hc ho hs hv)

theorem caseBranches_succ (ih : StatementParsersBuild fuel) (s : State)
    (hf : 4 * s.ahead.length + 2 ≤ fuel + 1) :
    Meets (caseBranchesWith (fuel + 1)) s (BuildsStatement .cases s) := by
  rw [caseBranchesWith, meets_peek]
  split
  · next hc => exact .pure (.casesEnd hc)
  · next hc =>
    rw [Bool.not_eq_true] at hc
    refine (meets_attempt (ih.caseBranch s (by omega))).bind fun o t _ ho => ?_
    refine Meets.bind (Q := fun _ u => SeparatesBranch t u) (meets_separateBranch fun _ hs => hs) ?_
    intro _ u _ hs
    have hlt : u.ahead.length < s.ahead.length := by
      cases o with
      | some n => exact hs.reaches.length_ahead_le.trans_lt ho.length_ahead_of_caseBranch
      | none => exact hs.length_ahead_of_recovers hc ho
    refine (ih.caseBranches u (by omega)).bind fun ms v _ hv => ?_
    cases o with
    | some n => exact .pure (.casesItem hc ho hs hv)
    | none => exact .pure (.casesGap hc ho hs hv)

theorem caseBranch_succ (ih : StatementParsersBuild fuel) (s : State)
    (hf : 4 * s.ahead.length + 1 ≤ fuel + 1) :
    Meets (caseBranchWith (fuel + 1)) s fun n t => BuildsStatement .caseBranch s [n] t := by
  rw [caseBranchWith, meets_currentLine]
  refine Meets.bind (Q := fun cs t => BuildsConstants s cs t)
    (meets_caseConstants fun _ _ hc => hc) ?_
  intro cs t _ hc
  refine meets_consume_bind (by decide) rfl fun u hk hm => ?_
  have := hm.length_ahead
  have := hc.length_ahead
  exact (ih.branch u (by omega)).bind fun b v _ hb => .pure (.caseBranch hc hk hm hb)

end StatementParsersBuild

theorem statementParsersBuild (fuel : Nat) : StatementParsersBuild fuel := by
  induction fuel with
  | zero => constructor <;> intros <;> omega
  | succ fuel ih =>
    exact ⟨ih.statement_succ, ih.branch_succ, ih.statements_succ, ih.caseBranches_succ,
      ih.caseBranch_succ⟩

theorem statements_apply {N : Type} [TreeNode N] (s : State) :
    (statements : Parser (List N)) s = statementsWith s.fuel s := by
  rw [statements]

theorem meets_statements (s : State) : Meets statements s (BuildsStatement .list s) := by
  refine Meets.of_apply_eq (statements_apply s) ((statementParsersBuild s.fuel).statements s ?_)
  have := s.length_ahead_le
  unfold State.fuel
  omega

/-! ## Programs -/

/-- The header of a program, which gives its name if there is one. -/
inductive BuildsHeader : State → Option Token → State → Prop
  | whole {s t u v : State} :
      s.current.kind = .keyword .PROGRAM → Moves s t → t.current.kind = .identifier → Moves t u →
      u.current.kind = .symbol .semicolon → Moves (u.entered t.current.text) v →
      BuildsHeader s (some t.current) v
  | noSemicolon {s t u v : State} :
      s.current.kind = .keyword .PROGRAM → Moves s t → t.current.kind = .identifier → Moves t u →
      Recovers followsHeader (u.entered t.current.text) v → BuildsHeader s (some t.current) v
  | noName {s t : State} : Recovers followsHeader s t → BuildsHeader s none t

/-- The body of a program. -/
inductive BuildsBody : State → Node → State → Prop
  | nothing {s : State} :
      s.current.kind = .endOfFile →
      BuildsBody s { kind := .compound, line := .int s.current.line }
        (s.reported (s.current.diagnose .expectingBegin))
  | compound {s t u v w : State} {ns : List Node} :
      Expects (.keyword .BEGIN) .expectingBegin s t → BuildsStatement .list t ns u →
      Expects (.keyword .END) .expectingEnd u v → Expects (.symbol .period) .expectingPeriod v w →
      BuildsBody s { kind := .compound, line := .int s.current.line, children := ns } w

/-- The tree of a program. -/
def programNode (line : Int) (name : Option Token) (body : Node) : Node :=
  let text : Value := match name with
    | some t => .text t.text
    | none => .null
  { kind := .program, line := .int line, text, children := [body] }

/-- A program is parsed from a state to another, and builds a tree. -/
inductive BuildsProgram : State → Node → State → Prop
  | mk {s t u : State} {name : Option Token} {body : Node} :
      BuildsHeader s name t → BuildsBody t body u →
      BuildsProgram s (programNode s.current.line name body) u

theorem BuildsBody.reaches {s t : State} {n : Node} (h : BuildsBody s n t) : Reaches s t := by
  cases h with
  | nothing => exact .single (.report rfl)
  | compound h₁ h₂ h₃ h₄ =>
    exact (h₁.reaches rfl).trans (h₂.reaches.trans ((h₃.reaches rfl).trans (h₄.reaches rfl)))

theorem meets_header (s : State) : Meets header s (BuildsHeader s) := by
  unfold header
  have hname : Meets (do
      let _ ← consume (.keyword .PROGRAM) .expectingProgram
      let name ← consume .identifier .expectingProgramName
      enterName name.text
      return name) s fun name v => ∃ t u, s.current.kind = .keyword .PROGRAM ∧ Moves s t ∧
        t.current.kind = .identifier ∧ Moves t u ∧ name = t.current ∧
        v = u.entered t.current.text := by
    refine meets_consume_bind (by decide) rfl fun t hp hm => ?_
    refine meets_consume_bind (by decide) rfl fun u hi hm' => ?_
    have henter : Meets (enterName t.current.text) u fun _ v => v = u.entered t.current.text :=
      ⟨.single (.enter _), rfl⟩
    exact henter.bind fun _ v _ hv => .pure ⟨t, u, hp, hm, hi, hm', rfl, hv⟩
  refine (meets_attempt hname).bind fun o v _ ho => ?_
  cases o with
  | none => exact .pure (.noName ho)
  | some name =>
    obtain ⟨t, u, hp, hm, hi, hm', rfl, rfl⟩ := ho
    have hsemi : Meets (consume (.symbol .semicolon) .missingSemicolon)
        (u.entered t.current.text) fun _ w => u.current.kind = .symbol .semicolon ∧
          Moves (u.entered t.current.text) w :=
      meets_consume (by decide) rfl fun w hk hw => ⟨hk, hw⟩
    refine (meets_attempt hsemi).bind fun o w _ ho => ?_
    cases o with
    | none => exact .pure (.noSemicolon hp hm hi hm' ho)
    | some _ => exact .pure (.whole hp hm hi hm' ho.1 ho.2)

theorem meets_body (s : State) : Meets body s (BuildsBody s) := by
  unfold body
  rw [meets_currentLine]
  refine Meets.bind (Q := fun b t => (b = true ↔ s.current.kind = .keyword .BEGIN) ∧
    Expects (.keyword .BEGIN) .expectingBegin s t)
    (meets_expect (by decide) rfl fun _ _ hb he => ⟨hb, he⟩) ?_
  rintro opened t - ⟨hb, he⟩
  rw [meets_peek]
  split
  · next hc =>
    simp only [Bool.and_eq_true, Bool.not_eq_true', decide_eq_true_eq] at hc
    cases he with
    | found hk _ => simp [hb.2 hk] at hc
    | missing _ => exact .pure (.nothing hc.2)
  · refine (meets_statements t).bind fun ns u _ hn => ?_
    refine Meets.bind (Q := fun _ v => Expects (.keyword .END) .expectingEnd u v)
      (meets_expect (by decide) rfl fun _ _ _ h => h) fun _ v _ hv => ?_
    exact Meets.bind (Q := fun _ w => Expects (.symbol .period) .expectingPeriod v w)
      (meets_expect (by decide) rfl fun _ _ _ h => h) fun _ w _ hw => .pure (.compound he hn hv hw)

/-- **Every parsed program is built.** -/
theorem meets_program (s : State) : Meets program s (BuildsProgram s) := by
  unfold program
  rw [meets_currentLine]
  refine (meets_header s).bind fun name t _ hh => ?_
  exact (meets_body t).bind fun b u _ hb => .pure (.mk hh hb)

end MiniPascal.Parsing
