import MiniPascal.Proofs.Parsing.Tandem

/-!
# Every parser goes along with itself

For two parses in tandem, each parser of the grammar is run on both sides. It ends on both sides
with trees that resemble each other, or on both sides with a problem, unless the first parse goes on
alone. The fuel of the two parses may differ, since one stream may be longer.

A statement starts where the parses are abreast, and may end where they are parted; a list of
statements ends where they are abreast again (`statementParsersTogether`). Where parses are parted
between the branches of a selection, the first one finds a statement in place of a branch, and goes
on alone after that problem.
-/

namespace MiniPascal.Parsing

namespace Tandem

variable {α β : Type} {c : Tandem} {P R : State → Option State → Prop} {Q : α → β → Prop}

/-! ## Expressions -/

/-- The parsers of expressions go along with themselves, for any fuel of the two parses. -/
structure ExpressionParsersTogether (c : Tandem) (fuel fuel' : Nat) : Prop where
  expression : c.Together c.Abreast c.Tree c.Near (expressionWith fuel) (expressionWith fuel')
  simple : c.Together c.Abreast c.Tree c.Near
    (simpleExpressionWith fuel) (simpleExpressionWith fuel')
  sumRest {left left' : Node} : c.Tree left left' →
    c.Together c.Near c.Tree c.Near (sumRest fuel left) (sumRest fuel' left')
  term : c.Together c.Abreast c.Tree c.Near (termWith fuel) (termWith fuel')
  productRest {left left' : Node} : c.Tree left left' →
    c.Together c.Near c.Tree c.Near (productRest fuel left) (productRest fuel' left')
  factor : c.Together c.Abreast c.Tree c.Near (factorWith fuel) (factorWith fuel')

theorem together_inside {kind : TokenKind} (h : isInside kind = true) :
    c.Together (c.At kind) c.token c.Abreast advance advance :=
  together_step (isInside_iff.1 h).1 (isInside_iff.1 h).2.1

namespace ExpressionParsersTogether

variable {fuel fuel' : Nat}

theorem expression_succ (ih : ExpressionParsersTogether c fuel fuel') :
    c.Together c.Abreast c.Tree c.Near
      (expressionWith (fuel + 1)) (expressionWith (fuel' + 1)) := by
  rw [expressionWith, expressionWith]
  refine ih.simple.bind fun left left' hl => ?_
  refine together_peek_near (fun k => ?_) fun k hk => ?_
  · split
    · exact .pure hl fun _ _ h => h.near
    · next kind hkind =>
      refine (together_inside (isInside_of_relation? hkind)).bind fun op op' ho => ?_
      exact ih.simple.bind fun right right' hr =>
        .pure (Wording.resembles_operation kind ho (.cons hl (.cons hr .nil))) fun _ _ h => h
  · rw [eq_none_of_startsStatement isInside_of_relation? hk]
    exact .pure hl fun _ _ h => .inr h

theorem simple_succ (ih : ExpressionParsersTogether c fuel fuel') :
    c.Together c.Abreast c.Tree c.Near (simpleExpressionWith (fuel + 1))
      (simpleExpressionWith (fuel' + 1)) := by
  rw [simpleExpressionWith, simpleExpressionWith]
  exact ih.term.bind fun _ _ hl => ih.sumRest hl

theorem sumRest_succ (ih : ExpressionParsersTogether c fuel fuel') {left left' : Node}
    (hl : c.Tree left left') :
    c.Together c.Near c.Tree c.Near (Parsing.sumRest (fuel + 1) left)
      (Parsing.sumRest (fuel' + 1) left') := by
  rw [Parsing.sumRest, Parsing.sumRest]
  refine together_peek_near (fun k => ?_) fun k hk => ?_
  · split
    · exact .pure hl fun _ _ h => h.near
    · next kind hkind =>
      refine (together_inside (isInside_of_sumOperator? hkind)).bind fun op op' ho => ?_
      exact ih.term.bind fun right right' hr =>
        ih.sumRest (Wording.resembles_operation kind ho (.cons hl (.cons hr .nil)))
  · rw [eq_none_of_startsStatement isInside_of_sumOperator? hk]
    exact .pure hl fun _ _ h => .inr h

theorem term_succ (ih : ExpressionParsersTogether c fuel fuel') :
    c.Together c.Abreast c.Tree c.Near (termWith (fuel + 1)) (termWith (fuel' + 1)) := by
  rw [termWith, termWith]
  exact ih.factor.bind fun _ _ hl => ih.productRest hl

theorem productRest_succ (ih : ExpressionParsersTogether c fuel fuel')
    {left left' : Node} (hl : c.Tree left left') :
    c.Together c.Near c.Tree c.Near (Parsing.productRest (fuel + 1) left)
      (Parsing.productRest (fuel' + 1) left') := by
  rw [Parsing.productRest, Parsing.productRest]
  refine together_peek_near (fun k => ?_) fun k hk => ?_
  · split
    · exact .pure hl fun _ _ h => h.near
    · next kind hkind =>
      refine (together_inside (isInside_of_productOperator? hkind)).bind fun op op' ho => ?_
      exact ih.factor.bind fun right right' hr =>
        ih.productRest (Wording.resembles_operation kind ho (.cons hl (.cons hr .nil)))
  · rw [eq_none_of_startsStatement isInside_of_productOperator? hk]
    exact .pure hl fun _ _ h => .inr h

theorem factor_succ (ih : ExpressionParsersTogether c fuel fuel') :
    c.Together c.Abreast c.Tree c.Near (factorWith (fuel + 1)) (factorWith (fuel' + 1)) := by
  rw [factorWith, factorWith]
  refine together_peek fun k => ?_
  split
  · exact (together_variableNode false).pre fun _ _ h => h.near
  · exact (together_integerNode .expectingInteger).pre fun _ _ h => h.near
  · refine (together_advance (c.passesPlain rfl) (by simp)).bind fun _ _ ht => ?_
    exact .pure (Wording.resembles_nodeAt .real ht) fun _ _ h => h.near
  · refine (together_inside rfl).bind fun _ _ ht => ih.factor.bind fun _ _ hn => ?_
    exact .pure (Wording.resembles_operation .negate ht (.cons hn .nil)) fun _ _ h => h
  · refine (together_inside rfl).bind fun _ _ ht => ih.expression.bind fun _ _ hn => ?_
    exact .pure (Wording.resembles_operation .not ht (.cons hn .nil)) fun _ _ h => h
  · refine (together_inside rfl).bind fun _ _ _ => ih.expression.bind fun _ _ hn => ?_
    exact (together_consume_last _ rfl).bind fun _ _ _ => .pure hn fun _ _ h => h
  · exact together_fail _ fun _ _ h => h.abreast

end ExpressionParsersTogether

theorem expressionParsersTogether (fuel fuel' : Nat) :
    ExpressionParsersTogether c fuel fuel' := by
  induction fuel generalizing fuel' with
  | zero =>
    constructor
    all_goals intros; exact together_outOfFuel
  | succ fuel ih =>
    have hsucc (fuel' : Nat) : ExpressionParsersTogether c (fuel + 1) (fuel' + 1) :=
      ⟨(ih fuel').expression_succ, (ih fuel').simple_succ, (ih fuel').sumRest_succ,
        (ih fuel').term_succ, (ih fuel').productRest_succ, (ih fuel').factor_succ⟩
    cases fuel' with
    | succ fuel' => exact hsucc fuel'
    | zero =>
      exact ⟨(hsucc 0).expression.outOfFuel_beside, (hsucc 0).simple.outOfFuel_beside,
        fun h => ((hsucc 0).sumRest h).outOfFuel_beside, (hsucc 0).term.outOfFuel_beside,
        fun h => ((hsucc 0).productRest h).outOfFuel_beside, (hsucc 0).factor.outOfFuel_beside⟩

theorem together_expression : c.Together c.Abreast c.Tree c.Near expression expression :=
  .of_fuel expression_apply fun fuel fuel' => (expressionParsersTogether fuel fuel').expression

/-! ## Statements without statements in them -/

/-- An assignment goes along with its target, which a `FOR` loop copies. -/
theorem together_assignment :
    c.Together c.Abreast (fun n n' => c.Tree n n' ∧ c.Tree (controlOf n) (controlOf n')) c.Near
      assignment assignment := by
  unfold assignment
  refine (together_currentLine fun _ _ h => h).bind fun line line' hline => ?_
  have htarget : c.Together c.Near
      (fun n n' => c.Tree n n' ∧ c.Tree (copyVariable n) (copyVariable n')) c.Near
      (variableNode true) (variableNode true) :=
    -- The copy of a node that is made of a token is that node.
    together_variable true fun ht =>
      have hnode := Wording.resembles_operation .var ht .nil
      ⟨hnode, hnode⟩
  refine (htarget.pre fun _ _ h => h.near).bind fun target target' ht => ?_
  refine (together_consume_step _ rfl rfl).bind fun _ _ _ => ?_
  refine together_expression.bind fun value value' hv => .pure ⟨?_, ht.2⟩ fun _ _ h => h
  exact Wording.resembles_plain .assign hline (.cons ht.1 (.cons hv .nil))

theorem together_stringNode {kind : TokenKind} (h : isInside kind = true) :
    c.Together (c.At kind) c.Tree c.Near stringNode stringNode :=
  (together_inside h).bind fun _ _ ht =>
    .pure (Wording.resembles_nodeAt .string ht) fun _ _ h => h.near

theorem together_writeArgument (required : Bool) :
    c.Together c.Abreast (List.Forall₂ c.Tree) c.Near (writeArgument required)
      (writeArgument required) := by
  unfold writeArgument
  refine together_peek fun k => ?_
  split
  · refine ((together_variableNode false).pre fun _ _ h => h.near).bind fun _ _ hn => ?_
    exact .pure (.cons hn .nil) fun _ _ h => h
  · exact (together_stringNode rfl).bind fun _ _ hn => .pure (.cons hn .nil) fun _ _ h => h
  · exact (together_stringNode rfl).bind fun _ _ hn => .pure (.cons hn .nil) fun _ _ h => h
  · split
    · exact together_fail _ fun _ _ h => h.abreast
    · exact .pure .nil fun _ _ h => h.near

/-- What follows a colon, if there is one. -/
theorem together_afterColon {f g : Parser (List Node)} {ns ns' : List Node}
    (hs : List.Forall₂ c.Tree ns ns')
    (h : c.Together c.Abreast (List.Forall₂ c.Tree) c.Near f g) :
    c.Together c.Near (List.Forall₂ c.Tree) c.Near
      (do if (← peek) ≠ .symbol .colon then return ns else let _ ← advance; f)
      (do if (← peek) ≠ .symbol .colon then return ns' else let _ ← advance; g) := by
  refine together_peek_near (fun k => ?_) fun k hk => ?_
  · split
    · exact .pure hs fun _ _ h => h.near
    · next hk =>
      obtain rfl := not_not.1 hk
      exact (together_inside rfl).bind fun _ _ _ => h
  · rw [if_pos (by simp), if_pos (ne_of_startsStatement hk rfl)]
    exact .pure hs fun _ _ h => .inr h

theorem together_writeField :
    c.Together c.Near (List.Forall₂ c.Tree) c.Near writeField writeField := by
  refine together_afterColon .nil ?_
  refine ((together_integerNode _).pre fun _ _ h => h.near).bind fun width width' hw => ?_
  refine together_afterColon (.cons hw .nil) ?_
  refine ((together_integerNode _).pre fun _ _ h => h.near).bind fun _ _ hp => ?_
  exact .pure (.cons hw (.cons hp .nil)) fun _ _ h => h

theorem together_writeArguments (required : Bool) :
    c.Together c.Near (List.Forall₂ c.Tree) c.Near (writeArguments required)
      (writeArguments required) := by
  unfold writeArguments
  refine (together_consume_step _ rfl rfl).bind fun _ _ _ => ?_
  refine (together_writeArgument required).bind fun argument argument' ha => ?_
  have hclose : ∀ field field', List.Forall₂ c.Tree field field' →
      c.Together c.Near (List.Forall₂ c.Tree) c.Near
        (do let _ ← consume (.symbol .rparen) .missingRightParenthesis
            return argument ++ field)
        (do let _ ← consume (.symbol .rparen) .missingRightParenthesis
            return argument' ++ field') :=
    fun _ _ hf => (together_consume_last _ rfl).bind fun _ _ _ =>
      .pure (List.rel_append ha hf) fun _ _ h => h
  cases ha with
  | nil => exact hclose [] [] .nil
  | cons => exact together_writeField.bind hclose

theorem together_writeStatement :
    c.Together (c.At (.keyword .WRITE)) c.Tree c.Near writeStatement writeStatement := by
  refine (together_currentLine fun _ _ h => h.abreast).bind fun _ _ hline => ?_
  refine (together_step rfl rfl).bind fun _ _ _ => ?_
  refine ((together_writeArguments true).pre fun _ _ h => h.near).bind fun _ _ hs => ?_
  exact .pure (Wording.resembles_plain .write hline hs) fun _ _ h => h

theorem together_writelnStatement :
    c.Together (c.At (.keyword .WRITELN)) c.Tree c.Near writelnStatement writelnStatement := by
  refine (together_currentLine fun _ _ h => h.abreast).bind fun line line' hline => ?_
  refine ((together_advance (c.passesPlain rfl) (by simp)).post fun _ _ h => h.near).bind
    fun _ _ _ => ?_
  have hplain := Wording.resembles_plain .writeln hline .nil
  refine together_peek_near (fun k => ?_) fun k hk => ?_
  · split
    · refine ((together_writeArguments false).pre fun _ _ h => h.near).bind fun _ _ hs => ?_
      exact .pure (Wording.resembles_plain .writeln hline hs) fun _ _ h => h
    · exact .pure hplain fun _ _ h => h.near
  · rw [if_neg (by simp), if_neg (ne_of_startsStatement hk rfl)]
    exact .pure hplain fun _ _ h => .inr h

theorem together_caseConstant :
    c.Together c.Abreast c.Tree c.Near caseConstant caseConstant := by
  unfold caseConstant
  refine together_peek fun k => ?_
  split
  · exact (together_integerNode _).pre fun _ _ h => h.near
  · exact together_stringNode rfl
  · refine (together_inside rfl).bind fun _ _ ht => ?_
    refine ((together_integerNode _).pre fun _ _ h => h.near).bind fun _ _ hn => ?_
    exact .pure (Wording.resembles_operation .negate ht (.cons hn .nil)) fun _ _ h => h
  · exact together_fail _ fun _ _ h => h.abreast

theorem together_moreConstants (fuel fuel' : Nat) :
    c.Together c.Near (List.Forall₂ c.Tree) c.Near (moreConstants fuel) (moreConstants fuel') := by
  induction fuel generalizing fuel' with
  | zero => exact together_outOfFuel
  | succ fuel ih =>
    have hsucc (fuel' : Nat) : c.Together c.Near (List.Forall₂ c.Tree) c.Near
        (moreConstants (fuel + 1)) (moreConstants (fuel' + 1)) := by
      unfold moreConstants
      refine together_peek_near (fun k => ?_) fun k hk => ?_
      · split
        · next hk =>
          subst hk
          exact (together_inside rfl).bind fun _ _ _ => together_caseConstant.bind fun _ _ hc =>
            (ih fuel').bind fun _ _ hs => .pure (.cons hc hs) fun _ _ h => h
        · exact .pure .nil fun _ _ h => h.near
      · rw [if_neg (by simp), if_neg (ne_of_startsStatement hk rfl)]
        exact .pure .nil fun _ _ h => .inr h
    cases fuel' with
    | zero => exact (hsucc 0).outOfFuel_beside
    | succ fuel' => exact hsucc fuel'

theorem together_caseConstants :
    c.Together c.Abreast (List.Forall₂ c.Tree) c.Near caseConstants caseConstants := by
  refine together_caseConstant.bind fun _ _ hc => ?_
  have hmore : c.Together c.Near (List.Forall₂ c.Tree) c.Near (fun s => moreConstants s.fuel s)
      (fun s => moreConstants s.fuel s) :=
    .of_fuel (fun _ => rfl) together_moreConstants
  exact hmore.bind fun _ _ hs => .pure (.cons hc hs) fun _ _ h => h

/-! ## Between statements -/

/-- At the semicolons that the second parse has not got, it reports that they are missing. -/
theorem together_join :
    c.Together c.Apart (fun _ _ => True) c.Abreast skipSemicolons (complain .missingSemicolon) := by
  rintro s o ⟨t, rfl, hs⟩
  cases he : skipSemicolons s with
  | ok x u => exact .ok trivial (c.join hs he).2.2
  | error e u =>
    cases e with
    | problem d => exact absurd he (handles_skipSemicolons s d u)
    | unreadable fault => exact .halted (c.partedHalts hs)
    | outOfFuel => exact .outOfFuel

theorem together_separate (hb : c.blocks) :
    c.Together c.Near (fun _ _ => True) c.Abreast separate separate := by
  refine together_peek_near (fun k => ?_) fun k hk => ?_
  · split
    · next hk =>
      subst hk
      exact together_skipSemicolons hb
    split
    · exact (together_complain _ hb).pre fun _ _ h => h.abreast
    split
    · intro s o hs
      have hrecover {u : Token} (hu : c.token s.current u) :=
        together_recover hb (fun _ h => passes_of_not_stopsAt h) (c.diagnose .unexpectedToken hu)
          s o hs.1
      cases o with
      | none =>
        obtain ⟨u, hu⟩ := c.aloneToken s.current hs.1
        exact hrecover hu
      | some t => exact hrecover (c.current hs.1)
    · exact .pure trivial fun _ _ h => h.abreast
  · rw [if_pos rfl, if_neg (ne_of_startsStatement hk rfl), if_pos hk]
    exact together_join

/-- No branch of a selection starts here, and the problem leaves the first parse alone. -/
def Doomed (c : Tandem) (s : State) (_ : Option State) : Prop :=
  startsStatement s.current.kind = true ∧ ∀ d, c.alone (s.reported d)

/-- A branch of a selection may start here. -/
def BeforeBranch (c : Tandem) (s : State) (o : Option State) : Prop :=
  c.Abreast s o ∨ c.Doomed s o

theorem together_separateBranch (hb : c.blocks) :
    c.Together c.Near (fun _ _ => True) c.BeforeBranch separateBranch separateBranch := by
  refine together_peek_near (fun k => ?_) fun k hk => ?_
  · split
    · next hk =>
      subst hk
      exact (together_skipSemicolons hb).post fun _ _ h => .inl h
    split
    · exact ((together_complain _ hb).pre fun _ _ h => h.abreast).post fun _ _ h => .inl h
    · exact .pure trivial fun _ _ h => .inl h.abreast
  · -- The first parse moves over its semicolons and finds a statement after them.
    rintro s o ⟨t, rfl, hs⟩
    rw [if_pos rfl]
    cases he : skipSemicolons s with
    | ok x u => exact .alone (b := ()) trivial (.inr ⟨(c.join hs he).1, (c.join hs he).2.1⟩)
    | error e u =>
      cases e with
      | problem d => exact absurd he (handles_skipSemicolons s d u)
      | unreadable fault => exact .halted (c.partedHalts hs)
      | outOfFuel => exact .outOfFuel

theorem caseBranchWith_of_startsStatement {s : State} (h : startsStatement s.current.kind = true)
    (fuel : Nat) : caseBranchWith (fuel + 1) s =
      .error (.problem (s.current.diagnose .invalidCaseConstant)) s := by
  have hconstant : caseConstant s =
      .error (.problem (s.current.diagnose .invalidCaseConstant)) s := by
    have hpeek : peek s = .ok s.current.kind s := rfl
    rw [caseConstant, bind_apply, hpeek]
    obtain hk | ⟨word, hmem, hk⟩ := startsStatement_cases h
    · rw [hk]
      rfl
    · rw [hk]
      rfl
  have hline : currentLine s = .ok (.int s.current.line) s := rfl
  simp only [caseBranchWith, caseConstants, bind_apply, hline, hconstant]

/-- Where no branch can start, the first parse goes on alone. -/
theorem together_doomed (fuel : Nat) {q : Parser (Option Node)} :
    c.Together c.Doomed (Option.Rel c.Tree) c.Near
      (attempt followsStatement (caseBranchWith fuel)) q := by
  intro s o hs
  rw [attempt_apply]
  cases fuel with
  | zero =>
    rw [caseBranchWith]
    exact .outOfFuel
  | succ fuel =>
    rw [caseBranchWith_of_startsStatement hs.1]
    exact ((ends_recover_alone (hs.2 _)).beside _).imp fun _ _ h => h.near

/-! ## Statements -/

/-- The parsers of statements go along with themselves, for any fuel of the two parses. -/
structure StatementParsersTogether (c : Tandem) (fuel fuel' : Nat) : Prop where
  statement : c.Together c.Abreast (Option.Rel c.Tree) c.Near
    (statementWith fuel) (statementWith fuel')
  branch : c.Together c.Abreast c.Tree c.Near (branchWith fuel) (branchWith fuel')
  statements : c.blocks → c.Together c.Abreast (List.Forall₂ c.Tree) c.Abreast
    (statementsWith fuel) (statementsWith fuel')
  caseBranches : c.blocks → c.Together c.BeforeBranch (List.Forall₂ c.Tree) c.Abreast
    (caseBranchesWith fuel) (caseBranchesWith fuel')
  caseBranch : c.Together c.Abreast c.Tree c.Near (caseBranchWith fuel) (caseBranchWith fuel')

/-- A list can be parsed where its opening word is. -/
theorem Together.opening {kind : TokenKind} {p : Parser α} {q : Parser β}
    (hk : opensBlock kind = true) (h : c.blocks → c.Together (c.At kind) Q R p q) :
    c.Together (c.At kind) Q R p q := by
  intro s o hs
  have hb : c.blocks := by
    cases o with
    | none => exact c.aloneBlocks hs.1
    | some t => exact c.opens hs.1 (hs.2 ▸ hk)
  exact h hb s o hs

namespace StatementParsersTogether

variable {fuel fuel' : Nat}

theorem statement_succ (ih : StatementParsersTogether c fuel fuel') :
    c.Together c.Abreast (Option.Rel c.Tree) c.Near (statementWith (fuel + 1))
      (statementWith (fuel' + 1)) := by
  -- Abreast parses stand at tokens of one kind, so both take the same rule.
  have hat {k : TokenKind} : ∀ s o, c.At k s o → c.Abreast s o := fun _ _ h => h.abreast
  have hnear {k : TokenKind} : ∀ s o, c.After k s o → c.Near s o := fun _ _ h => h.near
  have hsame : ∀ s o, c.Near s o → c.Near s o := fun _ _ h => h
  rw [statementWith, statementWith]
  refine together_peek fun k => ?_
  split
  · -- An assignment.
    exact (together_assignment.pre hat).bind fun _ _ hn => .pure (.some hn.1) hsame
  · -- A compound statement.
    refine .opening rfl fun hb => (together_currentLine hat).bind fun _ _ hline => ?_
    refine (together_step rfl rfl).bind fun _ _ _ => (ih.statements hb).bind fun _ _ hs => ?_
    refine ((together_end hb).pre fun _ _ h => h.near).bind fun _ _ _ => ?_
    exact .pure (.some (Wording.resembles_plain .compound hline hs)) hsame
  · -- A `REPEAT` loop.
    refine .opening rfl fun hb => (together_currentLine hat).bind fun _ _ hline => ?_
    refine (together_step rfl rfl).bind fun _ _ _ => (ih.statements hb).bind fun _ _ hs => ?_
    refine (together_currentLine fun _ _ h => h).bind fun _ _ htest => ?_
    refine ((together_consume _ (c.passesUntil hb) (by simp)).post fun _ _ h => h.abreast rfl).bind
      fun _ _ _ => together_expression.bind fun _ _ hc => ?_
    have hlast := Wording.resembles_plain .test htest (.cons hc .nil)
    have hall := List.rel_append hs (.cons hlast .nil)
    exact .pure (.some (Wording.resembles_plain .loop hline hall)) hsame
  · exact together_writeStatement.bind fun _ _ hn => .pure (.some hn) hsame
  · exact together_writelnStatement.bind fun _ _ hn => .pure (.some hn) hsame
  · -- A `WHILE` loop.
    refine (together_currentLine hat).bind fun _ _ hline => ?_
    refine (together_step rfl rfl).bind fun _ _ _ => ?_
    refine (together_currentLine fun _ _ h => h).bind fun _ _ htest => ?_
    refine together_expression.bind fun _ _ hc => (together_consume_step _ rfl rfl).bind
      fun _ _ _ => ih.branch.bind fun _ _ hb => ?_
    exact .pure (.some (Wording.resembles_whileLoop hline htest hc hb)) hsame
  · -- A `FOR` loop.
    refine (together_currentLine hat).bind fun _ _ hline => ?_
    refine (together_step rfl rfl).bind fun _ _ _ => together_assignment.bind fun _ _ ha => ?_
    -- After the assignment the parses may be parted, and then neither finds a direction.
    refine together_peek_near (fun k => ?_) fun k hk => together_fail_apart _
    split
    · exact together_fail _ hat
    · next d hd =>
      refine (together_inside (isInside_of_direction? hd)).bind fun _ _ hword => ?_
      refine together_expression.bind fun _ _ hbound => (together_consume_step _ rfl rfl).bind
        fun _ _ _ => ih.branch.bind fun _ _ hbody => ?_
      exact .pure (.some (Wording.resembles_forLoop d hline (c.line hword) ha.1 ha.2 hbound hbody))
        hsame
  · -- An `IF` statement.
    refine (together_currentLine hat).bind fun _ _ hline => ?_
    refine (together_step rfl rfl).bind fun _ _ _ => together_expression.bind fun _ _ hc => ?_
    refine (together_consume_step _ rfl rfl).bind fun _ _ _ => ih.branch.bind fun _ _ hfirst => ?_
    have hplain := Wording.resembles_plain .cond hline (.cons hc (.cons hfirst .nil))
    refine together_peek_near (fun k => ?_) fun k hk => ?_
    · split
      · next hk =>
        subst hk
        refine (together_inside rfl).bind fun _ _ _ => ih.branch.bind fun _ _ hsecond => ?_
        have hbranches := List.Forall₂.cons hfirst (.cons hsecond .nil)
        exact .pure (.some (Wording.resembles_plain .cond hline (.cons hc hbranches))) hsame
      · exact .pure (.some hplain) fun _ _ h => h.near
    · rw [if_neg (by simp), if_neg (ne_of_startsStatement hk rfl)]
      exact .pure (.some hplain) fun _ _ h => .inr h
  · -- A selection.
    refine .opening rfl fun hb => (together_currentLine hat).bind fun _ _ hline => ?_
    refine (together_step rfl rfl).bind fun _ _ _ => together_expression.bind fun _ _ hv => ?_
    refine (together_consume_step _ rfl rfl).bind fun _ _ _ => ?_
    refine ((ih.caseBranches hb).pre fun _ _ h => .inl h).bind fun _ _ hs => ?_
    refine ((together_end hb).pre fun _ _ h => h.near).bind fun _ _ _ => ?_
    exact .pure (.some (Wording.resembles_plain .select hline (.cons hv hs))) hsame
  · split
    · exact .pure .none fun _ _ h => h.near
    · exact together_fail _ hat

theorem branch_succ (ih : StatementParsersTogether c fuel fuel') :
    c.Together c.Abreast c.Tree c.Near (branchWith (fuel + 1)) (branchWith (fuel' + 1)) := by
  rw [branchWith, branchWith]
  refine (together_currentLine fun _ _ h => h).bind fun _ _ hline => ?_
  refine ih.statement.bind fun o o' ho => ?_
  cases ho with
  | some hn => exact .pure hn fun _ _ h => h
  | none => exact .pure (Wording.resembles_plain .compound hline .nil) fun _ _ h => h

theorem statements_succ (ih : StatementParsersTogether c fuel fuel') (hb : c.blocks) :
    c.Together c.Abreast (List.Forall₂ c.Tree) c.Abreast (statementsWith (fuel + 1))
      (statementsWith (fuel' + 1)) := by
  rw [statementsWith, statementsWith]
  refine together_peek fun k => ?_
  split
  · exact .pure .nil fun _ _ h => h.abreast
  have hattempt := together_attempt hb (fun _ h => passes_of_not_stopsAt h) ih.statement
    fun _ _ h => h.near
  refine (hattempt.pre fun _ _ h => h.abreast).bind fun o o' ho => ?_
  have hfound : List.Forall₂ c.Tree o.join.toList o'.join.toList := by
    cases ho with
    | none => exact .nil
    | some hn =>
      cases hn with
      | none => exact .nil
      | some hn => exact .cons hn .nil
  refine (together_separate hb).bind fun _ _ _ => (ih.statements hb).bind fun _ _ hs => ?_
  exact .pure (List.rel_append hfound hs) fun _ _ h => h

theorem caseBranches_succ (ih : StatementParsersTogether c fuel fuel') (hb : c.blocks) :
    c.Together c.BeforeBranch (List.Forall₂ c.Tree) c.Abreast (caseBranchesWith (fuel + 1))
      (caseBranchesWith (fuel' + 1)) := by
  -- What comes after a branch does not depend on whether there was one.
  have hrest (o o' : Option Node) (ho : Option.Rel c.Tree o o') :
      c.Together c.Near (List.Forall₂ c.Tree) c.Abreast
        (do separateBranch
            let rest ← caseBranchesWith fuel
            return o.toList ++ rest)
        (do separateBranch
            let rest ← caseBranchesWith fuel'
            return o'.toList ++ rest) := by
    have hfound : List.Forall₂ c.Tree o.toList o'.toList := by
      cases ho with
      | none => exact .nil
      | some hn => exact .cons hn .nil
    refine (together_separateBranch hb).bind fun _ _ _ => (ih.caseBranches hb).bind
      fun _ _ hs => .pure (List.rel_append hfound hs) fun _ _ h => h
  rw [caseBranchesWith, caseBranchesWith]
  rintro s o (hs | hs)
  · refine together_peek (fun k => ?_) s o hs
    split
    · exact .pure .nil fun _ _ h => h.abreast
    have hattempt := together_attempt hb (fun _ h => passes_of_not_stopsAt h) ih.caseBranch
      fun _ _ h => h.near
    exact (hattempt.pre fun _ _ h => h.abreast).bind hrest
  -- The first parse is alone at the start of a statement, where no branch can be.
  · have hopen : ¬closesBlock s.current.kind = true := by
      obtain hk | ⟨word, hmem, hk⟩ := startsStatement_cases hs.1
      · simp [hk, closesBlock]
      · simp only [List.mem_cons, List.not_mem_nil, or_false] at hmem
        obtain rfl | rfl | rfl | rfl | rfl | rfl | rfl | rfl := hmem <;> simp [hk, closesBlock]
    refine Ends.beside ?_ _
    show c.Ends _ _ ((if closesBlock s.current.kind = true then _ else _ : Parser _) s) none
    rw [if_neg hopen]
    exact ((together_doomed fuel (q := Pure.pure none)).bind hrest) s none hs

theorem caseBranch_succ (ih : StatementParsersTogether c fuel fuel') :
    c.Together c.Abreast c.Tree c.Near
      (caseBranchWith (fuel + 1)) (caseBranchWith (fuel' + 1)) := by
  rw [caseBranchWith, caseBranchWith]
  refine (together_currentLine fun _ _ h => h).bind fun _ _ hline => ?_
  refine together_caseConstants.bind fun _ _ hs => (together_consume_step _ rfl rfl).bind
    fun _ _ _ => ih.branch.bind fun _ _ hb => ?_
  have hlabels := Wording.resembles_plain .selectConstants hline hs
  exact .pure (Wording.resembles_plain .selectBranch hline (.cons hlabels (.cons hb .nil)))
    fun _ _ h => h

end StatementParsersTogether

theorem statementParsersTogether (fuel fuel' : Nat) : StatementParsersTogether c fuel fuel' := by
  induction fuel generalizing fuel' with
  | zero =>
    constructor
    all_goals intros; exact together_outOfFuel
  | succ fuel ih =>
    have hsucc (fuel' : Nat) : StatementParsersTogether c (fuel + 1) (fuel' + 1) :=
      ⟨(ih fuel').statement_succ, (ih fuel').branch_succ, (ih fuel').statements_succ,
        (ih fuel').caseBranches_succ, (ih fuel').caseBranch_succ⟩
    cases fuel' with
    | succ fuel' => exact hsucc fuel'
    | zero =>
      exact ⟨(hsucc 0).statement.outOfFuel_beside, (hsucc 0).branch.outOfFuel_beside,
        fun hb => ((hsucc 0).statements hb).outOfFuel_beside,
        fun hb => ((hsucc 0).caseBranches hb).outOfFuel_beside,
        (hsucc 0).caseBranch.outOfFuel_beside⟩

theorem together_statements (hb : c.blocks) :
    c.Together c.Abreast (List.Forall₂ c.Tree) c.Abreast statements statements :=
  .of_fuel statements_apply fun fuel fuel' => (statementParsersTogether fuel fuel').statements hb

/-! ## Programs -/

theorem together_body (hb : c.blocks) : c.Together c.Abreast c.Tree c.Abreast body body := by
  unfold body
  refine (together_currentLine fun _ _ h => h).bind fun _ _ hline => ?_
  have hbegin : c.Together c.Abreast Eq c.Abreast (expect (.keyword .BEGIN) .expectingBegin)
      (expect (.keyword .BEGIN) .expectingBegin) :=
    ((together_expect _ hb (c.passesPlain rfl) (by simp) (by simp)).pre fun _ _ h => h.near).post
      fun _ _ h => h.abreast rfl
  refine hbegin.bind fun opened _ ho => ?_
  subst ho
  refine together_peek fun k => ?_
  split
  · exact .pure (Wording.resembles_plain .compound hline .nil) fun _ _ h => h.abreast
  refine ((together_statements hb).pre fun _ _ h => h.abreast).bind fun _ _ hs => ?_
  refine ((together_end hb).pre fun _ _ h => h.near).bind fun _ _ _ => ?_
  refine (together_expect _ hb (c.passesPlain rfl) (by simp) (by simp)).bind fun _ _ _ => ?_
  exact .pure (Wording.resembles_plain .compound hline hs) fun _ _ h => h.abreast rfl

/-- The header of a program, where the parses are never parted and every token is moved over. -/
theorem together_header (hb : c.blocks) (hpass : ∀ k, k ≠ .endOfFile → c.passes k)
    (hwhole : ∀ u v, ¬c.parted u v) :
    c.Together c.Abreast (Option.Rel c.token) c.Abreast header header := by
  have hnear : ∀ s o, c.Near s o → c.Abreast s o := by
    rintro s o (hs | ⟨t, rfl, hs⟩)
    · exact hs
    · exact absurd hs (hwhole s t)
  have hconsume (kind : TokenKind) (p : Problem) (hk : kind ≠ .endOfFile) :
      c.Together c.Abreast c.token c.Abreast (consume kind p) (consume kind p) :=
    (together_consume p (hpass kind hk) hk).post fun s o h => hnear s o h.near
  have henter {t u : Token} (h : c.token t u) : c.Together c.Abreast (fun _ _ => True) c.Abreast
      (enterName t.text) (enterName u.text) := by
    intro s o hs
    cases o with
    | none => exact .alone (b := ()) trivial (c.aloneEntered _ hs)
    | some v => exact .ok trivial (c.entered hs h)
  have hskip : ∀ k, stopsAt followsHeader k = false → c.passes k :=
    fun k h => hpass k (by simpa using (Bool.or_eq_false_iff.1 h).2)
  unfold header
  refine (together_attempt (Q := c.token) hb hskip ?_ fun _ _ h => h).bind fun o o' ho => ?_
  · refine (hconsume _ _ (by simp)).bind fun _ _ _ => ?_
    refine (hconsume _ _ (by simp)).bind fun _ _ ht => ?_
    exact (henter ht).bind fun _ _ _ => .pure ht fun _ _ h => h
  cases ho with
  | none => exact .pure .none fun _ _ h => h
  | some ht =>
    refine (together_attempt hb hskip (hconsume _ _ (by simp)) fun _ _ h => h).bind fun _ _ _ => ?_
    exact .pure (.some ht) fun _ _ h => h

/-- **Parsing a program goes along with itself**, if its header does. -/
theorem together_program (hb : c.blocks)
    (hline : c.Together P c.likeness.line P currentLine currentLine)
    (hheader : c.Together P (Option.Rel c.token) c.Abreast header header) :
    c.Together P c.Tree c.Abreast program program := by
  unfold program
  refine hline.bind fun _ _ hline => hheader.bind fun o o' ho => ?_
  refine (together_body hb).bind fun _ _ hn => .pure ?_ fun _ _ h => h
  cases ho with
  | none => exact Wording.resembles_plain .program hline (.cons hn .nil)
  | some ht => exact .mk hline (c.text ht) (by simp) (.cons hn .nil)

theorem program_ne_outOfFuel (s t : State) : program s ≠ .error .outOfFuel t :=
  fun h => ((meets_program s).of_error h).2

/-- Where the body of a program is parsed, so is the other one, unless the first parse is alone. -/
theorem body_of_abreast (hb : c.blocks) {s t u : State} (h : c.abreast s t) {n : Node}
    (hn : body s = .ok n u) :
    c.alone u ∨ ∃ n' v, body t = .ok n' v ∧ c.Tree n n' ∧ c.abreast u v := by
  have hends := together_body hb s (some t) h
  rw [hn] at hends
  exact hends.of_ok fun v hv => ((meets_body t).of_error hv).2

end Tandem

end MiniPascal.Parsing
