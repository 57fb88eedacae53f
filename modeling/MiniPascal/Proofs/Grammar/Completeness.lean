import MiniPascal.Proofs.Grammar.AcceptExpression
import MiniPascal.Proofs.Grammar.Soundness

/-!
# Exactly the sentences are parsed without a problem

**Parsers follow words** (`statementParsersAccept`). In front of the tokens of a statement, read
from the left, the parser of statements moves over some of them and leaves the rest of a statement
with no more than the open `IF`s. Lists are moved over as a whole.

**The sentences are what is accepted** (`program_accepts_iff`): nothing is reported if and only if
the stream starts with a sentence of the grammar. Then just that sentence is moved over, and the
tree belongs to a derivation of it.
-/

namespace MiniPascal.Parsing

open Grammar

variable {α β : Type}

/-! ## Parts of statements -/

section Parts

variable {s : State} {w rest : List Token}

theorem accepts_assignment {x a : Token} {u : List Token} (hx : x.kind = .identifier)
    (hc : a.kind = .symbol .colonEquals) (hu : IsExpression u) (he : EndsExpression rest)
    (ha : s.ahead = x :: a :: (u ++ rest)) : Accepts assignment s fun _ t => t.ahead = rest := by
  rw [assignment, accepts_currentLine]
  exact (accepts_variableNode ha hx).bind fun _ t ht =>
    accepts_consume_bind ht hc fun t ht =>
      (accepts_expression hu he ht).bind fun _ _ h => .pure h

theorem accepts_stringNode {x : Token} (ha : s.ahead = x :: w) :
    Accepts stringNode s fun _ t => t.ahead = w :=
  accepts_advance_bind ha fun _ h => .pure h

theorem accepts_writeArgument {x : Token} {n : Node} {required : Bool} (hx : Writable x n)
    (ha : s.ahead = x :: w) :
    Accepts (writeArgument required) s fun ns t => ns ≠ [] ∧ t.ahead = w := by
  rw [writeArgument, accepts_peek, State.current_of_ahead ha]
  cases hx with
  | name hk =>
    rw [hk]
    exact (accepts_variableNode ha hk).bind fun _ _ h => .pure ⟨by simp, h⟩
  | character hk | string hk =>
    rw [hk]
    exact (accepts_stringNode ha).bind fun _ _ h => .pure ⟨by simp, h⟩

/-- The tokens of a field in front of a closing parenthesis. -/
theorem accepts_writeField {r : Token} {x : Token} {v : List Token} {ns : List Node}
    (hv : Argument (x :: v) ns) (hr : r.kind = .symbol .rparen)
    (ha : s.ahead = v ++ r :: rest) : Accepts writeField s fun _ t => t.ahead = r :: rest := by
  have hne : ∀ {t : State}, t.ahead = r :: rest → t.current.kind ≠ .symbol .colon := by
    intro t ht
    rw [State.current_of_ahead ht, hr]
    decide
  rw [writeField, accepts_peek]
  cases hv with
  | plain =>
    rw [if_pos (hne ha)]
    exact .pure ha
  | width _ hc hi =>
    rw [State.current_of_ahead ha, if_neg (by simp [hc])]
    refine accepts_advance_bind ha fun t ht => (accepts_integerNode ht hi).bind fun _ u hu => ?_
    rw [accepts_peek, if_pos (hne hu)]
    exact .pure hu
  | places _ hc hi hd hj =>
    rw [State.current_of_ahead ha, if_neg (by simp [hc])]
    refine accepts_advance_bind ha fun t ht => (accepts_integerNode ht hi).bind fun _ u hu => ?_
    rw [accepts_peek, State.current_of_ahead hu, if_neg (by simp [hd])]
    exact accepts_advance_bind hu fun _ h => (accepts_integerNode h hj).bind fun _ _ h => .pure h

theorem accepts_writeArguments {l r : Token} {v : List Token} {ns : List Node} {required : Bool}
    (hl : l.kind = .symbol .lparen) (hv : Argument v ns) (hr : r.kind = .symbol .rparen)
    (ha : s.ahead = l :: (v ++ r :: rest)) :
    Accepts (writeArguments required) s fun _ t => t.ahead = rest := by
  obtain ⟨x, u, n, rfl, hx⟩ := hv.cons
  refine accepts_consume_bind ha hl fun t ht => (accepts_writeArgument hx ht).bind ?_
  rintro ns' t' ⟨hns, ht'⟩
  rw [if_neg (by simpa using hns)]
  exact (accepts_writeField hv hr ht').bind fun _ _ h =>
    accepts_consume_bind h hr fun _ h => .pure h

theorem accepts_writeArguments_nothing {l r : Token} (hl : l.kind = .symbol .lparen)
    (hr : r.kind = .symbol .rparen) (ha : s.ahead = l :: r :: rest) :
    Accepts (writeArguments false) s fun _ t => t.ahead = rest := by
  refine accepts_consume_bind ha hl fun t ht => ?_
  have hnone : Accepts (writeArgument false) t fun ns u => ns = [] ∧ u.ahead = r :: rest := by
    rw [writeArgument, accepts_peek, State.current_of_ahead ht, hr]
    exact .pure ⟨rfl, ht⟩
  refine hnone.bind ?_
  rintro ns u ⟨rfl, hu⟩
  exact accepts_consume_bind hu hr fun _ h => .pure h

theorem accepts_writeStatement {x l r : Token} {v : List Token} {ns : List Node}
    (hl : l.kind = .symbol .lparen) (hv : Argument v ns) (hr : r.kind = .symbol .rparen)
    (ha : s.ahead = x :: l :: (v ++ r :: rest)) :
    Accepts writeStatement s fun _ t => t.ahead = rest := by
  rw [writeStatement, accepts_currentLine]
  exact accepts_advance_bind ha fun t ht =>
    (accepts_writeArguments hl hv hr ht).bind fun _ _ h => .pure h

theorem accepts_writelnStatement {x l : Token} (hl : l.kind = .symbol .lparen)
    (hargs : ∀ {t : State}, t.ahead = l :: w →
      Accepts (writeArguments false) t fun _ t => t.ahead = rest)
    (ha : s.ahead = x :: l :: w) : Accepts writelnStatement s fun _ t => t.ahead = rest := by
  rw [writelnStatement, accepts_currentLine]
  refine accepts_advance_bind ha fun t ht => ?_
  rw [accepts_peek, State.current_of_ahead ht, if_pos hl]
  exact (hargs ht).bind fun _ _ h => .pure h

theorem accepts_writelnStatement_bare {x : Token} (hr : firstKind rest ≠ .symbol .lparen)
    (ha : s.ahead = x :: rest) : Accepts writelnStatement s fun _ t => t.ahead = rest := by
  rw [writelnStatement, accepts_currentLine]
  refine accepts_advance_bind ha fun t ht => ?_
  rw [accepts_peek, State.kind_of_ahead ht, if_neg hr]
  exact .pure ht

theorem accepts_caseConstant {c : Node} {u : List Token} (hu : Constant u c)
    (ha : s.ahead = u ++ rest) : Accepts caseConstant s fun _ t => t.ahead = rest := by
  rw [caseConstant, accepts_peek]
  cases hu with
  | integer hx =>
    rw [State.current_of_ahead ha, hx]
    exact accepts_integerNode ha hx
  | character hx =>
    rw [State.current_of_ahead ha, hx]
    exact accepts_stringNode ha
  | negated hx hy =>
    rw [State.current_of_ahead ha, hx]
    exact accepts_advance_bind ha fun t ht => (accepts_integerNode ht hy).bind fun _ _ h => .pure h

theorem accepts_moreConstants (fuel : Nat) {v : List Token} (hv : ConstantsRest v)
    (hr : firstKind rest = .symbol .colon) (ha : s.ahead = v ++ rest) :
    Accepts (moreConstants fuel) s fun _ t => t.ahead = rest := by
  induction fuel generalizing s v with
  | zero => exact .outOfFuel
  | succ fuel ih =>
    rw [moreConstants, accepts_peek]
    cases hv with
    | nil =>
      rw [State.kind_of_ahead ha, List.nil_append, hr, if_neg (by decide)]
      exact .pure ha
    | more hx hv =>
      obtain ⟨u, w, c, rfl, hu, hw⟩ := hv.first
      rw [List.cons_append, List.append_assoc] at ha
      rw [State.current_of_ahead ha, if_pos hx]
      exact accepts_advance_bind ha fun t ht => (accepts_caseConstant hu ht).bind fun _ _ h =>
        (ih hw h).bind fun _ _ h => .pure h

theorem accepts_caseConstants {v : List Token} {cs : List Node} (hv : Constants v cs)
    (hr : firstKind rest = .symbol .colon) (ha : s.ahead = v ++ rest) :
    Accepts caseConstants s fun _ t => t.ahead = rest := by
  obtain ⟨u, w, c, rfl, hu, hw⟩ := hv.first
  rw [List.append_assoc] at ha
  refine (accepts_caseConstant hu ha).bind fun _ t ht => ?_
  have hmore : Accepts (fun s => moreConstants s.fuel s) t fun _ t => t.ahead = rest :=
    .of_apply_eq (q := moreConstants t.fuel) rfl (accepts_moreConstants t.fuel hw hr ht)
  exact hmore.bind fun _ _ h => .pure h

theorem accepts_attempt {p : Parser α} {followers : TokenKind → Bool} {Q : α → State → Prop}
    (h : Accepts p s Q) : Accepts (attempt followers p) s fun o t => ∃ a, o = some a ∧ Q a t := by
  intro hs
  have hp := h hs
  unfold attempt
  cases he : p s with
  | ok a t =>
    rw [he] at hp
    exact ⟨hp.1, hp.2.1, a, rfl, hp.2.2⟩
  | error e t =>
    rw [he] at hp
    subst hp
    rfl

end Parts

/-! ## Between statements -/

theorem closesBlock_cases {kind : TokenKind} (h : closesBlock kind = true) :
    kind = .keyword .END ∨ kind = .keyword .UNTIL ∨ kind = .endOfFile := by
  unfold closesBlock at h
  split at h <;> simp_all

theorem followsStatement_cases {kind : TokenKind} (h : followsStatement kind = true) :
    kind = .symbol .semicolon ∨ closesBlock kind = true := by
  unfold followsStatement at h
  split at h <;> simp_all [closesBlock]

theorem followsStatement_of_closesBlock {kind : TokenKind} (h : closesBlock kind = true) :
    followsStatement kind = true := by
  obtain rfl | rfl | rfl := closesBlock_cases h <;> rfl

section Separators

variable {s : State} {x : Token} {v w rest : List Token}

theorem accepts_skipSemicolons : Accepts skipSemicolons s fun _ t =>
    t.ahead = s.ahead.dropWhile (·.kind == .symbol .semicolon) := by
  refine .of_meets (handles_skipSemicolons s) fun _ => meets_skipSemicolons fun t ht => ?_
  refine ⟨ht.skips.problems, ?_⟩
  have ha := ht.skips.ahead_eq_dropWhile (by simpa using ht.stops)
  simp only [bne, Bool.not_not] at ha
  exact ha

theorem dropWhile_semicolons (hv : Semicolons x v) (w : List Token) :
    (x :: (v ++ w)).dropWhile (·.kind == .symbol .semicolon) =
      w.dropWhile (·.kind == .symbol .semicolon) := by
  rw [← List.cons_append]
  exact List.dropWhile_append_of_pos fun y hy => by simpa using hv y hy

theorem dropWhile_eq_self (h : firstKind w ≠ .symbol .semicolon) :
    w.dropWhile (·.kind == .symbol .semicolon) = w := by
  cases w with
  | nil => rfl
  | cons x w => exact List.dropWhile_cons_of_neg (by simpa [firstKind] using h)

/-- Without the semicolons in front of it, a list is still one. -/
theorem exists_list_dropWhile (hw : Word .list w) (hr : firstKind rest ≠ .symbol .semicolon) :
    ∃ u, Word .list u ∧ (w ++ rest).dropWhile (·.kind == .symbol .semicolon) = u ++ rest := by
  induction w with
  | nil => exact ⟨[], hw, dropWhile_eq_self hr⟩
  | cons y w ih =>
    by_cases hy : y.kind = .symbol .semicolon
    · rw [List.cons_append, List.dropWhile_cons_of_pos (by simpa using hy)]
      exact ih (hw.list_tail hy)
    · exact ⟨y :: w, hw, dropWhile_eq_self hy⟩

theorem accepts_separate_semicolons (hv : Semicolons x v) (ha : s.ahead = x :: (v ++ w)) :
    Accepts separate s fun _ t => t.ahead = w.dropWhile (·.kind == .symbol .semicolon) := by
  rw [separate, accepts_peek, State.current_of_ahead ha, if_pos (hv x (List.mem_cons_self ..))]
  refine accepts_skipSemicolons.mono fun _ t ht => ?_
  rw [ht, ha, dropWhile_semicolons hv]

theorem accepts_separate_closed (hc : closesBlock s.current.kind = true) :
    Accepts separate s fun _ t => t.ahead = s.ahead := by
  rw [separate, accepts_peek]
  obtain h | h | h := closesBlock_cases hc <;> rw [h] <;> exact .pure rfl

theorem accepts_separateBranch_semicolons (hv : Semicolons x v) (ha : s.ahead = x :: (v ++ w)) :
    Accepts separateBranch s fun _ t => t.ahead = w.dropWhile (·.kind == .symbol .semicolon) := by
  rw [separateBranch, accepts_peek, State.current_of_ahead ha,
    if_pos (hv x (List.mem_cons_self ..))]
  refine accepts_skipSemicolons.mono fun _ t ht => ?_
  rw [ht, ha, dropWhile_semicolons hv]

theorem accepts_separateBranch_closed (hc : closesBlock s.current.kind = true) :
    Accepts separateBranch s fun _ t => t.ahead = s.ahead := by
  rw [separateBranch, accepts_peek]
  obtain h | h | h := closesBlock_cases hc <;> rw [h] <;> exact .pure rfl

end Separators

/-! ## Statements -/

/-- The rest of a statement is ahead, and then other tokens. -/
def State.InStatement (s : State) (k : Nat) (rest : List Token) : Prop :=
  ∃ v, Word (.rest k) v ∧ s.ahead = v ++ rest

/-- What follows a statement is an `ELSE` or what follows all of them. -/
theorem firstKind_rest {k : Nat} {v rest : List Token} (hv : Word (.rest k) v)
    (hr : followsStatement (firstKind rest) = true) :
    firstKind (v ++ rest) = .keyword .ELSE ∨ firstKind (v ++ rest) = .symbol .semicolon ∨
      closesBlock (firstKind (v ++ rest)) = true := by
  cases hv with
  | done => exact .inr (followsStatement_cases hr)
  | elseBranch he _ => exact .inl he

theorem endsExpression_of_firstKind {w : List Token} {kind : TokenKind} (h : firstKind w = kind)
    (hr : relation? kind = none) (hs : sumOperator? kind = none)
    (hp : productOperator? kind = none) : EndsExpression w := by
  subst h
  exact ⟨hr, hs, hp⟩

theorem endsExpression_cons {x : Token} {w : List Token} {kind : TokenKind} (h : x.kind = kind)
    (hr : relation? kind = none) (hs : sumOperator? kind = none)
    (hp : productOperator? kind = none) : EndsExpression (x :: w) :=
  endsExpression_of_firstKind h hr hs hp

theorem endsExpression_rest {k : Nat} {v rest : List Token} (hv : Word (.rest k) v)
    (hr : followsStatement (firstKind rest) = true) : EndsExpression (v ++ rest) := by
  obtain h | h | h := firstKind_rest hv hr
  · exact endsExpression_of_firstKind h rfl rfl rfl
  · exact endsExpression_of_firstKind h rfl rfl rfl
  · obtain h | h | h := closesBlock_cases h <;> exact endsExpression_of_firstKind h rfl rfl rfl

theorem endsExpression_direction {x : Token} {w : List Token} {d : Direction}
    (h : direction? x.kind = some d) : EndsExpression (x :: w) := by
  generalize hk : x.kind = kind at h
  cases direction?_eq_some h <;> exact endsExpression_cons hk rfl rfl rfl

/-- What the parsers of statements accept with some fuel, in front of tokens that can follow. -/
structure StatementParsersAccept (fuel : Nat) : Prop where
  statement : ∀ {s : State} {k : Nat} {w rest : List Token}, Word (.statement k) w →
    followsStatement (firstKind rest) = true → s.ahead = w ++ rest →
    Accepts (statementWith fuel) s fun _ t => t.InStatement k rest
  branch : ∀ {s : State} {k : Nat} {w rest : List Token}, Word (.statement k) w →
    followsStatement (firstKind rest) = true → s.ahead = w ++ rest →
    Accepts (branchWith fuel) s fun _ t => t.InStatement k rest
  list : ∀ {s : State} {w rest : List Token}, Word .list w →
    closesBlock (firstKind rest) = true → s.ahead = w ++ rest →
    Accepts (statementsWith fuel) s fun _ t => t.ahead = rest
  cases : ∀ {s : State} {w rest : List Token}, Word .cases w →
    closesBlock (firstKind rest) = true → s.ahead = w ++ rest →
    Accepts (caseBranchesWith fuel) s fun _ t => t.ahead = rest
  caseBranch : ∀ {s : State} {w rest : List Token}, Word .caseBranch w →
    followsStatement (firstKind rest) = true → s.ahead = w ++ rest →
    Accepts (caseBranchWith fuel) s fun _ t => t.ahead = rest

theorem State.InStatement.ahead_eq {s : State} {rest : List Token} (h : s.InStatement 0 rest) :
    s.ahead = rest := by
  obtain ⟨v, hv, ha⟩ := h
  cases hv with
  | done => exact ha

namespace StatementParsersAccept

variable {fuel : Nat} {s : State} {k : Nat} {w rest : List Token}

/-- The `ELSE` of the innermost open `IF` is taken where there is one. -/
theorem elseBranch (ih : StatementParsersAccept fuel) {line : Value} {condition first : Node}
    (hs : s.InStatement (k + 1) rest) (hr : followsStatement (firstKind rest) = true) :
    Accepts (do
      if (← peek) = .keyword .ELSE then
        let _ ← advance
        let second ← branchWith fuel
        return some { kind := .cond, line, children := [condition, first, second] }
      else return some { kind := .cond, line, children := [condition, first] } :
      Parser (Option Node)) s fun _ t => t.InStatement k rest := by
  obtain ⟨v, hv, ha⟩ := hs
  rw [accepts_peek]
  cases hv with
  | done =>
    have hne : s.current.kind ≠ .keyword .ELSE := by
      rw [State.kind_of_ahead ha]
      intro h
      rw [List.nil_append] at h
      rw [h] at hr
      cases hr
    rw [if_neg hne]
    exact .pure ⟨[], .done, ha⟩
  | elseBranch he hw =>
    rw [State.current_of_ahead ha, if_pos he]
    exact accepts_advance_bind ha fun t ht => (ih.branch hw hr ht).bind fun _ t ht => .pure ht

theorem statement_succ (ih : StatementParsersAccept fuel) (hw : Word (.statement k) w)
    (hr : followsStatement (firstKind rest) = true) (ha : s.ahead = w ++ rest) :
    Accepts (statementWith (fuel + 1)) s fun _ t => t.InStatement k rest := by
  -- The first token of a word decides which rule the parser takes, and it takes that of the word.
  rw [statementWith, accepts_peek]
  cases hw with
  | empty hw =>
    -- The parser stops here only at a token that may follow a statement.
    have hk := firstKind_rest hw hr
    rw [← State.kind_of_ahead ha] at hk
    obtain hk | hk | hk := hk
    · rw [hk]; exact .pure ⟨w, hw, ha⟩
    · rw [hk]; exact .pure ⟨w, hw, ha⟩
    · obtain hk | hk | hk := closesBlock_cases hk <;> rw [hk] <;> exact .pure ⟨w, hw, ha⟩
  | assign hx hc hu hv =>
    simp only [List.cons_append, List.append_assoc] at ha
    rw [State.current_of_ahead ha, hx]
    exact (accepts_assignment hx hc hu (endsExpression_rest hv hr) ha).bind fun _ _ h =>
      .pure ⟨_, hv, h⟩
  | compound hb hu he hv =>
    simp only [List.cons_append, List.append_assoc] at ha
    rw [State.current_of_ahead ha, hb]
    refine accepts_currentLine.2 (accepts_advance_bind ha fun t ht => ?_)
    refine (ih.list hu (by rw [firstKind, he]; rfl) ht).bind fun _ t ht => ?_
    exact accepts_expect_bind ht he fun t ht => .pure ⟨_, hv, ht⟩
  | repeatUntil hx hu hy hc hv =>
    simp only [List.cons_append, List.append_assoc] at ha
    rw [State.current_of_ahead ha, hx]
    refine accepts_currentLine.2 (accepts_advance_bind ha fun t ht => ?_)
    refine (ih.list hu (by rw [firstKind, hy]; rfl) ht).bind fun _ t ht => ?_
    rw [accepts_currentLine]
    exact accepts_consume_bind ht hy fun t ht =>
      (accepts_expression hc (endsExpression_rest hv hr) ht).bind fun _ t ht => .pure ⟨_, hv, ht⟩
  | whileDo hx hc hd hv =>
    simp only [List.cons_append, List.append_assoc] at ha
    rw [State.current_of_ahead ha, hx]
    refine accepts_currentLine.2 (accepts_advance_bind ha fun t ht => ?_)
    rw [accepts_currentLine]
    refine (accepts_expression hc (endsExpression_cons hd rfl rfl rfl) ht).bind
      fun _ t ht => ?_
    exact accepts_consume_bind ht hd fun t ht => (ih.branch hv hr ht).bind fun _ t ht => .pure ht
  | forDo hx hn hc hu hd hb ho hv =>
    simp only [List.cons_append, List.append_assoc] at ha
    rw [State.current_of_ahead ha, hx]
    refine accepts_currentLine.2 (accepts_advance_bind ha fun t ht => ?_)
    refine (accepts_assignment hn hc hu (endsExpression_direction hd) ht).bind fun _ t ht => ?_
    rw [accepts_peek, State.current_of_ahead ht, hd]
    refine accepts_advance_bind ht fun t ht => ?_
    refine (accepts_expression hb (endsExpression_cons ho rfl rfl rfl) ht).bind
      fun _ t ht => ?_
    exact accepts_consume_bind ht ho fun t ht => (ih.branch hv hr ht).bind fun _ t ht => .pure ht
  | ifThen hx hc hd hv =>
    simp only [List.cons_append, List.append_assoc] at ha
    rw [State.current_of_ahead ha, hx]
    refine accepts_currentLine.2 (accepts_advance_bind ha fun t ht => ?_)
    refine (accepts_expression hc (endsExpression_cons hd rfl rfl rfl) ht).bind
      fun _ t ht => ?_
    refine accepts_consume_bind ht hd fun t ht => (ih.branch hv hr ht).bind fun _ t ht => ?_
    -- What is left of the word is an `ELSE` branch, or nothing.
    exact ih.elseBranch ht hr
  | caseOf hx hc ho hu he hv =>
    simp only [List.cons_append, List.append_assoc] at ha
    rw [State.current_of_ahead ha, hx]
    refine accepts_currentLine.2 (accepts_advance_bind ha fun t ht => ?_)
    refine (accepts_expression hc (endsExpression_cons ho rfl rfl rfl) ht).bind
      fun _ t ht => ?_
    refine accepts_consume_bind ht ho fun t ht => ?_
    refine (ih.cases hu (by rw [firstKind, he]; rfl) ht).bind fun _ t ht => ?_
    exact accepts_expect_bind ht he fun t ht => .pure ⟨_, hv, ht⟩
  | write hx hl hu hp hv =>
    simp only [List.cons_append, List.append_assoc] at ha
    rw [State.current_of_ahead ha, hx]
    exact (accepts_writeStatement hl hu hp ha).bind fun _ t ht => .pure ⟨_, hv, ht⟩
  | writeln hx hl hu hp hv =>
    simp only [List.cons_append, List.append_assoc] at ha
    rw [State.current_of_ahead ha, hx]
    exact (accepts_writelnStatement hl (accepts_writeArguments hl hu hp) ha).bind
      fun _ t ht => .pure ⟨_, hv, ht⟩
  | writelnNothing hx hl hp hv =>
    rw [List.cons_append] at ha
    rw [State.current_of_ahead ha, hx]
    exact (accepts_writelnStatement hl (accepts_writeArguments_nothing hl hp) ha).bind
      fun _ t ht => .pure ⟨_, hv, ht⟩
  | writelnBare hx hv =>
    rw [List.cons_append] at ha
    rw [State.current_of_ahead ha, hx]
    -- No argument is looked for unless a parenthesis follows, and none can.
    refine (accepts_writelnStatement_bare ?_ ha).bind fun _ t ht => .pure ⟨_, hv, ht⟩
    obtain h | h | h := firstKind_rest hv hr
    · rw [h]; decide
    · rw [h]; decide
    · obtain h | h | h := closesBlock_cases h <;> rw [h] <;> decide

theorem branch_succ (ih : StatementParsersAccept fuel) (hw : Word (.statement k) w)
    (hr : followsStatement (firstKind rest) = true) (ha : s.ahead = w ++ rest) :
    Accepts (branchWith (fuel + 1)) s fun _ t => t.InStatement k rest := by
  rw [branchWith, accepts_currentLine]
  refine (ih.statement hw hr ha).bind fun o t ht => ?_
  cases o with
  | some n => exact .pure ht
  | none => exact .pure ht

theorem list_succ (ih : StatementParsersAccept fuel) (hw : Word .list w)
    (hr : closesBlock (firstKind rest) = true) (ha : s.ahead = w ++ rest) :
    Accepts (statementsWith (fuel + 1)) s fun _ t => t.ahead = rest := by
  rw [statementsWith, accepts_peek]
  split
  · next hc =>
    cases w with
    | nil => exact .pure ha
    | cons x w =>
      rw [State.current_of_ahead ha] at hc
      obtain hx | hx := hw.list_cons
      · obtain h | h | h := closesBlock_cases hc <;> rw [h] at hx <;> cases hx
      · rw [hx] at hc; cases hc
  · cases hw with
    | listLast hw =>
      refine (accepts_attempt (ih.statement hw (followsStatement_of_closesBlock hr) ha)).bind ?_
      rintro _ t ⟨_, _, ht⟩
      have hclosed : closesBlock t.current.kind = true := by
        rw [State.kind_of_ahead ht.ahead_eq, hr]
      refine (accepts_separate_closed hclosed).bind fun _ u hu => ?_
      -- Nothing is left of the list, and nothing is a list too.
      have hnil : Word .list [] := .listLast (.empty .done)
      exact (ih.list hnil hr (hu.trans ht.ahead_eq)).bind fun _ _ h => .pure h
    | @listMore x u v w hu hx hw =>
      simp only [List.cons_append, List.append_assoc] at ha
      have hsemi : followsStatement (firstKind (x :: (v ++ (w ++ rest)))) = true := by
        rw [firstKind, hx _ (List.mem_cons_self ..)]; rfl
      refine (accepts_attempt (ih.statement hu hsemi ha)).bind ?_
      rintro _ t ⟨_, _, ht⟩
      refine (accepts_separate_semicolons hx ht.ahead_eq).bind fun _ u hu => ?_
      have hne : firstKind rest ≠ .symbol .semicolon := by
        intro h; rw [h] at hr; cases hr
      obtain ⟨v, hv, hd⟩ := exists_list_dropWhile hw hne
      exact (ih.list hv hr (hu.trans hd)).bind fun _ _ h => .pure h

theorem cases_succ (ih : StatementParsersAccept fuel) (hw : Word .cases w)
    (hr : closesBlock (firstKind rest) = true) (ha : s.ahead = w ++ rest) :
    Accepts (caseBranchesWith (fuel + 1)) s fun _ t => t.ahead = rest := by
  rw [caseBranchesWith, accepts_peek]
  split
  · next hc =>
    cases w with
    | nil => exact .pure ha
    | cons x w =>
      rw [State.current_of_ahead ha] at hc
      have hx := hw.cases_cons
      obtain h | h | h := closesBlock_cases hc <;> rw [h] at hx <;> cases hx
  · next hc =>
    cases hw with
    | casesNone => rw [State.kind_of_ahead ha] at hc; exact (hc hr).elim
    | casesLast hw =>
      refine (accepts_attempt (ih.caseBranch hw (followsStatement_of_closesBlock hr) ha)).bind ?_
      rintro _ t ⟨_, _, ht⟩
      have hclosed : closesBlock t.current.kind = true := by rw [State.kind_of_ahead ht, hr]
      refine (accepts_separateBranch_closed hclosed).bind fun _ u hu => ?_
      exact (ih.cases .casesNone hr (hu.trans ht)).bind fun _ _ h => .pure h
    | @casesMore x u v w hu hx hw =>
      simp only [List.cons_append, List.append_assoc] at ha
      have hsemi : followsStatement (firstKind (x :: (v ++ (w ++ rest)))) = true := by
        rw [firstKind, hx _ (List.mem_cons_self ..)]; rfl
      refine (accepts_attempt (ih.caseBranch hu hsemi ha)).bind ?_
      rintro _ t ⟨_, _, ht⟩
      refine (accepts_separateBranch_semicolons hx ht).bind fun _ u hu => ?_
      -- The semicolons are skipped as a whole, since no branch starts with one.
      have hne : firstKind (w ++ rest) ≠ .symbol .semicolon := by
        intro h
        cases w with
        | nil => rw [List.nil_append] at h; rw [h] at hr; cases hr
        | cons y w =>
          have hy := hw.cases_cons
          rw [show y.kind = .symbol .semicolon from h] at hy
          cases hy
      exact (ih.cases hw hr (hu.trans (dropWhile_eq_self hne))).bind fun _ _ h => .pure h

theorem caseBranch_succ (ih : StatementParsersAccept fuel) (hw : Word .caseBranch w)
    (hr : followsStatement (firstKind rest) = true) (ha : s.ahead = w ++ rest) :
    Accepts (caseBranchWith (fuel + 1)) s fun _ t => t.ahead = rest := by
  cases hw with
  | @caseBranch c u v _ hu hc hv =>
    rw [caseBranchWith, accepts_currentLine]
    simp only [List.cons_append, List.append_assoc] at ha
    have hcolon : firstKind (c :: (v ++ rest)) = .symbol .colon := hc
    refine (accepts_caseConstants hu hcolon ha).bind fun _ t ht => ?_
    exact accepts_consume_bind ht hc fun t ht => (ih.branch hv hr ht).bind fun _ t ht =>
      .pure ht.ahead_eq

end StatementParsersAccept

/-- The parsers of statements accept words, whatever the fuel. -/
theorem statementParsersAccept (fuel : Nat) : StatementParsersAccept fuel := by
  induction fuel with
  | zero => constructor <;> intros <;> exact .outOfFuel
  | succ fuel ih =>
    exact ⟨ih.statement_succ, ih.branch_succ, ih.list_succ, ih.cases_succ, ih.caseBranch_succ⟩

/-! ## Programs -/

theorem accepts_header {s : State} {p x c : Token} {rest : List Token}
    (hp : p.kind = .keyword .PROGRAM) (hx : x.kind = .identifier)
    (hc : c.kind = .symbol .semicolon) (ha : s.ahead = p :: x :: c :: rest) :
    Accepts header s fun _ t => t.ahead = rest := by
  have hname : Accepts (do
      let _ ← consume (.keyword .PROGRAM) .expectingProgram
      let name ← consume .identifier .expectingProgramName
      enterName name.text
      return name : Parser Token) s fun _ t => t.ahead = c :: rest := by
    refine accepts_consume_bind ha hp fun t ht => accepts_consume_bind ht hx fun t ht hl => ?_
    exact ⟨⟨hl.strict, hl.ending⟩, rfl, (State.ahead_entered t x.text).trans ht⟩
  unfold header
  refine (accepts_attempt hname).bind ?_
  rintro _ t ⟨name, rfl, ht⟩
  have hsemi := accepts_consume (p := .missingSemicolon) (Q := fun _ u => u.ahead = rest) ht hc
    fun _ h => h
  refine (accepts_attempt hsemi).bind ?_
  rintro _ u ⟨_, _, hu⟩
  exact .pure hu

/-- **Completeness.** A program is moved over, and nothing is reported. -/
theorem accepts_program {s : State} {w rest : List Token} (hw : Sentence w)
    (ha : s.ahead = w ++ rest) : Accepts program s fun _ t => t.ahead = rest := by
  obtain ⟨n, hp, hx, hc, hb, hl, he, hd⟩ := hw
  simp only [List.cons_append, List.append_assoc, List.nil_append] at ha
  rw [program, accepts_currentLine]
  refine (accepts_header hp hx hc ha).bind fun _ t ht => ?_
  have hbody : Accepts body t fun _ u => u.ahead = rest := by
    rw [body, accepts_currentLine]
    refine accepts_expect_bind ht hb fun t ht => ?_
    have hlist : Accepts statements t fun _ u => u.ahead = _ :: _ :: rest :=
      .of_apply_eq (statements_apply t) <|
        (statementParsersAccept t.fuel).list hl.word (by rw [firstKind, he]; rfl) ht
    exact hlist.bind fun _ t ht => accepts_expect_bind ht he fun t ht =>
      accepts_expect_bind ht hd fun t ht => .pure ht
  exact hbody.bind fun _ _ h => .pure h

/-! ## The sentences are what is accepted -/

theorem State.lenient_start {items : List Reading} {line : Int} {table : Table} {s : State}
    (h : State.start ⟨items, .endOfFile line⟩ table false = .ok s) :
    s.Lenient ∧ s.problems = 0 := by
  refine ⟨⟨?_, line, State.ending_start h⟩, ?_⟩
  · cases items <;> obtain rfl := Except.ok.inj h <;> rfl
  · cases items <;> obtain rfl := Except.ok.inj h <;> rfl

theorem State.ahead_start {items : List Reading} {line : Int} {table : Table} {strict : Bool}
    {s : State} (h : State.start ⟨items, .endOfFile line⟩ table strict = .ok s) :
    s.ahead = (items.map (·.token)).takeWhile (·.kind != .endOfFile) := by
  cases items with
  | nil =>
    obtain rfl := Except.ok.inj h
    exact State.ahead_of_end rfl
  | cons r items =>
    obtain rfl := Except.ok.inj h
    rfl

/-- A sentence at the start of the stream is ahead of the first state. -/
theorem State.ahead_start_of_sentence {items : List Reading} {line : Int} {table : Table}
    {strict : Bool} {s : State} {w : List Token} (hw : Sentence w)
    (hpre : w <+: items.map (·.token))
    (h : State.start ⟨items, .endOfFile line⟩ table strict = .ok s) :
    ∃ rest, s.ahead = w ++ rest := by
  obtain ⟨n, hn⟩ := hw
  obtain ⟨rest, hrest⟩ := hpre
  rw [State.ahead_start h, ← hrest]
  exact ⟨_, List.takeWhile_append_of_pos fun x hx => by simpa using hn.ne_endOfFile x hx⟩

/-- Where parsing is after some tokens of a stream. -/
theorem Passed.position {items : List Reading} {line : Int} {table : Table} {strict : Bool}
    {s t : State} {w : List Token} (h : Passed w s t) (hne : items ≠ [])
    (hs : State.start ⟨items, .endOfFile line⟩ table strict = .ok s) :
    t.current = ((items.map (·.token)).drop w.length).headD (.endOfFile line) ∧
      t.stream = ⟨items.drop (w.length + 1), .endOfFile line⟩ := by
  obtain ⟨r, items, rfl⟩ := List.exists_cons_of_ne_nil hne
  obtain rfl := Except.ok.inj hs
  have hstream : t.stream = ⟨t.stream.items, t.stream.ending⟩ := rfl
  rw [hstream, h.items, h.ending]
  refine ⟨?_, rfl⟩
  rw [List.headD_eq_head?_getD, List.head?_drop]
  obtain hc | ⟨hlen, l, hl, hc⟩ := h.current
  · exact (congrArg (Option.getD · _) hc).symm
  · have hend : (.endOfFile line : Ending) = .endOfFile l := hl
    have hlength : items.length < w.length := hlen
    rw [hc, List.getElem?_eq_none (by simpa using Nat.succ_le_of_lt hlength)]
    cases hend
    rfl

/-- **The sentences of the grammar are what is accepted.** For every list of tokens, after which the
end of the text is given for ever, a program is parsed and a tree returned. Nothing is reported if
and only if the list starts with a sentence. Then just the sentence is moved over: the current token
is the one after it and the stream goes on behind that, and the tree is one of the sentence. -/
theorem program_accepts_iff (items : List Reading) (line : Int) (table : Table) :
    ∃ s n t, State.start ⟨items, .endOfFile line⟩ table false = .ok s ∧ program s = .ok n t ∧
      (t.problems = 0 ↔ ∃ w, w <+: items.map (·.token) ∧ Sentence w) ∧
      ∀ w, w <+: items.map (·.token) → Sentence w →
        Program w n ∧ t.current = ((items.map (·.token)).drop w.length).headD (.endOfFile line) ∧
          t.stream = ⟨items.drop (w.length + 1), .endOfFile line⟩ := by
  obtain ⟨s, hs⟩ := State.start_endOfFile items line table false
  obtain ⟨n, t, hn⟩ := program_eq_ok (State.ending_start hs)
  obtain ⟨hr, hb⟩ := (meets_program s).of_ok hn
  obtain ⟨hlenient, hzero⟩ := State.lenient_start hs
  -- The parser moves over a sentence without a word, whatever comes behind it.
  have hcomplete : ∀ w, w <+: items.map (·.token) → Sentence w →
      t.problems = 0 ∧ s.ahead = w ++ t.ahead := by
    intro w hpre hw
    obtain ⟨rest, ha⟩ := State.ahead_start_of_sentence hw hpre hs
    have hacc := accepts_program hw ha hlenient
    rw [hn] at hacc
    exact ⟨hacc.2.1.trans hzero, hacc.2.2 ▸ ha⟩
  refine ⟨s, n, t, hs, hn, ⟨fun hp => ?_, ?_⟩, ?_⟩
  · obtain ⟨w, hw, ha⟩ := hb.derived (hp.trans hzero.symm)
    refine ⟨w, ?_, n, hw⟩
    rw [State.ahead_start hs] at ha
    exact (List.prefix_append w t.ahead).trans (ha ▸ List.takeWhile_prefix _)
  · rintro ⟨w, hpre, hw⟩
    exact (hcomplete w hpre hw).1
  · intro w hpre hw
    obtain ⟨hp, ha⟩ := hcomplete w hpre hw
    obtain ⟨v, hv, hav⟩ := hb.derived (hp.trans hzero.symm)
    -- What was derived and the sentence leave the same tokens ahead, so they are the same.
    obtain rfl : v = w := List.append_cancel_right (hav.symm.trans ha)
    have hne : items ≠ [] := by
      rintro rfl
      cases List.prefix_nil.1 hpre
      cases hv
    exact ⟨hv, (hr.passed_of_ahead ha).position hne hs⟩

end MiniPascal.Parsing
