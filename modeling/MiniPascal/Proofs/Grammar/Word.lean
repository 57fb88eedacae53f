import MiniPascal.Proofs.Grammar.Sentence

/-!
# Sentences read from the left

The grammar is ambiguous where one phrase can end earlier or later, and a parser that always goes on
as far as it can may leave a derivation at such a place. So the sentences are described again, by
rules that read tokens from the left and only count what is still open.

**Expressions** (`Chain`). Operands alternate with operators. Each expression may have one relation,
and each `NOT` opens another one, which reaches to the end of those around it. So only the number of
expressions matters that are open and have no relation yet. A relation uses the innermost of them.

**Statements** (`Word`). An `ELSE` needs an open `IF`, and it can be given to the innermost one. So
only the number of open ones matters.

Every derivation gives such a reading (`Expression.chain`, `Statement.word`): what it leaves open
where it ends a phrase early can stay open, since more that is open never hurts.
-/

namespace MiniPascal.Grammar

open Parsing

/-! ## Signs -/

theorem RelationSign.relation? {k : TokenKind} {r : Relation} (h : RelationSign k r) :
    relation? k = some (.relation r) := by
  cases h <;> rfl

theorem SumSign.sumOperator? {k : TokenKind} {a : Arithmetic} (h : SumSign k a) :
    sumOperator? k = some (.arithmetic a) := by
  cases h <;> rfl

theorem ProductSign.productOperator? {k : TokenKind} {kind : Kind} (h : ProductSign k kind) :
    productOperator? k = some kind := by
  cases h <;> rfl

theorem DirectionWord.direction? {k : TokenKind} {d : Direction} (h : DirectionWord k d) :
    direction? k = some d := by
  cases h <;> rfl

/-! ## Expressions -/

/-- A place in an expression. -/
inductive Place where
  /-- An operand comes next. -/
  | operand
  /-- An operand has just ended. -/
  | rest

/-- The tokens from a place to the end of an expression, where so many of the open expressions can
still have a relation. -/
inductive Chain : Place → Nat → List Token → Prop
  | name {x : Token} {k : Nat} {w : List Token} :
      x.kind = .identifier → Chain .rest k w → Chain .operand k (x :: w)
  | integer {x : Token} {k : Nat} {w : List Token} :
      x.kind = .integer → Chain .rest k w → Chain .operand k (x :: w)
  | real {x : Token} {k : Nat} {w : List Token} :
      x.kind = .real → Chain .rest k w → Chain .operand k (x :: w)
  | negate {x : Token} {k : Nat} {w : List Token} :
      x.kind = .symbol .minus → Chain .operand k w → Chain .operand k (x :: w)
  | not {x : Token} {k : Nat} {w : List Token} :
      x.kind = .keyword .NOT → Chain .operand (k + 1) w → Chain .operand k (x :: w)
  | paren {x y : Token} {k : Nat} {u w : List Token} :
      x.kind = .symbol .lparen → Chain .operand 1 u → y.kind = .symbol .rparen →
      Chain .rest k w → Chain .operand k (x :: u ++ y :: w)
  | done {k : Nat} : Chain .rest k []
  | sum {x : Token} {k : Nat} {w : List Token} {kind : Kind} :
      sumOperator? x.kind = some kind → Chain .operand k w → Chain .rest k (x :: w)
  | product {x : Token} {k : Nat} {w : List Token} {kind : Kind} :
      productOperator? x.kind = some kind → Chain .operand k w → Chain .rest k (x :: w)
  | relation {x : Token} {k : Nat} {w : List Token} {kind : Kind} :
      relation? x.kind = some kind → Chain .operand k w → Chain .rest (k + 1) (x :: w)

/-- More open expressions never hurt. -/
theorem Chain.succ {place : Place} {k : Nat} {w : List Token} (h : Chain place k w) :
    Chain place (k + 1) w := by
  induction h with
  | name hk _ ih => exact .name hk ih
  | integer hk _ ih => exact .integer hk ih
  | real hk _ ih => exact .real hk ih
  | negate hk _ ih => exact .negate hk ih
  | not hk _ ih => exact .not hk ih
  | paren hx hu hy _ _ ih => exact .paren hx hu hy ih
  | done => exact .done
  | sum ho _ ih => exact .sum ho ih
  | product ho _ ih => exact .product ho ih
  | relation ho _ ih => exact .relation ho ih

/-- How many relations an expression of a level can have outside of its operands. -/
def Level.relations : Level → Nat
  | .expression => 1
  | _ => 0

/-- Every derivation of an expression can be read from the left, whatever follows it. -/
theorem Expression.chain {level : Level} {w : List Token} {n : Node} (h : Expression level w n)
    {k : Nat} {v : List Token} (hv : Chain .rest k v) :
    Chain .operand (k + level.relations) (w ++ v) := by
  induction h generalizing k v with
  | simple _ ih => exact (ih hv).succ
  | relation _ hr _ ih₁ ih₂ =>
    rw [List.append_assoc]
    exact ih₁ (.relation hr.relation? (ih₂ hv))
  | term _ ih | factor _ ih => exact ih hv
  | sum _ ha _ ih₁ ih₂ =>
    rw [List.append_assoc]
    exact ih₁ (.sum ha.sumOperator? (ih₂ hv))
  | product _ hp _ ih₁ ih₂ =>
    rw [List.append_assoc]
    exact ih₁ (.product hp.productOperator? (ih₂ hv))
  | name hk => exact .name hk hv
  | integer hk => exact .integer hk hv
  | real hk => exact .real hk hv
  | negate hk _ ih => exact .negate hk (ih hv)
  | not hk _ ih => exact .not hk (ih hv)
  | paren hx _ hy ih =>
    rw [List.append_assoc]
    have hu := ih (k := 0) (v := []) .done
    rw [List.append_nil] at hu
    exact .paren hx hu hy hv

/-- The tokens are an expression, read from the left. -/
abbrev IsExpression (w : List Token) : Prop := Chain .operand 1 w

theorem Expression.isExpression {w : List Token} {n : Node} (h : Expression .expression w n) :
    IsExpression w := by
  have hw := h.chain (k := 0) (v := []) .done
  rwa [List.append_nil] at hw

/-! ## Parts of statements -/

theorem Argument.cons {w : List Token} {ns : List Node} (h : Argument w ns) :
    ∃ x v n, w = x :: v ∧ Writable x n := by
  cases h with
  | plain hx | width hx | places hx => exact ⟨_, _, _, rfl, hx⟩

/-- What can stand between the first constant of a branch and the colon. -/
inductive ConstantsRest : List Token → Prop
  | nil : ConstantsRest []
  | more {x : Token} {w : List Token} {cs : List Node} :
      x.kind = .symbol .comma → Constants w cs → ConstantsRest (x :: w)

theorem Constants.first {w : List Token} {cs : List Node} (h : Constants w cs) :
    ∃ u v c, w = u ++ v ∧ Constant u c ∧ ConstantsRest v := by
  cases h with
  | one hc => exact ⟨w, [], _, by simp, hc, .nil⟩
  | more hc hx hv => exact ⟨_, _, _, rfl, hc, .more hx hv⟩

/-! ## Statements -/

/-- The parts of a program that are read from the left. -/
inductive Part where
  /-- A statement comes next, where so many `IF`s are open. -/
  | statement (opened : Nat)
  /-- A statement has just ended, where so many `IF`s are open. -/
  | rest (opened : Nat)
  | list
  | caseBranch
  | cases

/-- The phrases that a part can be. -/
inductive Word : Part → List Token → Prop
  | empty {k : Nat} {w : List Token} : Word (.rest k) w → Word (.statement k) w
  | assign {x a : Token} {k : Nat} {u w : List Token} :
      x.kind = .identifier → a.kind = .symbol .colonEquals → IsExpression u → Word (.rest k) w →
      Word (.statement k) (x :: a :: u ++ w)
  | compound {b e : Token} {k : Nat} {u w : List Token} :
      b.kind = .keyword .BEGIN → Word .list u → e.kind = .keyword .END → Word (.rest k) w →
      Word (.statement k) (b :: u ++ e :: w)
  | repeatUntil {r x : Token} {k : Nat} {u v w : List Token} :
      r.kind = .keyword .REPEAT → Word .list u → x.kind = .keyword .UNTIL → IsExpression v →
      Word (.rest k) w → Word (.statement k) (r :: u ++ x :: v ++ w)
  | whileDo {x d : Token} {k : Nat} {u w : List Token} :
      x.kind = .keyword .WHILE → IsExpression u → d.kind = .keyword .DO →
      Word (.statement k) w → Word (.statement k) (x :: u ++ d :: w)
  | forDo {x t a d o : Token} {k : Nat} {u v w : List Token} {direction : Direction} :
      x.kind = .keyword .FOR → t.kind = .identifier → a.kind = .symbol .colonEquals →
      IsExpression u → direction? d.kind = some direction → IsExpression v →
      o.kind = .keyword .DO → Word (.statement k) w →
      Word (.statement k) (x :: t :: a :: u ++ d :: v ++ o :: w)
  | ifThen {x t : Token} {k : Nat} {u w : List Token} :
      x.kind = .keyword .IF → IsExpression u → t.kind = .keyword .THEN →
      Word (.statement (k + 1)) w → Word (.statement k) (x :: u ++ t :: w)
  | caseOf {x o e : Token} {k : Nat} {u v w : List Token} :
      x.kind = .keyword .CASE → IsExpression u → o.kind = .keyword .OF → Word .cases v →
      e.kind = .keyword .END → Word (.rest k) w →
      Word (.statement k) (x :: u ++ o :: v ++ e :: w)
  | write {x l r : Token} {k : Nat} {v w : List Token} {ns : List Node} :
      x.kind = .keyword .WRITE → l.kind = .symbol .lparen → Argument v ns →
      r.kind = .symbol .rparen → Word (.rest k) w → Word (.statement k) (x :: l :: v ++ r :: w)
  | writeln {x l r : Token} {k : Nat} {v w : List Token} {ns : List Node} :
      x.kind = .keyword .WRITELN → l.kind = .symbol .lparen → Argument v ns →
      r.kind = .symbol .rparen → Word (.rest k) w → Word (.statement k) (x :: l :: v ++ r :: w)
  | writelnNothing {x l r : Token} {k : Nat} {w : List Token} :
      x.kind = .keyword .WRITELN → l.kind = .symbol .lparen → r.kind = .symbol .rparen →
      Word (.rest k) w → Word (.statement k) (x :: l :: r :: w)
  | writelnBare {x : Token} {k : Nat} {w : List Token} :
      x.kind = .keyword .WRITELN → Word (.rest k) w → Word (.statement k) (x :: w)
  | done {k : Nat} : Word (.rest k) []
  | elseBranch {e : Token} {k : Nat} {w : List Token} :
      e.kind = .keyword .ELSE → Word (.statement k) w → Word (.rest (k + 1)) (e :: w)
  | listLast {w : List Token} : Word (.statement 0) w → Word .list w
  | listMore {x : Token} {u v w : List Token} :
      Word (.statement 0) u → Semicolons x v → Word .list w → Word .list (u ++ x :: v ++ w)
  | caseBranch {c : Token} {u v : List Token} {cs : List Node} :
      Constants u cs → c.kind = .symbol .colon → Word (.statement 0) v →
      Word .caseBranch (u ++ c :: v)
  | casesNone : Word .cases []
  | casesLast {w : List Token} : Word .caseBranch w → Word .cases w
  | casesMore {x : Token} {u v w : List Token} :
      Word .caseBranch u → Semicolons x v → Word .cases w → Word .cases (u ++ x :: v ++ w)

/-- The part with one more open `IF`. -/
def Part.opened : Part → Part
  | .statement k => .statement (k + 1)
  | .rest k => .rest (k + 1)
  | part => part

/-- More open `IF`s never hurt. -/
theorem Word.opened {part : Part} {w : List Token} (h : Word part w) : Word part.opened w := by
  induction h with
  | empty _ ih => exact .empty ih
  | assign hx ha hu _ ih => exact .assign hx ha hu ih
  | compound hb hu he _ _ ih => exact .compound hb hu he ih
  | repeatUntil hr hu hx hv _ _ ih => exact .repeatUntil hr hu hx hv ih
  | whileDo hx hu hd _ ih => exact .whileDo hx hu hd ih
  | forDo hx ht ha hu hd hv ho _ ih => exact .forDo hx ht ha hu hd hv ho ih
  | ifThen hx hu ht _ ih => exact .ifThen hx hu ht ih
  | caseOf hx hu ho hv he _ _ ih => exact .caseOf hx hu ho hv he ih
  | write hx hl ha hr _ ih => exact .write hx hl ha hr ih
  | writeln hx hl ha hr _ ih => exact .writeln hx hl ha hr ih
  | writelnNothing hx hl hr _ ih => exact .writelnNothing hx hl hr ih
  | writelnBare hx _ ih => exact .writelnBare hx ih
  | done => exact .done
  | elseBranch he _ ih => exact .elseBranch he ih
  | listLast hw _ => exact .listLast hw
  | listMore hu hx hw _ _ => exact .listMore hu hx hw
  | caseBranch hu hc hv _ => exact .caseBranch hu hc hv
  | casesNone => exact .casesNone
  | casesLast hw _ => exact .casesLast hw
  | casesMore hu hx hw _ _ => exact .casesMore hu hx hw

/-- What a reading from the left makes of a phrase. A statement can be followed by anything that can
follow one. -/
def Phrase.Reads : Phrase → List Token → Prop
  | .statement, w | .branch, w => ∀ k v, Word (.rest k) v → Word (.statement k) (w ++ v)
  | .list, w => Word .list w
  | .caseBranch, w => Word .caseBranch w
  | .cases, w => Word .cases w

theorem Phrase.Reads.statement_zero {w : List Token}
    (h : ∀ k v, Word (.rest k) v → Word (.statement k) (w ++ v)) : Word (.statement 0) w := by
  have hw := h 0 [] .done
  rwa [List.append_nil] at hw

/-- Every derivation of a phrase can be read from the left. -/
theorem Statement.word {phrase : Phrase} {w : List Token} {line : Int} {ns : List Node}
    (h : Statement phrase w line ns) : phrase.Reads w := by
  -- A statement is read with whatever may follow it, which for an open conditional includes `ELSE`.
  induction h with
  | empty | emptyBranch => exact fun k v hv => .empty hv
  | assign hx ha he => exact fun k v hv => .assign hx ha he.isExpression hv
  | compound hb _ he ih =>
    intro k v hv
    rw [List.append_assoc]
    exact .compound hb ih he hv
  | repeatUntil hr _ hu he ih => exact fun k v hv => .repeatUntil hr ih hu he.isExpression hv
  | whileDo hx hc hd _ ih =>
    intro k v hv
    rw [List.append_assoc]
    exact .whileDo hx hc.isExpression hd (ih k v hv)
  | forDo hx ht ha hu hd hb ho _ ih =>
    intro k v hv
    rw [List.append_assoc]
    exact .forDo hx ht ha hu.isExpression hd.direction? hb.isExpression ho (ih k v hv)
  | ifThen hx hc ht _ ih =>
    intro k v hv
    rw [List.append_assoc]
    exact .ifThen hx hc.isExpression ht (ih (k + 1) v hv.opened)
  | ifThenElse hx hc ht _ he _ ih₁ ih₂ =>
    intro k v hv
    simp only [List.append_assoc, List.cons_append]
    -- The branch is read with its `ELSE`, which closes what the conditional has opened.
    exact .ifThen hx hc.isExpression ht (ih₁ (k + 1) _ (.elseBranch he (ih₂ k v hv)))
  | caseOf hx hc ho _ he ih =>
    intro k v hv
    rw [List.append_assoc]
    exact .caseOf hx hc.isExpression ho ih he hv
  | write hx hl ha hr =>
    intro k v hv
    rw [List.append_assoc]
    exact .write hx hl ha hr hv
  | writeln hx hl ha hr =>
    intro k v hv
    rw [List.append_assoc]
    exact .writeln hx hl ha hr hv
  | writelnNothing hx hl hr => exact fun k v hv => .writelnNothing hx hl hr hv
  | writelnBare hx => exact fun k v hv => .writelnBare hx hv
  | branch _ ih => exact ih
  | listLast _ ih => exact .listLast (Phrase.Reads.statement_zero ih)
  | listMore _ hx _ ih₁ ih₂ => exact .listMore (Phrase.Reads.statement_zero ih₁) hx ih₂
  | caseBranch hc hk _ ih => exact .caseBranch hc hk (Phrase.Reads.statement_zero ih)
  | casesNone => exact .casesNone
  | casesLast _ ih => exact .casesLast ih
  | casesMore _ hx _ ih₁ ih₂ => exact .casesMore ih₁ hx ih₂

/-! ## First tokens -/

theorem Constants.startsConstant {w : List Token} {cs : List Node} (h : Constants w cs) :
    ∃ x v, w = x :: v ∧ startsConstant x.kind = true := by
  obtain ⟨u, v, c, rfl, hu, -⟩ := h.first
  cases hu with
  | integer hx | character hx | negated hx => exact ⟨_, _, rfl, by rw [hx]; rfl⟩

namespace Word

variable {x : Token} {k : Nat} {w : List Token}

theorem rest_cons (h : Word (.rest k) (x :: w)) : ∃ j, k = j + 1 ∧ x.kind = .keyword .ELSE := by
  cases h with
  | elseBranch he _ => exact ⟨_, rfl, he⟩

theorem statement_cons (h : Word (.statement k) (x :: w)) :
    startsStatement x.kind = true ∨ ∃ j, k = j + 1 ∧ x.kind = .keyword .ELSE := by
  generalize hv : x :: w = v at h
  have hstart : ∀ {y : Token} {u : List Token} {kind : TokenKind}, x :: w = y :: u →
      y.kind = kind → startsStatement kind = true → startsStatement x.kind = true := by
    intro y u kind he hk hs
    rw [(List.cons.inj he).1, hk, hs]
  cases h with
  | empty hw =>
    subst hv
    exact .inr hw.rest_cons
  | assign hx | compound hx | repeatUntil hx | whileDo hx | forDo hx | ifThen hx | caseOf hx
  | write hx | writeln hx | writelnNothing hx | writelnBare hx => exact .inl (hstart hv hx rfl)

theorem statement_zero_cons (h : Word (.statement 0) (x :: w)) : startsStatement x.kind = true := by
  obtain hs | ⟨j, hj, -⟩ := h.statement_cons
  · exact hs
  · cases hj

theorem list_cons (h : Word .list (x :: w)) :
    startsStatement x.kind = true ∨ x.kind = .symbol .semicolon := by
  generalize hv : x :: w = v at h
  cases h with
  | listLast hw =>
    subst hv
    exact .inl hw.statement_zero_cons
  | @listMore y u _ _ hu hy _ =>
    cases u with
    | nil =>
      obtain ⟨rfl, -⟩ := List.cons.inj hv
      exact .inr (hy x (List.mem_cons_self ..))
    | cons z u =>
      obtain ⟨rfl, -⟩ := List.cons.inj hv
      exact .inl hu.statement_zero_cons

/-- A list goes on after a semicolon in front of it. -/
theorem list_tail (h : Word .list (x :: w)) (hx : x.kind = .symbol .semicolon) : Word .list w := by
  have hno : ∀ {u : List Token}, ¬ Word (.statement 0) (x :: u) := fun hu => by
    have := hu.statement_zero_cons
    rw [hx] at this
    cases this
  generalize hv : x :: w = v at h
  cases h with
  | listLast hw =>
    subst hv
    exact (hno hw).elim
  | @listMore y u v' w' hu hy hw =>
    cases u with
    | cons z u =>
      obtain ⟨rfl, -⟩ := List.cons.inj hv
      exact (hno hu).elim
    | nil =>
      obtain ⟨rfl, rfl⟩ := List.cons.inj hv
      cases v' with
      | nil => exact hw
      | cons z v' => exact .listMore hu (fun y' hy' => hy y' (List.mem_cons_of_mem _ hy')) hw

theorem caseBranch_cons (h : Word .caseBranch w) :
    ∃ y v, w = y :: v ∧ startsConstant y.kind = true := by
  cases h with
  | caseBranch hu =>
    obtain ⟨y, v, rfl, hy⟩ := hu.startsConstant
    exact ⟨y, _, rfl, hy⟩

theorem cases_cons (h : Word .cases (x :: w)) : startsConstant x.kind = true := by
  generalize hv : x :: w = v at h
  cases h with
  | casesNone => cases hv
  | casesLast hu | casesMore hu =>
    obtain ⟨y, v, rfl, hy⟩ := hu.caseBranch_cons
    obtain ⟨rfl, -⟩ := List.cons.inj hv
    exact hy

end Word

end MiniPascal.Grammar
