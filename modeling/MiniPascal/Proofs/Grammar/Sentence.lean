import MiniPascal.Parsing.Statement

/-!
# The grammar

The sentences of the language, as lists of tokens, each with the tree that a derivation of it stands
for. Brackets mean that a part may be missing, a star that it may be repeated or missing, and a plus
that it may be repeated:

* *program* := `PROGRAM` identifier `;` `BEGIN` *list* `END` `.`
* *list* := [*statement*] (`;`+ [*statement*])*
* *statement* := identifier `:=` *expression* | `BEGIN` *list* `END` | `REPEAT` *list* `UNTIL`
  *expression* | `WHILE` *expression* `DO` [*statement*] | `FOR` identifier `:=` *expression*
  (`TO` | `DOWNTO`) *expression* `DO` [*statement*] | `IF` *expression* `THEN` [*statement*]
  [`ELSE` [*statement*]] | `CASE` *expression* `OF` [*branch* (`;`+ *branch*)* `;`*] `END` |
  `WRITE` `(` *argument* `)` | `WRITELN` [`(` [*argument*] `)`]
* *branch* := *constant* (`,` *constant*)* `:` [*statement*]
* *constant* := integer | character | `-` integer
* *argument* := (identifier | character | string) [`:` integer [`:` integer]]
* *expression* := *simple* [(`=` | `<` | `<=` | `>` | `>=` | `<>`) *simple*]
* *simple* := *term* ((`+` | `-`) *term*)*
* *term* := *factor* ((`*` | `/` | `AND` | `OR`) *factor*)*
* *factor* := identifier | integer | real | `-` *factor* | `NOT` *expression* | `(` *expression* `)`

The grammar is ambiguous: a `NOT` reaches as far as one likes, an `ELSE` belongs to any open `IF`,
and empty statements can be put between semicolons at will.

An empty branch or body is a compound statement on the line of the token after it, so statements are
given with the line of that token.
-/

namespace MiniPascal.Grammar

open Parsing (operation nodeAt whileLoop forLoop Direction)

/-! ## Expressions -/

/-- The signs of relations. -/
inductive RelationSign : TokenKind → Relation → Prop
  | equals : RelationSign (.symbol .equals) .eq
  | lessThan : RelationSign (.symbol .lessThan) .lt
  | lessEquals : RelationSign (.symbol .lessEquals) .le
  | greaterThan : RelationSign (.symbol .greaterThan) .gt
  | greaterEquals : RelationSign (.symbol .greaterEquals) .ge
  | notEquals : RelationSign (.symbol .notEquals) .ne

/-- The signs between terms. -/
inductive SumSign : TokenKind → Arithmetic → Prop
  | plus : SumSign (.symbol .plus) .add
  | minus : SumSign (.symbol .minus) .subtract

/-- The signs between factors. -/
inductive ProductSign : TokenKind → Kind → Prop
  | star : ProductSign (.symbol .star) (.arithmetic .multiply)
  | slash : ProductSign (.symbol .slash) (.arithmetic .divide)
  | and : ProductSign (.keyword .AND) (.connective .and)
  | or : ProductSign (.keyword .OR) (.connective .or)

/-- The levels of an expression, from the one that binds least. -/
inductive Level where
  | expression
  | simple
  | term
  | factor
deriving DecidableEq

/-- The expressions of a level, with their trees. -/
inductive Expression : Level → List Token → Node → Prop
  | simple {w : List Token} {n : Node} : Expression .simple w n → Expression .expression w n
  | relation {u v : List Token} {op : Token} {r : Relation} {left right : Node} :
      Expression .simple u left → RelationSign op.kind r → Expression .simple v right →
      Expression .expression (u ++ op :: v) (operation (.relation r) op [left, right])
  | term {w : List Token} {n : Node} : Expression .term w n → Expression .simple w n
  | sum {u v : List Token} {op : Token} {a : Arithmetic} {left right : Node} :
      Expression .simple u left → SumSign op.kind a → Expression .term v right →
      Expression .simple (u ++ op :: v) (operation (.arithmetic a) op [left, right])
  | factor {w : List Token} {n : Node} : Expression .factor w n → Expression .term w n
  | product {u v : List Token} {op : Token} {kind : Kind} {left right : Node} :
      Expression .term u left → ProductSign op.kind kind → Expression .factor v right →
      Expression .term (u ++ op :: v) (operation kind op [left, right])
  | name {x : Token} :
      x.kind = .identifier → Expression .factor [x] (operation .var x [])
  | integer {x : Token} : x.kind = .integer → Expression .factor [x] (nodeAt .integer x [])
  | real {x : Token} : x.kind = .real → Expression .factor [x] (nodeAt .real x [])
  | negate {x : Token} {w : List Token} {n : Node} :
      x.kind = .symbol .minus → Expression .factor w n →
      Expression .factor (x :: w) (operation .negate x [n])
  | not {x : Token} {w : List Token} {n : Node} :
      x.kind = .keyword .NOT → Expression .expression w n →
      Expression .factor (x :: w) (operation .not x [n])
  | paren {x y : Token} {w : List Token} {n : Node} :
      x.kind = .symbol .lparen → Expression .expression w n → y.kind = .symbol .rparen →
      Expression .factor (x :: w ++ [y]) n

theorem Expression.ne_nil {level : Level} {w : List Token} {n : Node} (h : Expression level w n) :
    w ≠ [] := by
  induction h with
  | simple _ ih | term _ ih | factor _ ih => exact ih
  | relation | sum | product | name | integer | real | negate | not | paren => simp

/-! ## Parts of statements -/

/-- A constant of a branch. -/
inductive Constant : List Token → Node → Prop
  | integer {x : Token} : x.kind = .integer → Constant [x] (nodeAt .integer x [])
  | character {x : Token} : x.kind = .character → Constant [x] (nodeAt .string x [])
  | negated {x y : Token} :
      x.kind = .symbol .minus → y.kind = .integer →
      Constant [x, y] (operation .negate x [nodeAt .integer y []])

/-- Constants with commas between. -/
inductive Constants : List Token → List Node → Prop
  | one {w : List Token} {c : Node} : Constant w c → Constants w [c]
  | more {u v : List Token} {x : Token} {c : Node} {cs : List Node} :
      Constant u c → x.kind = .symbol .comma → Constants v cs → Constants (u ++ x :: v) (c :: cs)

theorem Constant.ne_nil {w : List Token} {c : Node} (h : Constant w c) : w ≠ [] := by
  cases h <;> simp

theorem Constants.ne_nil {w : List Token} {cs : List Node} (h : Constants w cs) : w ≠ [] := by
  cases h with
  | one hc => exact hc.ne_nil
  | more => simp

/-- What can be written. -/
inductive Writable : Token → Node → Prop
  | name {x : Token} : x.kind = .identifier → Writable x (operation .var x [])
  | character {x : Token} : x.kind = .character → Writable x (nodeAt .string x [])
  | string {x : Token} : x.kind = .string → Writable x (nodeAt .string x [])

/-- An argument of a write statement, with its field. -/
inductive Argument : List Token → List Node → Prop
  | plain {x : Token} {n : Node} : Writable x n → Argument [x] [n]
  | width {x c i : Token} {n : Node} :
      Writable x n → c.kind = .symbol .colon → i.kind = .integer →
      Argument [x, c, i] [n, nodeAt .integer i []]
  | places {x c i d j : Token} {n : Node} :
      Writable x n → c.kind = .symbol .colon → i.kind = .integer →
      d.kind = .symbol .colon → j.kind = .integer →
      Argument [x, c, i, d, j] [n, nodeAt .integer i [], nodeAt .integer j []]

/-- One or more semicolons, of which the first is given. -/
def Semicolons (x : Token) (w : List Token) : Prop :=
  ∀ y ∈ x :: w, y.kind = .symbol .semicolon

/-- The words for the direction of a `FOR` loop. -/
inductive DirectionWord : TokenKind → Direction → Prop
  | to : DirectionWord (.keyword .TO) .up
  | downto : DirectionWord (.keyword .DOWNTO) .down

/-! ## Trees of statements -/

/-- The tree of an assignment to the variable that a token names. -/
def assignmentNode (target : Token) (value : Node) : Node :=
  { kind := .assign, line := .int target.line, children := [operation .var target [], value] }

/-- The tree of a `REPEAT` loop. -/
def repeatLoop (line testLine : Int) (statements : List Node) (condition : Node) : Node :=
  let test : Node := { kind := .test, line := .int testLine, children := [condition] }
  { kind := .loop, line := .int line, children := statements ++ [test] }

/-- The tree of a branch of a selection. -/
def caseBranchNode (line : Int) (constants : List Node) (body : Node) : Node :=
  let labels : Node := { kind := .selectConstants, line := .int line, children := constants }
  { kind := .selectBranch, line := .int line, children := [labels, body] }

/-! ## Statements -/

/-- The phrases made of statements. -/
inductive Phrase where
  /-- A statement, which may be missing. -/
  | statement
  /-- A statement as a branch or body, where a missing one has a tree too. -/
  | branch
  /-- Statements with semicolons between. -/
  | list
  /-- A branch of a selection. -/
  | caseBranch
  /-- Branches of a selection with semicolons between. -/
  | cases
deriving DecidableEq

/-- The phrases of a sort, with the line of the token after them and their trees. -/
inductive Statement : Phrase → List Token → Int → List Node → Prop
  | empty {line : Int} : Statement .statement [] line []
  | assign {x a : Token} {w : List Token} {line : Int} {value : Node} :
      x.kind = .identifier → a.kind = .symbol .colonEquals → Expression .expression w value →
      Statement .statement (x :: a :: w) line [assignmentNode x value]
  | compound {b e : Token} {w : List Token} {line : Int} {ns : List Node} :
      b.kind = .keyword .BEGIN → Statement .list w e.line ns → e.kind = .keyword .END →
      Statement .statement (b :: w ++ [e]) line
        [{ kind := .compound, line := .int b.line, children := ns }]
  | repeatUntil {r u : Token} {w v : List Token} {line : Int} {ns : List Node} {condition : Node} :
      r.kind = .keyword .REPEAT → Statement .list w u.line ns → u.kind = .keyword .UNTIL →
      Expression .expression v condition →
      Statement .statement (r :: w ++ u :: v) line [repeatLoop r.line u.line ns condition]
  | whileDo {x d first : Token} {u v : List Token} {line : Int} {condition body : Node} :
      x.kind = .keyword .WHILE → Expression .expression (first :: u) condition →
      d.kind = .keyword .DO → Statement .branch v line [body] →
      Statement .statement (x :: first :: u ++ d :: v) line
        [whileLoop (.int x.line) (.int first.line) condition body]
  | forDo {x t a d o : Token} {u v w : List Token} {line : Int} {value bound body : Node}
      {direction : Direction} :
      x.kind = .keyword .FOR → t.kind = .identifier → a.kind = .symbol .colonEquals →
      Expression .expression u value → DirectionWord d.kind direction →
      Expression .expression v bound → o.kind = .keyword .DO → Statement .branch w line [body] →
      Statement .statement (x :: t :: a :: u ++ d :: v ++ o :: w) line
        [forLoop direction (.int x.line) (.int d.line) (assignmentNode t value)
          (operation .var t []) bound body]
  | ifThen {x t : Token} {u v : List Token} {line : Int} {condition first : Node} :
      x.kind = .keyword .IF → Expression .expression u condition → t.kind = .keyword .THEN →
      Statement .branch v line [first] →
      Statement .statement (x :: u ++ t :: v) line
        [{ kind := .cond, line := .int x.line, children := [condition, first] }]
  | ifThenElse {x t e : Token} {u v w : List Token} {line : Int} {condition first second : Node} :
      x.kind = .keyword .IF → Expression .expression u condition → t.kind = .keyword .THEN →
      Statement .branch v e.line [first] → e.kind = .keyword .ELSE →
      Statement .branch w line [second] →
      Statement .statement (x :: u ++ t :: v ++ e :: w) line
        [{ kind := .cond, line := .int x.line, children := [condition, first, second] }]
  | caseOf {x o e : Token} {u v : List Token} {line : Int} {value : Node} {branches : List Node} :
      x.kind = .keyword .CASE → Expression .expression u value → o.kind = .keyword .OF →
      Statement .cases v e.line branches → e.kind = .keyword .END →
      Statement .statement (x :: u ++ o :: v ++ [e]) line
        [{ kind := .select, line := .int x.line, children := value :: branches }]
  | write {x l r : Token} {w : List Token} {line : Int} {ns : List Node} :
      x.kind = .keyword .WRITE → l.kind = .symbol .lparen → Argument w ns →
      r.kind = .symbol .rparen →
      Statement .statement (x :: l :: w ++ [r]) line
        [{ kind := .write, line := .int x.line, children := ns }]
  | writeln {x l r : Token} {w : List Token} {line : Int} {ns : List Node} :
      x.kind = .keyword .WRITELN → l.kind = .symbol .lparen → Argument w ns →
      r.kind = .symbol .rparen →
      Statement .statement (x :: l :: w ++ [r]) line
        [{ kind := .writeln, line := .int x.line, children := ns }]
  | writelnNothing {x l r : Token} {line : Int} :
      x.kind = .keyword .WRITELN → l.kind = .symbol .lparen → r.kind = .symbol .rparen →
      Statement .statement [x, l, r] line [{ kind := .writeln, line := .int x.line }]
  | writelnBare {x : Token} {line : Int} :
      x.kind = .keyword .WRITELN →
      Statement .statement [x] line [{ kind := .writeln, line := .int x.line }]
  | emptyBranch {line : Int} :
      Statement .branch [] line [{ kind := .compound, line := .int line }]
  | branch {w : List Token} {line : Int} {n : Node} :
      Statement .statement w line [n] → Statement .branch w line [n]
  | listLast {w : List Token} {line : Int} {ns : List Node} :
      Statement .statement w line ns → Statement .list w line ns
  | listMore {x : Token} {u v w : List Token} {line : Int} {ns ms : List Node} :
      Statement .statement u x.line ns → Semicolons x v → Statement .list w line ms →
      Statement .list (u ++ x :: v ++ w) line (ns ++ ms)
  | caseBranch {first c : Token} {u v : List Token} {line : Int} {cs : List Node} {body : Node} :
      Constants (first :: u) cs → c.kind = .symbol .colon → Statement .branch v line [body] →
      Statement .caseBranch (first :: u ++ c :: v) line [caseBranchNode first.line cs body]
  | casesNone {line : Int} : Statement .cases [] line []
  | casesLast {w : List Token} {line : Int} {n : Node} :
      Statement .caseBranch w line [n] → Statement .cases w line [n]
  | casesMore {x : Token} {u v w : List Token} {line : Int} {n : Node} {ms : List Node} :
      Statement .caseBranch u x.line [n] → Semicolons x v → Statement .cases w line ms →
      Statement .cases (u ++ x :: v ++ w) line (n :: ms)

/-! ## Programs -/

/-- The programs, with their trees. -/
inductive Program : List Token → Node → Prop
  | mk {p x s b e d : Token} {w : List Token} {ns : List Node} :
      p.kind = .keyword .PROGRAM → x.kind = .identifier → s.kind = .symbol .semicolon →
      b.kind = .keyword .BEGIN → Statement .list w e.line ns → e.kind = .keyword .END →
      d.kind = .symbol .period →
      Program (p :: x :: s :: b :: w ++ [e, d])
        { kind := .program, line := .int p.line, text := .text x.text,
          children := [{ kind := .compound, line := .int b.line, children := ns }] }

/-- The tokens are a program. -/
def Sentence (w : List Token) : Prop := ∃ n, Program w n

/-! ## The end of the text is in no sentence -/

theorem RelationSign.ne_endOfFile {k : TokenKind} {r : Relation} (h : RelationSign k r) :
    k ≠ .endOfFile := by
  cases h <;> decide

theorem SumSign.ne_endOfFile {k : TokenKind} {a : Arithmetic} (h : SumSign k a) :
    k ≠ .endOfFile := by
  cases h <;> decide

theorem ProductSign.ne_endOfFile {k : TokenKind} {kind : Kind} (h : ProductSign k kind) :
    k ≠ .endOfFile := by
  cases h <;> decide

theorem DirectionWord.ne_endOfFile {k : TokenKind} {d : Direction} (h : DirectionWord k d) :
    k ≠ .endOfFile := by
  cases h <;> decide

theorem Expression.ne_endOfFile {level : Level} {w : List Token} {n : Node}
    (h : Expression level w n) : ∀ x ∈ w, x.kind ≠ .endOfFile := by
  induction h with
  | simple _ ih | term _ ih | factor _ ih => exact ih
  | relation _ hs _ ih₁ ih₂ | sum _ hs _ ih₁ ih₂ | product _ hs _ ih₁ ih₂ =>
    simpa [or_imp, forall_and] using ⟨ih₁, hs.ne_endOfFile, ih₂⟩
  | name hx | integer hx | real hx => simp [hx]
  | negate hx _ ih | not hx _ ih => simpa [hx] using ih
  | paren hx _ hy ih => simpa [hx, hy, or_imp, forall_and] using ih

theorem Constants.ne_endOfFile {w : List Token} {cs : List Node} (h : Constants w cs) :
    ∀ x ∈ w, x.kind ≠ .endOfFile := by
  have hone : ∀ {u : List Token} {c : Node}, Constant u c → ∀ x ∈ u, x.kind ≠ .endOfFile := by
    intro u c hc
    cases hc <;> simp_all
  induction h with
  | one hc => exact hone hc
  | more hc hx _ ih => simpa [hx, or_imp, forall_and] using ⟨hone hc, ih⟩

theorem Argument.ne_endOfFile {w : List Token} {ns : List Node} (h : Argument w ns) :
    ∀ x ∈ w, x.kind ≠ .endOfFile := by
  have hw : ∀ {x : Token} {n : Node}, Writable x n → x.kind ≠ .endOfFile := by
    intro x n hx
    cases hx <;> simp_all
  cases h with
  | plain hx => simpa using hw hx
  | width hx hc hi => simpa [hc, hi] using hw hx
  | places hx hc hi hd hj => simpa [hc, hi, hd, hj] using hw hx

theorem Semicolons.ne_endOfFile {x : Token} {w : List Token} (h : Semicolons x w) :
    ∀ y ∈ x :: w, y.kind ≠ .endOfFile := by
  intro y hy he
  rw [h y hy] at he
  cases he

theorem Statement.ne_endOfFile {phrase : Phrase} {w : List Token} {line : Int} {ns : List Node}
    (h : Statement phrase w line ns) : ∀ x ∈ w, x.kind ≠ .endOfFile := by
  induction h with
  | empty | emptyBranch | casesNone => simp
  | branch _ ih | listLast _ ih | casesLast _ ih => exact ih
  | writelnNothing hx hl hr => simp [hx, hl, hr]
  | writelnBare hx => simp [hx]
  | assign hx ha he => simpa [hx, ha] using he.ne_endOfFile
  | compound hb _ he ih => simpa [hb, he, or_imp, forall_and] using ih
  | repeatUntil hr _ hu he ih => simpa [hr, hu, or_imp, forall_and] using ⟨ih, he.ne_endOfFile⟩
  | whileDo hx hc hd _ ih =>
    obtain ⟨hf, hu⟩ := List.forall_mem_cons.1 hc.ne_endOfFile
    simpa [hx, hd, or_imp, forall_and] using ⟨hf, hu, ih⟩
  | forDo hx ht ha hu hd hb ho _ ih =>
    simpa [hx, ht, ha, ho, or_imp, forall_and] using
      ⟨hu.ne_endOfFile, hd.ne_endOfFile, hb.ne_endOfFile, ih⟩
  | ifThen hx hc ht _ ih => simpa [hx, ht, or_imp, forall_and] using ⟨hc.ne_endOfFile, ih⟩
  | ifThenElse hx hc ht _ he _ ih₁ ih₂ =>
    simpa [hx, ht, he, or_imp, forall_and] using ⟨hc.ne_endOfFile, ih₁, ih₂⟩
  | caseOf hx hc ho _ he ih => simpa [hx, ho, he, or_imp, forall_and] using ⟨hc.ne_endOfFile, ih⟩
  | write hx hl ha hr | writeln hx hl ha hr =>
    simpa [hx, hl, hr, or_imp, forall_and] using ha.ne_endOfFile
  | listMore _ hx _ ih₁ ih₂ | casesMore _ hx _ ih₁ ih₂ =>
    obtain ⟨hf, hv⟩ := List.forall_mem_cons.1 hx.ne_endOfFile
    simpa [or_imp, forall_and, and_assoc] using ⟨ih₁, hf, hv, ih₂⟩
  | caseBranch hc hk _ ih =>
    obtain ⟨hf, hu⟩ := List.forall_mem_cons.1 hc.ne_endOfFile
    simpa [hk, or_imp, forall_and] using ⟨hf, hu, ih⟩

theorem Program.ne_endOfFile {w : List Token} {n : Node} (h : Program w n) :
    ∀ x ∈ w, x.kind ≠ .endOfFile := by
  obtain ⟨hp, hx, hs, hb, hl, he, hd⟩ := h
  simpa [hp, hx, hs, hb, he, hd, or_imp, forall_and] using hl.ne_endOfFile

end MiniPascal.Grammar
