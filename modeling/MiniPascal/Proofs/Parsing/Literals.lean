import MiniPascal.Parsing.Rule
import MiniPascal.Proofs.Parsing.Shape

/-!
# Trees of program texts

The tokens of a stream can carry any values. Those of a program text carry an integer, a real or a
text as their kinds say, and this is handed on to the constants of a tree. Lines are numbers and
texts are strings in any case.

**Trees from program texts** (`Parses.parsed`). A tree is parsed as a program, or by any rule of the
grammar used alone. If the tokens are those of a program text, then all nodes of the tree are
`Parsed`: they have children of the right sorts, values of the right types, and known variables.
-/

namespace MiniPascal

/-! ## The tokens of a program text -/

/-- A token whose value is of the type that its kind says. -/
def Token.LiteralFits (t : Token) : Prop :=
  match t.kind with
  | .integer => ∃ i : Int, t.literal = .int i
  | .real => ∃ x : Float, t.literal = .real x
  | .character | .string => ∃ s : String, t.literal = .text s
  | _ => True

theorem Terminal.Reads.literalFits {terminal : Terminal} {text : String} {line : Int}
    {r : Reading} (h : Terminal.Reads text line terminal r) : r.token.LiteralFits := by
  cases h with
  | integer n => exact ⟨n, rfl⟩
  | real x => exact ⟨x, rfl⟩
  | character inside | string inside => exact ⟨inside, rfl⟩
  | _ => trivial

namespace Parsing

theorem literalFits_ofSource (source : String) :
    ∀ r ∈ (Stream.ofSource source).items, r.token.LiteralFits :=
  Stream.forall_ofSource (fun _ _ _ _ h => (Terminal.reads_of_classify h).literalFits) source

/-- A property of the current token and of all that are still to be read. -/
structure State.Tokens (P : Token → Prop) (s : State) : Prop where
  current : P s.current
  items : ∀ r ∈ s.stream.items, P r.token

theorem State.Tokens.receive {P : Token → Prop} (hend : ∀ line, P (.endOfFile line)) {s : State}
    (h : s.Tokens P) {r : Reading} {rest : Stream} (hn : s.stream.next = .ok (r, rest)) :
    (s.receive r rest).Tokens P := by
  rcases Stream.next_eq_ok hn with ⟨hi, -⟩ | ⟨hi, rfl, line, -, rfl⟩
  · exact ⟨h.items r (by simp [hi]), fun q hq => h.items q (by rw [hi]; exact .tail _ hq)⟩
  · exact ⟨hend line, h.items⟩

/-- Parsing brings up no new tokens. -/
theorem Reaches.tokens {P : Token → Prop} (hend : ∀ line, P (.endOfFile line)) {s t : State}
    (h : Reaches s t) (hs : s.Tokens P) : t.Tokens P := by
  refine h.induct (P := State.Tokens P) (fun hst hs => ?_) hs
  cases hst with
  | read _ hn => exact hs.receive hend hn
  | report | enter => exact ⟨hs.current, hs.items⟩
  | undeclared _ _ _ hn =>
    have hr := hs.receive hend hn
    exact ⟨hr.current, hr.items⟩

theorem State.tokens_start {P : Token → Prop} (hend : ∀ line, P (.endOfFile line))
    {stream : Stream} {table : Table} {strict : Bool} {s : State}
    (h : State.start stream table strict = .ok s) (hs : ∀ r ∈ stream.items, P r.token) :
    s.Tokens P := by
  unfold State.start at h
  cases hn : stream.next with
  | error fault => rw [hn] at h; cases h
  | ok x =>
    obtain ⟨r, rest⟩ := x
    rw [hn] at h
    obtain rfl := Except.ok.inj h
    rcases Stream.next_eq_ok hn with ⟨hi, -⟩ | ⟨hi, rfl, line, -, rfl⟩
    · exact ⟨hs r (by simp [hi]), fun q hq => hs q (by rw [hi]; exact .tail _ hq)⟩
    · exact ⟨hend line, hs⟩

end Parsing

/-! ## The nodes of a tree -/

namespace Node

/-- A constant whose value is of the type that its kind says. -/
def LiteralFits (n : Node) : Prop :=
  match n.kind with
  | .integer => ∃ i : Int, n.literal = .int i
  | .real => ∃ x : Float, n.literal = .real x
  | .string => ∃ s : String, n.literal = .text s
  | _ => True

/-- A node as it comes from a program text: its line is a number, its text, if it has one, a string,
and the value of a constant is of the type that its kind says. -/
structure Textual (n : Node) : Prop where
  line : ∃ i : Int, n.line = .int i
  text : n.text = .null ∨ ∃ s : String, n.text = .text s
  literal : n.LiteralFits

/-- A node as it is built from a program text, in a tree whose variables are in the table. -/
structure Parsed (table : Table) (n : Node) : Prop where
  shaped : n.WellShaped
  textual : n.Textual
  bound : n.Bound table

/-- A node that is no constant and has no text. -/
theorem textual_plain {kind : Kind} {line : Int} {ns : List Node}
    (h : LiteralFits { kind, line := .int line, children := ns }) :
    Textual { kind, line := .int line, children := ns } :=
  ⟨⟨line, rfl⟩, .inl rfl, h⟩

end Node

namespace Parsing

open Grammar (Phrase Level assignmentNode repeatLoop caseBranchNode)
open Node (AllNodes Textual)

theorem textual_operation {kind : Kind} {t : Token} {ns : List Node}
    (h : (operation kind t ns).LiteralFits) (hs : AllNodes Textual ns) :
    AllNodes Textual [operation kind t ns] :=
  .node ⟨⟨_, rfl⟩, .inr ⟨_, rfl⟩, h⟩ hs

/-- A node with two children is no constant. -/
theorem textual_binary {kind : Kind} {left right : Node} (h : kind.Takes [left, right]) (t : Token)
    (hl : AllNodes Textual [left]) (hr : AllNodes Textual [right]) :
    AllNodes Textual [operation kind t [left, right]] :=
  textual_operation (by cases h <;> trivial) (hl.cons hr)

theorem textual_variable (t : Token) : AllNodes Textual [operation .var t []] :=
  textual_operation trivial Node.allNodes_nil

theorem textual_integer {t : Token} (hk : t.kind = .integer) (h : t.LiteralFits) :
    AllNodes Textual [nodeAt .integer t []] := by
  refine .node ⟨⟨_, rfl⟩, .inr ⟨_, rfl⟩, ?_⟩ Node.allNodes_nil
  show ∃ i, t.literal = .int i
  simpa [Token.LiteralFits, hk] using h

theorem textual_real {t : Token} (hk : t.kind = .real) (h : t.LiteralFits) :
    AllNodes Textual [nodeAt .real t []] := by
  refine .node ⟨⟨_, rfl⟩, .inr ⟨_, rfl⟩, ?_⟩ Node.allNodes_nil
  show ∃ x, t.literal = .real x
  simpa [Token.LiteralFits, hk] using h

theorem textual_string {t : Token} (hk : t.kind = .character ∨ t.kind = .string)
    (h : t.LiteralFits) : AllNodes Textual [nodeAt .string t []] := by
  refine .node ⟨⟨_, rfl⟩, .inr ⟨_, rfl⟩, ?_⟩ Node.allNodes_nil
  show ∃ s : String, t.literal = .text s
  rcases hk with hk | hk <;> simpa [Token.LiteralFits, hk] using h

/-- All tokens that are still to be looked at have values of their types. -/
abbrev State.LiteralsFit (s : State) : Prop := s.Tokens Token.LiteralFits

theorem State.LiteralsFit.after {s t : State} (hs : s.LiteralsFit) (h : Reaches s t) :
    t.LiteralsFit :=
  h.tokens (fun _ => trivial) hs

theorem BuildsExpression.textual {level : Level} {s t : State} {n : Node}
    (h : BuildsExpression level s n t) (hs : s.LiteralsFit) : AllNodes Textual [n] := by
  induction h with
  | simple _ _ ih | term _ ih | factor _ ih => exact ih hs
  | relation hl ho hm hr ihl ihr =>
    exact textual_binary (takes_of_relation? ho hl.shaped.kind hr.shaped.kind).2 _ (ihl hs)
      (ihr ((hs.after hl.reaches).after hm.reaches))
  | sum hl ho hm hr ihl ihr =>
    exact textual_binary (takes_of_sumOperator? ho hl.shaped.kind hr.shaped.kind).2 _ (ihl hs)
      (ihr ((hs.after hl.reaches).after hm.reaches))
  | product hl ho hm hr ihl ihr =>
    exact textual_binary (takes_of_productOperator? ho hl.shaped.kind hr.shaped.kind).2 _ (ihl hs)
      (ihr ((hs.after hl.reaches).after hm.reaches))
  | name => exact textual_variable _
  | integer hk => exact textual_integer hk hs.current
  | real hk => exact textual_real hk hs.current
  | negate _ hm _ ih | not _ hm _ ih =>
    exact textual_operation trivial (ih (hs.after hm.reaches))
  | paren _ hm _ _ _ ih => exact ih (hs.after hm.reaches)

theorem BuildsAssignment.textual {s t : State} {target : Token} {value : Node}
    (h : BuildsAssignment s target value t) (hs : s.LiteralsFit) :
    AllNodes Textual [assignmentNode target value] := by
  obtain ⟨hk, hm, -, hm', he⟩ := h
  have hvalue := he.textual ((hs.after (hm.reaches_named hk true)).after hm'.reaches)
  exact .node (Node.textual_plain trivial) ((textual_variable _).cons hvalue)

theorem BuildsArguments.textual {required : Bool} {s t : State} {ns : List Node}
    (h : BuildsArguments required s ns t) (hs : s.LiteralsFit) : AllNodes Textual ns := by
  cases h with
  | none => exact Node.allNodes_nil
  | some _ hm ha hf =>
    have hargument := hs.after hm.reaches
    have hfield := hargument.after ha.reaches
    refine Node.AllNodes.cons ?_ ?_
    · cases ha with
      | name => exact textual_variable _
      | text hk => exact textual_string hk hargument.current
    · cases hf with
      | none => exact Node.allNodes_nil
      | width _ h₁ hi => exact textual_integer hi (hfield.after h₁.reaches).current
      | places _ h₁ hi h₂ _ h₃ hj =>
        have hwidth := hfield.after h₁.reaches
        have hplaces := (hwidth.after h₂.reaches).after h₃.reaches
        exact (textual_integer hi hwidth.current).cons (textual_integer hj hplaces.current)

theorem BuildsConstant.textual {s t : State} {n : Node} (h : BuildsConstant s n t)
    (hs : s.LiteralsFit) : AllNodes Textual [n] := by
  cases h with
  | integer hk => exact textual_integer hk hs.current
  | character hk => exact textual_string (.inl hk) hs.current
  | negated _ hm hi =>
    exact textual_operation trivial (textual_integer hi (hs.after hm.reaches).current)

theorem BuildsConstants.textual {s t : State} {ns : List Node} (h : BuildsConstants s ns t)
    (hs : s.LiteralsFit) : AllNodes Textual ns := by
  induction h with
  | one hc => exact hc.textual hs
  | more hc _ hm _ ih =>
    exact (hc.textual hs).cons (ih ((hs.after hc.reaches).after hm.reaches))

/-- The copies of the control variable and the number one are made up by the parser. -/
theorem textual_forLoop (d : Direction) (line boundLine : Int) {target : Token}
    {value bound body : Node} (ha : AllNodes Textual [assignmentNode target value])
    (hbound : AllNodes Textual [bound]) (hbody : AllNodes Textual [body]) :
    AllNodes Textual [forLoop d (.int line) (.int boundLine) (assignmentNode target value)
      (operation .var target []) bound body] := by
  have hcontrol := textual_variable target
  have hpassed : AllNodes Textual [d.passed (.int boundLine) (operation .var target []) bound] := by
    cases d <;> exact .node ⟨⟨_, rfl⟩, .inr ⟨_, rfl⟩, trivial⟩ (hcontrol.cons hbound)
  have hone : AllNodes Textual
      [{ kind := .integer, line := .int line, text := .text "1", literal := .int 1 }] :=
    .node ⟨⟨_, rfl⟩, .inr ⟨_, rfl⟩, 1, rfl⟩ Node.allNodes_nil
  have hstepped : AllNodes Textual [d.stepped (.int line) (operation .var target [])] := by
    cases d <;> exact .node ⟨⟨_, rfl⟩, .inr ⟨_, rfl⟩, trivial⟩ (hcontrol.cons hone)
  refine .node (Node.textual_plain trivial) (ha.cons (.node (Node.textual_plain trivial) ?_))
  refine Node.AllNodes.cons (.node (Node.textual_plain trivial) hpassed) (hbody.cons ?_)
  exact .node (Node.textual_plain trivial) (hcontrol.cons hstepped)

theorem BuildsStatement.textual {phrase : Phrase} {s t : State} {ns : List Node}
    (h : BuildsStatement phrase s ns t) (hs : s.LiteralsFit) : AllNodes Textual ns := by
  -- Every part is parsed in a state reached later, whose literals still fit.
  induction h with
  | empty | listEnd | casesEnd => exact Node.allNodes_nil
  | assign ha => exact ha.textual hs
  | compound _ hm _ _ ih =>
    exact .node (Node.textual_plain trivial) (ih (hs.after hm.reaches))
  | repeatUntil _ hm hl _ hm' he ih =>
    have hlist := hs.after hm.reaches
    have hcondition := he.textual ((hlist.after hl.reaches).after hm'.reaches)
    exact .node (Node.textual_plain trivial) (Node.allNodes_append.2
      ⟨ih hlist, .node (Node.textual_plain trivial) hcondition⟩)
  | write _ hm ha | writeln _ hm ha =>
    exact .node (Node.textual_plain trivial) (ha.textual (hs.after hm.reaches))
  | writelnBare | emptyBranch => exact .node (Node.textual_plain trivial) Node.allNodes_nil
  | whileDo _ hm he _ hm' _ ih =>
    have hcondition := hs.after hm.reaches
    have hbody := ih ((hcondition.after he.reaches).after hm'.reaches)
    refine .node (Node.textual_plain trivial) (Node.AllNodes.cons ?_ hbody)
    exact .node (Node.textual_plain trivial)
      (.node ⟨⟨_, rfl⟩, .inr ⟨_, rfl⟩, trivial⟩ (he.textual hcondition))
  | forDo _ hm ha _ hd he _ hm' _ ih =>
    have hfirst := hs.after hm.reaches
    have hbound := (hfirst.after ha.reaches).after hd.reaches
    have hbody := (hbound.after he.reaches).after hm'.reaches
    exact textual_forLoop _ _ _ (ha.textual hfirst) (he.textual hbound) (ih hbody)
  | ifThen _ hm he _ hm' _ _ ih =>
    have hcondition := hs.after hm.reaches
    have hfirst := ih ((hcondition.after he.reaches).after hm'.reaches)
    exact .node (Node.textual_plain trivial) ((he.textual hcondition).cons hfirst)
  | ifThenElse _ hm he _ hm' hb _ hl _ ihf ihs =>
    have hcondition := hs.after hm.reaches
    have hfirst := (hcondition.after he.reaches).after hm'.reaches
    have hsecond := (hfirst.after hb.reaches).after hl.reaches
    exact .node (Node.textual_plain trivial)
      ((he.textual hcondition).cons ((ihf hfirst).cons (ihs hsecond)))
  | caseOf _ hm he _ hm' _ _ ih =>
    have hvalue := hs.after hm.reaches
    have hbranches := ih ((hvalue.after he.reaches).after hm'.reaches)
    exact .node (Node.textual_plain trivial) ((he.textual hvalue).cons hbranches)
  | branch _ ih => exact ih hs
  | listItem _ hn hsep _ ih ihs | casesItem _ hn hsep _ ih ihs =>
    have hrest := ihs ((hs.after hn.reaches).after hsep.reaches)
    exact Node.allNodes_append.2 ⟨ih hs, hrest⟩
  | listGap _ hr hsep _ ih | casesGap _ hr hsep _ ih =>
    exact ih ((hs.after hr.reaches).after hsep.reaches)
  | caseBranch hc _ hm _ ih =>
    have hbody := ih ((hs.after hc.reaches).after hm.reaches)
    exact .node (Node.textual_plain trivial) (Node.AllNodes.cons
      (.node (Node.textual_plain trivial) (hc.textual hs)) hbody)

theorem BuildsProgram.textual {s t : State} {n : Node} (h : BuildsProgram s n t)
    (hs : s.LiteralsFit) : AllNodes Textual [n] := by
  cases h with
  | @mk _ _ name body hh hb =>
    have hbody : AllNodes Textual [body] := by
      cases hb with
      | nothing => exact .node (Node.textual_plain trivial) Node.allNodes_nil
      | compound h₁ hl =>
        have hlist := (hs.after hh.declares.reaches).after (h₁.reaches rfl)
        exact .node (Node.textual_plain trivial) (hl.textual hlist)
    refine .node ⟨⟨_, rfl⟩, ?_, trivial⟩ hbody
    cases name with
    | none => exact .inl rfl
    | some t => exact .inr ⟨t.text, rfl⟩

/-! ## Rules of the grammar -/

/-- A tree that is built: of a program, or of a rule of the grammar. -/
inductive BuildsTree : State → Node → State → Prop
  | program {s t : State} {n : Node} : BuildsProgram s n t → BuildsTree s n t
  | expression {level : Level} {s t : State} {n : Node} :
      BuildsExpression level s n t → BuildsTree s n t
  | statement {phrase : Phrase} {s t : State} {n : Node} :
      BuildsStatement phrase s [n] t → BuildsTree s n t
  | constant {s t : State} {n : Node} : BuildsConstant s n t → BuildsTree s n t

theorem simpleExpression_apply (s : State) :
    simpleExpression s = simpleExpressionWith s.fuel s := rfl

theorem term_apply (s : State) : term s = termWith s.fuel s := rfl

theorem factor_apply (s : State) : factor s = factorWith s.fuel s := rfl

theorem statement_apply (s : State) : statement s = statementWith s.fuel s := rfl

theorem branch_apply (s : State) : branch s = branchWith s.fuel s := rfl

theorem caseBranch_apply (s : State) : caseBranch s = caseBranchWith s.fuel s := rfl

/-- What a parser gives is what a rule gives with it. -/
theorem Meets.some {p : Parser Node} {s : State} {Q : Node → State → Prop} (h : Meets p s Q)
    (hQ : ∀ n t, Q n t → BuildsTree s n t) :
    Meets (do return Option.some (← p)) s fun o t => ∀ n ∈ o, BuildsTree s n t := by
  refine h.bind fun n t _ hn => .pure ?_
  rintro _ ⟨⟩
  exact hQ n t hn

/-- Every tree that a rule gives is built. -/
theorem meets_rule (rule : Rule) (s : State) :
    Meets rule.parser s fun o t => ∀ n ∈ o, BuildsTree s n t := by
  -- The fuel of a state is enough for the largest of the rules.
  have hfuel : 4 * s.ahead.length + 4 ≤ s.fuel := by
    have := s.length_ahead_le
    unfold State.fuel
    omega
  have hexpressions := expressionParsersBuild s.fuel
  have hstatements := statementParsersBuild s.fuel
  cases rule with
  | expression => exact (meets_expression s).some fun _ _ hn => .expression hn
  | simpleExpression =>
    have h := Meets.of_apply_eq (simpleExpression_apply s) (hexpressions.simple s (by omega))
    exact h.some fun _ _ hn => .expression hn.1
  | term =>
    have h := Meets.of_apply_eq (term_apply s) (hexpressions.term s (by omega))
    exact h.some fun _ _ hn => .expression hn.1
  | factor =>
    have h := Meets.of_apply_eq (factor_apply s) (hexpressions.factor s (by omega))
    exact h.some fun _ _ hn => .expression hn
  | statement =>
    have h := Meets.of_apply_eq (statement_apply s) (hstatements.statement s (by omega))
    refine h.imp ?_
    rintro (_ | n) t hn k ⟨⟩
    exact .statement hn
  | branch =>
    have h := Meets.of_apply_eq (branch_apply s) (hstatements.branch s (by omega))
    exact h.some fun _ _ hn => .statement hn
  | caseBranch =>
    have h := Meets.of_apply_eq (caseBranch_apply s) (hstatements.caseBranch s (by omega))
    exact h.some fun _ _ hn => .statement hn
  | caseConstant =>
    have h : Meets caseConstant s (BuildsConstant s) := meets_caseConstant fun _ _ hn => hn
    exact h.some fun _ _ hn => .constant hn
  | variableName =>
    have h : Meets (variableNode false) s (BuildsExpression .factor s) :=
      meets_variableNode fun _ hk hm => .name hk hm
    exact h.some fun _ _ hn => .expression hn

namespace BuildsTree

variable {s t : State} {n : Node}

theorem wellShaped (h : BuildsTree s n t) : AllNodes Node.WellShaped [n] := by
  cases h with
  | program h => exact h.wellShaped
  | expression h => exact h.shaped.nodes
  | statement h => exact h.shaped.nodes
  | constant h => exact h.shaped.2

theorem textual (h : BuildsTree s n t) (hs : s.LiteralsFit) : AllNodes Textual [n] := by
  cases h with
  | program h => exact h.textual hs
  | expression h => exact h.textual hs
  | statement h => exact h.textual hs
  | constant h => exact h.textual hs

theorem bound (h : BuildsTree s n t) : AllNodes (Node.Bound t.table) [n] := by
  cases h with
  | program h => exact h.bound
  | expression h => exact h.declares.enters.bound h.nameable
  | statement h => exact h.declares.enters.bound h.nameable
  | constant h => exact h.declares.enters.bound h.nameable

/-- All nodes of a tree from a program text are as the rules build them. -/
theorem parsed (h : BuildsTree s n t) (hs : s.LiteralsFit) :
    ∀ k ∈ n.walk, k.Parsed t.table :=
  fun k hk => ⟨h.wellShaped.walk k hk, (h.textual hs).walk k hk, h.bound.walk k hk⟩

end BuildsTree

/-- Parsing gives a tree: that of a program, or of a rule of the grammar used alone. -/
def Parses (s : State) (n : Node) (t : State) : Prop :=
  program s = .ok n t ∨ ∃ rule : Rule, rule.parser s = .ok (some n) t

theorem Parses.builds {s t : State} {n : Node} (h : Parses s n t) : BuildsTree s n t := by
  obtain h | ⟨rule, h⟩ := h
  · exact .program ((meets_program s).of_ok h).2
  · exact ((meets_rule rule s).of_ok h).2 n rfl

/-- A tree that is parsed from a program text, from any state that parsing can be in. -/
theorem Parses.parsed {source : String} {table : Table} {strict : Bool} {s u t : State} {n : Node}
    (h : Parses u n t) (hs : State.start (.ofSource source) table strict = .ok s)
    (hu : Reaches s u) : ∀ k ∈ n.walk, k.Parsed t.table := by
  have hstart : s.LiteralsFit :=
    State.tokens_start (fun _ => trivial) hs (literalFits_ofSource source)
  exact h.builds.parsed (hstart.after hu)

end Parsing

end MiniPascal
