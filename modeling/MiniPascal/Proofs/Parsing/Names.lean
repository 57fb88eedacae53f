import MiniPascal.Proofs.Grammar.Soundness
import MiniPascal.Proofs.Token.Classify
import MiniPascal.Proofs.Tree.Names

/-!
# The names that parsing enters

Parsing enters a name where it reads it, and in strict mode reports one that is new there and not
being assigned. A tree lists its names each node before its children, which is their order in the
text, since a variable stands before the expression assigned to it and an operand before the next
one. Only the control variable of a `FOR` loop comes again later in the tree, when it has been
entered.

**The names of what is built are declared** (`BuildsStatement.declares`). All names in a tree are in
the table. If no syntax error was reported, then the table holds the names of the tree in their
order, and no others, and those reported are the undeclared ones among the mentions in the tree.
After a syntax error there may be more, from statements that were abandoned: the table comes from
entering, in their order, the names of the tree and others between them.
-/

namespace MiniPascal

/-- The mention of a variable by a token. -/
def Node.Mention.ofToken (t : Token) (assigned : Bool) : Mention := ⟨.int t.line, t.text, assigned⟩

/-- The mentions of names that are new in a table and not being assigned, where each name is entered
after it is mentioned. -/
def Table.undeclared (table : Table) : List Node.Mention → List Node.Mention
  | [] => []
  | m :: ms =>
    (if table.contains m.name || m.assigned then [] else [m]) ++ (table.enter m.name).undeclared ms

theorem Table.undeclared_append (table : Table) (ms ms' : List Node.Mention) :
    table.undeclared (ms ++ ms') =
      table.undeclared ms ++ (table.enterAll (ms.map (·.name))).undeclared ms' := by
  induction ms generalizing table with
  | nil => rfl
  | cons m ms ih => simp [undeclared, ih]

/-- Reading the tokens of a stream makes no diagnostics about names. -/
def Stream.Quiet (s : Stream) : Prop :=
  ∀ r ∈ s.items, ∀ d ∈ r.report, d.problem.stage ≠ .naming

namespace Parsing

open Grammar (Phrase Level assignmentNode repeatLoop caseBranchNode)
open Node (Mention namesOf mentionsAll AllNameable)

/-! ## Entering names -/

/-- Parsing from a state to another enters the given names in their order, and others between them
only where it reports a syntax error. -/
structure Enters (s : State) (names : List Text) (t : State) : Prop where
  reaches : Reaches s t
  among : ∃ entered, names.Sublist entered ∧ t.table = s.table.enterAll entered
  table : ¬ t.HasSyntaxError → t.table = s.table.enterAll names

theorem Enters.of_table {s t : State} {names : List Text} (hr : Reaches s t)
    (h : t.table = s.table.enterAll names) : Enters s names t :=
  ⟨hr, ⟨names, .refl names, h⟩, fun _ => h⟩

theorem Enters.contains {s t : State} {names : List Text} (h : Enters s names t) {name : Text}
    (hn : name ∈ names) : t.table.contains name = true := by
  obtain ⟨entered, hsub, ht⟩ := h.among
  rw [ht]
  exact Table.contains_enterAll_of_mem (hsub.subset hn)

/-- What entering a name keeps, every parse keeps. -/
theorem Reaches.table_induct {P : Table → Prop}
    (enter : ∀ {table : Table} (name : Text), P table → P (table.enter name)) {s t : State}
    (h : Reaches s t) (hs : P s.table) : P t.table := by
  refine h.induct (P := fun u => P u.table) (fun hst hs => ?_) hs
  cases hst with
  | read | report | undeclared => exact hs
  | enter name => exact enter _ hs

/-- What has been entered stays entered. -/
theorem Reaches.contains {s t : State} (h : Reaches s t) {name : Text}
    (hs : s.table.contains name = true) : t.table.contains name = true :=
  h.table_induct (P := fun table => table.contains name = true) (fun _ => Table.contains_enter) hs

/-- Nothing but entering names changes the table. -/
theorem Reaches.exists_enterAll {s t : State} (h : Reaches s t) :
    ∃ entered, t.table = s.table.enterAll entered := by
  refine h.table_induct (P := fun table => ∃ entered, table = s.table.enterAll entered) ?_ ⟨[], rfl⟩
  rintro _ name ⟨entered, rfl⟩
  exact ⟨entered ++ [name], (Table.enterAll_append s.table entered [name]).symm⟩

/-! ## Reporting names -/

/-- The lines and the spellings of the names that were reported. -/
def State.namings (s : State) : List (Value × Text) :=
  (s.reports.filter (·.problem.stage = .naming)).map fun d => (.int d.line, d.text)

theorem Reaches.quiet {s t : State} (h : Reaches s t) (hs : s.stream.Quiet) : t.stream.Quiet := by
  obtain ⟨w, hw⟩ := h.passed
  intro r hr
  rw [hw.items] at hr
  exact hs r (List.mem_of_mem_drop hr)

/-- Reading a token reports no names. -/
theorem State.namings_receive {s : State} {r : Reading} {rest : Stream} (hs : s.stream.Quiet)
    (hn : s.stream.next = .ok (r, rest)) : (s.receive r rest).namings = s.namings := by
  have hquiet : ∀ d ∈ r.report, d.problem.stage ≠ .naming := by
    obtain ⟨hi, -⟩ | ⟨-, -, line, -, rfl⟩ := Stream.next_eq_ok hn
    · exact hs r (by simp [hi])
    · simp
  have hnone : r.report.toList.filter (·.problem.stage = .naming) = [] := by
    simpa [List.filter_eq_nil_iff] using hquiet
  unfold State.namings
  rw [State.reports_receive, List.filter_append, hnone, List.append_nil]

theorem Moves.namings {s t : State} (h : Moves s t) (hs : s.stream.Quiet) :
    t.namings = s.namings := by
  obtain ⟨-, hn⟩ := h
  exact State.namings_receive hs hn

/-- The names in mentions are declared between two states: they are entered, and in strict mode
those that are undeclared are reported, unless there is a syntax error. -/
structure Declares (s : State) (ms : List Mention) (t : State) : Prop
    extends Enters s (ms.map (·.name)) t where
  namings : t.strict = true → s.stream.Quiet → ¬ t.HasSyntaxError →
    t.namings = s.namings ++ (s.table.undeclared ms).map fun m => (m.line, m.name)

namespace Declares

variable {s t u : State} {ms ms' : List Mention}

theorem refl (s : State) : Declares s [] s where
  toEnters := .of_table .refl rfl
  namings _ _ _ := (List.append_nil _).symm

theorem trans (h : Declares s ms t) (h' : Declares t ms' u) : Declares s (ms ++ ms') u where
  reaches := h.reaches.trans h'.reaches
  among := by
    obtain ⟨entered, hsub, ht⟩ := h.among
    obtain ⟨entered', hsub', ht'⟩ := h'.among
    refine ⟨entered ++ entered', ?_, by rw [ht', ht, Table.enterAll_append]⟩
    rw [List.map_append]
    exact hsub.append hsub'
  table hc := by
    have hc' : ¬ t.HasSyntaxError := fun he => hc (h'.reaches.hasSyntaxError he)
    rw [h'.table hc, h.table hc', List.map_append, Table.enterAll_append]
  namings hstrict hquiet hc := by
    have hc' : ¬ t.HasSyntaxError := fun he => hc (h'.reaches.hasSyntaxError he)
    have hstrict' : t.strict = true := h'.reaches.strict_eq ▸ hstrict
    rw [h'.namings hstrict (h.reaches.quiet hquiet) hc, h.namings hstrict' hquiet hc',
      h.table hc', Table.undeclared_append, List.map_append, List.append_assoc]

/-- Nothing is said of what is declared where a syntax error is reported. -/
theorem of_syntaxError (hr : Reaches s t) (h : t.HasSyntaxError) : Declares s [] t where
  reaches := hr
  among := hr.exists_enterAll.imp fun entered ht => ⟨entered.nil_sublist, ht⟩
  table hc := absurd h hc
  namings _ _ hc := absurd h hc

/-- A name that has been entered may be mentioned again. -/
theorem again (h : Declares s ms t) (m : Mention) (hm : t.table.contains m.name = true) :
    Declares s (ms ++ [m]) t :=
  h.trans
    { toEnters := .of_table .refl (Table.enter_of_contains hm).symm
      namings := fun _ _ _ => by simp [Table.undeclared, hm] }

/-- The names of trees are entered where they are declared. -/
theorem enters {assigned : Bool} {ns : List Node} (h : Declares s (mentionsAll assigned ns) t) :
    Enters s (namesOf ns) t :=
  Node.map_name_mentionsAll assigned ns ▸ h.toEnters

end Declares

theorem Moves.declares {s t : State} (h : Moves s t) : Declares s [] t where
  toEnters := .of_table h.reaches h.table
  namings _ hquiet _ := by rw [h.namings hquiet]; exact (List.append_nil _).symm

/-- In strict mode a variable is reported if it is undeclared. -/
theorem State.namings_named {s : State} (h : s.strict = true) (t : Token) (assigned : Bool) :
    (s.named t assigned).namings =
      s.namings ++ (s.table.undeclared [.ofToken t assigned]).map fun m => (m.line, m.name) := by
  have hentered : ∀ u : State, (u.entered t.text).namings = u.namings := fun _ => rfl
  unfold State.named
  rw [hentered]
  cases hc : s.table.contains t.text <;> cases assigned <;>
    simp [Table.undeclared, Mention.ofToken, State.namings, State.reports_reported, h, hc,
      Token.diagnose, Problem.stage]

theorem Moves.declares_named {s t : State} (h : Moves s t) (hk : s.current.kind = .identifier)
    (assigned : Bool) :
    Declares s [.ofToken s.current assigned] (t.named s.current assigned) where
  toEnters := .of_table (h.reaches_named hk assigned) (by rw [State.table_named, h.table]; rfl)
  namings hstrict hquiet _ := by
    rw [State.strict_named] at hstrict
    rw [← h.namings hquiet, ← h.table]
    exact State.namings_named hstrict _ _

theorem Expects.declares {kind : TokenKind} {p : Problem} {s t : State} (hp : p.stage = .parsing)
    (h : Expects kind p s t) : Declares s [] t := by
  have hr := h.reaches hp
  cases h with
  | found _ hm => exact hm.declares
  | missing => exact .of_syntaxError hr (s.hasSyntaxError_reported hp)

theorem Recovers.declares {followers : TokenKind → Bool} {s t : State}
    (h : Recovers followers s t) : Declares s [] t :=
  .of_syntaxError h.reaches h.syntaxError

theorem SkipsSemicolons.declares {s t : State} (h : SkipsSemicolons s t) : Declares s [] t := by
  obtain ⟨hskips, -⟩ := h
  induction hskips with
  | refl => exact .refl s
  | tail _ hm ih => exact ih.trans hm.2.declares

theorem Separates.declares {s t : State} (h : Separates s t) : Declares s [] t := by
  have hr := h.reaches
  cases h with
  | semicolons _ hs => exact hs.declares
  | missing => exact .of_syntaxError hr (s.hasSyntaxError_reported rfl)
  | stray _ _ hs => exact hs.declares
  | closed => exact .refl s

theorem SeparatesBranch.declares {s t : State} (h : SeparatesBranch s t) : Declares s [] t := by
  have hr := h.reaches
  cases h with
  | semicolons _ hs => exact hs.declares
  | missing => exact .of_syntaxError hr (s.hasSyntaxError_reported rfl)
  | other => exact .refl s

/-! ## Expressions -/

/-- Nodes of a kind only pass on the names below them. -/
structure Plain (kind : Kind) : Prop where
  bringsName : Node.bringsName kind = false
  assignsFirst : Node.assignsFirst kind = false

theorem plain_of_relation? {k : TokenKind} {kind : Kind} (h : relation? k = some kind) :
    Plain kind := by
  obtain ⟨r, -, rfl⟩ := relation?_eq_some h
  exact ⟨rfl, rfl⟩

theorem plain_of_sumOperator? {k : TokenKind} {kind : Kind} (h : sumOperator? k = some kind) :
    Plain kind := by
  obtain ⟨a, -, rfl⟩ := sumOperator?_eq_some h
  exact ⟨rfl, rfl⟩

theorem plain_of_productOperator? {k : TokenKind} {kind : Kind}
    (h : productOperator? k = some kind) : Plain kind := by
  cases productOperator?_eq_some h <;> exact ⟨rfl, rfl⟩

theorem mentionsAll_operation {kind : Kind} (h : Plain kind) (t : Token) (ns : List Node) :
    mentionsAll false [operation kind t ns] = mentionsAll false ns := by
  have hown : (operation kind t ns).ownNames = [] := Node.ownNames_of_plain h.bringsName
  rw [Node.mentionsAll_cons, hown]
  simp [operation, h.assignsFirst]

@[simp] theorem mentionsAll_variable (assigned : Bool) (t : Token) :
    mentionsAll assigned [operation .var t []] = [.ofToken t assigned] := by
  simp [operation, Node.ownNames, Mention.ofToken]

/-- The names of an expression are declared in their order. -/
theorem BuildsExpression.declares {level : Level} {s t : State} {n : Node}
    (h : BuildsExpression level s n t) : Declares s (mentionsAll false [n]) t := by
  induction h with
  | simple _ _ ih | term _ ih | factor _ ih => exact ih
  | relation _ ho hm _ ih₁ ih₂ =>
    rw [mentionsAll_operation (plain_of_relation? ho)]
    simpa using ih₁.trans (hm.declares.trans ih₂)
  | sum _ ho hm _ ih₁ ih₂ =>
    rw [mentionsAll_operation (plain_of_sumOperator? ho)]
    simpa using ih₁.trans (hm.declares.trans ih₂)
  | product _ ho hm _ ih₁ ih₂ =>
    rw [mentionsAll_operation (plain_of_productOperator? ho)]
    simpa using ih₁.trans (hm.declares.trans ih₂)
  | name hk hm =>
    rw [mentionsAll_variable]
    exact hm.declares_named hk false
  | integer _ hm | real _ hm => simpa [nodeAt, Node.ownNames] using hm.declares
  | negate _ hm _ ih | not _ hm _ ih =>
    rw [mentionsAll_operation ⟨rfl, rfl⟩]
    exact hm.declares.trans ih
  | paren _ hm _ _ hm' ih => simpa using hm.declares.trans (ih.trans hm'.declares)

/-! ## Statements -/

theorem mentionsAll_assignment (target : Token) (value : Node) :
    mentionsAll false [assignmentNode target value] =
      [.ofToken target true] ++ mentionsAll false [value] := by
  simp [assignmentNode, operation, Node.ownNames, Node.assignsFirst, Mention.ofToken]

/-- The control variable of a loop is mentioned four times, and assigned to at the start and at the
end. -/
theorem mentionsAll_forLoop (d : Direction) (line boundLine : Value) (target : Token)
    (value bound body : Node) :
    mentionsAll false [forLoop d line boundLine (assignmentNode target value)
      (operation .var target []) bound body] =
      (mentionsAll false [assignmentNode target value] ++ [.ofToken target false]) ++
        (mentionsAll false [bound] ++ (mentionsAll false [body] ++ [.ofToken target true] ++
          [.ofToken target false])) := by
  cases d <;>
    simp [forLoop, Direction.passed, Direction.stepped, assignmentNode, operation, Node.ownNames,
      Node.assignsFirst, Mention.ofToken]

theorem BuildsAssignment.declares {s t : State} {target : Token} {value : Node}
    (h : BuildsAssignment s target value t) :
    Declares s (mentionsAll false [assignmentNode target value]) t := by
  obtain ⟨hk, hm, -, hm', he⟩ := h
  rw [mentionsAll_assignment]
  exact (hm.declares_named hk true).trans (hm'.declares.trans he.declares)

theorem BuildsAssignment.contains_target {s t : State} {target : Token} {value : Node}
    (h : BuildsAssignment s target value t) : t.table.contains (target.text : Text) = true :=
  h.declares.contains (by rw [mentionsAll_assignment]; exact List.mem_cons_self)

theorem BuildsArgument.declares {s t : State} {n : Node} (h : BuildsArgument s n t) :
    Declares s (mentionsAll false [n]) t := by
  cases h with
  | name hk hm =>
    rw [mentionsAll_variable]
    exact hm.declares_named hk false
  | text _ hm => simpa [nodeAt, Node.ownNames] using hm.declares

theorem BuildsField.declares {s t : State} {ns : List Node} (h : BuildsField s ns t) :
    Declares s (mentionsAll false ns) t := by
  cases h with
  | none => simpa using Declares.refl s
  | width _ hm _ hm' => simpa [nodeAt, Node.ownNames] using hm.declares.trans hm'.declares
  | places _ h₁ _ h₂ _ h₃ _ h₄ =>
    simpa [nodeAt, Node.ownNames] using
      h₁.declares.trans (h₂.declares.trans (h₃.declares.trans h₄.declares))

theorem BuildsArguments.declares {required : Bool} {s t : State} {ns : List Node}
    (h : BuildsArguments required s ns t) : Declares s (mentionsAll false ns) t := by
  cases h with
  | none _ _ hm _ hm' => simpa using hm.declares.trans hm'.declares
  | some _ hm ha hf _ hm' =>
    simpa using hm.declares.trans (ha.declares.trans (hf.declares.trans hm'.declares))

theorem BuildsConstant.declares {s t : State} {n : Node} (h : BuildsConstant s n t) :
    Declares s (mentionsAll false [n]) t := by
  cases h with
  | integer _ hm | character _ hm => simpa [nodeAt, Node.ownNames] using hm.declares
  | negated _ hm _ hm' =>
    rw [mentionsAll_operation ⟨rfl, rfl⟩]
    simpa [nodeAt, Node.ownNames] using hm.declares.trans hm'.declares

theorem BuildsConstants.declares {s t : State} {ns : List Node} (h : BuildsConstants s ns t) :
    Declares s (mentionsAll false ns) t := by
  induction h with
  | one hc _ => exact hc.declares
  | more hc _ hm _ ih => simpa using hc.declares.trans (hm.declares.trans ih)

/-- The names of statements are declared in their order. -/
theorem BuildsStatement.declares {phrase : Phrase} {s t : State} {ns : List Node}
    (h : BuildsStatement phrase s ns t) : Declares s (mentionsAll false ns) t := by
  induction h with
  | empty | listEnd | casesEnd => simpa using Declares.refl _
  | assign ha => exact ha.declares
  | compound _ hm _ he ih =>
    simpa [Node.ownNames, Node.assignsFirst] using hm.declares.trans (ih.trans (he.declares rfl))
  | repeatUntil _ hm _ _ hm' he ih =>
    simpa [repeatLoop, Node.ownNames, Node.assignsFirst] using
      hm.declares.trans (ih.trans (hm'.declares.trans he.declares))
  | write _ hm ha | writeln _ hm ha =>
    simpa [Node.ownNames, Node.assignsFirst] using hm.declares.trans ha.declares
  | writelnBare _ hm _ => simpa [Node.ownNames] using hm.declares
  | whileDo _ hm he _ hm' _ ih =>
    simpa [whileLoop, Node.ownNames, Node.assignsFirst] using
      hm.declares.trans (he.declares.trans (hm'.declares.trans ih))
  | forDo _ hm ha _ hd he _ hm' _ ih =>
    rw [mentionsAll_forLoop]
    -- The control variable has been entered by the assignment, so its copies declare nothing.
    have hbound := hd.declares.trans he.declares
    have hbody := hm'.declares.trans ih
    have hagain := hbody.reaches.contains (hbound.reaches.contains ha.contains_target)
    exact ((hm.declares.trans ha.declares).again (.ofToken _ false) ha.contains_target).trans
      (hbound.trans ((hbody.again (.ofToken _ true) hagain).again (.ofToken _ false) hagain))
  | ifThen _ hm he _ hm' _ _ ih =>
    simpa [Node.ownNames, Node.assignsFirst] using
      hm.declares.trans (he.declares.trans (hm'.declares.trans ih))
  | ifThenElse _ hm he _ hm' _ _ hl _ ih₁ ih₂ =>
    simpa [Node.ownNames, Node.assignsFirst] using
      hm.declares.trans (he.declares.trans (hm'.declares.trans (ih₁.trans (hl.declares.trans ih₂))))
  | caseOf _ hm hv _ hm' _ he ih =>
    simpa [Node.ownNames, Node.assignsFirst] using
      hm.declares.trans (hv.declares.trans (hm'.declares.trans (ih.trans (he.declares rfl))))
  | emptyBranch _ ih => simpa [Node.ownNames] using ih
  | branch _ ih => exact ih
  | listItem _ _ hs _ ih₁ ih₂ => simpa using ih₁.trans (hs.declares.trans ih₂)
  | listGap _ hr hs _ ih => exact hr.declares.trans (hs.declares.trans ih)
  | caseBranch hc _ hm _ ih =>
    simpa [caseBranchNode, Node.ownNames, Node.assignsFirst] using
      hc.declares.trans (hm.declares.trans ih)
  | casesItem _ _ hs _ ih₁ ih₂ => simpa using ih₁.trans (hs.declares.trans ih₂)
  | casesGap _ hr hs _ ih => exact hr.declares.trans (hs.declares.trans ih)

/-! ## All names are texts -/

theorem nameable_operation {kind : Kind} (hk : Node.bringsName kind = false) (t : Token)
    {ns : List Node} (h : AllNameable ns) : AllNameable [operation kind t ns] :=
  Node.allNameable_cons.2 ⟨Node.nameable_of_plain hk, h, Node.allNameable_nil⟩

theorem nameable_variable (t : Token) : AllNameable [operation .var t []] := by
  simp [operation, Node.Nameable]

theorem BuildsExpression.nameable {level : Level} {s t : State} {n : Node}
    (h : BuildsExpression level s n t) : AllNameable [n] := by
  induction h with
  | simple _ _ ih | term _ ih | factor _ ih | paren _ _ _ _ _ ih => exact ih
  | relation _ ho _ _ ih₁ ih₂ =>
    exact nameable_operation (plain_of_relation? ho).bringsName _ (ih₁.cons ih₂)
  | sum _ ho _ _ ih₁ ih₂ =>
    exact nameable_operation (plain_of_sumOperator? ho).bringsName _ (ih₁.cons ih₂)
  | product _ ho _ _ ih₁ ih₂ =>
    exact nameable_operation (plain_of_productOperator? ho).bringsName _ (ih₁.cons ih₂)
  | name => exact nameable_variable _
  | integer | real => simp [nodeAt, Node.Nameable]
  | negate _ _ _ ih | not _ _ _ ih => exact nameable_operation rfl _ ih

theorem BuildsAssignment.nameable {s t : State} {target : Token} {value : Node}
    (h : BuildsAssignment s target value t) : AllNameable [assignmentNode target value] := by
  obtain ⟨-, -, -, -, he⟩ := h
  have hv := he.nameable
  simp_all [assignmentNode, operation, Node.Nameable]

theorem nameable_forLoop (d : Direction) (line boundLine : Value) {target : Token}
    {value bound body : Node} (ha : AllNameable [assignmentNode target value])
    (hbound : AllNameable [bound]) (hbody : AllNameable [body]) :
    AllNameable [forLoop d line boundLine (assignmentNode target value) (operation .var target [])
      bound body] := by
  cases d <;>
    simp_all [forLoop, Direction.passed, Direction.stepped, operation, Node.Nameable]

theorem BuildsArguments.nameable {required : Bool} {s t : State} {ns : List Node}
    (h : BuildsArguments required s ns t) : AllNameable ns := by
  cases h with
  | none => exact Node.allNameable_nil
  | some _ _ ha hf =>
    refine Node.AllNameable.cons ?_ ?_
    · cases ha with
      | name => exact nameable_variable _
      | text => simp [nodeAt, Node.Nameable]
    · cases hf <;> simp [nodeAt, Node.Nameable]

theorem BuildsConstant.nameable {s t : State} {n : Node} (h : BuildsConstant s n t) :
    AllNameable [n] := by
  cases h <;> simp [nodeAt, operation, Node.Nameable]

theorem BuildsConstants.nameable {s t : State} {ns : List Node} (h : BuildsConstants s ns t) :
    AllNameable ns := by
  induction h with
  | one hc _ => exact hc.nameable
  | more hc _ _ _ ih => exact hc.nameable.cons ih

/-- Every name in the trees that are built is a text. -/
theorem BuildsStatement.nameable {phrase : Phrase} {s t : State} {ns : List Node}
    (h : BuildsStatement phrase s ns t) : AllNameable ns := by
  induction h with
  | empty | listEnd | casesEnd => exact Node.allNameable_nil
  | writelnBare | emptyBranch => simp [Node.Nameable]
  | assign ha => exact ha.nameable
  | compound _ _ _ _ ih => simpa [Node.Nameable] using ih
  | repeatUntil _ _ _ _ _ he ih =>
    have hc := he.nameable
    simp_all [repeatLoop, Node.Nameable]
  | write _ _ ha | writeln _ _ ha => simpa [Node.Nameable] using ha.nameable
  | whileDo _ _ he _ _ _ ih | ifThen _ _ he _ _ _ _ ih | caseOf _ _ he _ _ _ _ ih =>
    have hc := he.nameable
    simp_all [whileLoop, Node.Nameable]
  | forDo _ _ ha _ _ he _ _ _ ih =>
    exact nameable_forLoop _ _ _ ha.nameable he.nameable ih
  | ifThenElse _ _ he _ _ _ _ _ _ ih₁ ih₂ =>
    have hc := he.nameable
    simp_all [Node.Nameable]
  | branch _ ih | listGap _ _ _ _ ih | casesGap _ _ _ _ ih => exact ih
  | listItem _ _ _ _ ih₁ ih₂ => exact Node.allNameable_append.2 ⟨ih₁, ih₂⟩
  | casesItem _ _ _ _ ih₁ ih₂ => exact ih₁.cons ih₂
  | caseBranch hc _ _ _ ih =>
    have hconstants := hc.nameable
    simp_all [caseBranchNode, Node.Nameable]

/-! ## Programs -/

theorem State.declares_entered (s : State) (line : Value) (name : String) :
    Declares s [⟨line, name, true⟩] (s.entered name) where
  toEnters := .of_table (.single (.enter name)) rfl
  namings _ _ _ := by simp [Table.undeclared]; rfl

/-- The mention that a header makes of its name, which needs no declaration. -/
def headerMentions (name : Option Token) : List Mention := (name.map (.ofToken · true)).toList

theorem BuildsHeader.declares {s t : State} {name : Option Token} (h : BuildsHeader s name t) :
    Declares s (headerMentions name) t := by
  cases h with
  | whole _ hm _ hm' _ hm'' =>
    exact hm.declares.trans
      (hm'.declares.trans ((State.declares_entered _ _ _).trans hm''.declares))
  | noSemicolon _ hm _ hm' hr =>
    exact hm.declares.trans (hm'.declares.trans ((State.declares_entered _ _ _).trans hr.declares))
  | noName hr => exact hr.declares

theorem BuildsBody.declares {s t : State} {n : Node} (h : BuildsBody s n t) :
    Declares s (mentionsAll false [n]) t := by
  have hr := h.reaches
  cases h with
  | nothing =>
    simpa [Node.ownNames] using Declares.of_syntaxError hr (s.hasSyntaxError_reported rfl)
  | compound h₁ h₂ h₃ h₄ =>
    simpa [Node.ownNames, Node.assignsFirst] using
      (h₁.declares rfl).trans (h₂.declares.trans ((h₃.declares rfl).trans (h₄.declares rfl)))

theorem BuildsBody.nameable {s t : State} {n : Node} (h : BuildsBody s n t) : AllNameable [n] := by
  cases h with
  | nothing => simp [Node.Nameable]
  | compound _ hl => simpa [Node.Nameable] using hl.nameable

/-- The tokens of a stream that are identifiers have letters. -/
def Worded (items : List Reading) : Prop :=
  ∀ r ∈ items, r.token.kind = .identifier → r.token.text ≠ ""

/-- A token that was read, other than the end of the text, is one of the stream. -/
theorem State.ReadFrom.current_mem {s : State} {stream : Stream} (h : s.ReadFrom stream)
    (hk : s.current.kind ≠ .endOfFile) : s.current ∈ stream.items.map (·.token) := by
  obtain ⟨earlier, hr, -⟩ := h.current
  have hcurrent : s.current ∈ s.reads := by simp [hr]
  obtain hq | ⟨-, line, -, hq⟩ := h.rest
  · rw [hq]
    exact List.mem_append_left _ hcurrent
  · rw [hq, List.mem_append, List.mem_singleton] at hcurrent
    refine hcurrent.resolve_right fun he => hk ?_
    rw [he]
    rfl

/-- The name of a program is not empty. -/
theorem BuildsHeader.name_ne_empty {s t : State} {name : Token} {stream : Stream}
    (h : BuildsHeader s (some name) t) (hs : s.ReadFrom stream) (hw : Worded stream.items) :
    name.text ≠ "" := by
  have hread : ∀ u, Moves s u → u.current.kind = .identifier → u.current.text ≠ "" := by
    intro u hm hk
    have hmem := (hm.reaches.readFrom hs).current_mem (by rw [hk]; decide)
    obtain ⟨r, hr, he⟩ := List.mem_map.1 hmem
    exact he ▸ hw r hr (he ▸ hk)
  cases h with
  | whole _ hm hk | noSemicolon _ hm hk => exact hread _ hm hk

theorem namesOf_programNode (line : Int) {name : Option Token} (body : Node)
    (h : ∀ t, name = some t → t.text ≠ "") :
    namesOf [programNode line name body] =
      (headerMentions name).map (·.name) ++ namesOf [body] := by
  cases name with
  | none => simp [programNode, headerMentions, Node.ownNames]
  | some t =>
    have hne : (t.text : Text).isEmpty = false := by
      have := h t rfl
      simpa [Text.isEmpty, Text.ofString, Text.ofList] using this
    simp [programNode, headerMentions, Mention.ofToken, Node.ownNames, hne]

/-- **The names of what is built are entered**, and all of them are texts. -/
theorem BuildsProgram.enters {s t : State} {n : Node} {stream : Stream} (h : BuildsProgram s n t)
    (hs : s.ReadFrom stream) (hw : Worded stream.items) :
    Enters s (namesOf [n]) t ∧ AllNameable [n] := by
  cases h with
  | @mk _ _ name body hh hb =>
    refine ⟨?_, Node.allNameable_cons.2 ⟨?_, hb.nameable, Node.allNameable_nil⟩⟩
    · rw [namesOf_programNode _ _ fun name he => (he ▸ hh).name_ne_empty hs hw,
        ← Node.map_name_mentionsAll false, ← List.map_append]
      exact (hh.declares.trans hb.declares).toEnters
    · cases name with
      | none => exact .inl rfl
      | some name => exact .inr ⟨_, rfl⟩

/-! ## The words of a program text -/

/-- The identifiers of a program text have letters. -/
theorem worded_ofSource (source : String) : Worded (Stream.ofSource source).items := by
  refine Stream.forall_ofSource (fun c rest line r hr _ => ?_) source
  rw [(Terminal.reads_of_classify hr).token_text]
  simpa using Lexeme.take_text_ne_nil c rest

end Parsing

end MiniPascal
