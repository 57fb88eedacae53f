import MiniPascal.Proofs.Parsing.Names
import MiniPascal.Proofs.Parsing.Total
import MiniPascal.Proofs.Tree.Shape

/-!
# The shape of what is built

A problem abandons a statement in the middle. What was built of it by then is lost: only whole
statements and whole branches are put into a list, and only what a rule has built to its end.

**Every tree is well shaped** (`program_wellShaped`). Whatever the tokens are, and whatever problems
are reported, every node of the tree has the children that its kind takes, expressions have only
expressions in them, and every variable is in the table.
-/

namespace MiniPascal.Parsing

open Grammar (Phrase Level assignmentNode repeatLoop caseBranchNode)
open Node (AllNodes WellShaped IsArgument IsField IsConstant)

/-! ## Expressions -/

theorem takes_of_relation? {k : TokenKind} {kind : Kind} (h : relation? k = some kind)
    {left right : Node} (hl : left.kind.isExpression = true)
    (hr : right.kind.isExpression = true) :
    kind.isExpression = true ∧ kind.Takes [left, right] := by
  obtain ⟨r, -, rfl⟩ := relation?_eq_some h
  exact ⟨rfl, .relation hl hr⟩

theorem takes_of_sumOperator? {k : TokenKind} {kind : Kind} (h : sumOperator? k = some kind)
    {left right : Node} (hl : left.kind.isExpression = true)
    (hr : right.kind.isExpression = true) :
    kind.isExpression = true ∧ kind.Takes [left, right] := by
  obtain ⟨a, -, rfl⟩ := sumOperator?_eq_some h
  exact ⟨rfl, .arithmetic hl hr⟩

theorem takes_of_productOperator? {k : TokenKind} {kind : Kind}
    (h : productOperator? k = some kind) {left right : Node}
    (hl : left.kind.isExpression = true) (hr : right.kind.isExpression = true) :
    kind.isExpression = true ∧ kind.Takes [left, right] := by
  cases productOperator?_eq_some h with
  | star | slash => exact ⟨rfl, .arithmetic hl hr⟩
  | and | or => exact ⟨rfl, .connective hl hr⟩

/-- A well-shaped tree that is an expression. -/
structure ShapedExpression (n : Node) : Prop where
  kind : n.kind.isExpression = true
  nodes : AllNodes WellShaped [n]

/-- The tree of an operator with two operands. -/
theorem ShapedExpression.binary {kind : Kind} {left right : Node} (hl : ShapedExpression left)
    (hr : ShapedExpression right) (h : kind.isExpression = true ∧ kind.Takes [left, right])
    (t : Token) : ShapedExpression (operation kind t [left, right]) where
  kind := h.1
  nodes := .node h.2 (hl.nodes.cons hr.nodes)

theorem shaped_variable (t : Token) : ShapedExpression (operation .var t []) :=
  ⟨rfl, .node .var Node.allNodes_nil⟩

theorem shaped_integer (t : Token) : ShapedExpression (nodeAt .integer t []) :=
  ⟨rfl, .node .integer Node.allNodes_nil⟩

theorem BuildsExpression.shaped {level : Level} {s t : State} {n : Node}
    (h : BuildsExpression level s n t) : ShapedExpression n := by
  induction h with
  | simple _ _ ih | term _ ih | factor _ ih | paren _ _ _ _ _ ih => exact ih
  | relation _ ho _ _ ihl ihr => exact ihl.binary ihr (takes_of_relation? ho ihl.kind ihr.kind) _
  | sum _ ho _ _ ihl ihr => exact ihl.binary ihr (takes_of_sumOperator? ho ihl.kind ihr.kind) _
  | product _ ho _ _ ihl ihr =>
    exact ihl.binary ihr (takes_of_productOperator? ho ihl.kind ihr.kind) _
  | name => exact shaped_variable _
  | integer => exact shaped_integer _
  | real => exact ⟨rfl, .node .real Node.allNodes_nil⟩
  | negate _ _ _ ih => exact ⟨rfl, .node (.negate ih.kind) ih.nodes⟩
  | not _ _ _ ih => exact ⟨rfl, .node (.not ih.kind) ih.nodes⟩

/-! ## Parts of statements -/

theorem BuildsArgument.shaped {s t : State} {n : Node} (h : BuildsArgument s n t) :
    IsArgument n ∧ AllNodes WellShaped [n] := by
  cases h with
  | name => exact ⟨.inl rfl, (shaped_variable _).nodes⟩
  | text => exact ⟨.inr rfl, .node .string Node.allNodes_nil⟩

theorem BuildsField.shaped {s t : State} {ns : List Node} (h : BuildsField s ns t) :
    IsField ns ∧ AllNodes WellShaped ns := by
  cases h with
  | none => exact ⟨⟨by simp, by simp⟩, Node.allNodes_nil⟩
  | width => exact ⟨⟨by simp, by simp [nodeAt]⟩, (shaped_integer _).nodes⟩
  | places =>
    exact ⟨⟨by simp, by simp [nodeAt]⟩, (shaped_integer _).nodes.cons (shaped_integer _).nodes⟩

/-- Only a `WRITELN` can do without an argument. -/
theorem BuildsArguments.shaped {required : Bool} {s t : State} {ns : List Node}
    (h : BuildsArguments required s ns t) :
    (required = true → Kind.write.Takes ns) ∧ Kind.writeln.Takes ns ∧ AllNodes WellShaped ns := by
  cases h with
  | none hr => exact ⟨fun ht => by simp [ht] at hr, .writelnBare, Node.allNodes_nil⟩
  | some _ _ ha hf =>
    obtain ⟨hargument, hnodes⟩ := ha.shaped
    obtain ⟨hfield, hs⟩ := hf.shaped
    exact ⟨fun _ => .write hargument hfield, .writeln hargument hfield, hnodes.cons hs⟩

theorem BuildsConstant.shaped {s t : State} {n : Node} (h : BuildsConstant s n t) :
    IsConstant n ∧ AllNodes WellShaped [n] := by
  cases h with
  | integer => exact ⟨.inl rfl, (shaped_integer _).nodes⟩
  | character => exact ⟨.inr (.inl rfl), .node .string Node.allNodes_nil⟩
  | negated =>
    exact ⟨.inr (.inr ⟨rfl, _, rfl, rfl⟩), .node (.negate rfl) (shaped_integer _).nodes⟩

theorem BuildsConstants.shaped {s t : State} {ns : List Node} (h : BuildsConstants s ns t) :
    Kind.selectConstants.Takes ns ∧ AllNodes WellShaped ns := by
  have hne : ns ≠ [] := by cases h <;> simp
  have hall : (∀ n ∈ ns, IsConstant n) ∧ AllNodes WellShaped ns := by
    induction h with
    | one hc => simpa using hc.shaped
    | more hc _ _ hcs ih =>
      obtain ⟨hconstant, hnodes⟩ := hc.shaped
      obtain ⟨hconstants, hs⟩ := ih (by cases hcs <;> simp)
      exact ⟨by simpa [hconstant] using hconstants, hnodes.cons hs⟩
  exact ⟨.selectConstants hne hall.1, hall.2⟩

/-! ## Trees without statements -/

section Plain

variable {P : Node → Prop}
  (hP : ∀ n : Node, n.kind.isExpression = true ∨ n.kind = .string → P n)

include hP

/-- What holds of expressions and quoted texts holds of all nodes in them. -/
theorem allNodes_of_plain {ns : List Node} (h : AllNodes WellShaped ns)
    (hk : ∀ n ∈ ns, n.kind.isExpression = true ∨ n.kind = .string) : AllNodes P ns := by
  intro k hmem
  obtain ⟨n, hn, hkn⟩ := Node.mem_walkAll.1 hmem
  have hwell : ∀ j ∈ n.walk, j.WellShaped := fun j hj => h j (Node.mem_walkAll.2 ⟨n, hn, hj⟩)
  refine hP k ?_
  rcases hk n hn with he | hs
  · exact .inl (Node.isExpression_of_wellShaped hwell he k hkn)
  · have hself : n.kind.Takes n.children := hwell n Node.self_mem_walk
    obtain ⟨kind, line, text, literal, children⟩ := n
    obtain rfl : kind = .string := hs
    cases hself
    obtain rfl | ⟨c, hc, -⟩ := Node.mem_walk.1 hkn
    · exact .inr rfl
    · cases hc

theorem ShapedExpression.allNodes {n : Node} (h : ShapedExpression n) : AllNodes P [n] :=
  allNodes_of_plain hP h.nodes (by simpa using .inl h.kind)

theorem BuildsArguments.allNodes {required : Bool} {s t : State} {ns : List Node}
    (h : BuildsArguments required s ns t) : AllNodes P ns := by
  refine allNodes_of_plain hP h.shaped.2.2 fun n hn => ?_
  cases h with
  | none => cases hn
  | some _ _ ha hf =>
    rcases List.mem_cons.1 hn with rfl | hn
    · exact ha.shaped.1.imp (fun hv => by rw [hv]; rfl) id
    · exact .inl (by rw [hf.shaped.1.2 n hn]; rfl)

theorem BuildsConstants.allNodes {s t : State} {ns : List Node} (h : BuildsConstants s ns t) :
    AllNodes P ns := by
  obtain ⟨htakes, hnodes⟩ := h.shaped
  refine allNodes_of_plain hP hnodes fun n hn => ?_
  cases htakes with
  | selectConstants _ hall =>
    obtain hi | hs | ⟨hneg, -⟩ := hall n hn
    · exact .inl (by rw [hi]; rfl)
    · exact .inr hs
    · exact .inl (by rw [hneg]; rfl)

end Plain

/-! ## Statements -/

/-- Whether a phrase builds nodes of a kind. -/
def builds : Phrase → Kind → Bool
  | .statement, kind | .branch, kind | .list, kind => kind.isStatement
  | .caseBranch, kind | .cases, kind => kind == .selectBranch

/-- Well-shaped trees that are those of a phrase. -/
structure ShapedPhrase (phrase : Phrase) (ns : List Node) : Prop where
  kinds : ∀ n ∈ ns, builds phrase n.kind = true
  nodes : AllNodes WellShaped ns

namespace ShapedPhrase

variable {phrase : Phrase} {n : Node} {ns ms : List Node}

theorem nil (phrase : Phrase) : ShapedPhrase phrase [] := ⟨by simp, Node.allNodes_nil⟩

/-- One tree, given its root and what is below it. -/
theorem node (hk : builds phrase n.kind = true) (h : n.kind.Takes n.children)
    (hs : AllNodes WellShaped n.children) : ShapedPhrase phrase [n] :=
  ⟨by simpa using hk, .node h hs⟩

theorem append (h : ShapedPhrase phrase ns) (h' : ShapedPhrase phrase ms) :
    ShapedPhrase phrase (ns ++ ms) where
  kinds n hn := (List.mem_append.1 hn).elim (h.kinds n) (h'.kinds n)
  nodes := Node.allNodes_append.2 ⟨h.nodes, h'.nodes⟩

theorem kind (h : ShapedPhrase phrase [n]) : builds phrase n.kind = true :=
  h.kinds n (List.mem_singleton_self n)

end ShapedPhrase

theorem shaped_assignment (target : Token) {value : Node} (h : ShapedExpression value) :
    ShapedPhrase .statement [assignmentNode target value] :=
  .node rfl (.assign rfl h.kind) ((shaped_variable target).nodes.cons h.nodes)

theorem shaped_repeatLoop (line testLine : Int) {ns : List Node} {condition : Node}
    (hs : ShapedPhrase .list ns) (hc : ShapedExpression condition) :
    ShapedPhrase .statement [repeatLoop line testLine ns condition] := by
  have htest : AllNodes WellShaped
      [{ kind := .test, line := .int testLine, children := [condition] }] :=
    .node (.test hc.kind) hc.nodes
  refine .node rfl (.loop (fun n hn => ?_) ?_) (Node.allNodes_append.2 ⟨hs.nodes, htest⟩)
  · rcases List.mem_append.1 hn with hn | hn
    · exact .inl (hs.kinds n hn)
    · rw [List.mem_singleton.1 hn]
      exact .inr rfl
  · exact ⟨_, List.mem_append_right _ (List.mem_singleton_self _), rfl⟩

/-- A loop that starts with a test. -/
theorem takes_loop {test : Node} {ns : List Node} (ht : test.kind = .test)
    (hs : ∀ n ∈ ns, n.kind.isStatement = true) : Kind.loop.Takes (test :: ns) := by
  refine .loop (fun n hn => ?_) ⟨test, List.mem_cons_self, ht⟩
  rcases List.mem_cons.1 hn with rfl | hn
  · exact .inr ht
  · exact .inl (hs n hn)

theorem shaped_whileLoop (line testLine : Value) {condition body : Node}
    (hc : ShapedExpression condition) (hb : ShapedPhrase .branch [body]) :
    ShapedPhrase .statement [whileLoop line testLine condition body] := by
  have hbody : body.kind.isStatement = true := hb.kind
  refine .node rfl (takes_loop rfl (by simpa using hbody)) (Node.AllNodes.cons ?_ hb.nodes)
  exact .node (.test rfl) (.node (.not hc.kind) hc.nodes)

theorem shaped_passed (d : Direction) (line : Value) {control bound : Node}
    (hc : ShapedExpression control) (hb : ShapedExpression bound) :
    ShapedExpression (d.passed line control bound) := by
  cases d <;> exact ⟨rfl, .node (.relation hc.kind hb.kind) (hc.nodes.cons hb.nodes)⟩

theorem shaped_stepped (d : Direction) (line : Value) {control : Node}
    (hc : ShapedExpression control) : ShapedExpression (d.stepped line control) := by
  have hone : AllNodes WellShaped
      [{ kind := .integer, line, text := .text "1", literal := .int 1 }] :=
    .node .integer Node.allNodes_nil
  cases d <;> exact ⟨rfl, .node (.arithmetic hc.kind rfl) (hc.nodes.cons hone)⟩

theorem shaped_forLoop (d : Direction) (line boundLine : Value) {target : Token}
    {value bound body : Node} (hv : ShapedExpression value) (hb : ShapedExpression bound)
    (hs : ShapedPhrase .branch [body]) :
    ShapedPhrase .statement [forLoop d line boundLine (assignmentNode target value)
      (operation .var target []) bound body] := by
  have hcontrol := shaped_variable target
  have hbody : body.kind.isStatement = true := hs.kind
  have hpassed := shaped_passed d boundLine hcontrol hb
  have hstepped := shaped_stepped d line hcontrol
  have htest : AllNodes WellShaped
      [{ kind := .test, line := boundLine,
         children := [d.passed boundLine (operation .var target []) bound] }] :=
    .node (.test hpassed.kind) hpassed.nodes
  have hstep : AllNodes WellShaped
      [{ kind := .assign, line,
         children := [operation .var target [], d.stepped line (operation .var target [])] }] :=
    .node (.assign rfl hstepped.kind) (hcontrol.nodes.cons hstepped.nodes)
  refine .node rfl (.compound (List.forall_mem_cons.2 ⟨rfl, List.forall_mem_singleton.2 rfl⟩))
    (Node.AllNodes.cons (shaped_assignment target hv).nodes (.node ?_ ?_))
  · exact takes_loop rfl (List.forall_mem_cons.2 ⟨hbody, List.forall_mem_singleton.2 rfl⟩)
  · exact htest.cons (hs.nodes.cons hstep)

theorem BuildsAssignment.shaped {s t : State} {target : Token} {value : Node}
    (h : BuildsAssignment s target value t) : ShapedExpression value := by
  obtain ⟨-, -, -, -, he⟩ := h
  exact he.shaped

/-- What a phrase builds is well shaped, whatever was lost on the way. -/
theorem BuildsStatement.shaped {phrase : Phrase} {s t : State} {ns : List Node}
    (h : BuildsStatement phrase s ns t) : ShapedPhrase phrase ns := by
  induction h with
  | empty | listEnd | casesEnd => exact .nil _
  | assign ha => exact shaped_assignment _ ha.shaped
  | compound _ _ _ _ ih => exact .node rfl (.compound ih.kinds) ih.nodes
  | repeatUntil _ _ _ _ _ he ih => exact shaped_repeatLoop _ _ ih he.shaped
  | write _ _ ha =>
    obtain ⟨hwrite, -, hnodes⟩ := ha.shaped
    exact .node rfl (hwrite rfl) hnodes
  | writeln _ _ ha =>
    obtain ⟨-, hwriteln, hnodes⟩ := ha.shaped
    exact .node rfl hwriteln hnodes
  | writelnBare => exact .node rfl .writelnBare Node.allNodes_nil
  | whileDo _ _ he _ _ _ ih => exact shaped_whileLoop _ _ he.shaped ih
  | forDo _ _ ha _ _ he _ _ _ ih => exact shaped_forLoop _ _ _ ha.shaped he.shaped ih
  | ifThen _ _ he _ _ _ _ ih =>
    exact .node rfl (.ifThen he.shaped.kind ih.kind) (he.shaped.nodes.cons ih.nodes)
  | ifThenElse _ _ he _ _ _ _ _ _ ihf ihs =>
    exact .node rfl (.ifThenElse he.shaped.kind ihf.kind ihs.kind)
      (he.shaped.nodes.cons (ihf.nodes.cons ihs.nodes))
  | caseOf _ _ he _ _ _ _ ih =>
    exact .node rfl (.select he.shaped.kind fun b hb => eq_of_beq (ih.kinds b hb))
      (he.shaped.nodes.cons ih.nodes)
  | emptyBranch => exact .node rfl (.compound (by simp)) Node.allNodes_nil
  | branch _ ih => exact ⟨ih.kinds, ih.nodes⟩
  | @listItem _ _ _ _ ns _ _ _ _ _ ih ihs =>
    have hitem : ShapedPhrase .list ns := ⟨ih.kinds, ih.nodes⟩
    exact hitem.append ihs
  | listGap _ _ _ _ ih | casesGap _ _ _ _ ih => exact ih
  | caseBranch hc _ _ _ ih =>
    obtain ⟨htakes, hnodes⟩ := hc.shaped
    exact .node rfl (.selectBranch rfl ih.kind)
      (Node.AllNodes.cons (.node htakes hnodes) ih.nodes)
  | @casesItem _ _ _ _ n _ _ _ _ _ ih ihs =>
    have hitem : ShapedPhrase .cases [n] := ⟨ih.kinds, ih.nodes⟩
    exact hitem.append ihs

/-! ## Programs -/

theorem BuildsProgram.wellShaped {s t : State} {n : Node} (h : BuildsProgram s n t) :
    AllNodes WellShaped [n] := by
  obtain ⟨-, hb⟩ := h
  cases hb with
  | nothing => exact .node (.program rfl) (.node (.compound (by simp)) Node.allNodes_nil)
  | compound _ hl =>
    exact .node (.program rfl) (.node (.compound hl.shaped.kinds) hl.shaped.nodes)

/-- The variables of what is built are in the table. -/
theorem Enters.bound {s t : State} {ns : List Node} (h : Enters s (Node.namesOf ns) t)
    (hn : Node.AllNameable ns) : AllNodes (Node.Bound t.table) ns := by
  intro k hk hkind
  obtain ⟨name, hname⟩ : ∃ name, k.text = .text name := by
    simpa [Node.Nameable, hkind] using hn k hk
  refine ⟨name, hname, h.contains (List.mem_flatMap.2 ⟨k, hk, ?_⟩)⟩
  simp [Node.ownNames, hkind, hname]

theorem BuildsProgram.bound {s t : State} {n : Node} (h : BuildsProgram s n t) :
    AllNodes (Node.Bound t.table) [n] := by
  obtain ⟨-, hb⟩ := h
  refine .node ?_ (hb.declares.enters.bound hb.nameable)
  intro hkind
  cases hkind

/-- **Every tree is well shaped.** From every stream of tokens, of any kinds, into every table and in
both modes: a stream that ends is parsed to a tree, and whenever parsing gives a tree, whatever
problems it has reported, the tree is that of a program, every node has the children that its kind
takes, there are only expressions in an expression, and every variable is in the table. -/
theorem program_wellShaped (stream : Stream) (table : Table) (strict : Bool) :
    (∀ line, stream.ending = .endOfFile line →
      ∃ s n t, State.start stream table strict = .ok s ∧ program s = .ok n t) ∧
    ∀ s n t, State.start stream table strict = .ok s → program s = .ok n t →
      n.kind = .program ∧ (∀ k ∈ n.walk, k.kind.Takes k.children) ∧
        (∀ k ∈ n.walk, k.kind.isExpression = true → ∀ j ∈ k.walk, j.kind.isExpression = true) ∧
        ∀ k ∈ n.walk, k.kind = .var →
          ∃ name : Text, k.text = .text name ∧ t.table.contains name = true := by
  constructor
  · obtain ⟨items, ending⟩ := stream
    rintro line rfl
    obtain ⟨s, hs⟩ := State.start_endOfFile items line table strict
    obtain ⟨n, t, hn⟩ := program_eq_ok (State.ending_start hs)
    exact ⟨s, n, t, hs, hn⟩
  · intro s n t _ hn
    obtain ⟨-, hb⟩ := (meets_program s).of_ok hn
    have hshaped := hb.wellShaped.walk
    refine ⟨hb.shape.1, hshaped, ?_, hb.bound.walk⟩
    intro k hk hexpression
    exact Node.isExpression_of_wellShaped (fun j hj => hshaped j (Node.mem_walk_trans hj hk))
      hexpression

/-- An abandoned statement, a branch without constants and a loop without its end leave a well-shaped
tree. -/
theorem program_wellShaped_abandoned :
    ∃ s n t,
      State.start (.ofSource "BEGIN A := B + ; CASE A OF : A := 1 END ; REPEAT WRITE(") {} false =
        .ok s ∧ program s = .ok n t ∧ t.problems = 7 ∧ n.kind = .program ∧
      (∀ k ∈ n.walk, k.kind.Takes k.children) ∧
      (∀ k ∈ n.walk, k.kind.isExpression = true → ∀ j ∈ k.walk, j.kind.isExpression = true) ∧
      ∀ k ∈ n.walk, k.kind = .var →
        ∃ name : Text, k.text = .text name ∧ t.table.contains name = true := by
  have hparse : (parse? (.ofSource "BEGIN A := B + ; CASE A OF : A := 1 END ; REPEAT WRITE(") {}
      false).any (fun p => p.2.problems == 7) = true := by
    decide +kernel
  obtain ⟨s, n, t, hs, hn, hproblems⟩ := exists_of_parse?_any hparse
  exact ⟨s, n, t, hs, hn, eq_of_beq hproblems, (program_wellShaped _ _ _).2 s n t hs hn⟩

end MiniPascal.Parsing
