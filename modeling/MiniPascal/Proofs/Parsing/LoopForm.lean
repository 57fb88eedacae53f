import MiniPascal.Proofs.Parsing.Shape

/-!
# The loops that are built

A loop of a tree can have any number of tests among its statements. The loops that statements are
parsed to have one test, which stands first or last (`Node.LoopForm`). Only the loop of a `FOR`
statement has a test, a body and one more child: the step, an assignment on the line of the loop.

**Every loop of a tree that is built has one of three forms** (`BuildsProgram.formedLoops`).
-/

namespace MiniPascal

namespace Node

/-- The children of a loop on a line, as statements are parsed to them. -/
inductive LoopForm (line : Value) : List Node → Prop
  | whileDo {test body : Node} :
      test.kind = .test → body.kind.isStatement = true → LoopForm line [test, body]
  | forDo {test body step : Node} :
      test.kind = .test → body.kind.isStatement = true → step.kind = .assign → step.line = line →
      LoopForm line [test, body, step]
  | repeatUntil {ns : List Node} {test : Node} :
      (∀ n ∈ ns, n.kind.isStatement = true) → test.kind = .test → LoopForm line (ns ++ [test])

/-- A node that, if it is a loop, is one that a statement is parsed to. -/
def FormedLoop (n : Node) : Prop := n.kind = .loop → LoopForm n.line n.children

theorem formedLoop_of_ne {n : Node} (h : n.kind ≠ .loop) : n.FormedLoop := fun hk => absurd hk h

theorem ne_test_of_isStatement {kind : Kind} (h : kind.isStatement = true) : kind ≠ .test := by
  rintro rfl
  cases h

section LoopForm

variable {line : Value} {ns : List Node} {i k : Nat} {c d : Node}

/-- A loop has one test. -/
theorem LoopForm.test_unique (h : LoopForm line ns) (hc : ns[i]? = some c) (hck : c.kind = .test)
    (hd : ns[k]? = some d) (hdk : d.kind = .test) : i = k := by
  -- It is enough to know at which index the test stands.
  suffices hat : ∃ t, ∀ (j : Nat) (e : Node), ns[j]? = some e → e.kind = .test → j = t by
    obtain ⟨t, ht⟩ := hat
    rw [ht i c hc hck, ht k d hd hdk]
  cases h with
  | whileDo _ hb =>
    refine ⟨0, fun j e he hek => ?_⟩
    rcases j with _ | _ | j
    · rfl
    · obtain rfl := Option.some.inj he
      exact absurd hek (ne_test_of_isStatement hb)
    · cases he
  | forDo _ hb hs _ =>
    refine ⟨0, fun j e he hek => ?_⟩
    rcases j with _ | _ | _ | j
    · rfl
    · obtain rfl := Option.some.inj he
      exact absurd hek (ne_test_of_isStatement hb)
    · obtain rfl := Option.some.inj he
      rw [hs] at hek
      cases hek
    · cases he
  | @repeatUntil ms test hms _ =>
    refine ⟨ms.length, fun j e he hek => ?_⟩
    by_cases hj : j < ms.length
    · rw [List.getElem?_append_left hj] at he
      exact absurd hek (ne_test_of_isStatement (hms e (List.mem_of_getElem? he)))
    · have hlt : j < (ms ++ [test]).length := (List.getElem?_eq_some_iff.1 he).1
      rw [List.length_append, List.length_singleton] at hlt
      omega

/-- A loop with a test, a body and one more child steps on its own line. -/
theorem LoopForm.step {test body step : Node} (h : LoopForm line [test, body, step])
    (ht : test.kind = .test) : step.kind = .assign ∧ step.line = line := by
  generalize hns : [test, body, step] = ns at h
  cases h with
  | whileDo => simp at hns
  | forDo _ _ hs hline =>
    obtain ⟨rfl, rfl, rfl, -⟩ := by simpa using hns
    exact ⟨hs, hline⟩
  | @repeatUntil ms last hms _ =>
    have hfirst : test ∈ ms := by
      rcases ms with _ | ⟨m, ms⟩
      · simp at hns
      · simp only [List.cons_append, List.cons.injEq] at hns
        rw [hns.1]
        exact List.mem_cons_self
    exact absurd ht (ne_test_of_isStatement (hms test hfirst))

end LoopForm

end Node

namespace Parsing

open Grammar (Phrase assignmentNode)
open Node (AllNodes FormedLoop formedLoop_of_ne)

/-! ## Trees without loops -/

/-- Expressions and quoted texts are no loops. -/
theorem formedLoop_of_plain {n : Node} (h : n.kind.isExpression = true ∨ n.kind = .string) :
    n.FormedLoop := by
  refine formedLoop_of_ne fun hk => ?_
  rw [hk] at h
  simp [Kind.isExpression] at h

theorem ShapedExpression.formedLoops {n : Node} (h : ShapedExpression n) :
    AllNodes FormedLoop [n] :=
  h.allNodes fun _ => formedLoop_of_plain

theorem BuildsAssignment.formedLoops {s t : State} {target : Token} {value : Node}
    (h : BuildsAssignment s target value t) :
    AllNodes FormedLoop [assignmentNode target value] :=
  .node (formedLoop_of_ne (by simp [assignmentNode]))
    ((shaped_variable target).formedLoops.cons h.shaped.formedLoops)

/-! ## Statements -/

/-- A node that is no loop. -/
theorem formedLoops_node {n : Node} (hk : n.kind ≠ .loop) (h : AllNodes FormedLoop n.children) :
    AllNodes FormedLoop [n] :=
  .node (formedLoop_of_ne hk) h

theorem formedLoops_forLoop (d : Direction) (line boundLine : Value) {initial control bound : Node}
    {body : Node} (hi : AllNodes FormedLoop [initial]) (hc : ShapedExpression control)
    (hb : ShapedExpression bound) (hbody : AllNodes FormedLoop [body])
    (hk : body.kind.isStatement = true) :
    AllNodes FormedLoop [forLoop d line boundLine initial control bound body] := by
  have htest := (shaped_passed d boundLine hc hb).formedLoops
  have hstep := hc.formedLoops.cons (shaped_stepped d line hc).formedLoops
  refine formedLoops_node (by simp [forLoop]) (hi.cons (.node (fun _ => .forDo rfl hk rfl rfl) ?_))
  exact (formedLoops_node (by simp) htest).cons (hbody.cons (formedLoops_node (by simp) hstep))

/-- **Every loop that a phrase builds has one of the forms.** -/
theorem BuildsStatement.formedLoops {phrase : Phrase} {s t : State} {ns : List Node}
    (h : BuildsStatement phrase s ns t) : AllNodes FormedLoop ns := by
  induction h with
  | empty | listEnd | casesEnd => exact Node.allNodes_nil
  | assign ha => exact ha.formedLoops
  | compound _ _ _ _ ih => exact formedLoops_node (by simp) ih
  | repeatUntil _ _ hl _ _ he ih =>
    refine .node (fun _ => .repeatUntil hl.shaped.kinds rfl) (Node.allNodes_append.2 ⟨ih, ?_⟩)
    exact formedLoops_node (by simp) he.shaped.formedLoops
  | write _ _ ha | writeln _ _ ha =>
    exact formedLoops_node (by simp) (ha.allNodes fun _ => formedLoop_of_plain)
  | writelnBare | emptyBranch => exact formedLoops_node (by simp) Node.allNodes_nil
  | whileDo _ _ he _ _ hb ih =>
    refine .node (fun _ => .whileDo rfl hb.shaped.kind) (Node.AllNodes.cons ?_ ih)
    exact formedLoops_node (by simp) (formedLoops_node (by simp) he.shaped.formedLoops)
  | forDo _ _ ha _ _ he _ _ hb ih =>
    exact formedLoops_forLoop _ _ _ ha.formedLoops (shaped_variable _) he.shaped ih hb.shaped.kind
  | ifThen _ _ he _ _ _ _ ih =>
    exact formedLoops_node (by simp) (he.shaped.formedLoops.cons ih)
  | ifThenElse _ _ he _ _ _ _ _ _ ihf ihs =>
    exact formedLoops_node (by simp) (he.shaped.formedLoops.cons (ihf.cons ihs))
  | caseOf _ _ he _ _ _ _ ih =>
    exact formedLoops_node (by simp) (he.shaped.formedLoops.cons ih)
  | branch _ ih => exact ih
  | listItem _ _ _ _ ih ihs | casesItem _ _ _ _ ih ihs => exact Node.allNodes_append.2 ⟨ih, ihs⟩
  | listGap _ _ _ _ ih | casesGap _ _ _ _ ih => exact ih
  | caseBranch hc _ _ _ ih =>
    refine formedLoops_node (by simp [Grammar.caseBranchNode]) (Node.AllNodes.cons ?_ ih)
    exact formedLoops_node (by simp) (hc.allNodes fun _ => formedLoop_of_plain)

theorem BuildsProgram.formedLoops {s t : State} {n : Node} (h : BuildsProgram s n t) :
    AllNodes FormedLoop [n] := by
  obtain ⟨-, hb⟩ := h
  refine formedLoops_node (by simp [programNode]) ?_
  cases hb with
  | nothing => exact formedLoops_node (by simp) Node.allNodes_nil
  | compound _ hl => exact formedLoops_node (by simp) hl.formedLoops

end Parsing

end MiniPascal
