import MiniPascal.Proofs.Parsing.Accounting
import MiniPascal.Proofs.Parsing.Shape

/-!
# An `ELSE` belongs to the nearest `IF`

A statement can end with another statement: a conditional with its last branch, a `WHILE` or `FOR`
loop with its body. These are the statements on the right edge of a tree (`Node.OnRightEdge`). All
of them end at the same token, so if one is an `IF` without an `ELSE`, then that token is no `ELSE`,
since the `IF` would have taken it.

**An `ELSE` belongs to the nearest `IF`** (`parse?_nearestIf`). In every tree that is parsed,
whatever problems were reported, no `IF` without an `ELSE` is on the right edge of a branch that an
`ELSE` follows.
-/

namespace MiniPascal

namespace Node

/-! ## The right edge -/

/-- A loop with a test, a body and one more child, as there is one in the tree of a `FOR` loop. -/
def steppedBody? (n : Node) : Option Node :=
  match n.kind, n.children with
  | .loop, [test, body, _] => if test.kind = .test then some body else none
  | _, _ => none

/-- The statement with which a statement ends: the last branch of a conditional, the body of a
`WHILE` loop, and the body of a `FOR` loop, which is a compound of an assignment and a loop. -/
def last? (n : Node) : Option Node :=
  match n.kind, n.children with
  | .cond, [_, first] => some first
  | .cond, [_, _, second] => some second
  | .loop, [test, body] => if test.kind = .test then some body else none
  | .compound, [_, loop] => loop.steppedBody?
  | _, _ => none

/-- The statements on the right edge of a tree: its root, and those on the right edge of the
statement with which it ends. -/
inductive OnRightEdge : Node → Node → Prop
  | root (n : Node) : OnRightEdge n n
  | last {n m k : Node} : n.last? = some m → OnRightEdge m k → OnRightEdge n k

/-- A conditional without a second branch. -/
def IsOpenIf (n : Node) : Prop := n.kind = .cond ∧ n.children.length = 2

/-- There is an `IF` without an `ELSE` on the right edge. -/
def Dangles (n : Node) : Prop := ∃ k, OnRightEdge n k ∧ k.IsOpenIf

theorem dangles_iff {n : Node} :
    n.Dangles ↔ n.IsOpenIf ∨ ∃ m, n.last? = some m ∧ m.Dangles := by
  constructor
  · rintro ⟨k, hk, ho⟩
    cases hk with
    | root => exact .inl ho
    | last hm hk => exact .inr ⟨_, hm, k, hk, ho⟩
  · rintro (ho | ⟨m, hm, k, hk, ho⟩)
    · exact ⟨n, .root n, ho⟩
    · exact ⟨k, .last hm hk, ho⟩

/-- A statement that is no conditional and ends with no other one. -/
theorem not_dangles {n : Node} (hk : n.kind ≠ .cond) (hl : n.last? = none) : ¬ n.Dangles := by
  rw [dangles_iff]
  rintro (⟨hc, -⟩ | ⟨m, hm, -⟩)
  · exact hk hc
  · rw [hl] at hm
    cases hm

/-- A statement that is no open conditional and ends with a given one. -/
theorem not_dangles_of_last {n m : Node} (hn : ¬ n.IsOpenIf) (hl : n.last? = some m)
    (hm : ¬ m.Dangles) : ¬ n.Dangles := by
  rw [dangles_iff]
  rintro (ho | ⟨m', hm', hd⟩)
  · exact hn ho
  · rw [hl] at hm'
    cases hm'
    exact hm hd

/-- The `ELSE` of a conditional that has one belongs to no `IF` nearer to it. -/
def NearestElse (n : Node) : Prop :=
  ∀ condition first second, n.kind = .cond → n.children = [condition, first, second] →
    ¬ first.Dangles

theorem nearestElse_of_ne {n : Node} (h : n.kind ≠ .cond) : n.NearestElse :=
  fun _ _ _ hk => absurd hk h

end Node

namespace Parsing

open Grammar (Phrase assignmentNode repeatLoop caseBranchNode)
open Node (AllNodes NearestElse WellShaped nearestElse_of_ne not_dangles not_dangles_of_last)

/-! ## What ends a statement -/

theorem last?_compound {line : Value} {ns : List Node} (h : ∀ n ∈ ns, n.steppedBody? = none) :
    ({ kind := .compound, line, children := ns } : Node).last? = none := by
  rcases ns with _ | ⟨a, _ | ⟨b, _ | ⟨c, ns⟩⟩⟩
  · rfl
  · rfl
  · exact h b (by simp)
  · rfl

/-- A `REPEAT` loop starts with a statement or has nothing but its test. -/
theorem ends_repeatLoop {line testLine : Int} {ns : List Node} {condition : Node}
    (h : ∀ n ∈ ns, n.kind.isStatement = true) :
    (repeatLoop line testLine ns condition).last? = none ∧
      (repeatLoop line testLine ns condition).steppedBody? = none := by
  rcases ns with _ | ⟨a, ns⟩
  · exact ⟨rfl, rfl⟩
  · have ha : a.kind ≠ .test := by
      intro hk
      have := h a (by simp)
      rw [hk] at this
      cases this
    rcases ns with _ | ⟨b, _ | ⟨c, ns⟩⟩
    · exact ⟨if_neg ha, rfl⟩
    · exact ⟨rfl, if_neg ha⟩
    · exact ⟨rfl, by cases ns <;> rfl⟩

/-- What is shown of the trees that a phrase builds. Those of statements have no open `IF` on their
right edge, if parsing is now in front of an `ELSE`. -/
structure EndsNear (phrase : Phrase) (ns : List Node) (t : State) : Prop where
  nodes : AllNodes NearestElse ns
  loops : ∀ n ∈ ns, n.steppedBody? = none
  edge : phrase = .statement ∨ phrase = .branch → t.current.kind = .keyword .ELSE →
    ∀ n ∈ ns, ¬ n.Dangles

namespace EndsNear

variable {phrase : Phrase} {n : Node} {ns ms : List Node} {t u : State}

theorem nil : EndsNear phrase [] t := ⟨Node.allNodes_nil, by simp, by simp⟩

/-- A node that is no conditional. -/
theorem node (hk : n.kind ≠ .cond) (hs : AllNodes NearestElse n.children)
    (hl : n.steppedBody? = none) (he : t.current.kind = .keyword .ELSE → ¬ n.Dangles) :
    EndsNear phrase [n] t :=
  ⟨.node (nearestElse_of_ne hk) hs, by simpa using hl, fun _ ht => by simpa using he ht⟩

/-- A statement that ends with no other one. -/
theorem leaf (hk : n.kind ≠ .cond) (hs : AllNodes NearestElse n.children)
    (hl : n.steppedBody? = none) (he : n.last? = none) : EndsNear phrase [n] t :=
  .node hk hs hl fun _ => not_dangles hk he

theorem not_dangles (h : EndsNear phrase [n] t) (hp : phrase = .statement ∨ phrase = .branch)
    (ht : t.current.kind = .keyword .ELSE) : ¬ n.Dangles :=
  h.edge hp ht n (List.mem_singleton_self n)

end EndsNear

/-- Expressions and quoted texts are no conditionals. -/
theorem nearestElse_of_plain {n : Node} (h : n.kind.isExpression = true ∨ n.kind = .string) :
    n.NearestElse := by
  refine nearestElse_of_ne fun hk => ?_
  rw [hk] at h
  simp [Kind.isExpression] at h

theorem BuildsExpression.nearestElse {level : Grammar.Level} {s t : State} {n : Node}
    (h : BuildsExpression level s n t) : AllNodes NearestElse [n] :=
  h.shaped.allNodes fun _ => nearestElse_of_plain

theorem BuildsAssignment.nearestElse {s t : State} {target : Token} {value : Node}
    (h : BuildsAssignment s target value t) :
    AllNodes NearestElse [assignmentNode target value] := by
  refine .node (nearestElse_of_ne (by simp [assignmentNode])) (Node.AllNodes.cons ?_ ?_)
  · exact (shaped_variable target).allNodes fun _ => nearestElse_of_plain
  · exact h.shaped.allNodes fun _ => nearestElse_of_plain

/-- The parts of a `FOR` loop other than its body have no conditionals in them. -/
theorem nearestElse_forLoop (d : Direction) (line boundLine : Value) {target : Token}
    {value bound body : Node} (hv : AllNodes NearestElse [assignmentNode target value])
    (hb : ShapedExpression bound) (hbody : AllNodes NearestElse [body]) :
    AllNodes NearestElse (forLoop d line boundLine (assignmentNode target value)
      (operation .var target []) bound body).children := by
  have hplain {n : Node} (h : ShapedExpression n) : AllNodes NearestElse [n] :=
    h.allNodes fun _ => nearestElse_of_plain
  have hcontrol := shaped_variable target
  have htest := hplain (shaped_passed d boundLine hcontrol hb)
  have hstep := (hplain hcontrol).cons (hplain (shaped_stepped d line hcontrol))
  refine hv.cons (.node (nearestElse_of_ne (by simp)) ?_)
  exact Node.AllNodes.cons (.node (nearestElse_of_ne (by simp)) htest)
    (hbody.cons (.node (nearestElse_of_ne (by simp)) hstep))

/-- **What ends in front of an `ELSE` has no open `IF` on its right edge.** -/
theorem BuildsStatement.endsNear {phrase : Phrase} {s t : State} {ns : List Node}
    (h : BuildsStatement phrase s ns t) : EndsNear phrase ns t := by
  induction h with
  | empty | listEnd | casesEnd => exact .nil
  | assign ha =>
    exact .leaf (by simp [assignmentNode]) (Node.allNodes_cons.1 ha.nearestElse).2.1 rfl rfl
  | compound _ _ _ _ ih => exact .leaf (by simp) ih.nodes rfl (last?_compound ih.loops)
  | repeatUntil _ _ hl _ _ he ih =>
    obtain ⟨hlast, hstepped⟩ := ends_repeatLoop hl.shaped.kinds
    refine .leaf (by simp [repeatLoop]) (Node.allNodes_append.2 ⟨ih.nodes, ?_⟩) hstepped hlast
    exact .node (nearestElse_of_ne (by simp)) he.nearestElse
  | write _ _ ha | writeln _ _ ha =>
    exact .leaf (by simp) (ha.allNodes fun _ => nearestElse_of_plain) rfl rfl
  | writelnBare => exact .leaf (by simp) Node.allNodes_nil rfl rfl
  | whileDo _ _ he _ _ hb ih =>
    refine .node (by simp [whileLoop]) (Node.AllNodes.cons ?_ ih.nodes) rfl fun ht => ?_
    · exact .node (nearestElse_of_ne (by simp))
        (.node (nearestElse_of_ne (by simp)) he.nearestElse)
    · exact not_dangles_of_last (by simp [Node.IsOpenIf, whileLoop]) rfl
        (ih.not_dangles (.inr rfl) ht)
  | forDo _ _ ha _ _ he _ _ hb ih =>
    refine .node (by simp [forLoop]) (nearestElse_forLoop _ _ _ ha.nearestElse he.shaped ih.nodes)
      rfl fun ht => ?_
    exact not_dangles_of_last (by simp [Node.IsOpenIf, forLoop]) rfl
      (ih.not_dangles (.inr rfl) ht)
  | ifThen _ _ he _ _ _ hne ih =>
    refine ⟨.node (fun _ _ _ _ hc => ?_) (he.nearestElse.cons ih.nodes), ?_, fun _ ht => ?_⟩
    · simp at hc
    · simp [Node.steppedBody?]
    · exact absurd ht hne
  | ifThenElse _ _ he _ _ _ helse _ _ ihf ihs =>
    refine ⟨.node (fun _ _ _ _ hc => ?_) (he.nearestElse.cons (ihf.nodes.cons ihs.nodes)), ?_,
      fun _ ht => ?_⟩
    · -- The first branch ended in front of the `ELSE` of this conditional.
      obtain ⟨-, rfl, -⟩ : _ ∧ _ = _ ∧ _ := by simpa using hc
      exact ihf.not_dangles (.inr rfl) helse
    · simp [Node.steppedBody?]
    · simpa using not_dangles_of_last (by simp [Node.IsOpenIf]) rfl (ihs.not_dangles (.inr rfl) ht)
  | caseOf _ _ he _ _ _ _ ih => exact .leaf (by simp) (he.nearestElse.cons ih.nodes) rfl rfl
  | emptyBranch => exact .leaf (by simp) Node.allNodes_nil rfl rfl
  | branch _ ih => exact ⟨ih.nodes, ih.loops, fun _ => ih.edge (.inl rfl)⟩
  | listItem _ _ _ _ ih ihs | casesItem _ _ _ _ ih ihs =>
    refine ⟨Node.allNodes_append.2 ⟨ih.nodes, ihs.nodes⟩, fun n hn => ?_, by simp⟩
    exact (List.mem_append.1 hn).elim (ih.loops n) (ihs.loops n)
  | listGap _ _ _ _ ih | casesGap _ _ _ _ ih => exact ⟨ih.nodes, ih.loops, by simp⟩
  | caseBranch hc _ _ _ ih =>
    refine .leaf (by simp [caseBranchNode]) (Node.AllNodes.cons ?_ ih.nodes) rfl rfl
    exact .node (nearestElse_of_ne (by simp)) (hc.allNodes fun _ => nearestElse_of_plain)

/-! ## Programs -/

theorem BuildsProgram.nearestElse {s t : State} {n : Node} (h : BuildsProgram s n t) :
    AllNodes NearestElse [n] := by
  obtain ⟨-, hb⟩ := h
  refine .node (nearestElse_of_ne (by simp [programNode])) ?_
  cases hb with
  | nothing => exact .node (nearestElse_of_ne (by simp)) Node.allNodes_nil
  | compound _ hl => exact .node (nearestElse_of_ne (by simp)) hl.endsNear.nodes

/-- **An `ELSE` belongs to the nearest `IF`.** Every stream of tokens that ends is parsed to a tree,
into every table and in both modes. In every tree that is parsed, whatever problems were reported,
no conditional without a second branch is on the right edge of the first branch of one that has
two. -/
theorem parse?_nearestIf (stream : Stream) (table : Table) (strict : Bool) :
    (∀ line, stream.ending = .endOfFile line → (parse? stream table strict).isSome = true) ∧
    ∀ n t, parse? stream table strict = some (n, t) →
      ∀ k ∈ n.walk, ∀ condition first second, k.kind = .cond →
        k.children = [condition, first, second] → ∀ m, first.OnRightEdge m →
          ¬ (m.kind = .cond ∧ m.children.length = 2) := by
  refine ⟨fun line h => isSome_parse? h table strict, fun n t h => ?_⟩
  obtain ⟨s, -, hp⟩ := parse?_eq_some h
  obtain ⟨-, hb⟩ := (meets_program s).of_ok hp
  intro k hk condition first second hkind hchildren m hm ho
  exact hb.nearestElse.walk k hk condition first second hkind hchildren ⟨m, hm, ho⟩

/-- An `IF` inside of two loops takes the first `ELSE`, also an empty one, and leaves the second to
the `IF` around the loops. -/
theorem parse?_nearestIf_loops :
    ∃ n t, parse? (.ofSource ("PROGRAM p; BEGIN a := ; IF a = 1 THEN WHILE b = 1 DO " ++
        "FOR i := 1 TO 2 DO IF c = 1 THEN x := 1 ELSE ELSE y := 2 END.")) {} false = some (n, t) ∧
      t.problems = 1 ∧
      ∃ k ∈ n.walk, ∃ condition first second, k.kind = .cond ∧
        k.children = [condition, first, second] ∧ first.kind = .loop ∧
        ∀ m, first.OnRightEdge m → ¬ (m.kind = .cond ∧ m.children.length = 2) := by
  have hcheck : (parse? (.ofSource ("PROGRAM p; BEGIN a := ; IF a = 1 THEN WHILE b = 1 DO " ++
      "FOR i := 1 TO 2 DO IF c = 1 THEN x := 1 ELSE ELSE y := 2 END.")) {} false).any
      (fun p => p.2.problems == 1 && p.1.walk.any fun k => k.kind == .cond &&
        k.children.length == 3 && (k.children[1]?).any (·.kind == .loop)) = true := by
    decide +kernel
  obtain ⟨⟨n, t⟩, hparse, hnt⟩ := (Option.any_eq_true _ _).1 hcheck
  simp only [Bool.and_eq_true, List.any_eq_true, beq_iff_eq] at hnt
  obtain ⟨hproblems, k, hk, ⟨hkind, hlength⟩, hloop⟩ := hnt
  obtain ⟨condition, first, second, hchildren⟩ := List.length_eq_three.1 hlength
  refine ⟨n, t, hparse, hproblems, k, hk, condition, first, second, hkind, hchildren, ?_, ?_⟩
  · simpa [hchildren] using hloop
  · exact (parse?_nearestIf _ _ _).2 n t hparse k hk condition first second hkind hchildren

end Parsing

end MiniPascal
