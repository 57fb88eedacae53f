import MiniPascal.Proofs.Execution.Lines
import MiniPascal.Proofs.Parsing.LoopForm
import MiniPascal.Proofs.Session.Trace
import MiniPascal.Proofs.Tree.Equality

/-!
# Which line a failed division names

A run that divides by zero reports a line and the text of an operator. To say which operator and
which statement these are, the program is run with the places of its nodes written into it: such a
run goes as the other one does, and reports places (`FailsAt`).

**The line is that of the innermost statement around the operator, unless this is a loop**
(`division_line`). The test of a loop is evaluated on the line of the loop only if the test comes
first and nothing was executed yet. At any other time the line is that of a statement in the child
of the loop in front of the test, or in its last child if the test comes first. A `FOR` loop steps
on its own line, so its bound is always reported there. A `WHILE` loop and a `REPEAT` loop name the
line of a statement in their body (`division_line_not_enclosing`).
-/

namespace MiniPascal

namespace Node

/-! ## Loops with one test -/

/-- A loop that is stepped: a test, a body and a step. -/
def IsCounted (n : Node) : Prop :=
  ∃ test body step, n.kind = .loop ∧ n.children = [test, body, step] ∧ test.kind = .test

section OneTest

variable {ns : List Node} {j k : Nat}

/-- Where a pass through a loop with one test is: right after child `j`, or after the test that
follows that child. -/
theorem Faces.position {test : Node} (hk : ns[k]? = some test) (htest : test.kind = .test)
    (hone : ∀ i c, ns[i]? = some c → c.kind = .test → i = k) {i : Nat} (h : Faces ns i j) :
    j < ns.length ∧ j ≠ k ∧ (j + 1 = i ∨ i = 0 ∧ j + 1 = ns.length ∨
      (i = k + 1 ∨ i = 0 ∧ k + 1 = ns.length) ∧ (j + 1 = k ∨ k = 0 ∧ j + 1 = ns.length)) := by
  induction h with
  | @after j c hc hs =>
    refine ⟨(List.getElem?_eq_some_iff.1 hc).1, ?_, .inl rfl⟩
    rintro rfl
    obtain rfl := Option.some.inj (hc.symm.trans hk)
    exact ne_test_of_isStatement hs htest
  | past hc ht _ ih =>
    obtain rfl := hone _ _ hc ht
    omega
  | again _ ih => omega

/-- If a loop has one test, the child in front of it was executed last, and the last child if the
test comes first. -/
theorem Faces.before {test : Node} (hk : ns[k]? = some test) (htest : test.kind = .test)
    (hone : ∀ i c, ns[i]? = some c → c.kind = .test → i = k) (h : Faces ns k j) :
    j + 1 = k ∨ k = 0 ∧ j + 1 = ns.length := by
  have hposition := h.position hk htest hone
  omega

/-- If a loop has one test and executes nothing in front of it, the test comes first. -/
theorem Leads.eq_zero {test : Node} (hk : ns[k]? = some test)
    (hone : ∀ i c, ns[i]? = some c → c.kind = .test → i = k) (h : Leads ns k) : k = 0 := by
  have hlt : k < ns.length := (List.getElem?_eq_some_iff.1 hk).1
  by_contra hne
  have hpos : 0 < k := Nat.pos_of_ne_zero hne
  have hfirst : ns[0]? = some ns[0] := List.getElem?_eq_getElem (Nat.zero_lt_of_lt hlt)
  exact hne (hone 0 _ hfirst (h 0 hpos _ hfirst)).symm

end OneTest

/-! ## Blame by places -/

section Placed

variable {n : Node} {r p q : Place} {line text : Value}

theorem dividesAt_of_placed (h : (n.placed r).DividesAt p text) :
    text = Place.value (r ++ p) ∧ ∃ t, n.DividesAt p t := by
  obtain ⟨hnone, k, hk, hdivide, rfl⟩ := h
  rw [enclosing?_placed, Option.map_eq_none_iff] at hnone
  rw [at?_placed] at hk
  obtain ⟨d, hd, rfl⟩ := Option.map_eq_some_iff.1 hk
  rw [kind_placed] at hdivide
  exact ⟨text_placed_of_arithmetic hdivide, d.text, hnone, d, hd, hdivide, rfl⟩

theorem statementAt_of_placed (h : (n.placed r).StatementAt q line) :
    line = Place.value (r ++ q) ∧ ∃ l, n.StatementAt q l := by
  obtain ⟨s, hs, hk, rfl⟩ := h
  rw [at?_placed] at hs
  obtain ⟨d, hd, rfl⟩ := Option.map_eq_some_iff.1 hs
  rw [kind_placed] at hk
  exact ⟨line_placed _ _, d.line, d, hd, hk, rfl⟩

theorem getElem?_of_placed {i : Nat} {c : Node} (h : (n.placed r).children[i]? = some c) :
    ∃ d, n.children[i]? = some d ∧ c = d.placed (r ++ [i]) := by
  rw [getElem?_children_placed] at h
  obtain ⟨d, hd, rfl⟩ := Option.map_eq_some_iff.1 h
  exact ⟨d, hd, rfl⟩

theorem faces_of_placed {k j : Nat} (h : Faces (n.placed r).children k j) :
    Faces n.children k j := by
  induction h with
  | after hc hs =>
    obtain ⟨d, hd, rfl⟩ := getElem?_of_placed hc
    exact .after hd (kind_placed d _ ▸ hs)
  | past hc ht _ ih =>
    obtain ⟨d, hd, rfl⟩ := getElem?_of_placed hc
    exact .past hd (kind_placed d _ ▸ ht) ih
  | again _ ih =>
    rw [length_children_placed] at ih
    exact .again ih

theorem leads_of_placed {k : Nat} (h : Leads (n.placed r).children k) : Leads n.children k := by
  intro j hj c hc
  have hplaced : (n.placed r).children[j]? = some (c.placed (r ++ [j])) := by
    rw [getElem?_children_placed, hc]
    rfl
  exact kind_placed c _ ▸ h j hj _ hplaced

/-- A tree that knows its places blames by place. -/
theorem Blames.of_placed (h : (n.placed r).Blames p q line text) :
    line = Place.value (r ++ q) ∧ text = Place.value (r ++ p) ∧ ∃ l t, n.Blames p q l t := by
  generalize hn : n.placed r = n' at h
  induction h generalizing n r with
  | own hs hc hp hleads =>
    subst hn
    obtain ⟨d, hd, rfl⟩ := getElem?_of_placed hc
    obtain ⟨rfl, t, ht⟩ := dividesAt_of_placed hp
    rw [kind_placed] at hs hleads
    refine ⟨?_, ?_, n.line, t, .own hs hd ht fun hl => leads_of_placed (hleads hl)⟩
    · rw [line_placed, List.append_nil]
    · rw [List.append_assoc, List.singleton_append]
  | passed hl hc hp hj hd hq =>
    subst hn
    obtain ⟨c, hc', rfl⟩ := getElem?_of_placed hc
    obtain ⟨d, hd', rfl⟩ := getElem?_of_placed hd
    obtain ⟨rfl, t, ht⟩ := dividesAt_of_placed hp
    obtain ⟨rfl, l, hline⟩ := statementAt_of_placed hq
    rw [kind_placed] at hl
    refine ⟨?_, ?_, l, t, .passed hl hc' ht (faces_of_placed hj) hd' hline⟩
    · rw [List.append_assoc, List.singleton_append]
    · rw [List.append_assoc, List.singleton_append]
  | inside hc _ ih =>
    subst hn
    obtain ⟨c, hc', rfl⟩ := getElem?_of_placed hc
    obtain ⟨rfl, rfl, l, t, h⟩ := ih rfl
    refine ⟨?_, ?_, l, t, .inside hc' h⟩
    · rw [List.append_assoc, List.singleton_append]
    · rw [List.append_assoc, List.singleton_append]

end Placed

end Node

namespace Execution

/-! ## Runs with places -/

/-- The line and the text of the division by zero that a part of a run stops at. -/
def divisionOf {α : Type} : EStateM.Result Stop Machine α → Option (Value × Value)
  | .error (.fault (.divisionByZero line text)) _ => some (line, text)
  | _ => none

theorem divisionOf_eq_some {α : Type} {x : EStateM.Result Stop Machine α} {line text : Value} :
    divisionOf x = some (line, text) ↔ ∃ m, x = .error (.fault (.divisionByZero line text)) m := by
  constructor
  · intro h
    unfold divisionOf at h
    split at h
    · next m =>
      obtain ⟨rfl, rfl⟩ := Prod.mk.inj (Option.some.inj h)
      exact ⟨m, rfl⟩
    · cases h
  · rintro ⟨m, rfl⟩
    rfl

/-- The run of a program stops at a division by zero, of the operator at the place `p`, when the
statement at the place `q` is the one that was entered last. -/
def FailsAt (fuel : Nat) (n : Node) (table : Table) (p q : Place) : Prop :=
  divisionOf (run fuel (n.placed []) { table }) = some (q.value, p.value)

/-- Lines that are the same, or a line of the tree and its place. -/
def LikePlaced (root : Node) (v w : Value) : Prop := v = w ∨ root.placing.line v w

/-- Machines without a trace that run a tree and the one that knows its places. -/
structure SamePlaces (root : Node) (m m' : Machine) : Prop where
  table : m.table = m'.table
  line : LikePlaced root m.line m'.line
  left : m.level ≤ 1
  right : m'.level ≤ 1

/-- A division by zero is one in both trees, at the same place. -/
def SameDivision (root : Node) (f f' : Fault) : Prop :=
  ∀ line text, f = .divisionByZero line text → ∃ line' text', f' = .divisionByZero line' text' ∧
    LikePlaced root line line' ∧ root.placing.text text text'

theorem SameDivision.refl (root : Node) (f : Fault) : SameDivision root f f := by
  rintro line text rfl
  exact ⟨line, text, rfl, .inl rfl, .inr rfl⟩

/-- Lines and texts have no influence on a run, but for the names of variables. -/
theorem likeExecution_placing (root : Node) :
    LikeExecution root.placing (SamePlaces root) (SameDivision root) where
  refl := .refl root
  wrongType _ _ _ := by
    intro line text h
    cases h
  division hm ht := by
    rintro line text ⟨⟩
    exact ⟨_, _, rfl, hm.line, ht⟩
  note _ := by
    intro m m' hm
    rw [note_apply _ hm.left, note_apply _ hm.right]
    exact ⟨rfl, hm.table, hm.line, hm.left, hm.right⟩
  read h := by
    obtain rfl : _ = _ := h
    rename_i text
    cases text with
    | text name =>
      exact .readVariable (.refl root) fun hm => by rw [hm.table]
    | _ => exact .raise (.refl root _)
  line hm hl := ⟨hm.table, .inr hl, hm.left, hm.right⟩
  output text hm := ⟨hm.table, hm.line, hm.left, hm.right⟩
  write x hk hk' h := by
    rename_i target target'
    have htext : target.text = target'.text := h
    -- A variable whose name is no text is refused on both sides.
    by_cases hv : ∃ name, target.text = .text name
    · obtain ⟨name, hname⟩ := hv
      have hname' : target'.text = .text name := htext ▸ hname
      refine .writeVariable (.refl root) hk hk' hname hname' x (fun hm => ?_) fun hm _ => ?_
      · rw [hm.table]
      · exact ⟨by rw [hm.table], hm.line, hm.left, hm.right⟩
    · rw [writeVariable_eq_raise fun name _ ha => hv ⟨name, ha⟩,
        writeVariable_eq_raise fun name _ ha => hv ⟨name, htext ▸ ha⟩]
      exact .raise (.refl root _)

section Failing

variable {n : Node} {fuel : Nat} {table : Table} {line text : Value}

/-- The line and the text of a division by zero stand in the tree, so they are no places. -/
theorem ne_value_of_blamed (htextual : ∀ k ∈ n.walk, k.Textual) (h : n.Blamed line text)
    (p : Place) : line ≠ p.value ∧ text ≠ p.value := by
  obtain ⟨_, _, hblames⟩ := h
  obtain ⟨⟨k, hk, -, rfl⟩, ⟨s, hs, -, rfl⟩, -⟩ := hblames.enclosing
  constructor
  · obtain ⟨i, hi⟩ := (htextual s (Node.mem_walk_of_at? hs)).line
    rw [hi]
    exact Value.noConfusion
  · obtain hnull | ⟨t, ht⟩ := (htextual k (Node.mem_walk_of_at? hk)).text
    · rw [hnull]
      exact Value.noConfusion
    · rw [ht]
      exact Value.noConfusion

/-- The level of detail does not matter for how a run stops. -/
theorem run_of_level (htextual : ∀ k ∈ n.walk, k.Textual) {level : Int} {m : Machine} {f : Fault}
    (h : run fuel n { table, level } = .error (.fault f) m) :
    ∃ m', run fuel n { table } = .error (.fault f) m' := by
  have hout := (run_levels htextual fuel table level 0).1
  rw [h] at hout
  cases he : run fuel n { table } with
  | ok a m' => rw [he] at hout; cases hout
  | error e m' =>
    rw [he] at hout
    cases e with
    | outOfFuel => cases hout
    | fault g =>
      obtain rfl := Failure.run.inj (Except.error.inj hout)
      exact ⟨m', rfl⟩

/-- A run that divides by zero tells where, if places are written into its tree. -/
theorem failsAt_of_run (hshaped : ∀ k ∈ n.walk, k.WellShaped) (htextual : ∀ k ∈ n.walk, k.Textual)
    {level : Int} {m : Machine}
    (h : run fuel n { table, level } = .error (.fault (.divisionByZero line text)) m) :
    ∃ p q, FailsAt fuel n table p q ∧ n.Blames p q line text := by
  have hnot := ne_value_of_blamed htextual (blamed_run hshaped h)
  obtain ⟨m₀, h₀⟩ := run_of_level htextual h
  have hlike := Node.resembles_placed (Node.at?_nil n)
  have hlevel : (0 : Int) ≤ 1 := by decide
  have hstart : SamePlaces n { table } { table } := ⟨rfl, .inl rfl, hlevel, hlevel⟩
  have hrun := alike_run (likeExecution_placing n) (.refl True fuel) hlike _ _ hstart
  rw [h₀] at hrun
  obtain ⟨a, u, u', he, -⟩ | ⟨u, u', he, -⟩ | ⟨f, f', u, u', he, he', hdivision, -⟩ := hrun.cases
  · cases he
  · cases he
  cases he
  obtain ⟨line', text', rfl, hline, htext⟩ := hdivision line text rfl
  obtain ⟨p, q, hplaced⟩ := blamed_run (hlike.wellShaped hshaped) he'
  obtain ⟨rfl, rfl, l, t, hblames⟩ := hplaced.of_placed
  rw [List.nil_append] at hline htext
  refine ⟨p, q, divisionOf_eq_some.2 ⟨u', he'⟩, ?_⟩
  -- The places say which nodes the line and the text come from.
  obtain ⟨⟨k, hk, -, hkt⟩, ⟨s, hs, -, hsl⟩, -⟩ := hblames.enclosing
  obtain ⟨q', s', hs', rfl, hq⟩ := hline.resolve_left (hnot q).1
  obtain ⟨p', k', hk', rfl, hp⟩ := htext.resolve_right (hnot p).2
  obtain rfl := Place.value_injective hq
  obtain rfl := Place.value_injective hp
  obtain rfl := Option.some.inj (hs.symm.trans hs')
  obtain rfl := Option.some.inj (hk.symm.trans hk')
  rw [hsl, hkt]
  exact hblames

end Failing

/-! ## Runs of parsed programs -/

section Parsed

variable {n S : Node} {p q i : Place} {line text : Value}

/-- A child with a division of its own is no statement. -/
theorem isStatement_of_enclosing? {c d : Node} {r : Place} (h : c.enclosing? r = none)
    (hd : c.at? r = some d) : c.kind.isStatement = false := by
  by_contra hne
  have hc : c.kind.isStatement = true := by simpa using hne
  rcases r with _ | ⟨a, r⟩
  · simp [Node.enclosing?, hc] at h
  · cases he : c.children[a]? with
    | none => rw [Node.at?, he] at hd; cases hd
    | some e =>
      cases hee : e.enclosing? r with
      | none => rw [Node.enclosing?_self hc he hee] at h; cases h
      | some x => rw [Node.enclosing?_inside he hee] at h; cases h

theorem isStatement_of_isExpression {kind : Kind} (h : kind.isExpression = true) :
    kind.isStatement = false := by
  cases kind <;> first | rfl | cases h

/-- An assignment has expressions in it, and no statement but itself. -/
theorem eq_of_mem_assign {step s : Node} (hshaped : ∀ k ∈ step.walk, k.WellShaped)
    (hk : step.kind = .assign) (hs : s ∈ step.walk) (hstatement : s.kind.isStatement = true) :
    s = step := by
  obtain rfl | ⟨c, hc, hsc⟩ := Node.mem_walk.1 hs
  · rfl
  have htakes : step.kind.Takes step.children := hshaped step Node.self_mem_walk
  have hexpression : c.kind.isExpression = true := by
    rw [hk] at htakes
    generalize step.children = cs at htakes hc
    cases htakes with
    | assign ht hv =>
      rcases List.mem_pair.1 hc with rfl | rfl
      · rw [ht]; rfl
      · exact hv
  have hall := Node.isExpression_of_wellShaped
    (fun k hk => hshaped k (Node.mem_walk_of_child hc hk)) hexpression s hsc
  rw [isStatement_of_isExpression hall] at hstatement
  cases hstatement

/-- The step of a counted loop is on the line of the loop. -/
theorem line_of_counted (hshaped : ∀ k ∈ n.walk, k.WellShaped)
    (hloops : ∀ k ∈ n.walk, k.FormedLoop) {j : Nat} {v : Place} (hS : n.at? i = some S)
    (hcounted : S.IsCounted) (hj : j + 1 = S.children.length)
    (hq : n.StatementAt (i ++ j :: v) line) : line = S.line := by
  obtain ⟨test, body, step, hloop, hchildren, htest⟩ := hcounted
  have hform := hloops S (Node.mem_walk_of_at? hS) hloop
  rw [hchildren] at hform
  obtain ⟨hassign, hstep⟩ := hform.step htest
  obtain rfl : j = 2 := by simpa [hchildren] using hj
  have hlast : S.children[2]? = some step := by rw [hchildren]; rfl
  obtain ⟨s, hs, hstatement, rfl⟩ := hq
  rw [Node.at?_append hS, Node.at?_cons hlast] at hs
  have hmem : step ∈ S.walk :=
    Node.mem_walk_of_child (List.mem_of_getElem? hlast) Node.self_mem_walk
  have hbelow : ∀ k ∈ step.walk, k.WellShaped := fun k hk =>
    hshaped k (Node.mem_walk_trans (Node.mem_walk_trans hk hmem) (Node.mem_walk_of_at? hS))
  rw [eq_of_mem_assign hbelow hassign (Node.mem_walk_of_at? hs) hstatement]
  exact hstep

/-- A child of a loop that is no statement is the only test of that loop. -/
theorem only_test (hshaped : S.WellShaped) (hform : S.FormedLoop) (hloop : S.kind = .loop) {k : Nat}
    {c : Node} (hc : S.children[k]? = some c) (hk : c.kind.isStatement = false) :
    c.kind = .test ∧ ∀ j d, S.children[j]? = some d → d.kind = .test → j = k := by
  have htakes : S.kind.Takes S.children := hshaped
  have hform := hform hloop
  have htest : c.kind = .test := by
    rw [hloop] at htakes
    cases htakes with
    | loop hs _ => exact (hs c (List.mem_of_getElem? hc)).resolve_left (by simp [hk])
  exact ⟨htest, fun j d hd hdk => hform.test_unique hd hdk hc htest⟩

end Parsed

/-! ## A test after its body -/

/-- A loop on line 1 with a statement on line 2 and a test on line 3 that divides by zero. -/
def untilSource : String := "PROGRAM p; BEGIN REPEAT\nWRITELN\nUNTIL 1/0 = 0 END."

/-- The tree of that program. -/
def untilTree : Node :=
  let number (text : String) (i : Int) : Node :=
    ⟨.integer, .int 3, .text text, .int i, []⟩
  let quotient : Node :=
    ⟨.arithmetic .divide, .int 3, .text "/", .null, [number "1" 1, number "0" 0]⟩
  let condition : Node := ⟨.relation .eq, .int 3, .text "=", .null, [quotient, number "0" 0]⟩
  let loop : Node := ⟨.loop, .int 1, .null, .null,
    [⟨.writeln, .int 2, .null, .null, []⟩, ⟨.test, .int 3, .null, .null, [condition]⟩]⟩
  ⟨.program, .int 1, .text "p", .null, [⟨.compound, .int 1, .null, .null, [loop]⟩]⟩

/-- The table that parsing leaves: the name of the program is in it. -/
def untilTable : Table := { cells := [{ key := "p", name := "p", value := .real 0.0 }] }

theorem parse?_until : ∃ t, Parsing.parse? (.ofSource untilSource) {} false = some (untilTree, t) ∧
    t.problems = 0 ∧ t.table = untilTable := by
  have hparse : (Parsing.parse? (.ofSource untilSource) {} false).any
      (fun x => decide (x.1 = untilTree) && decide (x.2.problems = 0 ∧ x.2.table = untilTable)) =
        true := by
    decide +kernel
  obtain ⟨s, n, t, hs, hp, hcheck⟩ := Parsing.exists_of_parse?_any hparse
  obtain ⟨htree, hproblems, htable⟩ := by simpa using hcheck
  obtain rfl : n = untilTree := htree
  exact ⟨t, Parsing.parse?_of_program hs hp, hproblems, htable⟩

/-- The line is the one of the statement before the test. -/
theorem run_until : ∃ m, run 1 untilTree { table := untilTable } =
    .error (.fault (.divisionByZero (.int 2) (.text "/"))) m := by
  apply divisionOf_eq_some.1
  simp only [untilTree, run, visit, execute, executeAll, repeatPass, runPass, evaluate]
  decide +kernel

theorem failsAt_until : FailsAt 1 untilTree untilTable [0, 0, 1, 0, 0] [0, 0, 0] := by
  simp only [FailsAt, untilTree, Node.placed, Node.placedAll, Node.placedText, run, visit, execute,
    executeAll, repeatPass, runPass, evaluate]
  decide +kernel

/-! ## The line of a failed division -/

/-- **The line that a failed division names.** A program text is parsed, whatever problems that
reports, and the tree is run on any table. If that stops at a division by zero, then the text is
that of the operator at a place `p` and the line is that of the statement at a place `q`, which was
entered last. Let `S` be the innermost statement around the operator, at a place `i`. If it is no
loop, the line is the one of `S`. If it is a loop, the operator is in its test; the line is the one
of `S` where the test comes first, or one in the child before the test, going round. It is that of
`S` in any case where `S` is a counted loop. -/
theorem division_line {source : String} {table₀ : Table} {strict : Bool} {n : Node}
    {t : Parsing.State} (hparse : Parsing.parse? (.ofSource source) table₀ strict = some (n, t))
    {fuel : Nat} {table : Table} {level : Int} {line text : Value} {m : Machine}
    (hrun : run fuel n { table, level } = .error (.fault (.divisionByZero line text)) m) :
    ∃ p q, FailsAt fuel n table p q ∧
      (∃ k, n.at? p = some k ∧ k.kind = .arithmetic .divide ∧ k.text = text) ∧
      (∃ s, n.at? q = some s ∧ s.kind.isStatement = true ∧ s.line = line) ∧
      ∃ i S, n.enclosing? p = some (i, S) ∧
        (S.kind ≠ .loop → q = i ∧ line = S.line) ∧
        (S.kind = .loop → ∃ k r test, p = i ++ k :: r ∧ S.children[k]? = some test ∧
          test.kind = .test ∧ (q = i ∧ k = 0 ∨
            ∃ j v, q = i ++ j :: v ∧ (j + 1 = k ∨ k = 0 ∧ j + 1 = S.children.length))) ∧
        (S.IsCounted → line = S.line) := by
  obtain ⟨s, hs, hprogram⟩ := Parsing.parse?_eq_some hparse
  have hbuilds := ((Parsing.meets_program s).of_ok hprogram).2
  have hshaped : ∀ k ∈ n.walk, k.WellShaped := hbuilds.wellShaped.walk
  have hloops : ∀ k ∈ n.walk, k.FormedLoop := hbuilds.formedLoops.walk
  have hparses : Parsing.Parses s n t := .inl hprogram
  have htextual : ∀ k ∈ n.walk, k.Textual := fun k hk => (hparses.parsed hs .refl k hk).textual
  -- The operator and the statement to blame, by their places in the tree.
  obtain ⟨p, q, hfails, hblames⟩ := failsAt_of_run hshaped htextual hrun
  obtain ⟨hdivide, hq, i, S, k, r, c, hS, hp, hc, hnone, hcase⟩ := hblames.enclosing
  obtain ⟨hat, -⟩ := Node.at?_of_enclosing? hS
  have hown : q = i → line = S.line := by
    rintro rfl
    obtain ⟨s, hs, -, rfl⟩ := hq
    rw [Option.some.inj (hs.symm.trans hat)]
  -- A loop has one test, and the operator is in it: every other child is a statement of its own.
  have htest : S.kind = .loop →
      c.kind = .test ∧ ∀ j d, S.children[j]? = some d → d.kind = .test → j = k := by
    intro hloop
    obtain ⟨d, hd, -⟩ := hdivide
    rw [hp, Node.at?_append hat, Node.at?_cons hc] at hd
    have hmem := Node.mem_walk_of_at? hat
    exact only_test (hshaped S hmem) (hloops S hmem) hloop hc (isStatement_of_enclosing? hnone hd)
  refine ⟨p, q, hfails, hdivide, hq, i, S, hS, fun hno => ?_, fun hloop => ?_, fun hcounted => ?_⟩
  · obtain ⟨hqi, -⟩ | ⟨_, _, hloop, -⟩ := hcase
    · exact ⟨hqi, hown hqi⟩
    · exact absurd hloop hno
  · obtain ⟨hkind, hone⟩ := htest hloop
    refine ⟨k, r, c, hp, hc, hkind, ?_⟩
    obtain ⟨hqi, hleads⟩ | ⟨j, v, -, hqj, hfaces⟩ := hcase
    · exact .inl ⟨hqi, (hleads hloop).eq_zero hc hone⟩
    · exact .inr ⟨j, v, hqj, hfaces.before hc hkind hone⟩
  · obtain ⟨hqi, -⟩ | ⟨j, v, hloop, rfl, hfaces⟩ := hcase
    · exact hown hqi
    · obtain ⟨hkind, hone⟩ := htest hloop
      -- The test of a counted loop comes first, so what is before it, going round, is the step.
      have hfirst : k = 0 := by
        obtain ⟨test, _, _, -, hchildren, hfirst⟩ := hcounted
        exact (hone 0 test (by rw [hchildren]; rfl) hfirst).symm
      have hbefore := hfaces.before hc hkind hone
      exact line_of_counted hshaped hloops hat hcounted (by omega) hq

/-- The test of a loop after its body. -/
theorem division_line_until : ∃ t m,
    Parsing.parse? (.ofSource untilSource) {} false = some (untilTree, t) ∧
    run 1 untilTree { table := untilTable } =
      .error (.fault (.divisionByZero (.int 2) (.text "/"))) m ∧
    ∃ p q, FailsAt 1 untilTree untilTable p q ∧
      (∃ k, untilTree.at? p = some k ∧ k.kind = .arithmetic .divide ∧ k.text = .text "/") ∧
      (∃ s, untilTree.at? q = some s ∧ s.kind.isStatement = true ∧ s.line = .int 2) ∧
      ∃ i S, untilTree.enclosing? p = some (i, S) ∧
        (S.kind ≠ .loop → q = i ∧ .int 2 = S.line) ∧
        (S.kind = .loop → ∃ k r test, p = i ++ k :: r ∧ S.children[k]? = some test ∧
          test.kind = .test ∧ (q = i ∧ k = 0 ∨
            ∃ j v, q = i ++ j :: v ∧ (j + 1 = k ∨ k = 0 ∧ j + 1 = S.children.length))) ∧
        (S.IsCounted → .int 2 = S.line) := by
  obtain ⟨t, hparse, -⟩ := parse?_until
  obtain ⟨m, hrun⟩ := run_until
  exact ⟨t, m, hparse, hrun, division_line hparse hrun⟩

/-- The line is not always the one of the innermost statement around the operator: the program has
no errors, the operator that fails is in the test of a loop on line 1, and line 2 is named. -/
theorem division_line_not_enclosing : ∃ n t m p q i S,
    Parsing.parse? (.ofSource "PROGRAM p; BEGIN REPEAT\nWRITELN\nUNTIL 1/0 = 0 END.") {} false =
      some (n, t) ∧ t.problems = 0 ∧
    run 1 n { table := t.table } = .error (.fault (.divisionByZero (.int 2) (.text "/"))) m ∧
    FailsAt 1 n t.table p q ∧ n.enclosing? p = some (i, S) ∧ S.kind = .loop ∧ S.line = .int 1 := by
  obtain ⟨t, hparse, hproblems, htable⟩ := parse?_until
  obtain ⟨m, hrun⟩ := run_until
  rw [← htable] at hrun
  have hfails := failsAt_until
  rw [← htable] at hfails
  exact ⟨untilTree, t, m, _, _, [0, 0], _, hparse, hproblems, hrun, hfails, rfl, rfl, rfl⟩

end Execution

end MiniPascal
