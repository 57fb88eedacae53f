import MiniPascal.Proofs.Parsing.Accounting
import MiniPascal.Proofs.Parsing.Binding
import MiniPascal.Proofs.Parsing.Shape
import MiniPascal.Proofs.Tree.Equality

/-!
# The order of the table

Parsing enters names in the order of the tokens, while the tree puts operators above their operands,
moves the tests of loops and repeats the control variables of `FOR` loops. Still the first mentions
of names come in the same order in both.

**The table lists the names of the program** (`parse?_names`). After a parse into an empty table
without syntax errors, the names in the table are that of the program and those of the variables in
the tree, in the order of the walk, where of names that differ only in letter case the first one is
kept. Each variable is bound to an entry of the table, and two variables are bound to the same one
if and only if their names differ at most in letter case.
-/

namespace MiniPascal

/-! ## Names in a table -/

namespace Table

variable {t : Table} {name other : Text}

/-- Whether two names are the same but for letter case. -/
def sameName (a b : Text) : Bool := a.lower == b.lower

/-- The names that are entered are those that are new, each in its first spelling. -/
theorem names_enterAll (t : Table) (names : List Text) : (t.enterAll names).names =
    t.names ++ (names.filter (!t.contains ·)).eraseDupsBy sameName := by
  induction names generalizing t with
  | nil => simp
  | cons name names ih =>
    rw [enterAll_cons]
    cases hn : t.contains name with
    | true => rw [enter_of_contains hn, ih, List.filter_cons_of_neg (by simp [hn])]
    | false =>
      have hnames : (t.enter name).names = t.names ++ [name] := by
        simp [Table.names, cells_enter hn]
      have hrest : names.filter (!(t.enter name).contains ·) =
          (names.filter (!t.contains ·)).filter fun b => decide (sameName b name = false) := by
        rw [List.filter_filter]
        refine List.filter_congr fun b _ => ?_
        have hb : (t.enter name).contains b = (sameName b name || t.contains b) := by
          rw [Bool.eq_iff_iff, contains_enter_iff]
          simp [sameName, keyOf, or_comm]
        cases hs : sameName b name <;> simp [hb, hs]
      rw [ih, hnames, hrest, List.filter_cons_of_pos (by simp [hn]), List.eraseDupsBy_cons,
        List.append_assoc, List.singleton_append]

end Table

/-! ## The variables of a tree -/

namespace Node

/-- The name of a variable. -/
def variableName? (n : Node) : Option Text :=
  match n.kind, n.text with
  | .var, .text name => some name
  | _, _ => none

/-- The names of the variables in a tree, each node before its children. -/
def variableNames (n : Node) : List Text := n.walk.filterMap variableName?

theorem ownNames_of_ne {n : Node} (h : n.kind ≠ .program) :
    n.ownNames = n.variableName?.toList := by
  obtain ⟨kind, line, text, literal, children⟩ := n
  cases kind with
  | program => exact absurd rfl h
  | var => cases text <;> rfl
  | _ => rfl

/-- The variables of a program bring the names below it. -/
theorem variableNames_of_program {n : Node} (hn : n.kind = .program)
    (h : ∀ k ∈ n.walk, k.WellShaped) : n.variableNames = namesOf n.children := by
  have hbelow := ne_program_of_wellShaped h
  have hwalk : n.walk = n :: walkAll n.children := by
    obtain ⟨kind, line, text, literal, children⟩ := n
    rw [walk]
  have hself : n.variableName? = none := by simp [variableName?, hn]
  rw [variableNames, hwalk, List.filterMap_cons_none hself, List.filterMap_eq_flatMap_toList,
    namesOf]
  exact List.flatMap_congr fun k hk => (ownNames_of_ne (hbelow k hk)).symm

end Node

/-! ## Programs -/

namespace Parsing

open Node (namesOf)

/-- Without syntax errors, a program has a name, and the table is entered in the order of the
tree. -/
theorem BuildsProgram.table_eq {s t : State} {n : Node} (h : BuildsProgram s n t)
    (hc : ¬ t.HasSyntaxError) :
    ∃ name, n.text = .text name ∧ t.table = s.table.enterAll (name :: n.variableNames) := by
  have hvariables := Node.variableNames_of_program h.shape.1 h.wellShaped.walk
  cases h with
  | @mk _ _ name body hh hb =>
    have hheader : ¬ _ := fun he => hc (hb.reaches.hasSyntaxError he)
    cases name with
    | none =>
      cases hh with
      | noName hr => exact absurd hr.syntaxError hheader
    | some name =>
      refine ⟨name.text, rfl, ?_⟩
      rw [hvariables, (hh.declares.trans hb.declares).table hc, List.map_append,
        Node.map_name_mentionsAll]
      rfl

/-- The bound tree of a program that is parsed. -/
theorem exists_bound_of_parse? {stream : Stream} {table : Table} {strict : Bool} {tree : Node}
    {t : State} (h : parse? stream table strict = some (tree, t)) :
    ∃ bound : BoundNode, parse? stream table strict = some (bound, t) ∧
      BoundNode.Binds t.table bound tree := by
  obtain ⟨s, hs, hp⟩ := parse?_eq_some h
  have halong : Along BoundNode.Binds program program s := along_program
  obtain ⟨bound, n, u, hb, hn, -, hbinds⟩ | ⟨e, u, -, hn, -⟩ := halong.cases
  · obtain ⟨rfl, rfl⟩ := EStateM.Result.ok.inj (hp.symm.trans hn)
    exact ⟨bound, parse?_of_program hs hb, hbinds⟩
  · rw [hp] at hn
    cases hn

/-- Entries are the same exactly where names are, but for letter case. -/
theorem entry_eq_iff {t : Table} {ks : List BoundNode} (h : BoundNode.Placed t ks)
    {k k' : BoundNode} (hk : k ∈ ks) (hk' : k' ∈ ks) (hkind : k.kind = .var)
    (hkind' : k'.kind = .var) {a b : Text} (ha : k.text = .text a) (hb : k'.text = .text b) :
    k.entry = k'.entry ↔ a.lower = b.lower := by
  obtain ⟨name, place, hname, hentry, hplace⟩ := h k hk hkind
  obtain ⟨name', place', hname', hentry', hplace'⟩ := h k' hk' hkind'
  obtain rfl := Value.text.inj (ha.symm.trans hname)
  obtain rfl := Value.text.inj (hb.symm.trans hname')
  have hcontains : t.contains a = true := by rw [← Table.isSome_place?, hplace]; rfl
  rw [hentry, hentry', ← hplace, ← hplace']
  exact Table.place?_eq_iff hcontains

/-- **The table lists the names of a program, and variables are bound to it.** Let any stream be
parsed, in either mode, into an empty table without a syntax error. Then the names in the table are,
in their order, that of the program and those of the variables in the tree, where of the spellings
of a name the first one is kept. The same parse builds a bound tree, which is the tree with entries.
Every variable in it is bound to the entry that is found under its name, and two variables, which
may be copies of a control variable, are bound to the same entry if and only if their names differ
at most in letter case. -/
theorem parse?_names {stream : Stream} {strict : Bool} {tree : Node} {t : State}
    (h : parse? stream {} strict = some (tree, t)) (hc : ¬ t.HasSyntaxError) :
    (∃ name, tree.text = .text name ∧
      t.table.names = (name :: tree.variableNames).eraseDupsBy Table.sameName) ∧
    ∃ bound : BoundNode, parse? stream {} strict = some (bound, t) ∧ bound.erase = tree ∧
      ∀ k ∈ bound.walk, k.kind = .var → ∃ a i c, k.text = .text a ∧ k.entry = some i ∧
        t.table.cells[i]? = some c ∧ t.table.find? a = some c ∧
        ∀ k' ∈ bound.walk, k'.kind = .var → ∀ b, k'.text = .text b →
          (k.entry = k'.entry ↔ a.lower = b.lower) := by
  obtain ⟨s, hs, hp⟩ := parse?_eq_some h
  obtain ⟨-, hb⟩ := (meets_program s).of_ok hp
  constructor
  · obtain ⟨name, hname, htable⟩ := hb.table_eq hc
    refine ⟨name, hname, ?_⟩
    have hnew : (name :: tree.variableNames).filter (!Table.contains {} ·) =
        name :: tree.variableNames :=
      List.filter_eq_self.2 fun _ _ => rfl
    rw [htable, table_start hs, Table.names_enterAll, hnew]
    rfl
  · obtain ⟨bound, hbound, hbinds⟩ := exists_bound_of_parse? h
    refine ⟨bound, hbound, hbinds.erase, fun k hk hkind => ?_⟩
    obtain ⟨a, i, ha, hentry, hplace⟩ := hbinds.placed k hk hkind
    obtain ⟨c, hcell, hfind⟩ := Table.place?_eq_some hplace
    exact ⟨a, i, c, ha, hentry, hcell, hfind, fun k' hk' hkind' b hb =>
      entry_eq_iff hbinds.placed hk hk' hkind hkind' ha hb⟩

/-- The name of the program is used as a variable, and the copies of a control variable are spelled
otherwise than its first mention. All of them are bound to the first three entries. -/
theorem parse?_names_forLoop :
    ∃ (tree : Node) (t : State) (bound : BoundNode), parse?
        (.ofSource "PROGRAM Sum; BEGIN i := 1; FOR I := n TO sum DO WRITE(N) END.") {} true =
        some (tree, t) ∧ ¬ t.HasSyntaxError ∧
      tree.variableNames = ["i", "I", "n", "I", "sum", "N", "I", "I"] ∧
      t.table.names = ["Sum", "i", "n"] ∧ bound.erase = tree ∧
      bound.walk.filterMap (·.entry) = [1, 1, 2, 1, 0, 2, 1, 1] ∧
      ∀ k ∈ bound.walk, k.kind = .var → ∃ a i c, k.text = .text a ∧ k.entry = some i ∧
        t.table.cells[i]? = some c ∧ t.table.find? a = some c := by
  have hcheck : (parse?
      (.ofSource "PROGRAM Sum; BEGIN i := 1; FOR I := n TO sum DO WRITE(N) END.") {} true).any
        (fun p : Node × State => (p.2.reports.filter (·.problem.stage = .parsing)).isEmpty &&
          decide (p.1.text = .text "Sum" ∧
            p.1.variableNames = ["i", "I", "n", "I", "sum", "N", "I", "I"])) = true := by
    decide +kernel
  have hentries : (parse?
      (.ofSource "PROGRAM Sum; BEGIN i := 1; FOR I := n TO sum DO WRITE(N) END.") {} true).any
        (fun p : BoundNode × State =>
          decide (p.1.walk.filterMap (·.entry) = [1, 1, 2, 1, 0, 2, 1, 1])) = true := by
    decide +kernel
  obtain ⟨⟨tree, t⟩, hparse, ht⟩ := (Option.any_eq_true _ _).1 hcheck
  simp only [Bool.and_eq_true, decide_eq_true_eq, List.isEmpty_iff] at ht
  obtain ⟨hreports, htext, hvariables⟩ := ht
  have hclean : ¬ t.HasSyntaxError := by rw [State.hasSyntaxError_iff, hreports]; simp
  obtain ⟨⟨name, hname, hnames⟩, bound, hbound, herase, hplaces⟩ := parse?_names hparse hclean
  rw [hbound] at hentries
  refine ⟨tree, t, bound, hparse, hclean, hvariables, ?_, herase, of_decide_eq_true hentries,
    fun k hk hkind => ?_⟩
  · rw [htext] at hname
    obtain rfl := Value.text.inj hname
    rw [hnames, hvariables]
    decide +kernel
  · obtain ⟨a, i, c, ha, hentry, hcell, hfind, -⟩ := hplaces k hk hkind
    exact ⟨a, i, c, ha, hentry, hcell, hfind⟩

end Parsing

end MiniPascal
