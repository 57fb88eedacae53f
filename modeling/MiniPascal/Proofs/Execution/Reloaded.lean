import MiniPascal.Proofs.Execution.Simulation
import MiniPascal.Proofs.Parsing.Names
import MiniPascal.Proofs.Parsing.Total
import MiniPascal.Proofs.Tree.Reload

/-!
# Runs of reloaded programs

A program that was parsed can be written as a value and loaded again, into a new table. Loading
enters the names in the tree. Parsing has entered them too, and perhaps more: the names in a
statement that was abandoned are in the table and not in the tree.

**Reloading changes nothing** (`run_reloaded`). The tree is the same. Without a syntax error the
table is the same as well. After one, the table of the parse comes from entering the names of the
tree in their order, with others between them. So it has every variable of the loaded table. It may
spell it otherwise and have it in another place (`names_reloaded`), if an abandoned statement was
the first to name it, and it may have more. Runs on both tables put out the same, end alike and
leave the same values, and what only the first table has is still zero.
-/

namespace MiniPascal

open Parsing (State program table_start)

namespace Execution

/-! ## Machines with spare variables -/

/-- The machines differ in their tables only, and the first table covers the second one. -/
structure Machine.Covers (m m' : Machine) : Prop where
  rest : m' = { m with table := m'.table }
  table : m.table.Covers m'.table

/-- Both runs end well, or both with the same fault or for want of fuel. What they have put out and
noted is the same, and the table of the first one covers that of the second one. -/
def EndsAlike : EStateM.Result Stop Machine Unit → EStateM.Result Stop Machine Unit → Prop
  | .ok _ m, .ok _ m' => m.Covers m'
  | .error e m, .error e' m' => e = e' ∧ m.Covers m'
  | _, _ => False

/-- The second machine has, in place of the table of the first one, a table with the variables of
`known` that is covered by it. -/
inductive Rebound (known : Table) : Machine → Machine → Prop
  | mk {m : Machine} {table : Table} :
      m.table.Covers table → m.table.Keyed →
      (∀ name, table.contains name = known.contains name) → Rebound known m { m with table }

theorem Rebound.covers {known : Table} {m m' : Machine} (h : Rebound known m m') :
    m.Covers m' := by
  cases h with
  | mk hc _ _ => exact ⟨rfl, hc⟩

/-- A step that neither reads nor changes the table. -/
theorem Rebound.map {known : Table} {m m' : Machine} {g : Machine → Machine}
    (hg : ∀ (m : Machine) (table : Table), g { m with table } = { g m with table })
    (h : Rebound known m m') : Rebound known (g m) (g m') := by
  cases h with
  | @mk table hc hk hn =>
    have ht : (g m).table = m.table := (congrArg (·.table) (hg m m.table) :)
    rw [hg m table]
    exact .mk (ht.symm ▸ hc) (ht.symm ▸ hk) hn

/-- A program whose variables are all known cannot tell which of the tables it has. -/
theorem reboundSimulation (known : Table) :
    Simulation (Rebound known) Eq fun name => known.contains name = true where
  refl _ := rfl
  division _ h := by cases h; rfl
  note := similar_note (fun _ => rfl) (fun h => by cases h; rfl)
    (fun line h => h.map (g := fun m => { m with trace := m.trace ++ line ++ "\n" }) fun _ _ => rfl)
    (fun n h => h.map (g := fun m => { m with notes := m.notes.push n }) fun _ _ => rfl)
  find h hn := by
    cases h with
    | mk hc _ hk => exact hc.value _ ((hk _).trans hn)
  line line h := h.map (g := fun m => { m with line }) fun _ _ => rfl
  output text h := h.map (g := fun m => { m with output := m.output ++ text }) fun _ _ => rfl
  set {m m' name} x h hname _ := by
    cases h with
    | mk hc hk hn =>
      exact .mk (hc.set hk ((hn name).trans hname) _) (hk.set name _) fun other => by
        rw [Table.contains_set, hn]

theorem Follows.endsAlike {known : Table} {x x' : EStateM.Result Stop Machine Unit}
    (h : Follows True (Rebound known) Eq x x') : EndsAlike x x' := by
  obtain ⟨a, m, m', rfl, rfl, hm⟩ | ⟨m, m', rfl, rfl, hm⟩ | ⟨f, f', m, m', rfl, rfl, rfl, hm⟩ :=
    h.cases
  · exact hm.covers
  · exact ⟨rfl, hm.covers⟩
  · exact ⟨rfl, hm.covers⟩

/-- A program ends alike on a table and on one that it covers, if that has all its variables. -/
theorem run_endsAlike {known table : Table} (hc : table.Covers known) (hk : table.Keyed)
    {n : Node} (hn : n.Names fun name => known.contains name = true) (fuel : Nat) (m : Machine) :
    EndsAlike (run fuel n { m with table }) (run fuel n { m with table := known }) := by
  have hsimilar : Similar True (Rebound known) Eq (run fuel n) (run fuel n) :=
    similar_run (reboundSimulation known) (.refl True fuel) n hn
  have hm : Rebound known { m with table } { m with table := known } := .mk hc hk fun _ => rfl
  exact (hsimilar _ _ hm).endsAlike

/-! ## A text with an abandoned statement -/

/-- The names in the table when a stream has been parsed, and in the table when the tree has been
reloaded. -/
def reloadedNames (stream : Stream) : Option (List Text × List Text) :=
  match State.start stream {} false with
  | .error _ => none
  | .ok s =>
    match program s with
    | .error _ _ => none
    | .ok n t =>
      match Node.load n.toValue {} with
      | .error _ _ => none
      | .ok _ table => some (t.table.names, table.names)

theorem reloadedNames_eq_some {stream : Stream} {parsed loaded : List Text}
    (h : reloadedNames stream = some (parsed, loaded)) :
    ∃ s n t n' table, State.start stream {} false = .ok s ∧ program s = .ok n t ∧
      Node.load n.toValue {} = .ok n' table ∧ t.table.names = parsed ∧ table.names = loaded := by
  unfold reloadedNames at h
  split at h
  · cases h
  · next s hs =>
    split at h
    · cases h
    · next n t hp =>
      split at h
      · cases h
      · next n' table hl =>
        cases h
        exact ⟨s, n, t, n', table, hs, hp, hl, rfl, rfl⟩

/-- The first statement lacks an operand and is abandoned, when it has named both variables. -/
theorem reloadedNames_abandoned : reloadedNames (.ofSource "BEGIN A:=B+;b:=1;a:=2") =
    some ([.ofString "A", .ofString "B"], [.ofString "b", .ofString "a"]) := by
  decide +kernel

/-- A run changes no name in the table, and enters none. -/
theorem keptByRuns_names (names : List Text) : KeptByRuns fun m => m.table.names = names where
  trace _ h := h
  notes _ h := h
  line _ h := h
  output _ h := h
  set _ h _ := (Table.names_set _ _ _).trans h

/-! ## Reloading -/

/-- **Reloading changes nothing.** Let a program text be parsed into a new table, with or without
diagnostics, and let its tree be written as a value and loaded into another new table. Loading gives
the same tree, and enters the names in it. Parsing has entered these in the same order, and perhaps
others between them, which then decide where a variable stands and how it is spelled. If no syntax
error was reported, both tables are the same. From any machine, runs on the two tables end alike:
both well, or both with the same fault or for want of the same fuel. They put out the same, every
variable of the loaded table has the same value in both, and what only the parsed table has is still
zero. -/
theorem run_reloaded (source : String) (strict : Bool) {s t : State} {n : Node}
    (hs : State.start (.ofSource source) {} strict = .ok s) (hp : program s = .ok n t) :
    ∃ table, Node.load n.toValue {} = .ok n table ∧
      table = Table.enterAll {} (Node.namesOf [n]) ∧
      (∃ entered, (Node.namesOf [n]).Sublist entered ∧ t.table = Table.enterAll {} entered) ∧
      (¬ t.HasSyntaxError → table = t.table) ∧
      ∀ (fuel : Nat) (m : Machine),
        EndsAlike (run fuel n { m with table := t.table }) (run fuel n { m with table }) := by
  obtain ⟨hr, hb⟩ := (Parsing.meets_program s).of_ok hp
  obtain ⟨henters, hnameable⟩ :=
    hb.enters (State.readFrom_start hs) (Parsing.worded_ofSource source)
  have hempty := table_start hs
  have hzero : t.table.Zeroed :=
    hr.table_induct (P := Table.Zeroed) (fun name h => h.enter name) (hempty ▸ Table.zeroed_empty)
  have hkeyed : t.table.Keyed :=
    hr.table_induct (P := Table.Keyed) (fun name h => h.enter name) (hempty ▸ Table.keyed_empty)
  refine ⟨_, Node.load_toValue hnameable {}, rfl, hempty ▸ henters.among, fun hc => ?_, ?_⟩
  · rw [henters.table hc, hempty]
  · refine run_endsAlike (hzero.covers (Table.zeroed_empty.enterAll _) fun name hname => ?_) hkeyed
      (Node.names_of_namesOf fun name hname => Table.contains_enterAll_of_mem hname)
    obtain hnone | ⟨first, hf, hk⟩ := Table.contains_or_of_contains_enterAll hname
    · cases hnone
    · rw [Table.contains_congr t.table hk]
      exact henters.contains hf

/-- A parse with an abandoned statement, and the runs of its tree and of the reloaded one. -/
theorem run_reloaded_abandoned :
    ∃ s n t, State.start (.ofSource "BEGIN A:=B+;b:=1;a:=2") {} false = .ok s ∧
      program s = .ok n t ∧
      ∃ table, Node.load n.toValue {} = .ok n table ∧
        table = Table.enterAll {} (Node.namesOf [n]) ∧
        (∃ entered, (Node.namesOf [n]).Sublist entered ∧ t.table = Table.enterAll {} entered) ∧
        (¬ t.HasSyntaxError → table = t.table) ∧
        ∀ (fuel : Nat) (m : Machine),
          EndsAlike (run fuel n { m with table := t.table }) (run fuel n { m with table }) := by
  obtain ⟨s, n, t, -, -, hs, hp, -⟩ := reloadedNames_eq_some reloadedNames_abandoned
  exact ⟨s, n, t, hs, hp, run_reloaded "BEGIN A:=B+;b:=1;a:=2" false hs hp⟩

/-- After a syntax error the entries of the loaded table need not be among those of the parsed one,
in the same order: a variable may be spelled otherwise and stand in another place. -/
theorem names_reloaded :
    ∃ s n t n' table, State.start (.ofSource "BEGIN A:=B+;b:=1;a:=2") {} false = .ok s ∧
      program s = .ok n t ∧ Node.load n.toValue {} = .ok n' table ∧
      ∀ (fuel : Nat) (m : Machine),
        let parsed := (endOf (run fuel n { m with table := t.table })).table
        let loaded := (endOf (run fuel n' { m with table })).table
        parsed.names = [.ofString "A", .ofString "B"] ∧
          loaded.names = [.ofString "b", .ofString "a"] ∧ ¬ loaded.cells.Sublist parsed.cells := by
  obtain ⟨s, n, t, n', table, hs, hp, hl, ht, htable⟩ :=
    reloadedNames_eq_some reloadedNames_abandoned
  refine ⟨s, n, t, n', table, hs, hp, hl, fun fuel m => ?_⟩
  have hparsed := (keptByRuns_names _).run fuel n (m := { m with table := t.table }) ht
  have hloaded := (keptByRuns_names _).run fuel n' (m := { m with table }) htable
  refine ⟨hparsed, hloaded, fun hsub => ?_⟩
  have hnames := hsub.map (·.name)
  change (Table.names _).Sublist (Table.names _) at hnames
  rw [hparsed, hloaded] at hnames
  exact absurd hnames (by decide)

end Execution

end MiniPascal
