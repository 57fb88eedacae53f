import MiniPascal.Proofs.Parsing.Beside
import MiniPascal.Proofs.Parsing.Correspondence
import MiniPascal.Proofs.Parsing.Names

/-!
# Strict mode

In strict mode a variable that is new where it is read, and not being assigned, is reported, and is
entered all the same. So a strict parse goes along with a lenient one
(`Correspondence.strictness`), and only reports more.

**Strict mode adds the undeclared names** (`parse?_strict`). The trees, the tables and the tokens at
the end are those of a lenient parse. The strict reports are the lenient ones with undeclared names
inserted, none of them twice. If there is no syntax error, then the names are those of the tree
whose first mention is not an assignment, apart from the ones in the table and the name of the
program.
-/

namespace MiniPascal

/-! ## Undeclared names -/

namespace Node

/-- The first mention of each name. -/
def firstMentions : List Mention → List Mention
  | [] => []
  | m :: ms =>
    m :: (firstMentions ms).filter fun other => Table.keyOf other.name ≠ Table.keyOf m.name

/-- Whether the text of a node is a name, up to letter case. -/
def isCalled (n : Node) (name : Text) : Bool :=
  match n.text with
  | .text own => Table.keyOf name = Table.keyOf own
  | _ => false

/-- The mentions of undeclared names in a program, for a table at the start: the first mention of
each name, other than that of the program, that is not in the table and not being assigned. -/
def undeclared (n : Node) (table : Table) : List Mention :=
  (firstMentions (n.mentions false)).filter fun m =>
    !m.assigned && !table.contains m.name && !n.isCalled m.name

end Node

open Node (Mention mentionsAll firstMentions)

/-- The names that are reported one after the other, where each is entered after it is mentioned,
are those whose first mention calls for it. -/
theorem Table.undeclared_eq (table : Table) (ms : List Mention) :
    table.undeclared ms =
      (firstMentions ms).filter fun m => !m.assigned && !table.contains m.name := by
  induction ms generalizing table with
  | nil => rfl
  | cons m ms ih =>
    have hrest : (table.enter m.name).undeclared ms =
        ((firstMentions ms).filter fun other => keyOf other.name ≠ keyOf m.name).filter fun m =>
          !m.assigned && !table.contains m.name := by
      rw [ih, List.filter_filter]
      refine List.filter_congr fun other _ => ?_
      rw [Bool.eq_iff_iff]
      simp [← Bool.not_eq_true, contains_enter_iff, and_assoc]
    rw [undeclared, hrest, firstMentions, List.filter_cons]
    cases table.contains m.name <;> cases m.assigned <;> rfl

namespace Parsing

/-- The name of a program is entered first, so it is not among the undeclared names. -/
theorem undeclared_programNode (table : Table) (line : Int) (name : Option Token) (body : Node) :
    (programNode line name body).undeclared table =
      table.undeclared (headerMentions name ++ mentionsAll false [body]) := by
  cases name with
  | none =>
    rw [Table.undeclared_eq]
    simp [Node.undeclared, Node.isCalled, Node.mentions, Node.ownNames, Node.assignsFirst,
      programNode, headerMentions]
  | some t =>
    have hbody : table.undeclared (headerMentions (some t) ++ mentionsAll false [body]) =
        (firstMentions (mentionsAll false [body])).filter fun m =>
          !m.assigned && !table.contains m.name &&
            !decide (Table.keyOf m.name = Table.keyOf t.text) := by
      simp only [headerMentions, Option.map_some, Option.toList_some, List.singleton_append,
        Table.undeclared, Mention.ofToken, Bool.or_true, if_true, List.nil_append]
      rw [Table.undeclared_eq]
      refine List.filter_congr fun m _ => ?_
      rw [Bool.eq_iff_iff]
      simp [← Bool.not_eq_true, Table.contains_enter_iff, and_assoc]
    rw [hbody]
    by_cases he : (t.text : Text).isEmpty = true
    · simp [Node.undeclared, Node.isCalled, Node.mentions, Node.ownNames, Node.assignsFirst,
        programNode, he]
    · simp [Node.undeclared, Node.isCalled, Node.mentions, Node.ownNames, Node.assignsFirst,
        programNode, he, firstMentions, List.filter_filter]

/-! ## A strict parse beside a lenient one -/

/-- Diagnostics of undeclared names are inserted. Each name is in the table when it has been
reported, so none is reported twice. -/
structure Adds (table : Table) (reports added reports' : List Diagnostic) : Prop where
  inserted : Inserted reports added reports'
  problem : ∀ d ∈ added, d.problem = .undeclaredIdentifier
  distinct : (added.map fun d => Table.keyOf d.text).Nodup
  entered : ∀ d ∈ added, table.contains d.text = true

namespace Adds

variable {table : Table} {reports added reports' : List Diagnostic}

theorem append (h : Adds table reports added reports') (more : List Diagnostic) :
    Adds table (reports ++ more) added (reports' ++ more) :=
  { h with inserted := List.append_nil added ▸ h.inserted.append (.refl more) }

theorem enter (h : Adds table reports added reports') (name : Text) :
    Adds (table.enter name) reports added reports' :=
  { h with entered := fun d hd => Table.contains_enter (h.entered d hd) }

/-- A name that is not in the table has not been reported. -/
theorem report (h : Adds table reports added reports') {t : Token}
    (ht : table.contains t.text = false) :
    Adds (table.enter t.text) reports (added ++ [t.diagnose .undeclaredIdentifier])
      (reports' ++ [t.diagnose .undeclaredIdentifier]) where
  inserted := by simpa using h.inserted.append (.new .nil)
  problem := by
    intro d hd
    obtain hd | hd := List.mem_append.1 hd
    · exact h.problem d hd
    · rw [List.mem_singleton.1 hd]; rfl
  distinct := by
    rw [List.map_append, List.nodup_append]
    refine ⟨h.distinct, by simp, ?_⟩
    intro key hkey other hother he
    obtain ⟨d, hd, rfl⟩ := List.mem_map.1 hkey
    obtain rfl : other = Table.keyOf t.text := by simpa [Token.diagnose] using hother
    have hc := h.entered d hd
    rw [Table.contains_congr _ he, ht] at hc
    cases hc
  entered := by
    intro d hd
    obtain hd | hd := List.mem_append.1 hd
    · exact Table.contains_enter (h.entered d hd)
    · rw [List.mem_singleton.1 hd]
      exact Table.contains_enter_self _ _

/-- No syntax errors are added. -/
theorem syntaxErrors (h : Adds table reports added reports') :
    reports'.filter (·.problem.stage = .parsing) = reports.filter (·.problem.stage = .parsing) := by
  have hnone : added.filter (·.problem.stage = .parsing) = [] := by
    rw [List.filter_eq_nil_iff]
    intro d hd
    simp [h.problem d hd, Problem.stage]
  exact (hnone ▸ h.inserted.filter _).eq_of_nothing

/-- If names are reported only in strict mode, then the names reported are those added. -/
theorem names (h : Adds table reports added reports')
    (hn : reports.filter (·.problem.stage = .naming) = []) :
    reports'.filter (·.problem.stage = .naming) = added := by
  have hall : added.filter (·.problem.stage = .naming) = added := by
    rw [List.filter_eq_self]
    intro d hd
    simp [h.problem d hd, Problem.stage]
  have hfilter := h.inserted.filter (·.problem.stage = .naming)
  rw [hn, hall] at hfilter
  exact hfilter.eq_of_empty

end Adds

/-- A strict parse is where a lenient one is, and has reported undeclared names besides. -/
structure State.Stricter (s t : State) : Prop where
  current : s.current = t.current
  stream : s.stream = t.stream
  table : s.table = t.table
  lenient : s.strict = false
  strict : t.strict = true
  adds : ∃ added, Adds s.table s.reports added t.reports

namespace State.Stricter

variable {s t : State}

theorem receive (h : s.Stricter t) (r : Reading) (rest : Stream) :
    (s.receive r rest).Stricter (t.receive r rest) where
  current := rfl
  stream := rfl
  table := h.table
  lenient := h.lenient
  strict := h.strict
  adds := by
    obtain ⟨added, ha⟩ := h.adds
    refine ⟨added, ?_⟩
    rw [State.reports_receive, State.reports_receive]
    exact ha.append _

theorem next (h : s.Stricter t) :
    (∃ r r' rest rest', s.stream.next = .ok (r, rest) ∧ t.stream.next = .ok (r', rest') ∧
      (s.receive r rest).Stricter (t.receive r' rest')) ∨
    ∃ fault fault', s.stream.next = .error fault ∧ t.stream.next = .error fault' := by
  rw [← h.stream]
  cases s.stream.next with
  | ok x => exact .inl ⟨x.1, x.1, x.2, x.2, rfl, rfl, h.receive x.1 x.2⟩
  | error fault => exact .inr ⟨fault, fault, rfl, rfl⟩

theorem reported (h : s.Stricter t) (d : Diagnostic) : (s.reported d).Stricter (t.reported d) where
  current := h.current
  stream := h.stream
  table := h.table
  lenient := h.lenient
  strict := h.strict
  adds := by
    obtain ⟨added, ha⟩ := h.adds
    refine ⟨added, ?_⟩
    rw [State.reports_reported, State.reports_reported]
    exact ha.append _

theorem entered (h : s.Stricter t) (name : String) :
    (s.entered name).Stricter (t.entered name) where
  current := h.current
  stream := h.stream
  table := congrArg (·.enter (name : Text)) h.table
  lenient := h.lenient
  strict := h.strict
  adds := by
    obtain ⟨added, ha⟩ := h.adds
    exact ⟨added, ha.enter _⟩

/-- A variable may be reported by the strict parse, and is entered by both. -/
theorem named (h : s.Stricter t) (a : Token) (assigned : Bool) :
    (s.named a assigned).Stricter (t.named a assigned) := by
  have hs : s.named a assigned = s.entered a.text := by simp [State.named, h.lenient]
  have htable := h.table
  rw [hs]
  unfold State.named
  by_cases hr : (t.strict && !assigned && !t.table.contains a.text) = true
  · rw [if_pos hr]
    have hnew : s.table.contains a.text = false := by
      rw [htable]
      simp_all
    obtain ⟨added, ha⟩ := h.adds
    have hreport := ha.report hnew
    rw [← State.reports_reported] at hreport
    exact { h.entered a.text with adds := ⟨_, hreport⟩ }
  · rw [if_neg hr]
    exact h.entered a.text

end State.Stricter

/-- A strict parse beside a lenient one. -/
def Correspondence.strictness : Correspondence where
  toWording := .same
  state := State.Stricter
  current h := h.current
  next h := h.next
  reported h hd := hd ▸ h.reported _
  entered h ht := ht ▸ h.entered _
  named assigned h ht := ht ▸ h.named _ assigned

/-- Both parses start with the first token, or it can be read by neither. -/
theorem State.stricter_start (stream : Stream) (table : Table) :
    (∃ s t, State.start stream table false = .ok s ∧ State.start stream table true = .ok t ∧
      s.Stricter t) ∨
    ∃ fault fault', State.start stream table false = .error fault ∧
      State.start stream table true = .error fault' := by
  unfold State.start
  cases stream.next with
  | error fault => exact .inr ⟨fault, fault, rfl, rfl⟩
  | ok x =>
    refine .inl ⟨_, _, rfl, rfl, State.Stricter.receive ?_ x.1 x.2⟩
    exact ⟨rfl, rfl, rfl, rfl, rfl, [], .refl _, by simp, by simp, by simp⟩

/-! ## Quiet streams -/

/-- The tokens of a program text bring no diagnostics about names. -/
theorem quiet_ofSource (source : String) : (Stream.ofSource source).Quiet := by
  intro r hr d hd
  obtain ⟨-, hreport⟩ | ⟨c, cs, -, -, hreport⟩ := Reading.regular_ofSource source r hr
  · simp [hreport] at hd
  · obtain rfl : d = r.token.diagnose (.ofFirst c) := by simpa [hreport, eq_comm] using hd
    simp [Token.diagnose, stage_ofFirst]

theorem State.namings_start {stream : Stream} {table : Table} {strict : Bool} {s : State}
    (h : State.start stream table strict = .ok s) (hq : stream.Quiet) : s.namings = [] := by
  obtain ⟨r, rest, hn, rfl⟩ := State.start_eq_ok h
  exact State.namings_receive hq hn

theorem State.quiet_start {stream : Stream} {table : Table} {strict : Bool} {s : State}
    (h : State.start stream table strict = .ok s) (hq : stream.Quiet) : s.stream.Quiet := by
  obtain ⟨r, rest, hn, rfl⟩ := State.start_eq_ok h
  intro q hmem
  obtain ⟨hi, -⟩ | ⟨-, rfl, -⟩ := Stream.next_eq_ok hn
  · exact hq q (by rw [hi]; exact List.mem_cons_of_mem _ hmem)
  · exact hq q hmem

/-- A lenient parse reports no names. -/
theorem Reaches.namings_of_lenient {s t : State} (h : Reaches s t) (hs : s.strict = false)
    (hq : s.stream.Quiet) : t.namings = s.namings := by
  induction h with
  | refl => rfl
  | @tail u _ hr hst ih =>
    cases hst with
    | read _ hn => rw [State.namings_receive (Reaches.quiet hr hq) hn, ih]
    | report hp =>
      rw [← ih]
      simp [State.namings, State.reports_reported, Token.diagnose, hp]
    | undeclared hstrict =>
      rw [Reaches.strict_eq hr, hs] at hstrict
      cases hstrict
    | enter => exact ih

/-- In strict mode the undeclared names of a program are reported, if there is no syntax error. -/
theorem BuildsProgram.namings {s t : State} {n : Node} (h : BuildsProgram s n t)
    (hs : s.strict = true) (hq : s.stream.Quiet) (hc : ¬ t.HasSyntaxError) :
    t.namings = s.namings ++ (n.undeclared s.table).map fun m => (m.line, m.name) := by
  cases h with
  | mk hh hb =>
    have hd := hh.declares.trans hb.declares
    rw [undeclared_programNode]
    exact hd.namings (hd.reaches.strict_eq.trans hs) hq hc

section Parsed

variable {stream : Stream} {table : Table} {n : Node} {t : State}

theorem namings_of_lenient (h : parse? stream table false = some (n, t)) (hq : stream.Quiet) :
    t.namings = [] := by
  obtain ⟨s, hs, hp⟩ := parse?_eq_some h
  obtain ⟨hr, -⟩ := (meets_program s).of_ok hp
  rw [hr.namings_of_lenient (strict_start hs) (State.quiet_start hs hq)]
  exact State.namings_start hs hq

theorem namings_of_strict (h : parse? stream table true = some (n, t)) (hq : stream.Quiet)
    (hc : ¬ t.HasSyntaxError) :
    t.namings = (n.undeclared table).map fun m => (m.line, m.name) := by
  obtain ⟨s, hs, hp⟩ := parse?_eq_some h
  obtain ⟨-, hb⟩ := (meets_program s).of_ok hp
  rw [hb.namings (strict_start hs) (State.quiet_start hs hq) hc, State.namings_start hs hq,
    table_start hs, List.nil_append]

end Parsed

/-! ## Strict mode adds the undeclared names -/

/-- What a strict parse of a stream gives, beside what a lenient one gives. -/
structure StrictlyAdds (stream : Stream) (initial : Table) (p q : Node × State) : Prop where
  tree : q.1 = p.1
  table : q.2.table = p.2.table
  current : q.2.current = p.2.current
  syntaxErrors : q.2.reports.filter (·.problem.stage = .parsing) =
    p.2.reports.filter (·.problem.stage = .parsing)
  /-- Undeclared names are inserted, no name twice. They are all the reports about names, unless
  some came with the tokens, which those of a program text never do (`quiet_ofSource`). -/
  inserted : ∃ added, Inserted p.2.reports added q.2.reports ∧
    (∀ d ∈ added, d.problem = .undeclaredIdentifier) ∧
    (added.map fun d => Table.keyOf d.text).Nodup ∧
    (stream.Quiet → q.2.reports.filter (·.problem.stage = .naming) = added)
  /-- Without a syntax error, they are the undeclared names of the tree, in their order. -/
  names : stream.Quiet → ¬ p.2.HasSyntaxError →
    (q.2.reports.filter (·.problem.stage = .naming)).map (fun d => (.int d.line, (d.text : Text))) =
      (p.1.undeclared initial).map fun m => (m.line, m.name)

theorem State.Stricter.strictlyAdds {stream : Stream} {table : Table} {p q : Node × State}
    (h : p.2.Stricter q.2) (htree : p.1 = q.1) (hp : parse? stream table false = some p)
    (hq : parse? stream table true = some q) : StrictlyAdds stream table p q := by
  obtain ⟨added, ha⟩ := h.adds
  refine ⟨htree.symm, h.table.symm, h.current.symm, ha.syntaxErrors,
    ⟨added, ha.inserted, ha.problem, ha.distinct, fun hquiet => ?_⟩, fun hquiet hc => ?_⟩
  · exact ha.names (List.map_eq_nil_iff.1 (namings_of_lenient hp hquiet))
  · have hstrict : ¬ q.2.HasSyntaxError := by
      rwa [State.hasSyntaxError_iff, ha.syntaxErrors, ← State.hasSyntaxError_iff]
    rw [htree]
    exact namings_of_strict hq hquiet hstrict

/-- **Strict mode adds the undeclared names.** Every stream that one mode can parse the other can
too, among them all that end, and the strict parse gives what the lenient one does, with undeclared
names reported besides. -/
theorem parse?_strict (stream : Stream) (table : Table) :
    Option.Rel (StrictlyAdds stream table) (parse? stream table false) (parse? stream table true) ∧
      ∀ line, stream.ending = .endOfFile line → (parse? stream table false).isSome = true := by
  refine ⟨?_, fun line h => isSome_parse? h table false⟩
  have hrel := Correspondence.strictness.parse? (State.stricter_start stream table)
  generalize hp : parse? stream table false = o, hq : parse? stream table true = o' at hrel ⊢
  cases hrel with
  | none => exact .none
  | some h => exact .some (h.2.strictlyAdds h.1.eq hp hq)

/-- The name of the program, the control variable and the second mention of a name are not
reported. -/
theorem parse?_strict_forLoop :
    ∃ p q, parse? (.ofSource "PROGRAM p; BEGIN a := B; b := P; FOR i := 1 TO n DO WRITE(N) END.") {}
        false = some p ∧
      parse? (.ofSource "PROGRAM p; BEGIN a := B; b := P; FOR i := 1 TO n DO WRITE(N) END.") {}
        true = some q ∧
      q.1 = p.1 ∧ p.2.reports = [] ∧
      q.2.reports.map (fun d => (d.text : Text)) = [.ofString "B", .ofString "n"] := by
  have hcheck : (parse?
      (.ofSource "PROGRAM p; BEGIN a := B; b := P; FOR i := 1 TO n DO WRITE(N) END.") {} false).any
        (fun p => p.2.reports.isEmpty &&
          (p.1.undeclared {}).map (·.name) == [.ofString "B", .ofString "n"]) = true := by
    decide +kernel
  obtain ⟨hrel, -⟩ := parse?_strict
    (.ofSource "PROGRAM p; BEGIN a := B; b := P; FOR i := 1 TO n DO WRITE(N) END.") {}
  have hquiet := quiet_ofSource "PROGRAM p; BEGIN a := B; b := P; FOR i := 1 TO n DO WRITE(N) END."
  generalize parse? _ {} false = o, parse? _ {} true = o' at hrel hcheck
  cases hrel with
  | none => cases hcheck
  | @some p q h =>
    obtain ⟨hempty, hnames⟩ : p.2.reports = [] ∧
        (p.1.undeclared {}).map (·.name) = [.ofString "B", .ofString "n"] := by
      simpa using hcheck
    refine ⟨p, q, rfl, rfl, h.tree, hempty, ?_⟩
    obtain ⟨added, hinserted, -, -, hadded⟩ := h.inserted
    have hall : q.2.reports = q.2.reports.filter (·.problem.stage = .naming) := by
      rw [hempty] at hinserted
      exact hinserted.eq_of_empty.trans (hadded hquiet).symm
    have hpairs := h.names hquiet (by simp [State.HasSyntaxError, hempty])
    rw [← hall] at hpairs
    rw [← hnames]
    simpa [Function.comp_def] using congrArg (List.map Prod.snd) hpairs

end Parsing

end MiniPascal
