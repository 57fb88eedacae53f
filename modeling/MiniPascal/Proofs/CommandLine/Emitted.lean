import MiniPascal.Proofs.CommandLine.Files
import MiniPascal.Proofs.CommandLine.Path
import MiniPascal.Proofs.Execution.DivisionLine
import MiniPascal.Proofs.Json.LineEnds
import MiniPascal.Proofs.Session.Trace
import MiniPascal.Proofs.Tree.Reload

/-!
# Programs run from their tree files

A program file can be run at once, or its tree can be written to a file and that be run later.

**Both ways agree** (`Files.run_emitted`). If there are diagnostics, neither is done: they are put
out and counted, and nothing is written. Otherwise the response to the tree file is the response to
the program file, which is that to the run of the program (`Response.ofRun`): the text it put out,
and its end.

Both commands run the same tree on the same table. A tree file is read as it was written, a tree
that is written as a value is loaded as it was, and without a diagnostic loading enters the names
that were entered by parsing (`Parsing.load_of_parse?`).
-/

namespace MiniPascal

open Parsing (State parse?)

/-- A tree that was parsed without a diagnostic is loaded with its table. -/
theorem Parsing.load_of_parse? {source : String} {strict : Bool} {n : Node} {t : State}
    (h : parse? (.ofSource source) {} strict = some (n, t)) (hclean : t.reports = []) :
    Node.load n.toValue {} = .ok n t.table := by
  obtain ⟨s, hs, hp⟩ := parse?_eq_some h
  obtain ⟨-, hb⟩ := (meets_program s).of_ok hp
  obtain ⟨henters, hnameable⟩ := hb.enters (State.readFrom_start hs) (worded_ofSource source)
  have hsyntax : ¬ t.HasSyntaxError := by simp [State.HasSyntaxError, hclean]
  have htable : t.table = ({} : Table).enterAll (Node.namesOf [n]) := by
    rw [henters.table hsyntax, table_start hs]
  rw [htable, Node.load_toValue hnameable]

/-! ## Sessions without a trace -/

namespace Session

variable {s : Session}

theorem tell_of_silent (hs : s.tracing = false) (level : Int) (message : Text) :
    s.tell level message = .ok s := by
  simp [tell, takes, hs]

theorem finish_of_silent (hs : s.tracing = false) (n : Node) (m : Execution.Machine)
    (result : Except Failure Unit) : s.finish n m result = ((s.finished m).close, result) := by
  have htell := tell_of_silent (s := s.finished m) hs 1 ("end of program " ++ n.text.display)
  unfold finish
  dsimp only
  split
  · next t ht => rw [Except.ok.inj (htell.symm.trans ht)]
  · next failure hf => cases htell.symm.trans hf

theorem run_of_silent (hs : s.tracing = false) (fuel : Nat) (n : Node) :
    s.run fuel n =
      ((s.finished (Execution.endOf (Execution.run fuel n { table := s.table }))).close,
        Execution.outcomeOf (Execution.run fuel n { table := s.table })) := by
  unfold run
  rw [tell_of_silent hs]
  dsimp only
  rw [hs, if_neg Bool.false_ne_true]
  rcases Execution.run fuel n { table := s.table } with _ | ⟨_ | _⟩
  all_goals exact finish_of_silent hs n _ _

/-- A parse in a new session without a trace. -/
theorem parse_start {source : String} {n : Node} {t : State}
    (h : parse? (.ofSource source) {} false = some (n, t)) :
    ∃ s, (start 0 false).parse source = (s, .ok n) ∧ s.table = t.table ∧
      s.errorCount = t.reports.length ∧ s.output = printed t.reports ∧ s.tracing = false := by
  obtain ⟨s, hparse, htable, hcount, hcontinues⟩ := parse_of_parse? (s := start 0 false) h
  refine ⟨s, hparse, htable, ?_, ?_, hcontinues.tracing⟩
  · rw [hcount, (Parsing.counted_of_parse? h).1]
    exact Nat.zero_add _
  · rw [hcontinues.output]
    exact Text.empty_append _

theorem parse_start_clean {source : String} {n : Node} {t : State}
    (h : parse? (.ofSource source) {} false = some (n, t)) (hclean : t.reports = []) :
    ∃ s, (start 0 false).parse source = (s, .ok n) ∧ s.table = t.table ∧ s.errorCount = 0 ∧
      s.output = {} ∧ s.tracing = false := by
  obtain ⟨s, hparse, htable, hcount, houtput, htracing⟩ := parse_start h
  rw [hclean] at hcount houtput
  exact ⟨s, hparse, htable, hcount, houtput, htracing⟩

end Session

namespace CommandLine

/-! ## Responses -/

namespace Response

/-- The response to a program with diagnostics, which is not executed. -/
def ofDiagnostics (ds : List Diagnostic) : Response where
  stdout := Session.printed ds
  stderr := toString ds.length ++ " error(s) found, program not executed\n"
  result := .ok 1

/-- The response to the run of a program: what was put out, and how the run ended. A division by
zero is reported after the output so far. -/
def ofRun : EStateM.Result Execution.Stop Execution.Machine Unit → Response
  | .ok _ m => { stdout := m.output }
  | .error (.fault (.divisionByZero line text)) m =>
    { stdout := m.output ++ (Execution.Fault.divisionByZero line text).message ++ "\n"
      result := .ok 3 }
  | .error (.fault f) m => { stdout := m.output, result := .error (.run f) }
  | .error .outOfFuel m => { stdout := m.output, result := .error .outOfFuel }

theorem writes_ofRun (r : EStateM.Result Execution.Stop Execution.Machine Unit) :
    (ofRun r).writes = [] := by
  unfold ofRun
  split <;> rfl

/-- The status is 3 after a division by zero only. -/
theorem result_ofRun_eq_three {r : EStateM.Result Execution.Stop Execution.Machine Unit} :
    (ofRun r).result = .ok 3 ↔
      ∃ line text m, r = .error (.fault (.divisionByZero line text)) m := by
  constructor
  · intro h
    rcases r with m | ⟨f | _, m⟩
    · cases h
    · cases f with
      | divisionByZero line text => exact ⟨line, text, m, rfl⟩
      | _ => cases h
    · cases h
  · rintro ⟨line, text, m, rfl⟩
    rfl

end Response

namespace Command

variable {c : Command}

theorem close_of_silent (hv : c.verbosity = 0) {s : Session} (result : Except Failure Nat) :
    c.close s result = { stdout := s.output, result } := by
  simp [close, hv]

theorem execute_of_silent (hv : c.verbosity = 0) {s : Session} (hs : s.tracing = false)
    (ho : s.output = {}) (fuel : Nat) (n : Node) :
    c.execute fuel s n = .ofRun (Execution.run fuel n { table := s.table }) := by
  have houtput (m : Execution.Machine) : (s.finished m).close.output = m.output := by
    show s.output ++ m.output = m.output
    rw [ho, Text.empty_append]
  unfold execute
  rw [Session.run_of_silent hs]
  rcases Execution.run fuel n { table := s.table } with m | ⟨f | _, m⟩
  · simp only [Execution.outcomeOf, close_of_silent hv, houtput]
    rfl
  · cases f
    all_goals
      simp only [Execution.outcomeOf, close_of_silent hv, houtput]
      rfl
  · simp only [Execution.outcomeOf, close_of_silent hv, houtput]
    rfl

/-! ## Commands on a file -/

section Program

variable {bytes : List UInt8} {source : String} {n : Node} {t : State}

theorem respond_of_sourceOf (h : sourceOf bytes = .ok source) (fuel : Nat) :
    c.respond fuel (some bytes) =
      if c.task = .runTree then c.runTree fuel source else c.runSource fuel source := by
  rw [respond, h]

theorem start_of_silent (hv : c.verbosity = 0) (hs : c.strict = false) :
    Session.start c.verbosity c.strict = Session.start 0 false := by
  rw [hv, hs]
  rfl

section Source

variable (hv : c.verbosity = 0) (hs : c.strict = false) (hsource : sourceOf bytes = .ok source)
  (h : parse? (.ofSource source) {} false = some (n, t))

include hv hs hsource h

/-- A program with diagnostics is neither run nor written. -/
theorem respond_of_reports (hc : c.task ≠ .runTree) (hreports : t.reports ≠ []) (fuel : Nat) :
    c.respond fuel (some bytes) = .ofDiagnostics t.reports := by
  obtain ⟨s, hparse, -, hcount, houtput, -⟩ := Session.parse_start h
  have hne : s.errorCount ≠ 0 := by
    rw [hcount]
    exact mt List.length_eq_zero_iff.1 hreports
  rw [respond_of_sourceOf hsource, if_neg hc, runSource, start_of_silent hv hs, hparse]
  dsimp only
  rw [if_pos hne, close_of_silent hv, hcount, houtput]
  rfl

theorem respond_emitTree (hc : c.task = .emitTree) (hclean : t.reports = []) (fuel : Nat) :
    c.respond fuel (some bytes) =
      { stdout := c.treePath.text ++ "\n"
        writes := [(c.treePath, Json.writeIndented n.toValue)] } := by
  obtain ⟨s, hparse, -, hcount, houtput, -⟩ := Session.parse_start_clean h hclean
  rw [respond_of_sourceOf hsource, if_neg (by simp [hc]), runSource, start_of_silent hv hs, hparse]
  dsimp only
  rw [if_neg (not_not.2 hcount), if_pos hc, close_of_silent hv, houtput, Text.empty_append]
  rfl

theorem respond_runProgram (hc : c.task = .runProgram) (hclean : t.reports = []) (fuel : Nat) :
    c.respond fuel (some bytes) = .ofRun (Execution.run fuel n { table := t.table }) := by
  obtain ⟨s, hparse, htable, hcount, houtput, htracing⟩ := Session.parse_start_clean h hclean
  rw [respond_of_sourceOf hsource, if_neg (by simp [hc]), runSource, start_of_silent hv hs, hparse]
  dsimp only
  rw [if_neg (not_not.2 hcount), if_neg (by simp [hc]), execute_of_silent hv htracing houtput,
    htable]

end Source

/-- A tree file from which the tree can be read is run with the table of the parse. -/
theorem respond_runTree (hv : c.verbosity = 0) (hc : c.task = .runTree)
    (h : parse? (.ofSource source) {} false = some (n, t)) (hclean : t.reports = [])
    {tree : String} (htree : sourceOf bytes = .ok tree)
    (hjson : Json.read tree = .ok n.toValue) (fuel : Nat) :
    c.respond fuel (some bytes) = .ofRun (Execution.run fuel n { table := t.table }) := by
  have hload : (Session.start c.verbosity false).load tree =
      ({ Session.start c.verbosity false with table := t.table }, .ok n) := by
    have htable : Node.load n.toValue (Session.start c.verbosity false).table = .ok n t.table :=
      Parsing.load_of_parse? h hclean
    rw [Session.load, hjson]
    dsimp only
    rw [htable]
  rw [respond_of_sourceOf htree, if_pos hc, runTree, hload]
  dsimp only
  rw [execute_of_silent hv (by rw [hv]; rfl) rfl]

end Program

end Command

namespace Files

/-! ## Both ways to run a program -/

/-- **Running a program and running its tree file agree.** Let the file of a given name hold a text
that is parsed, in a directory where its tree file can be written.

If there are diagnostics, then running the program and writing its tree both put them out, and tell
their count. No program is run, no file is written and the status is 1.

Otherwise the tree file is written, and the text that names its path is put out. Running it, under
that or any other name of the path, gives the response that running the program gives: the text that
the program puts out, and its end. The status is 3 if and only if the run ends with a division by
zero, which is reported after the output so far. The value of the tree is assumed to be read from
JSON as it was written. -/
theorem run_emitted (fs : Files) (fuel : Nat) {f source : String} {bytes : List UInt8} {n : Node}
    {t : State} (hf : IsFileName f) (hread : fs.read (.ofText f) = .ok (some bytes))
    (hsource : Command.sourceOf bytes = .ok source)
    (hparse : parse? (.ofSource source) {} false = some (n, t)) :
    let treePath := (Path.ofText f).addEnding ".ast.json"
    let tree := Json.writeIndented n.toValue
    let r := Execution.run fuel n { table := t.table }
    (t.reports ≠ [] →
      fs.run fuel [f] = (fs, .ofDiagnostics t.reports) ∧
      fs.run fuel ["--emit-ast", f] = (fs, .ofDiagnostics t.reports)) ∧
    (t.reports = [] →
      fs.run fuel [f] = (fs, .ofRun r) ∧
      ((Response.ofRun r).result = .ok 3 ↔
        ∃ line text m, r = .error (.fault (.divisionByZero line text)) m) ∧
      (fs.Takes treePath →
        ∃ fs', fs.write treePath tree = .ok fs' ∧
          fs.run fuel ["--emit-ast", f] =
            (fs', { stdout := treePath.text ++ "\n", writes := [(treePath, tree)] }) ∧
          Path.ofText treePath.text = treePath ∧
          (Json.read tree = .ok n.toValue → ∀ g, IsFileName g → Path.ofText g = treePath →
            fs'.run fuel ["--ast", g] = (fs', .ofRun r)))) := by
  intro treePath tree r
  refine ⟨fun hreports => ⟨?_, ?_⟩, fun hclean => ⟨?_, Response.result_ofRun_eq_three, ?_⟩⟩
  · refine run_of_respond hf.command_program rfl hread ?_ rfl
    exact Command.respond_of_reports rfl rfl hsource hparse (by simp) hreports fuel
  · refine run_of_respond hf.command_emitTree rfl hread ?_ rfl
    exact Command.respond_of_reports rfl rfl hsource hparse (by simp) hreports fuel
  · refine run_of_respond hf.command_program rfl hread ?_ (by rw [Response.writes_ofRun]; rfl)
    exact Command.respond_runProgram rfl rfl hsource hparse rfl hclean fuel
  · intro htakes
    obtain ⟨fs', hwrite⟩ := write_of_takes htakes tree
    have hproper : treePath.IsProper :=
      (Path.isProper_ofText f).addEnding (by decide) (by decide)
    refine ⟨fs', hwrite, ?_, Path.ofText_text hproper, fun hjson g hg hpath => ?_⟩
    · refine run_of_respond hf.command_emitTree rfl hread ?_ (by rw [writeAll, hwrite]; rfl)
      exact Command.respond_emitTree rfl rfl hsource hparse rfl hclean fuel
    · have hread' : fs'.read (.ofText g) = .ok (some tree.toUTF8.toList) :=
        hpath.symm ▸ read_of_write hwrite
      refine run_of_respond hg.command_tree rfl hread' ?_ (by rw [Response.writes_ofRun]; rfl)
      exact Command.respond_runTree rfl rfl hparse hclean
        (Command.sourceOf_writeIndented n.toValue) hjson fuel

/-! ## A program that divides by zero -/

/-- A program that puts out a text with a quote and a backslash, and then divides by zero. -/
def dividingSource : String := "PROGRAM p; BEGIN WRITE('a\"\\');\nx := 1/0.0 END."

/-- The tree of that program. -/
def dividingTree : Node :=
  let string : Node := ⟨.string, .int 1, .text "'a\"\\'", .text "a\"\\", []⟩
  let quotient : Node := ⟨.arithmetic .divide, .int 2, .text "/", .null,
    [⟨.integer, .int 2, .text "1", .int 1, []⟩, ⟨.real, .int 2, .text "0.0", .real 0.0, []⟩]⟩
  ⟨.program, .int 1, .text "p", .null, [⟨.compound, .int 1, .null, .null,
    [⟨.write, .int 1, .null, .null, [string]⟩,
      ⟨.assign, .int 2, .null, .null, [⟨.var, .int 2, .text "x", .null, []⟩, quotient]⟩]⟩]⟩

/-- The table that parsing leaves, with the name of the program. -/
def dividingTable : Table where
  cells := [{ key := "p", name := "p", value := .real 0.0 },
    { key := "x", name := "x", value := .real 0.0 }]

/-- A directory with that program. -/
def dividingFiles : Files where
  entries := [(["lib", "p.pas"], dividingSource.toUTF8.toList)]

theorem parse?_dividing : ∃ t, parse? (.ofSource dividingSource) {} false = some (dividingTree, t) ∧
    t.reports = [] ∧ t.table = dividingTable := by
  have hparse : (parse? (.ofSource dividingSource) {} false).any
      (fun x => decide (x.1 = dividingTree) &&
        decide (x.2.reports = [] ∧ x.2.table = dividingTable)) = true := by
    decide +kernel
  obtain ⟨s, n, t, hs, hp, hcheck⟩ := Parsing.exists_of_parse?_any hparse
  obtain ⟨htree, hreports, htable⟩ := by simpa using hcheck
  obtain rfl : n = dividingTree := htree
  exact ⟨t, Parsing.parse?_of_program hs hp, hreports, htable⟩

theorem eq_ok_of_toOption {ε α : Type} {x : Except ε α} {a : α} (h : x.toOption = some a) :
    x = .ok a := by
  cases x with
  | error e => cases h
  | ok b => rw [Option.some.inj h]

/-- The second text before what follows, so that a long text is taken apart from its start. -/
theorem toList_append_then (s t : String) (rest : List Char) :
    (s ++ t).toList ++ rest = s.toList ++ (t.toList ++ rest) := by
  rw [String.toList_append, List.append_assoc]

set_option maxRecDepth 8000 in
theorem read_dividing :
    Json.read (Json.writeIndented dividingTree.toValue) = .ok dividingTree.toValue := by
  apply eq_ok_of_toOption
  rw [Json.read, ← List.append_nil (String.toList _)]
  simp only [dividingTree, Node.toValue, Node.toValues, Json.writeIndented, Json.indentAfter,
    Json.indentItems, Json.indentFields, ↓toList_append_then]
  decide +kernel

theorem run_dividing : ∃ m, Execution.run 1 dividingTree { table := dividingTable } =
    .error (.fault (.divisionByZero (.int 2) (.text "/"))) m ∧ m.output = "a\"\\" := by
  obtain ⟨hdivision, houtput⟩ :
      Execution.divisionOf (Execution.run 1 dividingTree { table := dividingTable }) =
        some (.int 2, .text "/") ∧
      (Execution.endOf (Execution.run 1 dividingTree { table := dividingTable })).output =
        "a\"\\" := by
    simp only [dividingTree, Execution.run, Execution.visit, Execution.execute,
      Execution.executeAll, Execution.evaluate]
    decide +kernel
  obtain ⟨m, hm⟩ := Execution.divisionOf_eq_some.1 hdivision
  rw [hm] at houtput
  exact ⟨m, hm, houtput⟩

/-- The tree file of a program that divides by zero. -/
theorem run_emitted_division :
    let tree := Json.writeIndented dividingTree.toValue
    let treePath := Path.ofText "lib/p.pas.ast.json"
    let r : Response :=
      { stdout := "a\"\\RUNTIME ERROR at line 2: Division by zero at '/'\n", result := .ok 3 }
    ∃ fs : Files,
      dividingFiles.write treePath tree = .ok fs ∧
      dividingFiles.run 1 ["lib/p.pas"] = (dividingFiles, r) ∧
      dividingFiles.run 1 ["--emit-ast", "lib/p.pas"] =
        (fs, { stdout := "lib/p.pas.ast.json\n", writes := [(treePath, tree)] }) ∧
      fs.run 1 ["--ast", "lib/p.pas.ast.json"] = (fs, r) := by
  intro tree treePath r
  obtain ⟨t, hparse, hclean, htable⟩ := parse?_dividing
  obtain ⟨m, hrun, houtput⟩ := run_dividing
  have hname : IsFileName "lib/p.pas" := isFileName_of_head rfl (by decide)
  have hname' : IsFileName "lib/p.pas.ast.json" := isFileName_of_head rfl (by decide)
  have hsource : Command.sourceOf dividingSource.toUTF8.toList = .ok dividingSource :=
    Command.sourceOf_of_lineFed (by decide)
  have htakes : dividingFiles.Takes treePath :=
    ⟨["lib", "p.pas.ast.json"], eq_ok_of_toOption (by decide +kernel), by decide +kernel⟩
  have htext : ("a\"\\" : Text) ++ Execution.Fault.message (.divisionByZero (.int 2) (.text "/"))
      ++ "\n" = "a\"\\RUNTIME ERROR at line 2: Division by zero at '/'\n" := by
    decide +kernel
  have hr : Response.ofRun (Execution.run 1 dividingTree { table := t.table }) = r := by
    rw [htable, hrun, Response.ofRun, houtput, htext]
  obtain ⟨hdirect, -, hemit⟩ := (run_emitted dividingFiles 1 hname rfl hsource hparse).2 hclean
  obtain ⟨fs, hwrite, hemitted, -, htree⟩ := hemit htakes
  rw [hr] at hdirect htree
  exact ⟨fs, hwrite, hdirect, hemitted, htree read_dividing _ hname' rfl⟩

end Files

end CommandLine

end MiniPascal
