import MiniPascal.Proofs.Session.Parse

/-!
# Tracing does not interfere

What a session does can be said without its level: what happens in it, what it puts out, and the
table and the count that it leaves (`Effect`). The level decides only which of the happenings go to
the trace.

**Runs at two levels differ in the trace only** (`Execution.run_levels`). Each of two runs of a
parsed program, at any levels, has a trace of the notes up to its own level, and both make the same
notes.

**Levels nest** (`Session.tracing_noninterfering`). Parsing and running a program text at any level
has the same effect as without a trace. The trace at a level is that at any higher level, without
what belongs to the levels between.
-/

namespace MiniPascal

open Parsing (State)

/-! ## Runs at two levels -/

/-- Trees that are the same, and whose lines and texts can be written. -/
def Likeness.shown : Likeness where
  line v w := v = w ∧ Execution.Shown v
  text v w := v = w ∧ Execution.Shown v
  name := Eq

/-- A tree from a program text has only lines and texts that can be written. -/
theorem Node.resembles_shown {n : Node} (h : ∀ k ∈ n.walk, k.Textual) :
    n.Resembles .shown n := by
  refine resembles_refl fun k hk => ?_
  obtain ⟨⟨i, hi⟩, htext, -⟩ := h k hk
  refine ⟨⟨rfl, ?_⟩, ⟨rfl, ?_⟩, fun _ => rfl⟩
  · rw [hi]
    exact Execution.shown_int i
  · obtain hnull | ⟨s, hs⟩ := htext
    · rw [hnull]
      exact Execution.shown_null
    · rw [hs]
      exact Execution.shown_string s

namespace Execution

/-- Notes between values that can be written are the same one, and can be written. -/
theorem Note.Resembles.eq_writable {n n' : Note} (h : n.Resembles .shown n') :
    n = n' ∧ n.Writable := by
  refine ⟨h.eq (fun hl => hl.1) fun ht => ht.1, Note.writable ?_⟩
  cases h with
  | wrote text => simp [values]
  | selected hl hb => simp [values, hl.2, hb.2]
  | assigned hv | decided hv | tested hv | unmatched hv => simp [values, hv.2]

/-- The machine has a trace of the notes up to the given level. -/
structure Traced (k : Int) (m : Machine) : Prop where
  level : m.level = k
  trace : (m.trace : Text) =
    Text.lines ((m.notes.toList.filter fun n => n.level ≤ k).map (·.message))

theorem Traced.note {k : Int} {m : Machine} (hm : Traced k m) {n : Note} {s : String}
    (hs : n.message = .ofString s) :
    Traced k { m with
      notes := m.notes.push n
      trace := if n.level ≤ m.level then m.trace ++ s ++ "\n" else m.trace } := by
  refine ⟨hm.level, ?_⟩
  rw [hm.level]
  by_cases hl : (n.level : Int) ≤ k
  · simp [hl, hm.trace, hs, Text.ofString_append, Text.lines_append, Text.lines_singleton,
      Text.append_assoc]
  · simp [hl, hm.trace]

/-- Machines that differ in their levels and traces only. -/
structure SameButTrace (k k' : Int) (m m' : Machine) : Prop where
  table : m.table = m'.table
  output : m.output = m'.output
  line : m.line = m'.line
  notes : m.notes = m'.notes
  left : Traced k m
  right : Traced k' m'

section Levels

variable {k k' : Int} {m m' : Machine}

theorem SameButTrace.set (hm : SameButTrace k k' m m') (name : Text) (v : Value) :
    SameButTrace k k' { m with table := m.table.set name v }
      { m' with table := m'.table.set name v } :=
  ⟨by rw [hm.table], hm.output, hm.line, hm.notes, ⟨hm.left.level, hm.left.trace⟩,
    ⟨hm.right.level, hm.right.trace⟩⟩

/-- The trace has no influence on a run. -/
theorem likeExecution_trace (k k' : Int) : LikeExecution .shown (SameButTrace k k') Eq where
  refl _ := rfl
  wrongType _ _ h := by rw [h.eq (fun hl => hl.1) fun ht => ht.1]
  division hm ht := by rw [hm.line, ht.1]
  note h := by
    intro m m' hm
    obtain ⟨rfl, s, hs⟩ := h.eq_writable
    rw [note_of_writable hs, note_of_writable hs]
    exact ⟨rfl, hm.table, hm.output, hm.line, by rw [hm.notes], hm.left.note hs, hm.right.note hs⟩
  read h := by
    obtain rfl : _ = _ := h
    rename_i text
    cases text with
    | text name => exact .readVariable (fun _ => rfl) fun hm => by rw [hm.table]
    | _ => exact .raise rfl
  line hm hl := ⟨hm.table, hm.output, hl.1, hm.notes, ⟨hm.left.level, hm.left.trace⟩,
    ⟨hm.right.level, hm.right.trace⟩⟩
  output text hm := ⟨hm.table, congrArg (· ++ text) hm.output, hm.line, hm.notes,
    ⟨hm.left.level, hm.left.trace⟩, ⟨hm.right.level, hm.right.trace⟩⟩
  write x hk hk' h := by
    rename_i target target'
    have htext : target.text = target'.text := h
    -- A variable whose name is no text is refused on both sides.
    by_cases hv : ∃ name, target.text = .text name
    · obtain ⟨name, hname⟩ := hv
      have hname' : target'.text = .text name := htext ▸ hname
      refine .writeVariable (fun _ => rfl) hk hk' hname hname' x (fun hm => ?_) fun hm _ => ?_
      · rw [hm.table]
      · exact hm.set name (.real x)
    · rw [writeVariable_eq_raise fun name _ ha => hv ⟨name, ha⟩,
        writeVariable_eq_raise fun name _ ha => hv ⟨name, htext ▸ ha⟩]
      exact .raise rfl

/-- How a run ends, apart from the machine. -/
def outcomeOf : EStateM.Result Stop Machine Unit → Except Failure Unit
  | .ok _ _ => .ok ()
  | .error (.fault f) _ => .error (.run f)
  | .error .outOfFuel _ => .error .outOfFuel

/-- **Runs at two levels differ in the trace only.** -/
theorem run_levels {n : Node} (hn : ∀ c ∈ n.walk, c.Textual) (fuel : Nat) (table : Table)
    (k k' : Int) :
    outcomeOf (run fuel n { table, level := k }) = outcomeOf (run fuel n { table, level := k' }) ∧
    SameButTrace k k' (endOf (run fuel n { table, level := k }))
      (endOf (run fuel n { table, level := k' })) := by
  have hstart : SameButTrace k k' { table, level := k } { table, level := k' } :=
    ⟨rfl, rfl, rfl, rfl, ⟨rfl, rfl⟩, ⟨rfl, rfl⟩⟩
  have hrun := alike_run (likeExecution_trace k k') (.refl True fuel) (Node.resembles_shown hn)
    _ _ hstart
  obtain ⟨a, u, u', he, he', hu⟩ | ⟨u, u', he, he', hu⟩ | ⟨f, f', u, u', he, he', rfl, hu⟩ :=
    hrun.cases
  · rw [he, he']
    exact ⟨rfl, hu⟩
  · rw [he, he']
    exact ⟨rfl, hu⟩
  · rw [he, he']
    exact ⟨rfl, hu⟩

end Levels

end Execution

/-! ## Effects -/

/-- What is done to a session, whatever its level: what happens, what is put out, the table that is
left, and how many diagnostics are counted. -/
structure Effect where
  happenings : List Happening := []
  output : Text := {}
  table : Table
  errorCount : Nat := 0

namespace Effect

/-- One effect after the other. -/
def andThen (e f : Effect) : Effect where
  happenings := e.happenings ++ f.happenings
  output := e.output ++ f.output
  table := f.table
  errorCount := e.errorCount + f.errorCount

/-- The effect of parsing a program text, and what comes of it. -/
def ofParse (source : String) (table : Table) (strict : Bool) : Effect × Except Failure Node :=
  match State.start (.ofSource source) table strict with
  | .error fault => ({ table }, .error (.numeral fault))
  | .ok first =>
    match Parsing.program first with
    | .ok n state =>
      ({ happenings := state.log.toList.map .ofEvent ++ [.parsed n.text state.errorCount]
         output := Session.printed state.reports
         table := state.table
         errorCount := state.errorCount },
        .ok n)
    | .error stop state =>
      ({ happenings := state.log.toList.map .ofEvent
         output := Session.printed state.reports
         table := state.table },
        match stop with
        | .unreadable fault => .error (.numeral fault)
        | _ => .error .outOfFuel)

/-- The effect of running a program, and how it ends. Its end is told however it ends. -/
def ofRun (fuel : Nat) (n : Node) (table : Table) : Effect × Except Failure Unit :=
  let r := Execution.run fuel n { table }
  let m := Execution.endOf r
  ({ happenings := [.started n.text] ++ m.notes.toList.map .noted ++ [.ended n.text]
     output := m.output
     table := m.table },
    Execution.outcomeOf r)

/-- The effect of parsing a program text and running the program if there is no diagnostic, whether
it was run, and how that ended. -/
def ofParseAndRun (fuel : Nat) (source : String) (table : Table) (strict : Bool) :
    Effect × Bool × Except Failure Unit :=
  match ofParse source table strict with
  | (e, .error failure) => (e, false, .error failure)
  | (e, .ok n) =>
    if e.errorCount ≠ 0 then (e, false, .ok ())
    else (e.andThen (ofRun fuel n e.table).1, true, (ofRun fuel n e.table).2)

end Effect

namespace Session

/-- A session goes on with an effect. -/
structure Does (s : Session) (e : Effect) (t : Session) : Prop where
  continues : s.Continues e.happenings e.output t
  table : t.table = e.table
  errorCount : t.errorCount = s.errorCount + e.errorCount

variable {s t u : Session}

theorem Does.andThen {e f : Effect} (h : s.Does e t) (h' : t.Does f u) :
    s.Does (e.andThen f) u := by
  refine ⟨h.continues.trans h'.continues, h'.table, ?_⟩
  rw [h'.errorCount, h.errorCount, Nat.add_assoc]
  rfl

/-- The effect of a parse does not depend on the level. -/
theorem does_parse (s : Session) (source : String) :
    ∃ t, s.parse source = (t, (Effect.ofParse source s.table s.strict).2) ∧
      s.Does (Effect.ofParse source s.table s.strict).1 t := by
  unfold Effect.ofParse
  cases hstart : State.start (.ofSource source) s.table s.strict with
  | error fault =>
    refine ⟨s, ?_, .refl s, rfl, rfl⟩
    rw [parse, hstart]
  | ok first =>
    dsimp only
    cases hprogram : Parsing.program first with
    | ok n state =>
      have hparse : Parsing.parse? (.ofSource source) s.table s.strict = some (n, state) := by
        rw [Parsing.parse?, hstart]
        dsimp only
        rw [hprogram]
      obtain ⟨t, ht, htable, hcount, hcontinues⟩ := parse_of_parse? hparse
      exact ⟨t, ht, hcontinues, htable, hcount⟩
    | error stop state =>
      have hreplay := continues_replay s state.log.toList
      refine ⟨{ s.replay state.log.toList with table := state.table }, ?_,
        ⟨hreplay.trace, hreplay.output, hreplay.strict, hreplay.level, hreplay.tracing⟩, rfl,
        errorCount_replay s state.log.toList⟩
      rw [parse, hstart]
      dsimp only
      rw [hprogram]
      cases stop <;> rfl

/-- The level at which a session runs programs. -/
def runLevel (s : Session) : Int := if s.tracing then s.level else 0

theorem Continues.runLevel {hs : List Happening} {text : Text} (h : s.Continues hs text t) :
    t.runLevel = s.runLevel := by
  unfold Session.runLevel
  rw [h.level, h.tracing]

theorem told_noted (s : Session) (notes : List Execution.Note) :
    s.told (notes.map .noted) =
      (notes.filter fun n => n.level ≤ s.runLevel).map (·.message) := by
  have htakes : ∀ n : Execution.Note, s.takes n.level = decide (n.level ≤ s.runLevel) := by
    intro n
    unfold takes runLevel
    by_cases ht : s.tracing = true
    · simp [ht]
    · have hpositive : n.level ≠ 0 := by cases n <;> simp [Execution.Note.level]
      simp [ht, hpositive]
  rw [told, List.filter_map, List.map_map]
  refine congrArg _ (List.filter_congr fun n _ => ?_)
  exact htakes n

/-- The session after a run that ended in the given machine, before its end is told. -/
def finished (s : Session) (m : Execution.Machine) : Session :=
  { s with table := m.table, output := s.output ++ m.output, trace := s.trace ++ m.trace }

theorem continues_finished {m : Execution.Machine} (hm : Execution.Traced s.runLevel m) :
    s.Continues (m.notes.toList.map .noted) m.output (s.finished m) := by
  refine ⟨?_, rfl, rfl, rfl, rfl⟩
  rw [told_noted, ← hm.trace]
  exact Text.ofString_append _ _

/-- What is told when a program starts or ends, where its name can be written. -/
theorem continues_named {n : Node} {name : String} (hname : n.text.display = .ofString name)
    (s : Session) :
    s.Continues [.started n.text] {} (s.debug 1 ("execute program " ++ name)) ∧
      s.Continues [.ended n.text] {} (s.debug 1 ("end of program " ++ name)) := by
  constructor
  · refine continues_debug s rfl ?_
    rw [Happening.message, hname, Text.ofString_append]
  · refine continues_debug s rfl ?_
    rw [Happening.message, hname, Text.ofString_append]

theorem finish_eq {n : Node} {name : String} (hname : n.text.display = .ofString name)
    (s : Session) (m : Execution.Machine) (result : Except Failure Unit) :
    s.finish n m result =
      (((s.finished m).debug 1 ("end of program " ++ name)).close, result) := by
  have htell : (s.finished m).tell 1 ("end of program " ++ n.text.display) =
      .ok ((s.finished m).debug 1 ("end of program " ++ name)) := by
    rw [hname, ← Text.ofString_append, tell_eq_debug]
  unfold finish
  dsimp only
  split
  · next t ht => rw [Except.ok.inj (htell.symm.trans ht)]
  · next failure hf => cases htell.symm.trans hf

theorem run_eq {n : Node} {name : String} (hname : n.text.display = .ofString name) (s : Session)
    (fuel : Nat) :
    s.run fuel n =
      (s.debug 1 ("execute program " ++ name)).finish n
        (Execution.endOf (Execution.run fuel n { table := s.table, level := s.runLevel }))
        (Execution.outcomeOf
          (Execution.run fuel n { table := s.table, level := s.runLevel })) := by
  have htell : s.tell 1 ("execute program " ++ n.text.display) =
      .ok (s.debug 1 ("execute program " ++ name)) := by
    rw [hname, ← Text.ofString_append, tell_eq_debug]
  have hlevel := (continues_named hname s).1.runLevel
  unfold runLevel at hlevel ⊢
  unfold run
  rw [htell]
  dsimp only
  rw [hlevel, table_debug]
  rcases Execution.run fuel n _ with _ | ⟨_ | _⟩
  · rfl
  · rfl
  · rfl

/-- The effect of a run does not depend on the level. -/
theorem does_run {n : Node} (hn : ∀ c ∈ n.walk, c.Textual) (s : Session) (fuel : Nat) :
    ∃ t, s.run fuel n = (t.close, (Effect.ofRun fuel n s.table).2) ∧
      s.Does (Effect.ofRun fuel n s.table).1 t := by
  obtain ⟨name, hname⟩ : Execution.Shown n.text := (Node.resembles_shown hn).text.2
  obtain ⟨houtcome, hend⟩ := Execution.run_levels hn fuel s.table 0 s.runLevel
  have hrun := run_eq hname s fuel
  rw [finish_eq hname, ← houtcome] at hrun
  generalize Execution.endOf (Execution.run fuel n { table := s.table, level := s.runLevel }) = m
    at hend hrun
  have hstarted := (continues_named hname s).1
  have hfinished := continues_finished (hstarted.runLevel.symm ▸ hend.right)
  refine ⟨_, hrun, ?_, ?_, ?_⟩
  · have h := (hstarted.trans hfinished).trans (continues_named hname _).2
    rw [Text.empty_append, Text.append_empty, ← hend.notes, ← hend.output] at h
    exact h
  · rw [table_debug]
    exact hend.table.symm
  · rw [errorCount_debug]
    exact errorCount_debug s 1 _

/-- The trees of program texts can be run at any level. -/
theorem textual_of_ofParse {source : String} {table : Table} {strict : Bool} {n : Node}
    (h : (Effect.ofParse source table strict).2 = .ok n) : ∀ c ∈ n.walk, c.Textual := by
  unfold Effect.ofParse at h
  split at h
  · cases h
  · next first hstart =>
    split at h
    · next n' state hprogram =>
      obtain rfl := Except.ok.inj h
      intro c hc
      have hparses : Parsing.Parses first _ state := .inl hprogram
      exact (hparses.parsed hstart .refl c hc).textual
    · next stop state hprogram => cases stop <;> cases h

/-- The session with which parsing and running a text ends has done its effect, and may have closed
its trace then. -/
theorem does_parseAndRun (hs : s.errorCount = 0) (fuel : Nat) (source : String) :
    ∃ t u, s.parseAndRun fuel source =
        (u, (Effect.ofParseAndRun fuel source s.table s.strict).2) ∧
      s.Does (Effect.ofParseAndRun fuel source s.table s.strict).1 t ∧ (u = t ∨ u = t.close) := by
  obtain ⟨t, hparse, hdoes⟩ := does_parse s source
  have htextual : ∀ n, (Effect.ofParse source s.table s.strict).2 = .ok n →
      ∀ c ∈ n.walk, c.Textual := fun n => textual_of_ofParse
  unfold parseAndRun Effect.ofParseAndRun
  rw [hparse]
  generalize Effect.ofParse source s.table s.strict = parsed at hdoes htextual ⊢
  obtain ⟨e, failure | n⟩ := parsed
  · exact ⟨t, t, rfl, hdoes, .inl rfl⟩
  · dsimp only
    have hcount : t.errorCount = e.errorCount := by rw [hdoes.errorCount, hs, Nat.zero_add]
    by_cases he : e.errorCount = 0
    · obtain ⟨u, hrun, hdoes'⟩ := does_run (htextual n rfl) t fuel
      rw [hdoes.table] at hrun hdoes'
      refine ⟨u, u.close, ?_, ?_, .inr rfl⟩
      · rw [if_neg (by simp [hcount, he]), if_neg (by simp [he]), hrun]
      · rw [if_neg (by simp [he])]
        exact hdoes.andThen hdoes'
    · refine ⟨t, t.close, ?_, ?_, .inr rfl⟩
      · rw [if_pos (hcount ▸ he), if_pos he]
      · rw [if_pos he]
        exact hdoes

/-! ## Levels -/

/-- A new session with the given variables. -/
def opened (level : Int) (strict : Bool) (table : Table) : Session :=
  { start level strict with table }

/-- A new session tells what happens up to its level. -/
theorem told_opened {k : Int} (hk : 0 ≤ k) (strict : Bool) (table : Table) (hs : List Happening) :
    (opened k strict table).told hs = (hs.filter (·.level ≤ k)).map (·.message) := by
  refine congrArg _ (List.filter_congr fun h _ => ?_)
  have hpositive := h.one_le_level
  rw [Bool.eq_iff_iff]
  simp only [takes, Bool.and_eq_true, decide_eq_true_eq]
  simp only [opened, start, decide_eq_true_eq]
  omega

/-- Parsing and running a text in a new session has its effect, and a trace up to the level. -/
theorem parseAndRun_opened {k : Int} (hk : 0 ≤ k) (strict : Bool) (table : Table) (fuel : Nat)
    (source : String) :
    let e := Effect.ofParseAndRun fuel source table strict
    let r := (opened k strict table).parseAndRun fuel source
    r.1.output = e.1.output ∧ r.1.errorCount = e.1.errorCount ∧ r.1.table = e.1.table ∧
      r.2 = e.2 ∧
      (r.1.trace : Text) = Text.lines ((e.1.happenings.filter (·.level ≤ k)).map (·.message)) := by
  obtain ⟨t, u, hrun, hdoes, hu⟩ :=
    does_parseAndRun (s := opened k strict table) rfl fuel source
  have houtput := hdoes.continues.output
  have htrace := hdoes.continues.trace
  rw [told_opened hk] at htrace
  have hfields : u.output = t.output ∧ u.errorCount = t.errorCount ∧ u.table = t.table ∧
      u.trace = t.trace := by
    obtain rfl | rfl := hu
    · exact ⟨rfl, rfl, rfl, rfl⟩
    · exact ⟨rfl, rfl, rfl, rfl⟩
  intro e r
  have hr : r = (u, e.2) := hrun
  rw [hr, hfields.1, hfields.2.1, hfields.2.2.1, hfields.2.2.2]
  refine ⟨houtput.trans (Text.empty_append _), ?_, hdoes.table, rfl,
    htrace.trans (Text.empty_append _)⟩
  rw [hdoes.errorCount]
  exact Nat.zero_add _

/-- Results of parsing and running that differ in the trace only. -/
structure SameEffect (r r' : Session × Bool × Except Failure Unit) : Prop where
  output : r.1.output = r'.1.output
  errorCount : r.1.errorCount = r'.1.errorCount
  table : r.1.table = r'.1.table
  ending : r.2 = r'.2

/-- **Tracing does not interfere, and levels nest.** A program text is parsed and, if there is no
diagnostic, run in three new sessions: one without a trace, and two with traces at a level and at
one no lower. All three put out the same, count the same diagnostics, leave the same table and end
the same way. Each trace has a line for everything that happens and belongs to a level up to its
own; so the lower one is the higher one without what belongs to the levels between. -/
theorem tracing_noninterfering (strict : Bool) (table : Table) (fuel : Nat) (source : String)
    {n m : Int} (hn : 1 ≤ n) (hnm : n ≤ m) :
    let silent := (opened 0 strict table).parseAndRun fuel source
    let lower := (opened n strict table).parseAndRun fuel source
    let higher := (opened m strict table).parseAndRun fuel source
    let all := (Effect.ofParseAndRun fuel source table strict).1.happenings
    SameEffect lower silent ∧ SameEffect higher silent ∧ silent.1.trace = "" ∧
      (lower.1.trace : Text) = Text.lines ((all.filter (·.level ≤ n)).map (·.message)) ∧
      (higher.1.trace : Text) = Text.lines ((all.filter (·.level ≤ m)).map (·.message)) ∧
      all.filter (·.level ≤ n) = (all.filter (·.level ≤ m)).filter (·.level ≤ n) := by
  intro silent lower higher all
  have hsilent := parseAndRun_opened (Int.le_refl 0) strict table fuel source
  have hlower := parseAndRun_opened (by omega : 0 ≤ n) strict table fuel source
  have hhigher := parseAndRun_opened (by omega : 0 ≤ m) strict table fuel source
  obtain ⟨houtput, hcount, htable, hending, htrace⟩ := hsilent
  refine ⟨⟨hlower.1.trans houtput.symm, hlower.2.1.trans hcount.symm,
      hlower.2.2.1.trans htable.symm, hlower.2.2.2.1.trans hending.symm⟩,
    ⟨hhigher.1.trans houtput.symm, hhigher.2.1.trans hcount.symm,
      hhigher.2.2.1.trans htable.symm, hhigher.2.2.2.1.trans hending.symm⟩, ?_,
    hlower.2.2.2.2, hhigher.2.2.2.2, ?_⟩
  -- Nothing that happens belongs to level 0.
  · have hnone : all.filter (·.level ≤ 0) = [] := by
      refine List.filter_eq_nil_iff.2 fun h _ => ?_
      have := h.one_le_level
      simp only [decide_eq_true_eq]
      omega
    rw [hnone] at htrace
    exact Text.ofString_injective htrace
  · rw [List.filter_filter]
    refine List.filter_congr fun h _ => ?_
    rw [Bool.eq_iff_iff]
    simp only [Bool.and_eq_true, decide_eq_true_eq]
    omega

/-- A program with a write and a condition, which ends at a division by zero. -/
theorem tracing_noninterfering_division :
    let source := "PROGRAM p; BEGIN x := 1; IF x = 1 THEN WRITE(x); x := x / 0 END."
    let silent := (opened 0 true {}).parseAndRun 1 source
    let lower := (opened 2 true {}).parseAndRun 1 source
    let higher := (opened 4 true {}).parseAndRun 1 source
    let all := (Effect.ofParseAndRun 1 source {} true).1.happenings
    (1 : Int) ≤ 2 ∧ (2 : Int) ≤ 4 ∧ SameEffect lower silent ∧ SameEffect higher silent ∧
      silent.1.trace = "" ∧
      (lower.1.trace : Text) = Text.lines ((all.filter (·.level ≤ 2)).map (·.message)) ∧
      (higher.1.trace : Text) = Text.lines ((all.filter (·.level ≤ 4)).map (·.message)) ∧
      all.filter (·.level ≤ 2) = (all.filter (·.level ≤ 4)).filter (·.level ≤ 2) :=
  ⟨by decide, by decide, tracing_noninterfering true {} 1 _ (by decide) (by decide)⟩

end Session

end MiniPascal
