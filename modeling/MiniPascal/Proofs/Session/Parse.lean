import MiniPascal.Session
import MiniPascal.Proofs.Execution.Typing
import MiniPascal.Proofs.Parsing.Accounting

/-!
# What a parse puts out

A session tells in its trace what happens, a line for each `Happening` of a level that it takes, and
puts out a line for each diagnostic.

**A parse puts out what was logged** (`Session.parse_of_parse?`). To the output it adds the
diagnostics, and to the trace what the session takes of the log and the summary.

**Counts are exact** (`Session.errorCount_exact`). After any number of parses the count is that of
the lines put out, and a program is run if there are none.
-/

namespace MiniPascal

open Parsing (State parse?)

/-! ## Lines of text -/

namespace Text

/-- Texts, each on a line of its own. -/
def lines : List Text → Text
  | [] => {}
  | t :: ts => t ++ "\n" ++ lines ts

theorem lines_append (ss ts : List Text) : lines (ss ++ ts) = lines ss ++ lines ts := by
  induction ss with
  | nil => exact (empty_append _).symm
  | cons s ss ih =>
    rw [List.cons_append, lines, lines, ih]
    simp only [append_assoc]

theorem lines_singleton (t : Text) : lines [t] = t ++ "\n" := append_empty _

theorem ofString_injective {s t : String} (h : ofString s = ofString t) : s = t := by
  have h' := congrArg toString? h
  rw [toString?_ofString, toString?_ofString] at h'
  exact Option.some.inj h'

/-- A string can be written. -/
theorem encode_ofString (s : String) : (ofString s).encode = .ok s := by
  rw [encode, toString?_ofString]

end Text

/-! ## What happens in a session -/

/-- Something that a session tells in its trace. -/
inductive Happening where
  | read (token : Token)
  | diagnosed (d : Diagnostic)
  | parsed (name : Value) (errorCount : Nat)
  | started (name : Value)
  | noted (n : Execution.Note)
  | ended (name : Value)

namespace Happening

/-- The level of detail to which it belongs. -/
def level : Happening → Int
  | .diagnosed _ | .parsed .. | .started _ | .ended _ => 1
  | .noted n => n.level
  | .read _ => 4

/-- Everything belongs to a level from one on. -/
theorem one_le_level (h : Happening) : 1 ≤ h.level := by
  cases h with
  | noted n => cases n <;> simp [level, Execution.Note.level]
  | _ => simp [level]

/-- Its wording. -/
def message : Happening → Text
  | .read token => token.traceLine
  | .diagnosed d => d.render
  | .parsed name errorCount =>
    "parsed program " ++ name.display ++ ": " ++ toString errorCount ++ " error(s)"
  | .started name => "execute program " ++ name.display
  | .noted n => n.message
  | .ended name => "end of program " ++ name.display

/-- What is told of an event of parsing. -/
def ofEvent : Event → Happening
  | .read token => .read token
  | .report d => .diagnosed d

end Happening

namespace Session

/-- What the trace of a session takes of the things that happen. -/
def told (s : Session) (hs : List Happening) : List Text :=
  (hs.filter fun h => s.takes h.level).map (·.message)

theorem told_append (s : Session) (hs hs' : List Happening) :
    s.told (hs ++ hs') = s.told hs ++ s.told hs' := by
  simp [told]

theorem told_congr {s t : Session} (hl : t.level = s.level) (ht : t.tracing = s.tracing)
    (hs : List Happening) : t.told hs = s.told hs := by
  simp only [told, takes, hl, ht]

/-- A session goes on: it has told what happened, and put out a text. -/
structure Continues (s : Session) (hs : List Happening) (text : Text) (t : Session) : Prop where
  trace : (t.trace : Text) = (s.trace : Text) ++ Text.lines (s.told hs)
  output : t.output = s.output ++ text
  strict : t.strict = s.strict
  level : t.level = s.level
  tracing : t.tracing = s.tracing

variable {s t u : Session}

theorem Continues.refl (s : Session) : s.Continues [] {} s :=
  ⟨(Text.append_empty _).symm, (Text.append_empty _).symm, rfl, rfl, rfl⟩

theorem Continues.trans {hs hs' : List Happening} {text text' : Text}
    (h : s.Continues hs text t) (h' : t.Continues hs' text' u) :
    s.Continues (hs ++ hs') (text ++ text') u := by
  refine ⟨?_, ?_, h'.strict.trans h.strict, h'.level.trans h.level, h'.tracing.trans h.tracing⟩
  · rw [h'.trace, h.trace, told_congr h.level h.tracing, told_append, Text.lines_append,
      Text.append_assoc]
  · rw [h'.output, h.output, Text.append_assoc]

/-- Putting out a text comes before what is told later. -/
theorem Continues.output_first {hs : List Happening} {text text' : Text}
    (h : ({ s with output := s.output ++ text } : Session).Continues hs text' t) :
    s.Continues hs (text ++ text') t := by
  refine ⟨?_, ?_, h.strict, h.level, h.tracing⟩
  · have htold : ({ s with output := s.output ++ text } : Session).told hs = s.told hs :=
      told_congr rfl rfl hs
    rw [h.trace, htold]
  · rw [h.output, Text.append_assoc]

theorem continues_debug (s : Session) {h : Happening} {level : Int} {m : String}
    (hl : h.level = level) (hm : h.message = .ofString m) :
    s.Continues [h] {} (s.debug level m) := by
  subst hl
  unfold debug
  by_cases ht : s.takes h.level = true
  · rw [if_pos ht]
    refine ⟨?_, (Text.append_empty _).symm, rfl, rfl, rfl⟩
    simp [addLine, told, ht, hm, Text.lines_singleton, Text.ofString_append, Text.append_assoc]
  · rw [if_neg ht]
    refine ⟨?_, (Text.append_empty _).symm, rfl, rfl, rfl⟩
    simp [told, ht, Text.lines, Text.append_empty]

/-- What can be written can be told. -/
theorem tell_eq_debug (s : Session) (level : Int) (m : String) :
    s.tell level m = .ok (s.debug level m) := by
  rw [tell, debug, Text.encode_ofString]
  split
  · rfl
  · rfl

@[simp] theorem table_debug (s : Session) (level : Int) (m : String) :
    (s.debug level m).table = s.table := by
  unfold debug
  split <;> rfl

@[simp] theorem errorCount_debug (s : Session) (level : Int) (m : String) :
    (s.debug level m).errorCount = s.errorCount := by
  unfold debug
  split <;> rfl

/-! ## The log of a parse -/

/-- The lines that are put out for diagnostics. -/
def printed (ds : List Diagnostic) : Text := Text.lines (ds.map fun d => d.render)

theorem printed_append (ds ds' : List Diagnostic) :
    printed (ds ++ ds') = printed ds ++ printed ds' := by
  rw [printed, List.map_append, Text.lines_append]
  rfl

theorem continues_report (s : Session) (d : Diagnostic) :
    s.Continues [.diagnosed d] (printed [d]) (s.report d.render) := by
  have hline : printed [d] = .ofString d.render ++ .ofString "\n" := Text.lines_singleton _
  rw [← Text.append_empty (printed [d]), hline]
  exact (continues_debug _ rfl rfl).output_first

/-- An event of a log puts out its diagnostic, if it is one, and is told. -/
theorem continues_event (s : Session) (e : Event) :
    s.Continues [.ofEvent e] (printed e.diagnostic?.toList) (s.replay [e]) := by
  cases e with
  | read token => exact continues_debug s rfl rfl
  | report d => exact continues_report s d

/-- **A log is put out whole**: its diagnostics to the output, and what the session takes of it to
the trace. -/
theorem continues_replay (s : Session) (events : List Event) :
    s.Continues (events.map .ofEvent) (printed (events.filterMap Event.diagnostic?))
      (s.replay events) := by
  induction events generalizing s with
  | nil => exact .refl s
  | cons e events ih =>
    have hsplit : (e :: events).filterMap Event.diagnostic? =
        e.diagnostic?.toList ++ events.filterMap Event.diagnostic? := by
      cases h : e.diagnostic? <;> simp [h]
    rw [hsplit, printed_append]
    exact (continues_event s e).trans (ih (s.replay [e]))

theorem errorCount_replay (s : Session) (events : List Event) :
    (s.replay events).errorCount = s.errorCount := by
  induction events generalizing s with
  | nil => rfl
  | cons e events ih =>
    refine (ih (s.replay [e])).trans ?_
    cases e with
    | read token => exact errorCount_debug s 4 token.traceLine
    | report d => exact errorCount_debug _ 1 d.render

/-! ## Parses -/

/-- The name of a parsed program can be written. -/
theorem shown_program {state state' : State} {n : Node} (h : Parsing.program state = .ok n state') :
    Execution.Shown n.text := by
  obtain ⟨-, hbuilds⟩ := (Parsing.meets_program state).of_ok h
  cases hbuilds with
  | @mk _ _ name =>
    cases name with
    | none => exact Execution.shown_null
    | some token => exact Execution.shown_string token.text

/-- The session after a program was parsed, before the summary is told. -/
def parsed (s : Session) (state : State) : Session :=
  { s.replay state.log.toList with
    table := state.table
    errorCount := s.errorCount + state.errorCount }

theorem continues_parsed (s : Session) (state : State) :
    s.Continues (state.log.toList.map .ofEvent) (printed state.reports) (s.parsed state) :=
  have h := continues_replay s state.log.toList
  ⟨h.trace, h.output, h.strict, h.level, h.tracing⟩

/-- **A parse puts out what was logged**, and tells its summary at the end. -/
theorem parse_of_parse? {source : String} {n : Node} {state : State}
    (h : parse? (.ofSource source) s.table s.strict = some (n, state)) :
    ∃ t, s.parse source = (t, .ok n) ∧ t.table = state.table ∧
      t.errorCount = s.errorCount + state.errorCount ∧
      s.Continues (state.log.toList.map .ofEvent ++ [.parsed n.text state.errorCount])
        (printed state.reports) t := by
  obtain ⟨first, hstart, hprogram⟩ := Parsing.parse?_eq_some h
  obtain ⟨name, hname⟩ := shown_program hprogram
  let summary : Happening := .parsed n.text state.errorCount
  obtain ⟨m, hm⟩ : ∃ m : String, summary.message = .ofString m := by
    refine ⟨"parsed program " ++ name ++ ": " ++ toString state.errorCount ++ " error(s)", ?_⟩
    simp only [summary, Happening.message, hname, Text.ofString_append]
  have hparse : s.parse source = ((s.parsed state).debug 1 m, .ok n) := by
    have htell : (s.parsed state).tell 1 summary.message = .ok ((s.parsed state).debug 1 m) := by
      rw [hm, tell_eq_debug]
    unfold parse
    rw [hstart]
    dsimp only
    rw [hprogram]
    dsimp only
    split
    · next t ht => rw [Except.ok.inj (htell.symm.trans ht)]
    · next failure hf => cases htell.symm.trans hf
  have hcontinues := (continues_parsed s state).trans (continues_debug (s.parsed state) rfl hm)
  rw [Text.append_empty] at hcontinues
  exact ⟨_, hparse, table_debug .., errorCount_debug .., hcontinues⟩

/-- A parse ends with a program only if there is one. -/
theorem exists_parse? {source : String} {n : Node} (h : s.parse source = (t, .ok n)) :
    ∃ state, parse? (.ofSource source) s.table s.strict = some (n, state) := by
  unfold parse at h
  split at h
  · cases h
  · next first hstart =>
    split at h
    · next program state hprogram =>
      dsimp only at h
      split at h
      · cases h
        exact ⟨state, Parsing.parse?_of_program hstart hprogram⟩
      · cases h
    · split at h <;> cases h

/-- A text that ends is parsed to a program. -/
theorem exists_parse (s : Session) (source : String)
    (h : (Stream.ofSource source).isEnded = true) : ∃ t n, s.parse source = (t, .ok n) := by
  obtain ⟨line, hline⟩ := Stream.exists_of_isEnded h
  obtain ⟨⟨n, state⟩, hparse⟩ :=
    Option.isSome_iff_exists.1 (Parsing.isSome_parse? hline s.table s.strict)
  obtain ⟨t, ht, -⟩ := parse_of_parse? hparse
  exact ⟨t, n, ht⟩

/-! ## Any number of parses -/

/-- The diagnostics of a program text that is parsed in a session. -/
def diagnosticsOf (s : Session) (source : String) : List Diagnostic :=
  ((parse? (.ofSource source) s.table s.strict).map (·.2.reports)).getD []

/-- Program texts are parsed one after the other, each to a program, with these diagnostics. -/
inductive ParsesAll : Session → List String → List Diagnostic → Session → Prop
  | nil (s : Session) : ParsesAll s [] [] s
  | cons {s t u : Session} {source : String} {sources : List String} {n : Node}
      {ds : List Diagnostic} :
      s.parse source = (t, .ok n) → ParsesAll t sources ds u →
      ParsesAll s (source :: sources) (s.diagnosticsOf source ++ ds) u

end Session

/-- A program text is parsed with exact counts. -/
theorem Parsing.counted_of_parse? {source : String} {table : Table} {strict : Bool} {n : Node}
    {t : State} (h : parse? (.ofSource source) table strict = some (n, t)) :
    t.errorCount = t.reports.length ∧ t.TokensReported ∧ t.ReadFrom (.ofSource source) := by
  obtain ⟨s, hstart, hprogram⟩ := Parsing.parse?_eq_some h
  obtain ⟨hr, -⟩ := (Parsing.meets_program s).of_ok hprogram
  have hregular := Reading.regular_ofSource source
  exact ⟨hr.counted (State.counted_start hstart),
    hr.tokensReported (State.tokensReported_start hstart hregular),
    hr.readFrom (State.readFrom_start hstart)⟩

namespace Session

variable {s t u : Session}

/-- The count grows by the diagnostics that are put out. -/
theorem counted_parse {source : String} {n : Node} (h : s.parse source = (t, .ok n)) :
    t.errorCount = s.errorCount + (s.diagnosticsOf source).length ∧
      t.output = s.output ++ printed (s.diagnosticsOf source) := by
  obtain ⟨state, hstate⟩ := exists_parse? h
  obtain ⟨t', ht', -, hcount, hcontinues⟩ := parse_of_parse? hstate
  obtain rfl : t' = t := (Prod.mk.inj (ht'.symm.trans h)).1
  have hds : s.diagnosticsOf source = state.reports := by
    rw [diagnosticsOf, hstate]
    rfl
  rw [hds, hcount, (Parsing.counted_of_parse? hstate).1]
  exact ⟨rfl, hcontinues.output⟩

theorem ParsesAll.counted {sources : List String} {ds : List Diagnostic}
    (h : ParsesAll s sources ds u) :
    u.errorCount = s.errorCount + ds.length ∧ u.output = s.output ++ printed ds := by
  induction h with
  | nil s => exact ⟨rfl, (Text.append_empty _).symm⟩
  | cons hparse _ ih =>
    obtain ⟨hcount, houtput⟩ := counted_parse hparse
    rw [ih.1, ih.2, hcount, houtput, List.length_append, printed_append, Text.append_assoc]
    exact ⟨by omega, rfl⟩

/-- A program is run if nothing was counted. -/
theorem parseAndRun_of_parse {source : String} {n : Node} (h : s.parse source = (t, .ok n))
    (fuel : Nat) :
    s.parseAndRun fuel source =
      if t.errorCount = 0 then ((t.run fuel n).1, true, (t.run fuel n).2)
      else (t.close, false, .ok ()) := by
  unfold parseAndRun
  rw [h]
  dsimp only
  by_cases hcount : t.errorCount = 0
  · rw [if_neg (by simp [hcount]), if_pos hcount]
  · rw [if_pos hcount, if_neg hcount]

/-- **Error accounting is exact.** Let a session without diagnostics parse any number of program
texts to programs, and then one more, in any table and mode. The last parse made as many diagnostics
as it counts. Of these, the ones made when tokens were read are those of the error tokens that it
read from the text, in order, with the lines and the texts of these tokens. The session has counted
all diagnostics that were made since its start, each of which it has put out as a line. It runs the
program if there are none, and nothing otherwise. -/
theorem errorCount_exact {sources : List String} {source : String} {ds : List Diagnostic} {n : Node}
    (hs : s.errorCount = 0) (hall : ParsesAll s sources ds u)
    (hparse : u.parse source = (t, .ok n)) :
    (∃ state, parse? (.ofSource source) u.table u.strict = some (n, state) ∧
      state.reports = u.diagnosticsOf source ∧ state.errorCount = state.reports.length ∧
      state.ReadFrom (.ofSource source) ∧
      state.tokenReports.map (fun d => (d.line, d.text)) =
        state.errorTokens.map (fun x => (x.line, x.text))) ∧
    t.errorCount = (ds ++ u.diagnosticsOf source).length ∧
    t.output = s.output ++ printed (ds ++ u.diagnosticsOf source) ∧
    ∀ fuel, u.parseAndRun fuel source =
      if ds ++ u.diagnosticsOf source = [] then ((t.run fuel n).1, true, (t.run fuel n).2)
      else (t.close, false, .ok ()) := by
  have hcount : t.errorCount = (ds ++ u.diagnosticsOf source).length := by
    rw [(counted_parse hparse).1, hall.counted.1, hs, List.length_append]
    omega
  refine ⟨?_, hcount, ?_, fun fuel => ?_⟩
  · obtain ⟨state, hstate⟩ := exists_parse? hparse
    obtain ⟨hreports, htokens, hread⟩ := Parsing.counted_of_parse? hstate
    refine ⟨state, hstate, ?_, hreports, hread, htokens.reported⟩
    rw [diagnosticsOf, hstate]
    rfl
  · rw [(counted_parse hparse).2, hall.counted.2, printed_append, Text.append_assoc]
  · rw [parseAndRun_of_parse hparse, hcount]
    simp only [List.length_eq_zero_iff]

/-- Two texts in strict mode: the first one has a name that is not declared, and the second one an
invalid number, an abandoned statement, and a text that is not closed. -/
theorem errorCount_exact_strict :
    (start 1 true).errorCount = 0 ∧
    ∃ ds u t n, ParsesAll (start 1 true) ["PROGRAM p; BEGIN x := y END."] ds u ∧
      u.parse "BEGIN y := 1.2.3; := x; WRITE('a" = (t, .ok n) ∧
      (∃ state, parse? (.ofSource "BEGIN y := 1.2.3; := x; WRITE('a") u.table u.strict =
          some (n, state) ∧
        state.tokenReports.map (fun d => (d.line, d.text)) =
          state.errorTokens.map (fun x => (x.line, x.text))) ∧
      t.errorCount = (ds ++ u.diagnosticsOf "BEGIN y := 1.2.3; := x; WRITE('a").length ∧
      t.output = (start 1 true).output ++
        printed (ds ++ u.diagnosticsOf "BEGIN y := 1.2.3; := x; WRITE('a") := by
  obtain ⟨u, m, hfirst⟩ :=
    exists_parse (start 1 true) "PROGRAM p; BEGIN x := y END." (by decide +kernel)
  obtain ⟨t, n, hnext⟩ :=
    exists_parse u "BEGIN y := 1.2.3; := x; WRITE('a" (by decide +kernel)
  have hall := ParsesAll.cons hfirst (.nil u)
  obtain ⟨⟨state, hstate, -, -, -, htokens⟩, hcount, houtput, -⟩ := errorCount_exact rfl hall hnext
  exact ⟨rfl, _, u, t, n, hall, hnext, ⟨state, hstate, htokens⟩, hcount, houtput⟩

end Session

end MiniPascal
