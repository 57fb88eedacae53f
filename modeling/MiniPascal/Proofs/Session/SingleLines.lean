import Mathlib.Algebra.BigOperators.Group.List.Basic
import Mathlib.Data.List.Count
import MiniPascal.Proofs.Session.Parse
import MiniPascal.Proofs.Token.Lexical

/-!
# The lines of diagnostics

A diagnostic is put out in front of a line break, and so makes one line, if there is no line break
in the text that it quotes. This text is that of a token. Words, numbers and symbols have no blank
in them, but a quoted text, closed or not, can hold anything and so span lines.

**Diagnostics quote tokens** (`Reaches.reportsQuote`). Along every parse, a diagnostic has the line
and the text of a token that was read.

**Only quoted texts make more lines** (`Session.printed_lines`). For each diagnostic one line is put
out, and one more for every line break in a quoted text.
-/

namespace MiniPascal

/-! ## Line breaks -/

namespace Text

/-- The count of line breaks in a text. -/
def breaks (t : Text) : Nat := t.toList.count (.char '\n')

theorem breaks_append (s t : Text) : (s ++ t).breaks = s.breaks + t.breaks := by
  rw [breaks, toList_append, List.count_append]
  rfl

theorem breaks_ofString (s : String) : (ofString s).breaks = s.toList.count '\n' :=
  List.count_map_of_injective _ _ (fun _ _ => CodePoint.char.inj) _

/-- Texts on lines of their own have one line break each, besides those in them. -/
theorem breaks_lines (ts : List Text) : (lines ts).breaks = ts.length + (ts.map breaks).sum := by
  induction ts with
  | nil => rfl
  | cons t ts ih =>
    have hbreak : (ofString "\n").breaks = 1 := by decide
    rw [lines, breaks_append, breaks_append, hbreak, ih, List.length_cons, List.map_cons,
      List.sum_cons]
    omega

end Text

namespace Diagnostic

/-- The count of line breaks in the text that a diagnostic quotes. -/
def breaks (d : Diagnostic) : Nat := d.text.toList.count '\n'

/-- A diagnostic has the line breaks of the text that it quotes, and no others. -/
theorem count_render (d : Diagnostic) : d.render.toList.count '\n' = d.breaks := by
  have hstage : d.problem.stage.word.toList.count '\n' = 0 := by
    cases d.problem.stage <;> decide
  have hmessage : d.problem.message.toList.count '\n' = 0 := by
    cases d.problem <;> decide
  have hline : (toString d.line).toList.count '\n' = 0 :=
    List.count_eq_zero.2 fun h => absurd (Decimal.of_mem_integer h) (by decide)
  have hfixed : " ERROR at line ".toList.count '\n' = 0 ∧ ": ".toList.count '\n' = 0 ∧
      " at '".toList.count '\n' = 0 ∧ "'".toList.count '\n' = 0 := by decide
  simp only [render, String.toList_append, List.count_append, hstage, hmessage, hline, hfixed]
  simp [breaks]

end Diagnostic

theorem Session.breaks_printed (ds : List Diagnostic) :
    (printed ds).breaks = ds.length + (ds.map Diagnostic.breaks).sum := by
  have hrender (d : Diagnostic) : (Text.ofString d.render).breaks = d.breaks := by
    rw [Text.breaks_ofString, d.count_render]
  rw [printed, Text.breaks_lines, List.length_map, List.map_map]
  simp only [Function.comp_def, hrender]

/-! ## Blanks in tokens -/

/-- A token that starts with a quote. -/
def Token.IsQuotation (t : Token) : Prop := t.text.toList.head? = some '\''

/-- Only a quoted text has blanks in it. -/
theorem Lexeme.Spelled.isBlank_eq_false {l : Lexeme} {after : List Char} (h : l.Spelled after)
    (hl : l.text.head? ≠ some '\'') : ∀ c ∈ l.text, isBlank c = false := by
  suffices hgap : ∀ c ∈ l.text, startsGap c = false by
    intro c hc
    exact (Bool.or_eq_false_iff.1 (hgap c hc)).1
  cases h with
  | @word c cs _ hc hcs _ =>
    have hfirst : c.isAlphanum = true := Bool.or_eq_true_iff.2 (.inl hc)
    exact List.forall_mem_cons.2 ⟨startsGap_eq_false (.inl hfirst), fun d hd =>
      startsGap_eq_false (.inl (hcs d hd))⟩
  | @number c cs _ hc hcs _ =>
    have hfirst : isNumberPart c = true := Bool.or_eq_true_iff.2 (.inl hc)
    exact List.forall_mem_cons.2 ⟨startsGap_eq_false (.inr hfirst), fun d hd =>
      startsGap_eq_false (.inr (hcs d hd))⟩
  | quotation | unclosed => exact absurd rfl hl
  | @pair c d s _ hs =>
    unfold Symbol.ofPair? at hs
    split at hs
    all_goals first | exact List.forall_mem_cons.2 ⟨rfl, by simp [startsGap, isBlank]⟩ | cases hs
  | symbol hs _ => simpa using startsGap_of_ofChar? hs
  | stray hc => simpa using hc.gap

theorem Stream.isQuotation_of_isBlank (source : String) :
    ∀ r ∈ (ofSource source).items, ∀ c ∈ r.token.text.toList, Lexeme.isBlank c = true →
      r.token.IsQuotation := by
  refine forall_ofLexemes fun p hp r hr c hc hblank => ?_
  obtain ⟨after, hspelled⟩ :=
    (Lexeme.divided_cut 1 source.toList).exists_spelled p.1 (List.mem_map_of_mem hp)
  have htext : r.token.text.toList = p.1.text := by
    rw [(Terminal.reads_of_classify hr).token_text, String.toList_ofList]
  rw [htext] at hc
  rw [Token.IsQuotation, htext]
  by_contra hne
  rw [hspelled.isBlank_eq_false hne c hc] at hblank
  cases hblank

/-- The token stands in a program text, or at its end. -/
def Token.StandsIn (t : Token) (source : String) : Prop :=
  t ∈ (Stream.ofSource source).items.map (·.token) ∨ ∃ line, t = .endOfFile line

/-- A token with a line break is a quoted text. -/
theorem Token.StandsIn.isQuotation {t : Token} {source : String} (h : t.StandsIn source)
    (hbreak : '\n' ∈ t.text.toList) : t.IsQuotation := by
  obtain ht | ⟨line, rfl⟩ := h
  · obtain ⟨r, hr, rfl⟩ := List.mem_map.1 ht
    exact Stream.isQuotation_of_isBlank source r hr '\n' hbreak rfl
  · cases hbreak

/-! ## What diagnostics quote -/

/-- A diagnostic has the line and the text of a token. -/
def Diagnostic.Quotes (d : Diagnostic) (t : Token) : Prop := d.line = t.line ∧ d.text = t.text

theorem Reading.Regular.quotes {r : Reading} (h : r.Regular) :
    ∀ d ∈ r.report, d.Quotes r.token := by
  intro d hd
  obtain ⟨-, hreport⟩ | ⟨c, cs, -, -, hreport⟩ := h
  · rw [hreport] at hd
    cases hd
  · rw [hreport] at hd
    cases hd
    exact ⟨rfl, rfl⟩

/-- The diagnostic quotes a token of a program text. It has as many line breaks as this token, which
is a quoted text if there are any. -/
def Diagnostic.QuotesFrom (d : Diagnostic) (source : String) : Prop :=
  ∃ token : Token, token.StandsIn source ∧ d.Quotes token ∧
    d.render.toList.count '\n' = token.text.toList.count '\n' ∧
    ('\n' ∈ token.text.toList → token.IsQuotation)

theorem Diagnostic.Quotes.quotesFrom {d : Diagnostic} {t : Token} {source : String}
    (h : d.Quotes t) (ht : t.StandsIn source) : d.QuotesFrom source :=
  ⟨t, ht, h, by rw [d.count_render, breaks, h.2], ht.isQuotation⟩

/-- The diagnostics of reading tokens quote these tokens. -/
theorem Stream.exists_of_mem_reports_take {s : Stream} (hs : ∀ r ∈ s.items, r.Regular) (n : Nat) :
    ∀ d ∈ (s.take n).reports, ∃ r ∈ s.items, d.Quotes r.token := by
  induction n generalizing s with
  | zero => simp [take, Transcript.reports]
  | succ n ih =>
    intro d hd
    rw [take] at hd
    cases hn : s.next with
    | error fault =>
      rw [hn] at hd
      cases hd
    | ok p =>
      obtain ⟨r, rest⟩ := p
      rw [hn] at hd
      obtain ⟨hr, hrest⟩ := Reading.regular_of_next hs hn
      have hcons : ((rest.take n).cons r).reports = r.report.toList ++ (rest.take n).reports := by
        obtain ⟨token, report⟩ := r
        cases report <;> rfl
      rw [hcons, List.mem_append, Option.mem_toList] at hd
      obtain ⟨hi, -⟩ | ⟨-, rfl, line, -, rfl⟩ := next_eq_ok hn
      · rw [hi]
        obtain hd | hd := hd
        · exact ⟨r, List.mem_cons_self, hr.quotes d hd⟩
        · obtain ⟨q, hq, hquotes⟩ := ih hrest d hd
          exact ⟨q, List.mem_cons_of_mem _ hq, hquotes⟩
      · exact ih hrest d (hd.resolve_left (by rintro ⟨⟩))

namespace Parsing

/-- Every diagnostic quotes a token that was read. The current token was read, and what is still to
be read is regular. -/
structure State.ReportsQuote (s : State) : Prop where
  quoted : ∀ d ∈ s.reports, ∃ t ∈ s.reads, d.Quotes t
  current : s.current ∈ s.reads
  regular : ∀ r ∈ s.stream.items, r.Regular

theorem State.reportsQuote_receive {s : State}
    (hs : ∀ d ∈ s.reports, ∃ t ∈ s.reads, d.Quotes t) (hregular : ∀ r ∈ s.stream.items, r.Regular)
    {r : Reading} {rest : Stream} (hn : s.stream.next = .ok (r, rest)) :
    (s.receive r rest).ReportsQuote := by
  obtain ⟨hr, hrest⟩ := Reading.regular_of_next hregular hn
  constructor
  · intro d hd
    rw [State.reports_receive, List.mem_append, Option.mem_toList] at hd
    rw [State.reads_receive]
    obtain hd | hd := hd
    · obtain ⟨t, ht, hquotes⟩ := hs d hd
      exact ⟨t, List.mem_append_left _ ht, hquotes⟩
    · exact ⟨r.token, by simp, hr.quotes d hd⟩
  · rw [State.reads_receive]
    exact List.mem_append_right _ (List.mem_singleton_self _)
  · exact hrest

theorem State.ReportsQuote.reported {s : State} (hs : s.ReportsQuote) {d : Diagnostic} {t : Token}
    (ht : t ∈ s.reads) (hd : d.Quotes t) : (s.reported d).ReportsQuote := by
  refine ⟨fun e he => ?_, by simpa using hs.current, hs.regular⟩
  rw [State.reports_reported, List.mem_append, List.mem_singleton] at he
  rw [State.reads_reported]
  obtain he | rfl := he
  · exact hs.quoted e he
  · exact ⟨t, ht, hd⟩

/-- **Diagnostics quote tokens that were read**, along every parse. -/
theorem Reaches.reportsQuote {s t : State} (h : Reaches s t) (hs : s.ReportsQuote) :
    t.ReportsQuote := by
  refine h.induct (P := State.ReportsQuote) (fun hst hu => ?_) hs
  cases hst with
  | read _ hn => exact State.reportsQuote_receive hu.quoted hu.regular hn
  | report => exact hu.reported hu.current ⟨rfl, rfl⟩
  | undeclared _ _ _ hn =>
    refine (State.reportsQuote_receive hu.quoted hu.regular hn).reported ?_ ⟨rfl, rfl⟩
    rw [State.reads_receive]
    exact List.mem_append_left _ hu.current
  | enter => exact ⟨hu.quoted, hu.current, hu.regular⟩

theorem State.reportsQuote_start {source : String} {table : Table} {strict : Bool} {s : State}
    (h : State.start (.ofSource source) table strict = .ok s) : s.ReportsQuote := by
  obtain ⟨r, rest, hn, rfl⟩ := State.start_eq_ok h
  exact State.reportsQuote_receive (by simp [State.reports]) (Reading.regular_ofSource source) hn

/-- The tokens that were read stand in the text. -/
theorem State.ReadFrom.standsIn {s : State} {source : String} (h : s.ReadFrom (.ofSource source)) :
    ∀ t ∈ s.reads, t.StandsIn source := by
  intro t ht
  obtain hrest | ⟨-, line, -, hreads⟩ := h.rest
  · refine .inl ?_
    rw [hrest]
    exact List.mem_append_left _ ht
  · rw [hreads, List.mem_append, List.mem_singleton] at ht
    exact ht.imp id fun he => ⟨line, he⟩

/-- Whatever is reported in a program text quotes a token of it. -/
theorem Reaches.quotesFrom {source : String} {table : Table} {strict : Bool} {s t : State}
    (hs : State.start (.ofSource source) table strict = .ok s) (h : Reaches s t) :
    ∀ d ∈ t.reports, d.QuotesFrom source := by
  intro d hd
  obtain ⟨token, htoken, hquotes⟩ := (h.reportsQuote (State.reportsQuote_start hs)).quoted d hd
  exact hquotes.quotesFrom ((h.readFrom (State.readFrom_start hs)).standsIn token htoken)

end Parsing

/-! ## What a session puts out -/

namespace Session

/-- However a parse ends, the output grows by diagnostics that quote tokens of the text. They are
counted if it ends with a program. -/
theorem exists_printed (s : Session) (source : String) : ∃ ds : List Diagnostic,
    (s.parse source).1.output = s.output ++ printed ds ∧
    ((s.parse source).2.isOk = true →
      (s.parse source).1.errorCount = s.errorCount + ds.length) ∧
    ∀ d ∈ ds, d.QuotesFrom source := by
  cases hstart : Parsing.State.start (.ofSource source) s.table s.strict with
  | error fault =>
    refine ⟨[], ?_, ?_, by simp⟩ <;> rw [parse, hstart]
    · exact (Text.append_empty _).symm
    · rintro ⟨⟩
  | ok first =>
    cases hprogram : Parsing.program first with
    | ok n state =>
      obtain ⟨hreaches, -⟩ := (Parsing.meets_program first).of_ok hprogram
      have hparse? := Parsing.parse?_of_program hstart hprogram
      obtain ⟨t, hparse, -, hcount, hcontinues⟩ := parse_of_parse? (s := s) hparse?
      refine ⟨state.reports, ?_, fun _ => ?_, hreaches.quotesFrom hstart⟩
      · rw [hparse]
        exact hcontinues.output
      · rw [hparse, ← (Parsing.counted_of_parse? hparse?).1]
        exact hcount
    | error stop state =>
      -- A parse that stops has put out what it reported, and counts nothing.
      obtain ⟨hreaches, -⟩ := (Parsing.meets_program first).of_error hprogram
      have houtput := (continues_replay s state.log.toList).output
      refine ⟨state.reports, ?_, ?_, hreaches.quotesFrom hstart⟩ <;> rw [parse, hstart]
      all_goals
        dsimp only
        rw [hprogram]
        dsimp only
      · cases stop <;> exact houtput
      · cases stop <;> rintro ⟨⟩

/-- **Only quoted texts make more lines.** Every diagnostic that is made when some tokens of a text
are read, or when the text is parsed, quotes a token of the text, and has as many line breaks as
this token. However the parse ends, what is put out has a line for each diagnostic and one more for
each of these line breaks. So a diagnostic is a single line, and their number is that of the lines,
if no quoted text in the program, closed or not, spans lines. -/
theorem printed_lines (s : Session) (source : String) :
    (∀ n, ∀ d ∈ ((Stream.ofSource source).take n).reports, d.QuotesFrom source) ∧
    ∃ ds : List Diagnostic,
      (s.parse source).1.output = s.output ++ printed ds ∧
      ((s.parse source).2.isOk = true →
        (s.parse source).1.errorCount = s.errorCount + ds.length) ∧
      (∀ d ∈ ds, d.QuotesFrom source) ∧
      (printed ds).breaks = ds.length + (ds.map Diagnostic.breaks).sum ∧
      ((∀ token : Token, token.StandsIn source → token.IsQuotation → '\n' ∉ token.text.toList) →
        (∀ d ∈ ds, '\n' ∉ d.render.toList) ∧ (printed ds).breaks = ds.length) := by
  constructor
  · intro n d hd
    obtain ⟨r, hr, hquotes⟩ :=
      Stream.exists_of_mem_reports_take (Reading.regular_ofSource source) n d hd
    exact hquotes.quotesFrom (.inl (List.mem_map_of_mem hr))
  · obtain ⟨ds, houtput, hcount, hquotes⟩ := exists_printed s source
    refine ⟨ds, houtput, hcount, hquotes, breaks_printed ds, fun hsingle => ?_⟩
    have hnone : ∀ d ∈ ds, d.render.toList.count '\n' = 0 := by
      intro d hd
      obtain ⟨token, hstands, -, hbreaks, hquotation⟩ := hquotes d hd
      rw [hbreaks, List.count_eq_zero]
      exact fun h => hsingle token hstands (hquotation h) h
    refine ⟨fun d hd => List.count_eq_zero.1 (hnone d hd), ?_⟩
    have hsum : (ds.map Diagnostic.breaks).sum = 0 := by
      refine List.sum_eq_zero fun k hk => ?_
      obtain ⟨d, hd, rfl⟩ := List.mem_map.1 hk
      rw [← d.count_render, hnone d hd]
    rw [breaks_printed, hsum, Nat.add_zero]

/-- A text with a diagnostic, in which no quoted text spans lines. -/
theorem printed_lines_missing : ∃ ds : List Diagnostic,
    ((start 0 false).parse "BEGIN x 'a'\nEND.").1.output = (start 0 false).output ++ printed ds ∧
    (∀ token : Token, token.StandsIn "BEGIN x 'a'\nEND." → token.IsQuotation →
      '\n' ∉ token.text.toList) ∧
    (∀ d ∈ ds, '\n' ∉ d.render.toList) ∧ (printed ds).breaks = ds.length := by
  have hsingle : ∀ token : Token, token.StandsIn "BEGIN x 'a'\nEND." → token.IsQuotation →
      '\n' ∉ token.text.toList := by
    have hitems : ∀ t ∈ (Stream.ofSource "BEGIN x 'a'\nEND.").items.map (·.token),
        '\n' ∉ t.text.toList := by decide +kernel
    rintro token (ht | ⟨line, rfl⟩) -
    · exact hitems token ht
    · simp [Token.endOfFile]
  obtain ⟨-, ds, houtput, -, -, -, hlines⟩ := printed_lines (start 0 false) "BEGIN x 'a'\nEND."
  exact ⟨ds, houtput, hsingle, hlines hsingle⟩

/-- A quoted text that spans two lines is quoted whole. -/
theorem render_not_single_line :
    ¬ ∀ (s : Session) (source : String), ∀ d ∈ s.diagnosticsOf source,
      '\n' ∉ d.render.toList := by
  intro h
  have hbreak : ((start 0 false).diagnosticsOf "PROGRAM p; BEGIN x := 'a\nb' END.").any
      (fun d => d.render.toList.contains '\n') = true := by decide +kernel
  obtain ⟨d, hd, hrender⟩ := List.any_eq_true.1 hbreak
  exact h _ _ d hd (by simpa using hrender)

end Session

end MiniPascal
