import MiniPascal.Proofs.Token.Quotation
import MiniPascal.Proofs.Token.Scanning

/-!
# Tokens written out and read again

If the tokens of a program are written out with gaps between them, then the same tokens are read
from that, on other lines.

**Lexemes stand alone** (`Lexeme.standsAlone_take`). No lexeme takes a character with which a gap
starts, so it is cut out again wherever its text stands in front of a gap or at the end. Only a
quoted text that is not closed would take the gap; but it runs to the end of the text it is cut
from, and so nothing comes after it (`Lexeme.CutsBack`).

**Lines do not matter** (`Terminal.classify_onLine`). What becomes of a lexeme does not depend on
its line, apart from the line itself.

**The same tokens are read again** (`Stream.rescan`).
-/

namespace MiniPascal

open Piece (textOf)

/-! ## Lexemes in front of gaps -/

namespace Lexeme

variable {c d : Char} {rest r : List Char}

/-- The characters with which gaps start. -/
def startsGap (c : Char) : Bool := isBlank c || c == '\x7b'

/-- No lexeme goes on with a character that starts a gap. -/
theorem not_continues_of_startsGap (h : startsGap d = true) : d.isAlphanum = false ∧
    isNumberPart d = false ∧ d ≠ '\'' ∧ d ≠ '=' ∧ d ≠ '>' ∧ d ≠ '.' := by
  simp only [startsGap, isBlank, Bool.or_eq_true, beq_iff_eq] at h
  obtain ((((rfl | rfl) | rfl) | rfl) | rfl) | rfl := h
  all_goals decide

theorem ofPair?_of_startsGap (c : Char) (h : startsGap d = true) : Symbol.ofPair? c d = none := by
  obtain ⟨-, -, -, he, hg, hp⟩ := not_continues_of_startsGap h
  unfold Symbol.ofPair?
  split <;> simp_all

/-- A text that starts with a gap, if it is not empty. -/
def AtGap (r : List Char) : Prop := ∀ d ∈ r.head?, startsGap d = true

/-- A run of characters of one sort ends where another one follows. -/
theorem span_append {p : Char → Bool} {cs : List Char} (hcs : ∀ d ∈ cs, p d = true)
    (hr : ∀ d ∈ r.head?, p d = false) :
    (cs ++ r).takeWhile p = cs ∧ (cs ++ r).dropWhile p = r := by
  rw [List.takeWhile_append_of_pos hcs, List.dropWhile_append_of_pos hcs]
  cases r with
  | nil => simp
  | cons d r => simp [hr d rfl]

theorem span_append_of_atGap {p : Char → Bool} (hp : ∀ d, startsGap d = true → p d = false)
    (hr : AtGap r) (cs : List Char) : (cs.takeWhile p ++ r).takeWhile p = cs.takeWhile p ∧
      (cs.takeWhile p ++ r).dropWhile p = r :=
  span_append (fun _ hd => List.mem_takeWhile_imp hd) fun d hd => hp d (hr d hd)

/-- A lexeme that starts with a character and is cut out again in front of every gap. If it is a
quoted text that is not closed, then it is cut out again at the end only. -/
def StandsAlone (c : Char) (l : Lexeme) : Prop :=
  ∃ body, l.text = c :: body ∧ ∀ r, AtGap r → (l.terminal = .openQuotation → r = []) →
    take c (body ++ r) = (l, r)

theorem take_of_isAlpha (h : c.isAlpha = true) (rest : List Char) : take c rest =
    (⟨.word, c :: rest.takeWhile Char.isAlphanum⟩, rest.dropWhile Char.isAlphanum) := by
  unfold take
  rw [if_pos h]

theorem take_of_isDigit (ha : ¬ c.isAlpha = true) (h : c.isDigit = true) (rest : List Char) :
    take c rest = (⟨.number, c :: rest.takeWhile isNumberPart⟩, rest.dropWhile isNumberPart) := by
  unfold take
  rw [if_neg ha, if_pos h]

/-- A lexeme of characters of one sort stands alone, as none of them starts a gap. -/
theorem standsAlone_span {terminal : Terminal} {p : Char → Bool}
    (htake : ∀ rest, take c rest = (⟨terminal, c :: rest.takeWhile p⟩, rest.dropWhile p))
    (hp : ∀ d, startsGap d = true → p d = false) (rest : List Char) :
    StandsAlone c (take c rest).1 := by
  rw [htake]
  refine ⟨_, rfl, fun r hr _ => ?_⟩
  obtain ⟨ht, hd⟩ := span_append_of_atGap hp hr rest
  rw [htake, ht, hd]

section Symbols

variable (ha : ¬ c.isAlpha = true) (hd : ¬ c.isDigit = true) (hq : c ≠ '\'')

include ha hd hq

theorem take_of_pair {s : Symbol} (h : Symbol.ofPair? c d = some s) (rest : List Char) :
    take c (d :: rest) = (⟨.symbol s, [c, d]⟩, rest) := by
  unfold take
  rw [if_neg ha, if_neg hd, if_neg hq]
  simp only [h]

theorem take_eq_single (h : ∀ d ∈ r.head?, Symbol.ofPair? c d = none) :
    take c r = (single c, r) := by
  unfold take
  rw [if_neg ha, if_neg hd, if_neg hq]
  cases r with
  | nil => rfl
  | cons d r => simp only [h d rfl]

theorem standsAlone_single : StandsAlone c (single c) := by
  refine ⟨[], single_text c, fun r hr _ => ?_⟩
  exact take_eq_single ha hd hq fun d h => ofPair?_of_startsGap c (hr d h)

end Symbols

theorem single_ne_openQuotation (c : Char) : (single c).terminal ≠ .openQuotation := by
  unfold single
  split <;> simp

theorem standsAlone_quote (rest : List Char) : StandsAlone '\'' (take '\'' rest).1 ∧
    ((take '\'' rest).1.terminal = .openQuotation → (take '\'' rest).2 = []) := by
  obtain hp | ⟨b, q, rfl, hb, hq⟩ := paired_or rest
  · have htake := take_quote_of_none (takeQuotation_of_paired hp)
    rw [htake]
    refine ⟨⟨rest, rfl, fun r _ hr => ?_⟩, fun _ => rfl⟩
    rw [hr rfl, List.append_nil, htake]
  -- The closing quote is the first one that is left over, if only no quote follows it.
  · rw [take_quote_of_some (takeQuotation_append hb hq)]
    refine ⟨⟨b ++ ['\''], rfl, fun r hr _ => ?_⟩, fun h => by cases h⟩
    have hne : r.head? ≠ some '\'' := fun he =>
      (not_continues_of_startsGap (hr _ he)).2.2.1 rfl
    rw [List.append_assoc, List.singleton_append, take_quote_of_some (takeQuotation_append hb hne)]

/-- **Lexemes stand alone**, and nothing is left after a quoted text that is not closed. -/
theorem standsAlone_take (c : Char) (rest : List Char) : StandsAlone c (take c rest).1 ∧
    ((take c rest).1.terminal = .openQuotation → (take c rest).2 = []) := by
  by_cases ha : c.isAlpha = true
  · refine ⟨standsAlone_span (take_of_isAlpha ha) ?_ rest, fun h => ?_⟩
    · exact fun d hd => (not_continues_of_startsGap hd).1
    · rw [take_of_isAlpha ha] at h
      cases h
  by_cases hd : c.isDigit = true
  · refine ⟨standsAlone_span (take_of_isDigit ha hd) ?_ rest, fun h => ?_⟩
    · exact fun d hd => (not_continues_of_startsGap hd).2.1
    · rw [take_of_isDigit ha hd] at h
      cases h
  by_cases hq : c = '\''
  · rw [hq]
    exact standsAlone_quote rest
  by_cases hpair : ∀ d ∈ rest.head?, Symbol.ofPair? c d = none
  · rw [take_eq_single ha hd hq hpair]
    exact ⟨standsAlone_single ha hd hq, fun h => absurd h (single_ne_openQuotation c)⟩
  · push Not at hpair
    obtain ⟨d, hhead, hsome⟩ := hpair
    obtain ⟨s, hs⟩ := Option.ne_none_iff_exists'.1 hsome
    obtain ⟨rest, rfl⟩ := List.head?_eq_some_iff.1 hhead
    rw [take_of_pair ha hd hq hs]
    exact ⟨⟨[d], rfl, fun r _ _ => take_of_pair ha hd hq hs r⟩, fun h => by cases h⟩

/-! ## Cutting again -/

/-- Lexemes that are cut out again if gaps are put between them. -/
inductive CutsBack : List Lexeme → Prop
  | nil : CutsBack []
  | cons {c : Char} {l : Lexeme} {ls : List Lexeme} :
      startsGap c = false → StandsAlone c l → (l.terminal = .openQuotation → ls = []) →
      CutsBack ls → CutsBack (l :: ls)

theorem cutsBack_cut (line : Nat) (cs : List Char) : CutsBack ((cut line cs).map (·.1)) := by
  fun_induction cut line cs with
  | case1 => exact .nil
  | case2 _ _ _ _ ih | case3 _ _ _ ih => exact ih
  | case4 line c rest hblank hbrace piece ih =>
    obtain ⟨halone, hlast⟩ := standsAlone_take c rest
    refine .cons ?_ halone (fun hopen => ?_) ih
    · simpa [startsGap] using And.intro hblank hbrace
    · rw [show piece.2 = [] from hlast hopen, cut]
      rfl

/-- What follows a gap is cut as it is without the gap. -/
theorem cut_gap {g : List Char} (hg : Gap g) (line : Nat) (cs : List Char) :
    cut line (g ++ cs) = cut (line + g.count '\n') cs := by
  induction hg generalizing line with
  | nil => rfl
  | @blank c g hc _ ih =>
    have hblank : isBlank c = true := by simpa [isBlank, or_assoc] using hc
    rw [List.cons_append, cut, if_pos hblank, ih]
    by_cases hn : c = '\n' <;> simp [hn]
    congr 1
    omega
  | @comment body g hbody _ ih =>
    have hall : ∀ d ∈ body, (d != '\x7d') = true := by
      intro d hd
      simpa using fun he : d = '\x7d' => hbody (he ▸ hd)
    have htext : '\x7b' :: body ++ '\x7d' :: g ++ cs = '\x7b' :: (body ++ '\x7d' :: (g ++ cs)) := by
      simp
    have hcomment : commentBody (body ++ '\x7d' :: (g ++ cs)) = body := by
      rw [commentBody, List.takeWhile_append_of_pos hall]
      simp
    have hafter : afterComment (body ++ '\x7d' :: (g ++ cs)) = g ++ cs := by
      rw [afterComment, List.dropWhile_append_of_pos hall]
      simp
    have hcount : ('\x7b' :: body ++ '\x7d' :: g).count '\n' = body.count '\n' + g.count '\n' := by
      simp
    rw [htext, cut, if_neg (by decide), if_pos rfl, hcomment, hafter, ih, hcount, Nat.add_assoc]

/-- A lexeme that stands alone is cut out of a text that starts with it. -/
theorem cut_append {l : Lexeme} (hc : startsGap c = false) (hl : StandsAlone c l) (hr : AtGap r)
    (hopen : l.terminal = .openQuotation → r = []) (line : Nat) :
    cut line (l.text ++ r) = (l, line) :: cut (line + l.text.count '\n') r := by
  obtain ⟨body, htext, htake⟩ := hl
  obtain ⟨hblank, hbrace⟩ : isBlank c = false ∧ c ≠ '\x7b' := by simpa [startsGap] using hc
  have hstart : l.text ++ r = c :: (body ++ r) := by rw [htext, List.cons_append]
  rw [hstart, cut, if_neg (by simp [hblank]), if_neg hbrace, htake r hr hopen]

theorem atGap_append {g : List Char} (hg : Gap g) (hne : g ≠ []) (cs : List Char) :
    AtGap (g ++ cs) := by
  intro d hd
  cases hg with
  | nil => exact absurd rfl hne
  | blank hc _ =>
    obtain rfl := Option.some.inj hd
    simpa [startsGap, isBlank, or_assoc] using Or.inl hc
  | comment _ _ =>
    obtain rfl := Option.some.inj hd
    rfl

theorem atGap_textOf {ps : List Piece} (hgap : ∀ p ∈ ps, Gap p.gap ∧ p.gap ≠ []) :
    AtGap (textOf ps) := by
  cases ps with
  | nil =>
    intro d hd
    cases hd
  | cons p ps =>
    obtain ⟨hg, hne⟩ := hgap p (by simp)
    rw [Piece.textOf_cons, List.append_assoc]
    exact atGap_append hg hne _

/-- Lexemes with gaps between them are cut out again. -/
theorem cut_textOf {ls : List Lexeme} (h : CutsBack ls) {ps : List Piece}
    (htexts : ps.map (·.token.text.toList) = ls.map (·.text)) (hgap : ∀ p ∈ ps, Gap p.gap)
    (hne : ∀ p ∈ ps.tail, p.gap ≠ []) (line : Nat) : (cut line (textOf ps)).map (·.1) = ls := by
  induction h generalizing ps line with
  | nil =>
    obtain rfl : ps = [] := by simpa using htexts
    rw [Piece.textOf_nil, cut]
    rfl
  | @cons c l ls hc hl hlast hls ih =>
    cases ps with
    | nil => cases htexts
    | cons p ps =>
      have htext : p.token.text.toList = l.text := (List.cons.inj htexts).1
      have htexts := (List.cons.inj htexts).2
      have hrest : ∀ q ∈ ps, Gap q.gap := fun q hq => hgap q (by simp [hq])
      -- A quoted text that is not closed is the last lexeme, so there is no gap that it could take.
      have hopen : l.terminal = .openQuotation → textOf ps = [] := by
        intro hterminal
        rw [hlast hterminal] at htexts
        obtain rfl : ps = [] := by simpa using htexts
        rfl
      have hat : AtGap (textOf ps) := atGap_textOf fun q hq => ⟨hrest q hq, hne q hq⟩
      rw [Piece.textOf_cons, List.append_assoc, cut_gap (hgap p (by simp)), htext,
        cut_append hc hl hat hopen, List.map_cons,
        ih htexts hrest fun q hq => hne q (List.mem_of_mem_tail hq)]

end Lexeme

/-! ## Readings on other lines -/

/-- What a token is, apart from its line. -/
def Token.content (t : Token) : TokenKind × String × Value := (t.kind, t.text, t.literal)

/-- What a diagnostic says, apart from its line. -/
def Diagnostic.content (d : Diagnostic) : Problem × String := (d.problem, d.text)

namespace Reading

def content (r : Reading) : (TokenKind × String × Value) × Option (Problem × String) :=
  (r.token.content, r.report.map Diagnostic.content)

/-- A reading on another line. -/
def onLine (line : Int) (r : Reading) : Reading :=
  { token := { r.token with line }, report := r.report.map fun d => { d with line } }

theorem content_onLine (line : Int) (r : Reading) : (r.onLine line).content = r.content := by
  obtain ⟨token, report⟩ := r
  cases report <;> rfl

end Reading

namespace Terminal

theorem numberToken_onLine (text : String) (line line' : Int) :
    numberToken text line' = (numberToken text line).map (·.onLine line') := by
  unfold numberToken
  split
  · cases Decimal.readInteger text <;> rfl
  · cases Decimal.readReal text <;> rfl
  · rfl

/-- **Lines do not matter**: a text is read on another line as the same, on that line. -/
theorem classify_onLine (terminal : Terminal) (text : String) (line line' : Int) :
    terminal.classify text line' = (terminal.classify text line).map (·.onLine line') := by
  cases terminal with
  | word =>
    simp only [classify, wordToken]
    cases Keyword.ofText? text <;> rfl
  | number => exact numberToken_onLine text line line'
  | quotation | openQuotation | symbol | other => rfl

end Terminal

/-- The same is read from two streams, apart from lines. -/
structure Stream.SameContent (s t : Stream) : Prop where
  items : s.items.map Reading.content = t.items.map Reading.content
  isEnded : s.isEnded = t.isEnded

/-- The same lexemes are read as the same, whatever lines they are on. -/
theorem Stream.sameContent_ofLexemes {ls ls' : List (Lexeme × Nat)}
    (h : ls.map (·.1) = ls'.map (·.1)) (last last' : Int) :
    (ofLexemes last ls).SameContent (ofLexemes last' ls') := by
  induction ls generalizing ls' last last' with
  | nil =>
    obtain rfl : ls' = [] := by simpa using h
    exact ⟨rfl, rfl⟩
  | cons p ls ih =>
    cases ls' with
    | nil => cases h
    | cons p' ls' =>
      obtain ⟨lexeme, line⟩ := p
      obtain ⟨lexeme', line'⟩ := p'
      obtain rfl : lexeme = lexeme' := (List.cons.inj h).1
      have hline := lexeme.terminal.classify_onLine (String.ofList lexeme.text) line line'
      rw [ofLexemes, ofLexemes, hline]
      cases lexeme.terminal.classify (String.ofList lexeme.text) line with
      | error fault => exact ⟨rfl, rfl⟩
      | ok r =>
        obtain ⟨hitems, hended⟩ := ih (List.cons.inj h).2 line line'
        refine ⟨?_, hended⟩
        exact congrArg₂ List.cons (r.content_onLine line').symm hitems

/-! ## Reading all tokens -/

/-- The texts of the tokens. -/
def Transcript.texts (t : Transcript) : List String := t.tokens.map (·.text)

/-- The same was read, apart from lines: the same tokens, and the same diagnostics, of which there
are as many. -/
structure Transcript.SameContent (t u : Transcript) : Prop where
  fault : t.fault = u.fault
  tokens : t.tokens.map Token.content = u.tokens.map Token.content
  reports : t.reports.map Diagnostic.content = u.reports.map Diagnostic.content
  count : t.reports.length = u.reports.length

namespace Stream

theorem isEnded_of_fault {s : Stream} (h : s.drain.fault = none) : s.isEnded = true := by
  unfold isEnded
  split
  · rfl
  · next fault hend =>
    rw [show s.drain.fault = some fault from fault_of_unreadable hend] at h
    cases h

/-- The diagnostics made are those of the tokens. -/
theorem reports_drain {s : Stream} {line : Int} (h : s.ending = .endOfFile line) :
    s.drain.reports = s.items.filterMap (·.report) := by
  obtain ⟨items, ending⟩ := s
  obtain rfl : ending = .endOfFile line := h
  induction items with
  | nil => rfl
  | cons r items ih =>
    have hcons : (drain ⟨r :: items, .endOfFile line⟩).reports =
        (Event.ofReading r).filterMap Event.diagnostic? ++
          (drain ⟨items, .endOfFile line⟩).reports :=
      List.filterMap_append ..
    rw [hcons, ih]
    obtain ⟨token, report⟩ := r
    cases report <;> rfl

theorem fault_drain {s : Stream} {line : Int} (h : s.ending = .endOfFile line) :
    s.drain.fault = none :=
  (take_of_endOfFile h 1).1

theorem tokens_drain_ofSource {source : String} {line : Int}
    (h : (ofSource source).ending = .endOfFile line) :
    (ofSource source).drain.tokens = (ofSource source).items.map (·.token) := by
  refine tokens_drain h (forall_ofSource (fun c rest line r hr => ?_) source)
  exact (Terminal.reads_of_classify hr).makes.ne_endOfFile

theorem SameContent.drain {source source' : String}
    (h : (ofSource source).SameContent (ofSource source'))
    (hended : (ofSource source').isEnded = true) :
    (ofSource source).drain.SameContent (ofSource source').drain := by
  obtain ⟨line, hend⟩ := exists_of_isEnded (h.isEnded.trans hended)
  obtain ⟨line', hend'⟩ := exists_of_isEnded hended
  have htokens (items : List Reading) : (items.map (·.token)).map Token.content =
      (items.map Reading.content).map (·.1) := by
    simp [Function.comp_def, Reading.content]
  have hreports (items : List Reading) : (items.filterMap (·.report)).map Diagnostic.content =
      (items.map Reading.content).filterMap (·.2) := by
    rw [List.map_filterMap, List.filterMap_map]
    rfl
  have hsame : (ofSource source).drain.reports.map Diagnostic.content =
      (ofSource source').drain.reports.map Diagnostic.content := by
    rw [reports_drain hend, reports_drain hend', hreports, hreports, h.items]
  refine ⟨?_, ?_, hsame, ?_⟩
  · rw [fault_drain hend, fault_drain hend']
  · rw [tokens_drain_ofSource hend, tokens_drain_ofSource hend', htokens, htokens, h.items]
  · simpa using congrArg List.length hsame

/-- Tokens with gaps in front of them, of which only the first one may be empty. -/
structure Spaced (tokens : List Token) (ps : List Piece) : Prop where
  tokens : ps.map (·.token) = tokens
  gap : ∀ p ∈ ps, Gap p.gap
  between : ∀ p ∈ ps.tail, p.gap ≠ []

theorem texts_ofLexemes {last line : Int} {ls : List (Lexeme × Nat)}
    (h : (ofLexemes last ls).ending = .endOfFile line) :
    (ofLexemes last ls).items.map (·.token.text.toList) = ls.map (·.1.text) := by
  induction ls generalizing last with
  | nil => rfl
  | cons p ls ih =>
    obtain ⟨lexeme, line⟩ := p
    rw [ofLexemes] at h ⊢
    cases hclass : lexeme.terminal.classify (String.ofList lexeme.text) line with
    | error fault =>
      rw [hclass] at h
      cases h
    | ok r =>
      rw [hclass] at h
      have htext : r.token.text.toList = lexeme.text := by
        rw [(Terminal.reads_of_classify hclass).token_text, String.toList_ofList]
      exact congrArg₂ List.cons htext (ih h)

theorem Spaced.sameContent {source : String} {ps : List Piece}
    (h : (ofSource source).drain.fault = none) (hps : Spaced (ofSource source).drain.tokens ps) :
    (ofSource (String.ofList (textOf ps))).drain.SameContent (ofSource source).drain := by
  have hended := isEnded_of_fault h
  obtain ⟨line, hend⟩ := exists_of_isEnded hended
  have htexts : ps.map (·.token.text.toList) =
      ((Lexeme.cut 1 source.toList).map (·.1)).map (·.text) := by
    have hmap := congrArg (List.map fun t : Token => t.text.toList) hps.tokens
    rw [tokens_drain_ofSource hend, List.map_map, List.map_map] at hmap
    rw [List.map_map]
    exact hmap.trans (texts_ofLexemes hend)
  have hcut := Lexeme.cut_textOf (Lexeme.cutsBack_cut 1 source.toList) htexts hps.gap hps.between 1
  refine SameContent.drain (sameContent_ofLexemes ?_ 1 1) hended
  rw [String.toList_ofList]
  exact hcut

/-- Tokens with the same gap between any two of them. -/
def evenPieces (first gap : List Char) : List Token → List Piece
  | [] => []
  | t :: ts => ⟨first, t⟩ :: ts.map (⟨gap, ·⟩)

theorem spaced_evenPieces {first gap : List Char} (hfirst : Gap first) (hgap : Gap gap)
    (hne : gap ≠ []) (tokens : List Token) : Spaced tokens (evenPieces first gap tokens) := by
  cases tokens with
  | nil => exact ⟨rfl, by simp [evenPieces], by simp [evenPieces]⟩
  | cons t ts =>
    have hts : ∀ p ∈ ts.map (Piece.mk gap ·), p.gap = gap := by simp
    refine ⟨by simp [evenPieces, Function.comp_def], ?_, fun p hp => hts p hp ▸ hne⟩
    intro p hp
    obtain rfl | hp := List.mem_cons.1 hp
    · exact hfirst
    · exact hts p hp ▸ hgap

theorem textOf_evenPieces (gap : String) (tokens : List Token) :
    String.ofList (textOf (evenPieces [] gap.toList tokens)) =
      gap.intercalate (tokens.map (·.text)) := by
  refine String.toList_inj.1 ?_
  rw [String.toList_ofList, String.toList_intercalate]
  cases tokens with
  | nil => rfl
  | cons t ts =>
    induction ts generalizing t with
    | nil => simp [evenPieces]
    | cons u ts ih =>
      have hu := ih u
      simp only [evenPieces, List.map_cons, Piece.textOf_cons, List.nil_append,
        List.intercalate_cons_cons] at hu ⊢
      rw [← hu]
      simp

/-- **The same tokens are read again.** Let all tokens of a program text be read without a fault,
error tokens included. If their texts are joined with single spaces, then the same tokens are read
from that, apart from their lines, and as many diagnostics are made. The same holds with any gaps
between the tokens that are not empty, and any gap before them: blanks and comments only
separate. -/
theorem rescan (source : String) (h : (ofSource source).drain.fault = none) :
    (ofSource (" ".intercalate (ofSource source).drain.texts)).drain.SameContent
      (ofSource source).drain ∧
    ∀ ps : List Piece, Spaced (ofSource source).drain.tokens ps →
      (ofSource (String.ofList (textOf ps))).drain.SameContent (ofSource source).drain := by
  refine ⟨?_, fun ps hps => hps.sameContent h⟩
  have hspace : Gap [' '] := .blank (by simp) .nil
  have hspaced := spaced_evenPieces .nil hspace (by simp) (ofSource source).drain.tokens
  have hsame := hspaced.sameContent h
  rwa [show [' '] = " ".toList from rfl, textOf_evenPieces] at hsame

/-- A text with two symbols that a comment keeps apart, a number with two points, a quoted text with
a quote in it, a character that starts nothing, and a quoted text that is not closed. -/
def commentedSource : String := "a:\x7b;\x7d=1.2.3<\n>'it''s'?'b c"

/-- The tokens are read again with spaces between them, and with comments between them. -/
theorem rescan_commentedSource :
    (ofSource commentedSource).drain.fault = none ∧
    (ofSource "a : = 1.2.3 < > 'it''s' ? 'b c").drain.SameContent
      (ofSource commentedSource).drain ∧
    (ofSource commentedSource).drain.reports.length = 3 ∧
    ∃ ps, Spaced (ofSource commentedSource).drain.tokens ps ∧
      String.ofList (textOf ps) = "\na\x7b:\x7d:\x7b:\x7d=\x7b:\x7d1.2.3\x7b:\x7d<\x7b:\x7d>" ++
        "\x7b:\x7d'it''s'\x7b:\x7d?\x7b:\x7d'b c" ∧
      (ofSource (String.ofList (textOf ps))).drain.SameContent
        (ofSource commentedSource).drain := by
  have h : (ofSource commentedSource).drain.fault = none :=
    Option.isNone_iff_eq_none.1 (by decide +kernel)
  obtain ⟨hspaces, hgaps⟩ := rescan commentedSource h
  have hjoined : " ".intercalate (ofSource commentedSource).drain.texts =
      "a : = 1.2.3 < > 'it''s' ? 'b c" := by decide +kernel
  have hline : Gap ['\n'] := .blank (by simp) .nil
  have hbody : '\x7d' ∉ [':'] := by simp
  have hcomment : Gap ['\x7b', ':', '\x7d'] := .comment hbody .nil
  have hps := spaced_evenPieces hline hcomment (by simp) (ofSource commentedSource).drain.tokens
  rw [hjoined] at hspaces
  exact ⟨h, hspaces, by decide +kernel, _, hps, by decide +kernel, hgaps _ hps⟩

end Stream

end MiniPascal
