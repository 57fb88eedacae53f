import Mathlib.Algebra.Ring.Parity
import Mathlib.Data.List.Induction
import MiniPascal.Token.Stream

/-!
# Quoted texts

A quoted text is written between quotes, with every quote inside it written twice. The text itself
is read back from that, whatever quotes are in it and whatever follows, if only that is no quote.

**Pairs** (`Paired`). Up to the end of a quoted text its quotes come in pairs, so that a quote which
is left over closes it. If none is, the text is not closed, and all that follows belongs to it.

**Runs** (`QuoteRun`). Which quote is left over can be told from the runs of quotes after the
opening one: it is the last quote of the first run of odd length (`exists_first_odd`). If there is
no such run, then the text is not closed.

**Quoted texts are read as they are written** (`Stream.next_quotation`).
-/

namespace MiniPascal

/-! ## Pairs of quotes -/

/-- A text with every quote written twice. -/
def doubled (s : List Char) : List Char :=
  s.flatMap fun c => if c = '\'' then ['\'', '\''] else [c]

/-- A text between quotes, with every quote in it written twice. -/
def quotationOf (s : List Char) : List Char := '\'' :: doubled s ++ ['\'']

theorem doubled_quote (s : List Char) : doubled ('\'' :: s) = '\'' :: '\'' :: doubled s := rfl

theorem doubled_of_ne {c : Char} (h : c ≠ '\'') (s : List Char) :
    doubled (c :: s) = c :: doubled s := by
  simp [doubled, h]

/-- The quotes of a text come in pairs. -/
inductive Paired : List Char → Prop
  | nil : Paired []
  | plain {c : Char} {cs : List Char} : c ≠ '\'' → Paired cs → Paired (c :: cs)
  | pair {cs : List Char} : Paired cs → Paired ('\'' :: '\'' :: cs)

theorem paired_doubled (s : List Char) : Paired (doubled s) := by
  induction s with
  | nil => exact .nil
  | cons c s ih =>
    by_cases hc : c = '\''
    · subst hc
      exact .pair ih
    · rw [doubled_of_ne hc]
      exact .plain hc ih

theorem unquote_of_ne {c : Char} (h : c ≠ '\'') (cs : List Char) :
    unquote (c :: cs) = c :: unquote cs := by
  rw [unquote]
  rintro rest rfl
  exact absurd rfl h

/-- **Quotes written twice are read once.** -/
theorem unquote_doubled (s : List Char) : unquote (doubled s) = s := by
  induction s with
  | nil => rfl
  | cons c s ih =>
    by_cases hc : c = '\''
    · subst hc
      rw [doubled_quote, unquote, ih]
    · rw [doubled_of_ne hc, unquote_of_ne hc, ih]

/-- What has its quotes in pairs is another text with every quote written twice. -/
theorem Paired.doubled_unquote {cs : List Char} (h : Paired cs) : doubled (unquote cs) = cs := by
  induction h with
  | nil => rfl
  | plain hc _ ih => rw [unquote_of_ne hc, doubled_of_ne hc, ih]
  | pair _ ih => rw [unquote, doubled_quote, ih]

namespace Lexeme

theorem takeQuotation_of_ne {c : Char} (h : c ≠ '\'') (cs : List Char) :
    takeQuotation (c :: cs) = (takeQuotation cs).map fun p => (c :: p.1, p.2) := by
  rw [takeQuotation]
  · rintro rest rfl
    exact absurd rfl h
  · rintro rfl
    exact absurd rfl h

/-- A text whose quotes come in pairs is not closed. -/
theorem takeQuotation_of_paired {cs : List Char} (h : Paired cs) : takeQuotation cs = none := by
  induction h with
  | nil => rfl
  | plain hc _ ih => rw [takeQuotation_of_ne hc, ih]; rfl
  | pair _ ih => rw [takeQuotation, ih]; rfl

/-- The first quote that is left over closes a text. -/
theorem takeQuotation_append {b r : List Char} (h : Paired b) (hr : r.head? ≠ some '\'') :
    takeQuotation (b ++ '\'' :: r) = some (b ++ ['\''], r) := by
  induction h with
  | nil =>
    cases r with
    | nil => rfl
    | cons c r =>
      have hc : c ≠ '\'' := by simpa using hr
      rw [List.nil_append, takeQuotation]
      · rfl
      · rintro rest he
        exact hc (List.cons.inj he).1
  | plain hc _ ih => rw [List.cons_append, takeQuotation_of_ne hc, ih]; rfl
  | pair _ ih => rw [List.cons_append, List.cons_append, takeQuotation, ih]; rfl

end Lexeme

/-- The quotes of a text come in pairs, or do so up to one that is left over. -/
theorem paired_or (cs : List Char) :
    Paired cs ∨ ∃ b r, cs = b ++ '\'' :: r ∧ Paired b ∧ r.head? ≠ some '\'' := by
  fun_induction Lexeme.takeQuotation cs with
  | case1 => exact .inl .nil
  | case2 rest ih =>
    obtain h | ⟨b, r, rfl, hb, hr⟩ := ih
    · exact .inl (.pair h)
    · exact .inr ⟨'\'' :: '\'' :: b, r, rfl, .pair hb, hr⟩
  | case3 rest hne =>
    refine .inr ⟨[], rest, rfl, .nil, ?_⟩
    cases rest with
    | nil => simp
    | cons c rest =>
      intro hc
      obtain rfl : c = '\'' := by simpa using hc
      exact hne rest rfl
  | case4 c rest _ hc ih =>
    have hne : c ≠ '\'' := fun he => hc he
    obtain h | ⟨b, r, rfl, hb, hr⟩ := ih
    · exact .inl (.plain hne h)
    · exact .inr ⟨c :: b, r, rfl, .plain hne hb, hr⟩

/-! ## Runs of quotes -/

/-- A longest run of `n` quotes in a text, with what is before and after it. -/
structure QuoteRun (cs before : List Char) (n : Nat) (after : List Char) : Prop where
  text : cs = before ++ List.replicate n '\'' ++ after
  pos : 0 < n
  before : before.getLast? ≠ some '\''
  after : after.head? ≠ some '\''

/-- Every longest run of quotes has an even length. -/
def EvenRuns (cs : List Char) : Prop := ∀ before n after, QuoteRun cs before n after → Even n

/-- Pairs are not split after a character that is no quote. -/
theorem Paired.split {cs a b : List Char} (h : Paired cs) (hcs : cs = a ++ b)
    (ha : a.getLast? ≠ some '\'') : Paired a ∧ Paired b := by
  induction h generalizing a with
  | nil =>
    obtain ⟨rfl, rfl⟩ := List.append_eq_nil_iff.1 hcs.symm
    exact ⟨.nil, .nil⟩
  | @plain c cs hc h ih =>
    cases a with
    | nil =>
      subst hcs
      exact ⟨.nil, .plain hc h⟩
    | cons d a =>
      obtain ⟨rfl, rfl⟩ := List.cons.inj hcs
      have hlast : a.getLast? ≠ some '\'' := by
        intro hl
        rw [List.getLast?_cons, hl] at ha
        exact ha rfl
      obtain ⟨ha, hb⟩ := ih rfl hlast
      exact ⟨.plain hc ha, hb⟩
  | @pair cs h ih =>
    -- The split is before the pair or behind it. Inside, a quote would come last.
    rcases a with _ | ⟨d, _ | ⟨e, a⟩⟩
    · subst hcs
      exact ⟨.nil, .pair h⟩
    · obtain ⟨rfl, -⟩ := List.cons.inj hcs
      exact absurd rfl ha
    · obtain ⟨rfl, htail⟩ := List.cons.inj hcs
      obtain ⟨rfl, rfl⟩ := List.cons.inj htail
      have hlast : a.getLast? ≠ some '\'' := by
        intro hl
        rw [List.getLast?_cons, List.getLast?_cons, hl] at ha
        exact ha rfl
      obtain ⟨ha, hb⟩ := ih rfl hlast
      exact ⟨.pair ha, hb⟩

/-- A run of quotes that come in pairs is even. -/
theorem Paired.even {after : List Char} (ha : after.head? ≠ some '\'') (n : Nat)
    (h : Paired (List.replicate n '\'' ++ after)) : Even n := by
  induction n using Nat.twoStepInduction with
  | zero => exact Even.zero
  | one =>
    cases h with
    | plain hc _ => exact absurd rfl hc
    | pair _ => exact absurd rfl ha
  | more n ih _ =>
    cases h with
    | plain hc _ => exact absurd rfl hc
    | pair h => exact (ih h).add even_two

theorem Paired.evenRuns {cs : List Char} (h : Paired cs) : EvenRuns cs := by
  intro before n after hrun
  have hsplit := h.split (hrun.text.trans (List.append_assoc ..)) hrun.before
  exact Paired.even hrun.after n hsplit.2

/-- A text ends with a longest run of quotes, which may be empty. -/
theorem exists_eq_append_replicate (cs : List Char) :
    ∃ before n, cs = before ++ List.replicate n '\'' ∧ before.getLast? ≠ some '\'' := by
  induction cs using List.reverseRecOn with
  | nil => exact ⟨[], 0, rfl, by simp⟩
  | append_singleton cs c ih =>
    by_cases hc : c = '\''
    · obtain ⟨before, n, rfl, hb⟩ := ih
      refine ⟨before, n + 1, ?_, hb⟩
      rw [hc, List.append_assoc, List.replicate_succ']
    · exact ⟨cs ++ [c], 0, by simp, by simpa using hc⟩

/-- The quote that is left over is the last one of the first run of odd length. -/
theorem exists_first_odd {b r : List Char} (hb : Paired b) (hr : r.head? ≠ some '\'') :
    ∃ before n, QuoteRun (b ++ '\'' :: r) before n r ∧ Odd n ∧ EvenRuns before ∧
      b ++ ['\''] = before ++ List.replicate n '\'' := by
  obtain ⟨before, n, rfl, hlast⟩ := exists_eq_append_replicate b
  obtain ⟨hbefore, hquotes⟩ := hb.split rfl hlast
  have hn : Even n := by
    rw [← List.append_nil (List.replicate n '\'')] at hquotes
    exact Paired.even (by simp) n hquotes
  refine ⟨before, n + 1, ⟨?_, Nat.succ_pos n, hlast, hr⟩, hn.add_one, hbefore.evenRuns, ?_⟩
  · simp [List.replicate_succ']
  · simp [List.replicate_succ']

/-! ## Reading quoted texts -/

namespace Lexeme

theorem take_quote_of_some {rest body r : List Char} (h : takeQuotation rest = some (body, r)) :
    take '\'' rest = (⟨.quotation, '\'' :: body⟩, r) := by
  unfold take
  rw [if_neg (by decide), if_neg (by decide), if_pos rfl, h]

theorem take_quote_of_none {rest : List Char} (h : takeQuotation rest = none) :
    take '\'' rest = (⟨.openQuotation, '\'' :: rest⟩, []) := by
  unfold take
  rw [if_neg (by decide), if_neg (by decide), if_pos rfl, h]

theorem cut_quote (line : Nat) (rest : List Char) : cut line ('\'' :: rest) =
    ((take '\'' rest).1, line) ::
      cut (line + (take '\'' rest).1.text.count '\n') (take '\'' rest).2 := by
  rw [cut]
  rfl

end Lexeme

/-- The token of a text in quotes. -/
def Token.ofQuoted (s : List Char) (line : Int) : Token :=
  { kind := if s.length = 1 then .character else .string
    text := String.ofList (quotationOf s)
    line
    literal := .text (String.ofList s) }

theorem Terminal.quotationToken_quotationOf (s : List Char) (line : Int) :
    quotationToken (String.ofList (quotationOf s)) line = .ofQuoted s line := by
  have hinside : unquote (((String.ofList (quotationOf s)).toList.drop 1).dropLast) = s := by
    rw [String.toList_ofList, quotationOf, List.cons_append, List.drop_one, List.tail_cons,
      List.dropLast_concat, unquote_doubled]
  simp only [quotationToken, hinside]
  rfl

namespace Stream

/-- The stream of what is left of a text, which goes on on a line, after a token on the line
`last`. -/
def ofRest (last : Int) (line : Nat) (cs : List Char) : Stream :=
  ofLexemes last (Lexeme.cut line cs)

theorem ofSource_eq_ofRest (source : String) : ofSource source = ofRest 1 1 source.toList := rfl

theorem next_ofLexemes {lexeme : Lexeme} {line : Nat} {r : Reading}
    (h : lexeme.terminal.classify (String.ofList lexeme.text) line = .ok r) (last : Int)
    (ls : List (Lexeme × Nat)) :
    (ofLexemes last ((lexeme, line) :: ls)).next = .ok (r, ofLexemes line ls) := by
  rw [ofLexemes, h]
  rfl

/-- A text whose quotes come in pairs is read up to the quote after it. -/
theorem next_of_paired {b r : List Char} (hb : Paired b) (hr : r.head? ≠ some '\'') (last : Int)
    (line : Nat) : (ofRest last line ('\'' :: b ++ '\'' :: r)).next =
      .ok ({ token := .ofQuoted (unquote b) line },
        ofRest line (line + (quotationOf (unquote b)).count '\n') r) := by
  have htake : Lexeme.take '\'' (b ++ '\'' :: r) =
      (⟨.quotation, quotationOf (unquote b)⟩, r) := by
    rw [Lexeme.take_quote_of_some (Lexeme.takeQuotation_append hb hr), quotationOf,
      hb.doubled_unquote, List.cons_append]
  rw [ofRest, List.cons_append, Lexeme.cut_quote, htake]
  refine next_ofLexemes ?_ last _
  rw [← Terminal.quotationToken_quotationOf]
  rfl

/-- A text whose quotes come in pairs up to its end is not closed. -/
theorem next_of_unclosed {rest : List Char} (h : Paired rest) (last : Int) (line : Nat) :
    (ofRest last line ('\'' :: rest)).next =
      .ok (.invalid .stringNotClosed (String.ofList ('\'' :: rest)) line,
        { items := [], ending := .endOfFile line }) := by
  have htake := Lexeme.take_quote_of_none (Lexeme.takeQuotation_of_paired h)
  rw [ofRest, Lexeme.cut_quote, htake, Lexeme.cut]
  exact next_ofLexemes rfl last _

/-- **Quoted texts are read as they are written.** Let a stream come to an opening quote, on any
line.

If the quote starts a text that is written between quotes, with every quote in it doubled, and no
quote follows, then the token has all of this as its text and the text itself as its value. It is a
character if that has length one, and a string if not.

Whatever follows the quote, there are two cases. If all longest runs of quotes after it are even,
then the token is an error and extends to the end. If not, then the token ends at the last quote of
the first odd run, and what it is made of is a text between quotes. -/
theorem next_quotation (last : Int) (line : Nat) :
    (∀ s r : List Char, r.head? ≠ some '\'' →
      (ofRest last line (quotationOf s ++ r)).next =
        .ok ({ token := .ofQuoted s line }, ofRest line (line + (quotationOf s).count '\n') r)) ∧
    ∀ rest : List Char,
      EvenRuns rest ∧ (ofRest last line ('\'' :: rest)).next =
        .ok (.invalid .stringNotClosed (String.ofList ('\'' :: rest)) line,
          { items := [], ending := .endOfFile line }) ∨
      ∃ before n after s, QuoteRun rest before n after ∧ Odd n ∧ EvenRuns before ∧
        '\'' :: before ++ List.replicate n '\'' = quotationOf s ∧
        (ofRest last line ('\'' :: rest)).next =
          .ok ({ token := .ofQuoted s line },
            ofRest line (line + (quotationOf s).count '\n') after) := by
  refine ⟨fun s r hr => ?_, fun rest => ?_⟩
  · have h := next_of_paired (paired_doubled s) hr last line
    rw [unquote_doubled] at h
    rw [← h, quotationOf, List.append_assoc, List.singleton_append]
  · obtain hp | ⟨b, r, rfl, hb, hr⟩ := paired_or rest
    · exact .inl ⟨hp.evenRuns, next_of_unclosed hp last line⟩
    · obtain ⟨before, n, hrun, hodd, heven, htext⟩ := exists_first_odd hb hr
      refine .inr ⟨before, n, r, unquote b, hrun, hodd, heven, ?_, next_of_paired hb hr last line⟩
      rw [quotationOf, hb.doubled_unquote, List.cons_append, List.cons_append, htext]

/-- A text with a quote inside and one at its end. -/
theorem next_quotation_doubled :
    [';', 'x'].head? ≠ some '\'' ∧ (ofSource "'it''s''';x").next =
      .ok ({ token := .ofQuoted ['i', 't', '\'', 's', '\''] 1 }, ofRest 1 1 [';', 'x']) := by
  have hr : [';', 'x'].head? ≠ some '\'' := by decide
  have htext : "'it''s''';x".toList =
      quotationOf ['i', 't', '\'', 's', '\''] ++ [';', 'x'] := by decide
  refine ⟨hr, ?_⟩
  rw [ofSource_eq_ofRest, htext]
  exact (next_quotation 1 1).1 ['i', 't', '\'', 's', '\''] [';', 'x'] hr

end Stream

end MiniPascal
