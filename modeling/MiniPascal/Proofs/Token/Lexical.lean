import MiniPascal.Proofs.Decimal.Digits
import MiniPascal.Proofs.Token.Rescan

/-!
# The lexical rules

What the lexemes of a program text are can be said by rules, without cutting the text up:
`Lexeme.Spelled l after` says that a lexeme is spelled as its terminal asks and cannot take anything
of the text after it, and `Lexeme.Divided cs ls` that a text is made of lexemes, with blanks and
comments around them.

**Every text is divided in one way** (`Lexeme.divided_iff`), and that is how it is cut. So there is
no text that cannot be cut, whatever is in it.

**Every lexeme but one sort is a token** (`Lexeme.Spelled.classify`). An integer of too many digits
is none. All others can be read, and an error token comes of a quoted text that is not closed, of a
number with two points or more, and of a character that starts nothing.

**Reading fails at integers of too many digits only** (`Stream.fault_only_at_overlong`). The lexemes
before the first of them are read, each as one token, and the end of the text comes after all where
there is none.
-/

namespace MiniPascal

namespace Lexeme

/-! ## The rules -/

/-- A character with which no token starts, and neither a blank nor a comment. -/
structure IsStray (c : Char) : Prop where
  letter : c.isAlpha = false
  digit : c.isDigit = false
  quote : c ≠ '\''
  symbol : Symbol.ofChar? c = none
  pair : ∀ d, Symbol.ofPair? c d = none
  gap : startsGap c = false

/-- A lexeme as it is spelled in front of a text, of which it cannot take anything. -/
inductive Spelled : Lexeme → List Char → Prop
  | word {c : Char} {cs after : List Char} :
      c.isAlpha = true → (∀ d ∈ cs, d.isAlphanum = true) →
      (∀ d ∈ after.head?, d.isAlphanum = false) → Spelled ⟨.word, c :: cs⟩ after
  | number {c : Char} {cs after : List Char} :
      c.isDigit = true → (∀ d ∈ cs, isNumberPart d = true) →
      (∀ d ∈ after.head?, isNumberPart d = false) → Spelled ⟨.number, c :: cs⟩ after
  | quotation {body after : List Char} :
      Paired body → after.head? ≠ some '\'' → Spelled ⟨.quotation, '\'' :: body ++ ['\'']⟩ after
  | unclosed {body : List Char} : Paired body → Spelled ⟨.openQuotation, '\'' :: body⟩ []
  | pair {c d : Char} {s : Symbol} {after : List Char} :
      Symbol.ofPair? c d = some s → Spelled ⟨.symbol s, [c, d]⟩ after
  | symbol {c : Char} {s : Symbol} {after : List Char} :
      Symbol.ofChar? c = some s → (∀ d ∈ after.head?, Symbol.ofPair? c d = none) →
      Spelled ⟨.symbol s, [c]⟩ after
  | stray {c : Char} {after : List Char} : IsStray c → Spelled ⟨.other, [c]⟩ after

/-- A text that is made of lexemes, with blanks and comments around them. A comment that is not
closed runs to the end. -/
inductive Divided : List Char → List Lexeme → Prop
  | nil : Divided [] []
  | blank {c : Char} {cs : List Char} {ls : List Lexeme} :
      c ∈ [' ', '\t', '\x0c', '\r', '\n'] → Divided cs ls → Divided (c :: cs) ls
  | comment {body cs : List Char} {ls : List Lexeme} :
      '\x7d' ∉ body → Divided cs ls → Divided ('\x7b' :: body ++ '\x7d' :: cs) ls
  | lastComment {body : List Char} : '\x7d' ∉ body → Divided ('\x7b' :: body) []
  | lexeme {l : Lexeme} {cs : List Char} {ls : List Lexeme} :
      l.Spelled cs → Divided cs ls → Divided (l.text ++ cs) (l :: ls)

/-! ## Cutting follows the rules -/

section Cutting

variable {c d : Char} {s : Symbol} {rest after cs : List Char} {l : Lexeme}

/-- A character that continues no lexeme can stand in front of a gap. -/
theorem startsGap_eq_false (h : c.isAlphanum = true ∨ isNumberPart c = true) :
    startsGap c = false := by
  refine Bool.eq_false_iff.2 fun hg => ?_
  obtain ⟨ha, hn, -⟩ := not_continues_of_startsGap hg
  simp [ha, hn] at h

theorem startsGap_of_ofChar? (h : Symbol.ofChar? c = some s) : startsGap c = false := by
  unfold Symbol.ofChar? at h
  split at h <;> first | rfl | cases h

/-- A symbol of two characters starts with a symbol. -/
theorem exists_ofChar?_of_ofPair? (h : Symbol.ofPair? c d = some s) :
    ∃ t, Symbol.ofChar? c = some t := by
  unfold Symbol.ofPair? at h
  split at h <;> first | exact ⟨_, rfl⟩ | cases h

/-- No symbol starts with a letter, a digit or a quote. -/
theorem not_of_ofChar? (h : Symbol.ofChar? c = some s) :
    ¬ c.isAlpha = true ∧ ¬ c.isDigit = true ∧ c ≠ '\'' := by
  unfold Symbol.ofChar? at h
  split at h <;> first | decide | cases h

theorem spelled_single (ha : ¬ c.isAlpha = true) (hd : ¬ c.isDigit = true) (hq : c ≠ '\'')
    (hc : startsGap c = false) (hafter : ∀ d ∈ after.head?, Symbol.ofPair? c d = none) :
    (single c).Spelled after := by
  cases hs : Symbol.ofChar? c with
  | some s =>
    rw [single, hs]
    exact .symbol hs hafter
  | none =>
    have hpair : ∀ d, Symbol.ofPair? c d = none := by
      intro d
      refine Option.eq_none_iff_forall_ne_some.2 fun s hp => ?_
      obtain ⟨t, ht⟩ := exists_ofChar?_of_ofPair? hp
      rw [hs] at ht
      cases ht
    rw [single, hs]
    exact .stray ⟨by simpa using ha, by simpa using hd, hq, hs, hpair, hc⟩

/-- What is cut out is spelled as the rules say. -/
theorem spelled_take (hc : startsGap c = false) (rest : List Char) :
    (take c rest).1.Spelled (take c rest).2 := by
  by_cases ha : c.isAlpha = true
  · rw [take_of_isAlpha ha]
    exact .word ha (fun d => List.mem_takeWhile_imp) fun d => not_of_head?_dropWhile
  by_cases hd : c.isDigit = true
  · rw [take_of_isDigit ha hd]
    exact .number hd (fun d => List.mem_takeWhile_imp) fun d => not_of_head?_dropWhile
  by_cases hq : c = '\''
  · subst hq
    obtain hp | ⟨b, r, rfl, hb, hr⟩ := paired_or rest
    · rw [take_quote_of_none (takeQuotation_of_paired hp)]
      exact .unclosed hp
    · rw [take_quote_of_some (takeQuotation_append hb hr)]
      exact .quotation hb hr
  by_cases hpair : ∀ d ∈ rest.head?, Symbol.ofPair? c d = none
  · rw [take_eq_single ha hd hq hpair]
    exact spelled_single ha hd hq hc hpair
  · push Not at hpair
    obtain ⟨d, hhead, hsome⟩ := hpair
    obtain ⟨s, hs⟩ := Option.ne_none_iff_exists'.1 hsome
    obtain ⟨rest, rfl⟩ := List.head?_eq_some_iff.1 hhead
    rw [take_of_pair ha hd hq hs]
    exact .pair hs

theorem not_isAlpha_of_isDigit (h : c.isDigit = true) : ¬ c.isAlpha = true := by
  intro ha
  have hle := (Decimal.toNat_of_isPlain (.inl h)).2
  obtain hu | hl := Bool.or_eq_true_iff.1 ha
  · have : 65 ≤ c.toNat := (of_decide_eq_true hu).1
    omega
  · have : 97 ≤ c.toNat := of_decide_eq_true (Bool.and_eq_true_iff.1 hl).1
    omega

/-- What is spelled as the rules say is cut out. -/
theorem Spelled.take (h : l.Spelled after) :
    ∃ c body, l.text = c :: body ∧ startsGap c = false ∧
      Lexeme.take c (body ++ after) = (l, after) := by
  -- Each rule says which character starts the text and which cannot follow it.
  cases h with
  | @word c cs _ hc hcs hafter =>
    obtain ⟨ht, hd⟩ := span_append hcs hafter
    refine ⟨c, cs, rfl, startsGap_eq_false (.inl (Bool.or_eq_true_iff.2 (.inl hc))), ?_⟩
    rw [take_of_isAlpha hc, ht, hd]
  | @number c cs _ hc hcs hafter =>
    obtain ⟨ht, hd⟩ := span_append hcs hafter
    refine ⟨c, cs, rfl, startsGap_eq_false (.inr (by simp [isNumberPart, hc])), ?_⟩
    rw [take_of_isDigit (not_isAlpha_of_isDigit hc) hc, ht, hd]
  | @quotation body _ hb hr =>
    refine ⟨'\'', body ++ ['\''], rfl, rfl, ?_⟩
    rw [List.append_assoc, List.singleton_append, take_quote_of_some (takeQuotation_append hb hr)]
    rfl
  | @unclosed body hb =>
    refine ⟨'\'', body, rfl, rfl, ?_⟩
    rw [List.append_nil, take_quote_of_none (takeQuotation_of_paired hb)]
  | @pair c d s _ hs =>
    -- The first character of a pair is a symbol of its own, and gives way to the pair.
    obtain ⟨t, ht⟩ := exists_ofChar?_of_ofPair? hs
    obtain ⟨ha, hd, hq⟩ := not_of_ofChar? ht
    exact ⟨c, [d], rfl, startsGap_of_ofChar? ht, take_of_pair ha hd hq hs after⟩
  | @symbol c s _ hs hafter =>
    obtain ⟨ha, hd, hq⟩ := not_of_ofChar? hs
    refine ⟨c, [], rfl, startsGap_of_ofChar? hs, ?_⟩
    rw [List.nil_append, take_eq_single ha hd hq hafter, single, hs]
  | @stray c _ hc =>
    refine ⟨c, [], rfl, hc.gap, ?_⟩
    rw [List.nil_append, take_eq_single (by simp [hc.letter]) (by simp [hc.digit]) hc.quote
      fun d _ => hc.pair d, single, hc.symbol]

theorem divided_cut (line : Nat) (cs : List Char) : Divided cs ((cut line cs).map (·.1)) := by
  fun_induction cut line cs with
  | case1 => exact .nil
  | case2 line c rest hc ih => exact .blank (mem_blanks hc) ih
  | case3 line rest _ ih =>
    have hbody := not_mem_commentBody rest
    obtain he | ⟨he, hnone⟩ := comment_cases rest
    · have htext : '\x7b' :: rest = '\x7b' :: commentBody rest ++ '\x7d' :: afterComment rest :=
        congrArg ('\x7b' :: ·) he
      rw [htext]
      exact .comment hbody ih
    · rw [hnone, cut]
      exact .lastComment (he ▸ hbody)
  | case4 line c rest hblank hbrace piece ih =>
    rw [← take_append c rest]
    exact .lexeme (spelled_take (by simpa [startsGap] using And.intro hblank hbrace) rest) ih

/-- **Every text is divided in one way**, and that is how it is cut. -/
theorem divided_iff {ls : List Lexeme} (line : Nat) :
    Divided cs ls ↔ ls = (cut line cs).map (·.1) := by
  refine ⟨fun h => ?_, fun h => h ▸ divided_cut line cs⟩
  induction h generalizing line with
  | nil =>
    rw [cut]
    rfl
  | @blank c cs ls hc _ ih =>
    rw [← List.singleton_append, cut_gap (.blank hc .nil)]
    exact ih _
  | @comment body cs ls hbody _ ih =>
    rw [show '\x7b' :: body ++ '\x7d' :: cs = '\x7b' :: body ++ ['\x7d'] ++ cs by simp,
      cut_gap (.comment hbody .nil)]
    exact ih _
  | @lastComment body hbody =>
    obtain he | ⟨-, hnone⟩ := comment_cases body
    · exact absurd (he ▸ by simp) hbody
    · rw [cut, if_neg (by decide), if_pos rfl, hnone, cut]
      rfl
  | @lexeme l cs ls hl _ ih =>
    obtain ⟨c, body, htext, hc, htake⟩ := hl.take
    obtain ⟨hblank, hbrace⟩ : isBlank c = false ∧ c ≠ '\x7b' := by simpa [startsGap] using hc
    rw [htext, List.cons_append, cut, if_neg (by simp [hblank]), if_neg hbrace, htake, ih]
    rfl

end Cutting

/-! ## Tokens of lexemes -/

/-- An integer of more digits than are read. -/
def Overlong (l : Lexeme) : Prop :=
  l.terminal = .number ∧ '.' ∉ l.text ∧ 4300 < l.text.length

/-- A lexeme of which an error token comes: a quoted text that is not closed, a number with two
points or more, or a character that starts nothing. -/
def Invalid (l : Lexeme) : Prop :=
  l.terminal = .openQuotation ∨ (l.terminal = .number ∧ 2 ≤ l.text.count '.') ∨
    l.terminal = .other

/-- The token that is read for a lexeme. -/
structure ReadAs (l : Lexeme) (t : Token) : Prop where
  text : t.text = String.ofList l.text
  error : t.kind = .error ↔ l.Invalid
  kind : t.kind ≠ .endOfFile

theorem isDigit_of_isNumberPart {cs : List Char} (h : ∀ d ∈ cs, isNumberPart d = true)
    (hpoint : '.' ∉ cs) : ∀ d ∈ cs, d.isDigit = true := by
  intro d hd
  have hne : d ≠ '.' := fun he => hpoint (he ▸ hd)
  simpa [isNumberPart, hne] using h d hd

/-- A text with one point is what is before it and what is after it. -/
theorem exists_eq_append_point {cs : List Char} (h : cs.count '.' = 1) :
    ∃ whole fraction, cs = whole ++ '.' :: fraction ∧ '.' ∉ whole ∧ '.' ∉ fraction := by
  have hmem : '.' ∈ cs := List.count_pos_iff.1 (by omega)
  obtain ⟨whole, fraction, rfl⟩ := List.append_of_mem hmem
  rw [List.count_append, List.count_cons_self] at h
  exact ⟨whole, fraction, rfl, List.count_eq_zero.1 (by omega), List.count_eq_zero.1 (by omega)⟩

section Numbers

variable {cs : List Char} (hcs : ∀ d ∈ cs, isNumberPart d = true) (line : Int)

include hcs

theorem numberToken_of_no_point (hne : cs ≠ []) (h : '.' ∉ cs) :
    Terminal.numberToken (String.ofList cs) line =
      if 4300 < cs.length then .error (.tooManyDigits cs.length)
      else .ok { token := {
        kind := .integer, text := String.ofList cs, line
        literal := .int (Decimal.digitsValue cs) } } := by
  rw [Terminal.numberToken, String.toList_ofList, List.count_eq_zero.2 h]
  simp only [Decimal.readInteger_of_isDigit (isDigit_of_isNumberPart hcs h) hne, Decimal.maxDigits]
  by_cases hlength : 4300 < cs.length <;> simp only [hlength] <;> rfl

theorem numberToken_of_point (hhead : cs.head? ≠ some '.') (h : cs.count '.' = 1) :
    ∃ x, Terminal.numberToken (String.ofList cs) line = .ok { token := {
      kind := .real, text := String.ofList cs, line, literal := .real x } } := by
  obtain ⟨whole, fraction, rfl, hwhole, hfraction⟩ := exists_eq_append_point h
  have hw := isDigit_of_isNumberPart (fun d hd => hcs d (by simp [hd])) hwhole
  have hf := isDigit_of_isNumberPart (fun d hd => hcs d (by simp [hd])) hfraction
  have hne : whole ≠ [] := by
    rintro rfl
    exact hhead rfl
  have hread := Decimal.readReal_point hw hf hne
  rw [Terminal.numberToken, String.toList_ofList, h]
  simp only [hread]
  exact ⟨_, rfl⟩

omit hcs in
theorem numberToken_of_points (h : 2 ≤ cs.count '.') :
    Terminal.numberToken (String.ofList cs) line =
      .ok (.invalid .invalidNumber (String.ofList cs) line) := by
  obtain ⟨n, hn⟩ := Nat.exists_eq_add_of_le' h
  rw [Terminal.numberToken, String.toList_ofList, hn]
  rfl

end Numbers

theorem readAs_of_classify {l : Lexeme} {line : Int} {r : Reading}
    (h : l.terminal.classify (String.ofList l.text) line = .ok r)
    (herror : r.token.kind = .error ↔ l.Invalid) : l.ReadAs r.token :=
  have hreads := Terminal.reads_of_classify h
  ⟨hreads.token_text, herror, hreads.makes.ne_endOfFile⟩

/-- All that is no number can be read. -/
theorem classify_of_ne_number {l : Lexeme} (hl : l.terminal ≠ .number) (line : Int) :
    ∃ r, l.terminal.classify (String.ofList l.text) line = .ok r ∧ l.ReadAs r.token := by
  obtain ⟨r, hr⟩ : ∃ r, l.terminal.classify (String.ofList l.text) line = .ok r := by
    cases ht : l.terminal with
    | number => exact absurd ht hl
    | word | quotation | openQuotation | symbol | other => exact ⟨_, rfl⟩
  have hmakes := (Terminal.reads_of_classify hr).makes
  refine ⟨r, hr, readAs_of_classify hr ?_⟩
  simp only [Invalid, hl, false_and, false_or]
  cases hk : r.token.kind <;> cases ht : l.terminal <;> rw [hk, ht] at hmakes <;> cases hmakes <;>
    simp_all

/-- **Every lexeme is a token**, unless it is an integer of too many digits. -/
theorem Spelled.classify {l : Lexeme} {after : List Char} (h : l.Spelled after) (line : Int) :
    (l.Overlong → l.terminal.classify (String.ofList l.text) line =
      .error (.tooManyDigits l.text.length)) ∧
    (¬ l.Overlong → ∃ r, l.terminal.classify (String.ofList l.text) line = .ok r ∧
      l.ReadAs r.token) := by
  cases h with
  | @number c cs _ hc hcs _ =>
    have hall : ∀ d ∈ c :: cs, isNumberPart d = true := by
      simpa [isNumberPart, hc] using hcs
    have hpoint : (c :: cs).head? ≠ some '.' := by
      rintro ⟨⟩
      cases hc
    constructor
    · rintro ⟨-, hnone, hlong⟩
      exact (numberToken_of_no_point hall line (by simp) hnone).trans (if_pos hlong)
    · intro hshort
      obtain hcount | hcount | hcount : (c :: cs).count '.' = 0 ∨ (c :: cs).count '.' = 1 ∨
          2 ≤ (c :: cs).count '.' := by omega
      · have hnone := List.count_eq_zero.1 hcount
        have htoken := numberToken_of_no_point hall line (by simp) hnone
        rw [if_neg fun hlong => hshort ⟨rfl, hnone, hlong⟩] at htoken
        exact ⟨_, htoken, readAs_of_classify htoken (by simp [Invalid, hcount])⟩
      · obtain ⟨x, htoken⟩ := numberToken_of_point hall line hpoint hcount
        exact ⟨_, htoken, readAs_of_classify htoken (by simp [Invalid, hcount])⟩
      · have htoken := numberToken_of_points line hcount
        exact ⟨_, htoken, readAs_of_classify htoken (by simp [Invalid, hcount, Reading.invalid])⟩
  | word | quotation | unclosed | pair | symbol | stray =>
    refine ⟨?_, fun _ => classify_of_ne_number (by simp) line⟩
    rintro ⟨⟨⟩, -⟩

theorem Divided.exists_spelled {cs : List Char} {ls : List Lexeme} (h : Divided cs ls) :
    ∀ l ∈ ls, ∃ after, l.Spelled after := by
  induction h with
  | nil | lastComment => simp
  | blank _ _ ih | comment _ _ ih => exact ih
  | @lexeme l cs ls hl _ ih => exact List.forall_mem_cons.2 ⟨⟨cs, hl⟩, ih⟩

end Lexeme

/-! ## Reading a text -/

namespace Stream

/-- A stream that gives the tokens of lexemes, up to the first integer of too many digits or to the
end of the text. -/
inductive Scans : List Lexeme → Stream → Prop
  | done (line : Int) : Scans [] ⟨[], .endOfFile line⟩
  | stop {l : Lexeme} {ls : List Lexeme} :
      l.Overlong → Scans (l :: ls) ⟨[], .unreadable (.tooManyDigits l.text.length)⟩
  | token {l : Lexeme} {ls : List Lexeme} {r : Reading} {items : List Reading} {e : Ending} :
      ¬ l.Overlong → l.ReadAs r.token → Scans ls ⟨items, e⟩ → Scans (l :: ls) ⟨r :: items, e⟩

theorem scans_ofLexemes {ls : List (Lexeme × Nat)} (h : ∀ p ∈ ls, ∃ after, p.1.Spelled after)
    (last : Int) : Scans (ls.map (·.1)) (ofLexemes last ls) := by
  induction ls generalizing last with
  | nil => exact .done last
  | cons p ls ih =>
    obtain ⟨l, line⟩ := p
    obtain ⟨⟨after, hl⟩, hls⟩ := List.forall_mem_cons.1 h
    by_cases hlong : l.Overlong
    · rw [ofLexemes, (hl.classify line).1 hlong]
      exact .stop hlong
    · obtain ⟨r, hr, hread⟩ := (hl.classify line).2 hlong
      rw [ofLexemes, hr]
      exact .token hlong hread (ih hls line)

theorem scans_ofSource (source : String) :
    Scans ((Lexeme.cut 1 source.toList).map (·.1)) (ofSource source) := by
  refine scans_ofLexemes (fun p hp => ?_) 1
  exact (Lexeme.divided_cut 1 source.toList).exists_spelled p.1 (List.mem_map_of_mem hp)

namespace Scans

variable {ls before after : List Lexeme} {s : Stream}

/-- Reading fails when it comes to the first integer of too many digits, and with that fault. -/
theorem fault_take_iff (h : Scans ls s) (n : Nat) (fault : Decimal.NumeralFault) :
    (s.take n).fault = some fault ↔ ∃ before l after, ls = before ++ l :: after ∧
      (∀ k ∈ before, ¬ k.Overlong) ∧ l.Overlong ∧ before.length < n ∧
      fault = .tooManyDigits l.text.length := by
  induction h generalizing n with
  | done line =>
    have hnone : ((⟨[], .endOfFile line⟩ : Stream).take n).fault = none := by
      simpa using (take_of_endOfFile (s := ⟨[], .endOfFile line⟩) rfl n).1
    simp [hnone]
  | @stop l ls hl =>
    constructor
    · intro hfault
      cases n with
      | zero => cases hfault
      | succ n =>
        cases hfault
        exact ⟨[], l, ls, rfl, by simp, hl, by simp, rfl⟩
    · rintro ⟨before, k, after, he, hbefore, hk, hn, rfl⟩
      cases before with
      | nil =>
        obtain ⟨rfl, -⟩ := List.cons.inj he
        obtain ⟨n, rfl⟩ := Nat.exists_eq_add_of_lt hn
        simp only [List.length_nil, Nat.zero_add]
        rfl
      | cons b before =>
        obtain ⟨rfl, -⟩ := List.cons.inj he
        -- The first lexeme is too long, so none can be read before it.
        exact absurd hl (hbefore l (by simp))
  | @token l ls r items e hl _ _ ih =>
    cases n with
    | zero =>
      refine iff_of_false (by rintro ⟨⟩) ?_
      rintro ⟨before, k, after, -, -, -, hn, -⟩
      omega
    | succ n =>
      -- One token is read, and the place of the fault is one nearer.
      refine (ih n).trans ⟨?_, ?_⟩
      · rintro ⟨before, k, after, rfl, hbefore, hk, hn, rfl⟩
        exact ⟨l :: before, k, after, rfl, List.forall_mem_cons.2 ⟨hl, hbefore⟩, hk,
          Nat.succ_lt_succ hn, rfl⟩
      · rintro ⟨before, k, after, he, hbefore, hk, hn, rfl⟩
        cases before with
        | nil =>
          obtain ⟨rfl, -⟩ := List.cons.inj he
          exact absurd hk hl
        | cons b before =>
          obtain ⟨rfl, rfl⟩ := List.cons.inj he
          exact ⟨before, k, after, rfl, (List.forall_mem_cons.1 hbefore).2, hk,
            Nat.lt_of_succ_lt_succ hn, rfl⟩

/-- All lexemes before that are read, each as one token. -/
theorem readAs_take (h : Scans (before ++ after) s) (hbefore : ∀ l ∈ before, ¬ l.Overlong) :
    List.Forall₂ Lexeme.ReadAs before (s.take before.length).tokens := by
  induction before generalizing s with
  | nil => exact .nil
  | cons l before ih =>
    obtain ⟨hl, hrest⟩ := List.forall_mem_cons.1 hbefore
    cases h with
    | stop hlong => exact absurd hlong hl
    | token _ hread hscans => exact .cons hread (ih hscans hrest)

/-- Where there is none, the end of the text comes after the tokens. -/
theorem exists_take_add (h : Scans ls s) (hls : ∀ l ∈ ls, ¬ l.Overlong) :
    ∃ line, ∀ n, (s.take (ls.length + n)).tokens =
      (s.take ls.length).tokens ++ List.replicate n (.endOfFile line) := by
  induction h with
  | done line =>
    refine ⟨line, fun n => ?_⟩
    exact (take_of_endOfFile (s := ⟨[], .endOfFile line⟩) rfl n).2
  | stop hl => exact absurd hl (List.forall_mem_cons.1 hls).1
  | @token l ls r items e _ _ _ ih =>
    obtain ⟨line, htokens⟩ := ih (List.forall_mem_cons.1 hls).2
    refine ⟨line, fun n => ?_⟩
    rw [List.length_cons, Nat.succ_add]
    exact congrArg (r.token :: ·) (htokens n)

end Scans

/-- **Scanning stops at integers of too many digits only.** Every text is divided into lexemes by
the lexical rules, and in one way. To read some count of tokens fails just where an integer of more
than 4300 digits is among as many lexemes, and with that fault. All lexemes before the first such
integer are read, each as one token, which is an error token just for a quoted text that is not
closed, a number with two points or more, and a character that starts nothing. Where there is no
such integer, the end of the text follows, for ever. -/
theorem fault_only_at_overlong (source : String) :
    ∃ ls, (∀ ls', Lexeme.Divided source.toList ls' ↔ ls' = ls) ∧
      (∀ n fault, ((ofSource source).take n).fault = some fault ↔
        ∃ before l after, ls = before ++ l :: after ∧ (∀ k ∈ before, ¬ k.Overlong) ∧ l.Overlong ∧
          before.length < n ∧ fault = .tooManyDigits l.text.length) ∧
      (∀ before after, ls = before ++ after → (∀ l ∈ before, ¬ l.Overlong) →
        List.Forall₂ Lexeme.ReadAs before ((ofSource source).take before.length).tokens) ∧
      ((∀ l ∈ ls, ¬ l.Overlong) → ∃ line, ∀ n, ((ofSource source).take (ls.length + n)).tokens =
        ((ofSource source).take ls.length).tokens ++ List.replicate n (.endOfFile line)) := by
  have h := scans_ofSource source
  refine ⟨_, fun _ => Lexeme.divided_iff 1, h.fault_take_iff, ?_, h.exists_take_add⟩
  intro before after he
  exact (he ▸ h).readAs_take

/-- The name in front is a token, and the integer behind it is none. -/
theorem fault_only_at_overlong_sevens :
    ((ofSource (String.ofList ('x' :: ' ' :: List.replicate 4301 '7'))).take 1).fault = none ∧
      ((ofSource (String.ofList ('x' :: ' ' :: List.replicate 4301 '7'))).take 2).fault =
        some (.tooManyDigits 4301) := by
  obtain ⟨ls, hls, hfault, -, -⟩ :=
    fault_only_at_overlong (String.ofList ('x' :: ' ' :: List.replicate 4301 '7'))
  have hdigits : Lexeme.Spelled ⟨.number, '7' :: List.replicate 4300 '7'⟩ [] :=
    .number rfl (fun d hd => List.eq_of_mem_replicate hd ▸ rfl) (by simp)
  have hname : Lexeme.Spelled ⟨.word, ['x']⟩ (' ' :: List.replicate 4301 '7') :=
    .word rfl (by simp) (by rintro _ ⟨⟩; rfl)
  have hlast := Lexeme.Divided.lexeme hdigits .nil
  rw [List.append_nil] at hlast
  have hdivided := (hls _).1 (by
    rw [String.toList_ofList]
    exact .lexeme hname (.blank (by simp) hlast))
  subst hdivided
  have hx : ¬ Lexeme.Overlong ⟨.word, ['x']⟩ := by simp [Lexeme.Overlong]
  constructor
  · refine Option.eq_none_iff_forall_ne_some.2 fun fault h => ?_
    obtain ⟨before, l, after, he, hbefore, hl, hn, -⟩ := (hfault 1 fault).1 h
    obtain rfl := List.length_eq_zero_iff.1 (Nat.lt_one_iff.1 hn)
    obtain ⟨rfl, -⟩ := List.cons.inj he
    exact hx hl
  · have hlength : ('7' :: List.replicate 4300 '7').length = 4301 :=
      congrArg (· + 1) List.length_replicate
    have hpoint : '.' ∉ '7' :: List.replicate 4300 '7' := fun h =>
      absurd (List.eq_of_mem_replicate (n := 4301) h) (by decide)
    exact (hfault 2 _).2 ⟨[⟨.word, ['x']⟩], ⟨.number, '7' :: List.replicate 4300 '7'⟩, [], rfl,
      by simpa using hx, ⟨rfl, hpoint, hlength ▸ Nat.lt_succ_self 4300⟩, Nat.one_lt_two,
      congrArg _ hlength.symm⟩

end Stream

end MiniPascal
