import Mathlib.Data.List.TakeWhile
import MiniPascal.Proofs.Token.Layout

/-!
# A text is its tokens and the gaps between them

**Nothing is lost** (`Stream.decomposes_ofSource`). A program text of which all tokens can be read
is made of these tokens, in their order, with gaps between them. A gap is made of blanks and
comments; only the last one, at the end of the text, may have a comment that is not closed.

**Tokens are as long as they can be** (`Token.takes`). A word is not followed by a letter or digit,
a number not by a digit or point, and a symbol of one character not by one that makes a longer
symbol with it.

**Lines are counted by line feeds.** The line of a token is one more than the line feeds in front of
it. After the last token the end of the text is given for ever, with the line of that token.
-/

namespace MiniPascal

/-! ## Gaps -/

/-- Blanks and closed comments. -/
inductive Gap : List Char → Prop
  | nil : Gap []
  | blank {c : Char} {cs : List Char} :
      c ∈ [' ', '\t', '\x0c', '\r', '\n'] → Gap cs → Gap (c :: cs)
  | comment {body cs : List Char} :
      '\x7d' ∉ body → Gap cs → Gap ('\x7b' :: body ++ '\x7d' :: cs)

/-- A gap at the end of a text, where the last comment need not be closed. -/
inductive LastGap : List Char → Prop
  | closed {cs : List Char} : Gap cs → LastGap cs
  | unclosed {cs body : List Char} :
      Gap cs → '\x7d' ∉ body → LastGap (cs ++ '\x7b' :: body)

theorem Gap.append {g h : List Char} (hg : Gap g) (hh : Gap h) : Gap (g ++ h) := by
  induction hg with
  | nil => exact hh
  | blank hc _ ih => exact .blank hc ih
  | comment hb _ ih => simpa using Gap.comment hb ih

theorem LastGap.append {g h : List Char} (hg : Gap g) (hh : LastGap h) : LastGap (g ++ h) := by
  cases hh with
  | closed hh => exact .closed (hg.append hh)
  | unclosed hh hb =>
    rw [← List.append_assoc]
    exact .unclosed (hg.append hh) hb

namespace Lexeme

theorem mem_blanks {c : Char} (h : isBlank c = true) : c ∈ [' ', '\t', '\x0c', '\r', '\n'] := by
  simpa [isBlank, or_assoc] using h

theorem not_mem_commentBody (cs : List Char) : '\x7d' ∉ commentBody cs := by
  intro h
  simpa using List.mem_takeWhile_imp h

/-- A comment has its closing brace, or runs to the end of the text. -/
theorem comment_cases (cs : List Char) :
    cs = commentBody cs ++ '\x7d' :: afterComment cs ∨
      cs = commentBody cs ∧ afterComment cs = [] := by
  have happend : commentBody cs ++ cs.dropWhile (· != '\x7d') = cs :=
    List.takeWhile_append_dropWhile
  unfold afterComment
  cases hd : cs.dropWhile (· != '\x7d') with
  | nil =>
    rw [hd, List.append_nil] at happend
    exact .inr ⟨happend.symm, rfl⟩
  | cons c rest =>
    have hc : c = '\x7d' := by
      have hhead := List.head?_dropWhile_not (· != '\x7d') cs
      rw [hd] at hhead
      simpa using hhead
    rw [hd, hc] at happend
    exact .inl happend.symm

end Lexeme

/-! ## Tokens that cannot go on -/

/-- Whether a token would take a character that follows it. -/
def Token.takes (t : Token) (c : Char) : Bool :=
  match t.kind with
  | .keyword _ | .identifier => c.isAlphanum
  | .integer | .real => c.isDigit || c == '.'
  -- An error token is a number if it starts with a digit.
  | .error => t.text.toList.head?.any Char.isDigit && (c.isDigit || c == '.')
  | .symbol .colon | .symbol .greaterThan => c == '='
  | .symbol .lessThan => c == '=' || c == '>'
  | .symbol .period => c == '.'
  | _ => false

namespace Terminal

/-- The kinds of tokens that a terminal can become. -/
inductive Makes : Terminal → TokenKind → Prop
  | keyword (k : Keyword) : Makes .word (.keyword k)
  | identifier : Makes .word .identifier
  | integer : Makes .number .integer
  | real : Makes .number .real
  | invalidNumber : Makes .number .error
  | character : Makes .quotation .character
  | string : Makes .quotation .string
  | unclosed : Makes .openQuotation .error
  | symbol (s : Symbol) : Makes (.symbol s) (.symbol s)
  | other : Makes .other .error

variable {terminal : Terminal} {text : String} {line : Int} {r : Reading}

/-- A token has a kind that its terminal can become. -/
theorem Reads.makes (h : Reads text line terminal r) : terminal.Makes r.token.kind := by
  cases h with
  | keyword k => exact .keyword k
  | identifier => exact .identifier
  | integer => exact .integer
  | real => exact .real
  | invalidNumber => exact .invalidNumber
  | character => exact .character
  | string => exact .string
  | unclosed => exact .unclosed
  | symbol s => exact .symbol s
  | other => exact .other

theorem Makes.ne_endOfFile {kind : TokenKind} (h : terminal.Makes kind) : kind ≠ .endOfFile := by
  rintro rfl
  cases h

end Terminal

namespace Token

variable {t : Token}

theorem takes_of_word (h : Terminal.word.Makes t.kind) (d : Char) : t.takes d = d.isAlphanum := by
  obtain ⟨kind, text, line, literal⟩ := t
  cases h <;> rfl

theorem takes_of_number (h : Terminal.number.Makes t.kind)
    (hd : t.text.toList.head?.any Char.isDigit = true) (d : Char) :
    t.takes d = Lexeme.isNumberPart d := by
  obtain ⟨kind, text, line, literal⟩ := t
  cases h with
  | integer | real => rfl
  | invalidNumber => simp_all [takes, Lexeme.isNumberPart]

theorem takes_of_quotation (h : Terminal.quotation.Makes t.kind) (d : Char) :
    t.takes d = false := by
  obtain ⟨kind, text, line, literal⟩ := t
  cases h <;> rfl

theorem takes_of_other (h : Terminal.other.Makes t.kind)
    (hd : t.text.toList.head?.any Char.isDigit = false) (d : Char) : t.takes d = false := by
  obtain ⟨kind, text, line, literal⟩ := t
  cases h
  simp_all [takes]

/-- A symbol takes a character only if the two make a longer symbol. -/
theorem takes_of_symbol {c d : Char} {s : Symbol} (h : (Terminal.symbol s).Makes t.kind)
    (hs : Symbol.ofChar? c = some s) (hpair : Symbol.ofPair? c d = none) : t.takes d = false := by
  obtain ⟨kind, text, line, literal⟩ := t
  cases h
  unfold Symbol.ofChar? at hs
  split at hs <;> cases hs <;> first | rfl | grind [takes, Symbol.ofPair?]

theorem takes_of_pair {c e : Char} {s : Symbol} (h : (Terminal.symbol s).Makes t.kind)
    (hs : Symbol.ofPair? c e = some s) (d : Char) : t.takes d = false := by
  obtain ⟨kind, text, line, literal⟩ := t
  cases h
  unfold Symbol.ofPair? at hs
  split at hs <;> cases hs <;> rfl

end Token

namespace Lexeme

variable {c d : Char} {rest : List Char} {t : Token}

theorem not_takes_of_single (h : (single c).terminal.Makes t.kind) (htext : t.text.toList = [c])
    (hdigit : ¬ c.isDigit = true) (hpair : Symbol.ofPair? c d = none) : t.takes d = false := by
  unfold single at h
  split at h
  · next s hs => exact Token.takes_of_symbol h hs hpair
  · exact Token.takes_of_other h (by simpa [htext] using hdigit) d

theorem not_of_head?_dropWhile {p : Char → Bool} {cs : List Char}
    (h : d ∈ (cs.dropWhile p).head?) : p d = false := by
  have hhead := List.head?_dropWhile_not p cs
  rw [Option.mem_def.1 h] at hhead
  exact hhead

/-- **Lexemes are as long as they can be**: no token takes the character that follows it. -/
theorem not_takes_of_take (h : (take c rest).1.terminal.Makes t.kind)
    (htext : t.text.toList = (take c rest).1.text) (hd : d ∈ (take c rest).2.head?) :
    t.takes d = false := by
  unfold take at h htext hd
  by_cases hc : c.isAlpha = true
  · simp only [hc, if_true] at h hd
    rw [Token.takes_of_word h]
    exact not_of_head?_dropWhile hd
  by_cases hdigit : c.isDigit = true
  · simp only [hc, hdigit, if_true] at h htext hd
    rw [Token.takes_of_number h (by simpa [htext] using hdigit)]
    exact not_of_head?_dropWhile hd
  simp only [hc, hdigit] at h htext hd
  by_cases hq : c = '\''
  · simp only [hq, if_true] at h hd
    cases htake : takeQuotation rest with
    | some q =>
      rw [htake] at h
      exact Token.takes_of_quotation h d
    | none =>
      -- A quoted text that is not closed runs to the end.
      rw [htake] at hd
      cases hd
  · simp only [hq] at h htext hd
    cases rest with
    | nil => cases hd
    | cons e rest =>
      cases hp : Symbol.ofPair? c e with
      | some s =>
        simp only [hp] at h
        exact Token.takes_of_pair h hp d
      | none =>
        simp only [hp] at h htext hd
        obtain rfl : e = d := by simpa using hd
        exact not_takes_of_single h (htext.trans (single_text c)) hdigit hp

end Lexeme

/-! ## Pieces -/

/-- A token of a text, with the gap in front of it. -/
structure Piece where
  gap : List Char
  token : Token

namespace Piece

/-- The text that pieces make up. -/
def textOf (ps : List Piece) : List Char := ps.flatMap fun p => p.gap ++ p.token.text.toList

@[simp] theorem textOf_nil : textOf [] = [] := rfl

@[simp] theorem textOf_cons (p : Piece) (ps : List Piece) :
    textOf (p :: ps) = p.gap ++ p.token.text.toList ++ textOf ps := by
  simp [textOf]

/-- A piece fits between two texts, the first of which starts on the given line: its token is not
empty, has its right line, and is as long as it can be. -/
structure Fits (line : Nat) (before : List Char) (p : Piece) (after : List Char) : Prop where
  gap : Gap p.gap
  text : p.token.text ≠ ""
  kind : p.token.kind ≠ .endOfFile
  line : p.token.line = line + (before ++ p.gap).count '\n'
  longest : ∀ c ∈ after.head?, p.token.takes c = false

end Piece

open Piece (textOf)

/-- A text that starts on the given line is made of pieces and of a gap after them. -/
structure Decomposes (line : Nat) (cs : List Char) (ps : List Piece) (last : List Char) : Prop where
  text : cs = textOf ps ++ last
  fits : ∀ before p after, ps = before ++ p :: after →
    p.Fits line (textOf before) (textOf after ++ last)
  last : LastGap last

namespace Decomposes

variable {line : Nat} {cs last : List Char} {ps : List Piece}

theorem of_lastGap (line : Nat) (h : LastGap last) : Decomposes line last [] last where
  text := rfl
  fits before p after he := by simp at he
  last := h

/-- A token in front of a text. -/
theorem token {t : Token} (h : Decomposes (line + t.text.toList.count '\n') cs ps last)
    (htext : t.text ≠ "") (hkind : t.kind ≠ .endOfFile) (hline : t.line = line)
    (hlongest : ∀ c ∈ cs.head?, t.takes c = false) :
    Decomposes line (t.text.toList ++ cs) (⟨[], t⟩ :: ps) last where
  text := by simp [h.text]
  fits before p after he := by
    cases before with
    | nil =>
      obtain ⟨rfl, rfl⟩ := List.cons.inj he
      exact ⟨.nil, htext, hkind, by simpa using hline, h.text ▸ hlongest⟩
    | cons q before =>
      obtain ⟨rfl, hps⟩ := List.cons.inj he
      obtain ⟨hgap, hne, hk, hl, hc⟩ := h.fits before p after hps
      refine ⟨hgap, hne, hk, ?_, hc⟩
      rw [hl]
      simp only [Piece.textOf_cons, List.nil_append, List.append_assoc, List.count_append]
      omega
  last := h.last

/-- A gap in front of a text becomes a part of its first gap. -/
theorem gap {g : List Char} (hg : Gap g) (h : Decomposes (line + g.count '\n') cs ps last) :
    ∃ ps' last', Decomposes line (g ++ cs) ps' last' ∧ ps'.map (·.token) = ps.map (·.token) := by
  cases ps with
  | nil =>
    refine ⟨[], g ++ last, ?_, rfl⟩
    rw [show cs = last from h.text]
    exact .of_lastGap line (.append hg h.last)
  | cons p ps =>
    refine ⟨⟨g ++ p.gap, p.token⟩ :: ps, last, ⟨by simp [h.text], ?_, h.last⟩, rfl⟩
    intro before q after he
    cases before with
    | nil =>
      obtain ⟨rfl, rfl⟩ := List.cons.inj he
      obtain ⟨hgap, hne, hk, hl, hc⟩ := h.fits [] p ps rfl
      refine ⟨hg.append hgap, hne, hk, ?_, hc⟩
      rw [hl]
      simp only [Piece.textOf_nil, List.nil_append, List.count_append]
      omega
    | cons r before =>
      obtain ⟨rfl, hps⟩ := List.cons.inj he
      obtain ⟨hgap, hne, hk, hl, hc⟩ := h.fits (p :: before) q after (by simp [hps])
      refine ⟨hgap, hne, hk, ?_, hc⟩
      rw [hl]
      simp only [Piece.textOf_cons, List.append_assoc, List.count_append]
      omega

end Decomposes

/-! ## The tokens of a text -/

/-- A text in whose decomposition the given tokens stand. -/
def Decomposed (line : Nat) (cs : List Char) (tokens : List Token) : Prop :=
  ∃ ps last, Decomposes line cs ps last ∧ ps.map (·.token) = tokens

theorem Decomposed.gap {line : Nat} {g cs : List Char} {tokens : List Token} (hg : Gap g)
    (h : Decomposed (line + g.count '\n') cs tokens) : Decomposed line (g ++ cs) tokens := by
  obtain ⟨ps, last, hd, rfl⟩ := h
  exact hd.gap hg

/-- **Nothing is lost** where a text is cut, if all that is cut out can be read. -/
theorem decomposed_cut {line : Nat} {cs : List Char} {last e : Int}
    (h : (Stream.ofLexemes last (Lexeme.cut line cs)).ending = .endOfFile e) :
    Decomposed line cs
      ((Stream.ofLexemes last (Lexeme.cut line cs)).items.map (·.token)) := by
  fun_induction Lexeme.cut line cs generalizing last with
  | case1 line => exact ⟨[], [], .of_lastGap line (.closed .nil), rfl⟩
  | case2 line c rest hc ih =>
    -- A blank, which may begin a new line.
    have hgap : Gap [c] := .blank (Lexeme.mem_blanks hc) .nil
    refine Decomposed.gap hgap ?_
    have hline : line + [c].count '\n' = if c = '\n' then line + 1 else line := by
      by_cases hn : c = '\n' <;> simp [hn]
    rw [hline]
    exact ih h
  | case3 line rest _ ih =>
    -- A comment, with all line breaks inside it. Only the last one can be unclosed.
    have hbody := Lexeme.not_mem_commentBody rest
    obtain he | ⟨he, hnone⟩ := Lexeme.comment_cases rest
    · have hgap : Gap ('\x7b' :: Lexeme.commentBody rest ++ ['\x7d']) := .comment hbody .nil
      have htext : '\x7b' :: rest =
          ('\x7b' :: Lexeme.commentBody rest ++ ['\x7d']) ++ Lexeme.afterComment rest := by
        conv_lhs => rw [he]
        simp
      have hcount : ('\x7b' :: Lexeme.commentBody rest ++ ['\x7d']).count '\n' =
          (Lexeme.commentBody rest).count '\n' := by
        simp
      rw [htext]
      refine Decomposed.gap hgap ?_
      rw [hcount]
      exact ih h
    · rw [hnone, Lexeme.cut]
      refine ⟨[], '\x7b' :: rest, .of_lastGap line ?_, rfl⟩
      exact .unclosed .nil (he ▸ hbody)
  | case4 line c rest _ _ piece =>
    -- A lexeme. It can be read, since the stream ends with the end of the text.
    rename_i ih
    rw [Stream.ofLexemes] at h ⊢
    cases hclass : piece.1.terminal.classify (String.ofList piece.1.text) line with
    | error fault =>
      rw [hclass] at h
      cases h
    | ok r =>
      rw [hclass] at h
      have hreads := Terminal.reads_of_classify hclass
      have hmakes := hreads.makes
      have htext : r.token.text.toList = piece.1.text := by
        rw [hreads.token_text, String.toList_ofList]
      obtain ⟨ps, gap, hd, hps⟩ := ih h
      rw [← htext] at hd
      refine ⟨⟨[], r.token⟩ :: ps, gap, ?_, by simp [hps]⟩
      -- The lexeme is as long as can be: the character after it cannot be added to it.
      rw [← Lexeme.take_append c rest, ← htext]
      refine hd.token ?_ hmakes.ne_endOfFile hreads.token_line fun d =>
        Lexeme.not_takes_of_take hmakes htext
      intro he
      exact Lexeme.take_text_ne_nil c rest (by rw [← htext, he]; rfl)

/-! ## Reading to the end -/

namespace Stream

/-- After its tokens a stream gives the end of the text for ever. -/
theorem take_of_endOfFile {s : Stream} {line : Int} (h : s.ending = .endOfFile line) (n : Nat) :
    (s.take (s.items.length + n)).fault = none ∧
      (s.take (s.items.length + n)).tokens =
        s.items.map (·.token) ++ List.replicate n (Token.endOfFile line) := by
  obtain ⟨items, ending⟩ := s
  obtain rfl : ending = .endOfFile line := h
  induction items with
  | nil =>
    simp only [List.length_nil, Nat.zero_add, List.map_nil, List.nil_append]
    induction n with
    | zero => exact ⟨rfl, rfl⟩
    | succ n ih => exact ⟨ih.1, congrArg (Token.endOfFile line :: ·) ih.2⟩
  | cons r items ih =>
    simp only [List.length_cons, Nat.succ_add, List.map_cons, List.cons_append]
    exact ⟨ih.1, congrArg (r.token :: ·) ih.2⟩

/-- A number that cannot be read is met when all tokens before it are read. -/
theorem fault_of_unreadable {s : Stream} {fault : Decimal.NumeralFault}
    (h : s.ending = .unreadable fault) : (s.take (s.items.length + 1)).fault = some fault := by
  obtain ⟨items, ending⟩ := s
  obtain rfl : ending = .unreadable fault := h
  induction items with
  | nil => rfl
  | cons r items ih => exact ih

/-- The line at the end of a text is that of its last token. -/
theorem ending_ofLexemes {last e : Int} {ls : List (Lexeme × Nat)}
    (h : (ofLexemes last ls).ending = .endOfFile e) :
    e = (((ofLexemes last ls).items.map (·.token)).getLast?.map (·.line)).getD last := by
  induction ls generalizing last with
  | nil =>
    cases h
    rfl
  | cons p ls ih =>
    obtain ⟨lexeme, line⟩ := p
    rw [ofLexemes] at h ⊢
    cases hclass : lexeme.terminal.classify (String.ofList lexeme.text) line with
    | error fault =>
      rw [hclass] at h
      cases h
    | ok r =>
      rw [hclass] at h
      rw [ih h, List.map_cons, List.getLast?_cons, ← (Terminal.reads_of_classify hclass).token_line]
      cases ((ofLexemes r.token.line ls).items.map (·.token)).getLast? <;> rfl

/-- All tokens are read where the end of the text comes after them and not before. -/
theorem tokens_drain {s : Stream} {line : Int} (h : s.ending = .endOfFile line)
    (hkinds : ∀ r ∈ s.items, r.token.kind ≠ .endOfFile) :
    s.drain.tokens = s.items.map (·.token) := by
  have hall : ∀ t ∈ s.items.map (·.token), (t.kind != .endOfFile) = true := by
    intro t ht
    obtain ⟨r, hr, rfl⟩ := List.mem_map.1 ht
    simpa using hkinds r hr
  obtain ⟨-, htokens⟩ := take_of_endOfFile h 1
  simp only [drain, htokens]
  rw [List.takeWhile_append_of_pos hall]
  simp [Token.endOfFile]

/-- **Nothing is lost, tokens are as long as they can be, and lines are counted by line feeds.** Let
all tokens of a program text be read without a fault. Then the text is made of these tokens, in
their order, and of gaps before and after them, of which only the last one may have a comment that
is not closed. No token is empty, none takes the character after it, and each has the line that
follows from the line feeds in front of it. After the last token, any number of further readings
gives the end of the text, with the line of that token, or line one if there is none. -/
theorem decomposes_ofSource (source : String) (h : (ofSource source).drain.fault = none) :
    ∃ ps last, Decomposes 1 source.toList ps last ∧
      ps.map (·.token) = (ofSource source).drain.tokens ∧
      ∀ n, ((ofSource source).take (ps.length + n)).fault = none ∧
        ((ofSource source).take (ps.length + n)).tokens =
          ps.map (·.token) ++
            List.replicate n (.endOfFile ((ps.getLast?.map (·.token.line)).getD 1)) := by
  cases hend : (ofSource source).ending with
  | unreadable fault =>
    have hfault := fault_of_unreadable hend
    rw [show (ofSource source).drain.fault = some fault from hfault] at h
    cases h
  | endOfFile e =>
    obtain ⟨ps, last, hd, hcut⟩ := decomposed_cut hend
    have hps : ps.map (·.token) = (ofSource source).items.map (·.token) := hcut
    have hkinds : ∀ r ∈ (ofSource source).items, r.token.kind ≠ .endOfFile := by
      intro r hr
      have hmem : r.token ∈ ps.map (·.token) := hps ▸ List.mem_map_of_mem hr
      obtain ⟨p, hp, hpr⟩ := List.mem_map.1 hmem
      obtain ⟨before, after, hsplit⟩ := List.append_of_mem hp
      exact hpr ▸ (hd.fits before p after hsplit).kind
    have hlength : ps.length = (ofSource source).items.length := by
      simpa using congrArg List.length hps
    have hline : e = (ps.getLast?.map (·.token.line)).getD 1 := by
      rw [ending_ofLexemes hend, ← hcut, List.getLast?_map, Option.map_map]
      rfl
    refine ⟨ps, last, hd, by rw [hps, tokens_drain hend hkinds], fun n => ?_⟩
    rw [hlength, hps, ← hline]
    exact take_of_endOfFile hend n

/-- A text with an error token, a quoted text over two lines, a number with two points, and a comment
that is not closed. -/
theorem decomposes_ofSource_unclosed :
    (ofSource "a1:=<> 'x\n''y'\x7b;\x7d\n 1.2.3?\x7bend").drain.fault = none ∧
    ∃ ps last, Decomposes 1 "a1:=<> 'x\n''y'\x7b;\x7d\n 1.2.3?\x7bend".toList ps last ∧
      ps.map (fun p => (p.token.text, p.token.line)) =
        [("a1", 1), (":=", 1), ("<>", 1), ("'x\n''y'", 1), ("1.2.3", 3), ("?", 3)] := by
  have h : (ofSource "a1:=<> 'x\n''y'\x7b;\x7d\n 1.2.3?\x7bend").drain.fault = none :=
    Option.isNone_iff_eq_none.1 (by decide +kernel)
  obtain ⟨ps, last, hd, htokens, -⟩ := decomposes_ofSource _ h
  refine ⟨h, ps, last, hd, ?_⟩
  have hmap := congrArg (List.map fun t : Token => (t.text, t.line)) htokens
  rw [List.map_map] at hmap
  refine Eq.trans hmap ?_
  decide +kernel

end Stream

end MiniPascal
