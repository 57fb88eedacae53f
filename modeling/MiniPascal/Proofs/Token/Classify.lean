import MiniPascal.Token.Stream

/-!
# The tokens of a program text

A program text is cut into lexemes, and each becomes a token by the way it looks. `Terminal.Reads`
lists all that can come of one, so that a fact about tokens needs one case for each.

**What holds of the token of every lexeme holds of the tokens of a program text**
(`Stream.forall_ofSource`).
-/

namespace MiniPascal

/-! ## Reading a lexeme -/

/-- What a text on a line is read as, where it looks like a terminal. -/
inductive Terminal.Reads (text : String) (line : Int) : Terminal → Reading → Prop
  | keyword (k : Keyword) : Reads text line .word { token := { kind := .keyword k, text, line } }
  | identifier : Reads text line .word { token := { kind := .identifier, text, line } }
  | integer (n : Int) :
      Reads text line .number { token := { kind := .integer, text, line, literal := .int n } }
  | real (x : Float) :
      Reads text line .number { token := { kind := .real, text, line, literal := .real x } }
  | invalidNumber : Reads text line .number (.invalid .invalidNumber text line)
  | character (inside : String) : Reads text line .quotation
      { token := { kind := .character, text, line, literal := .text inside } }
  | string (inside : String) : Reads text line .quotation
      { token := { kind := .string, text, line, literal := .text inside } }
  | unclosed : Reads text line .openQuotation (.invalid .stringNotClosed text line)
  | symbol (s : Symbol) :
      Reads text line (.symbol s) { token := { kind := .symbol s, text, line } }
  | other : Reads text line .other (.invalid .invalidToken text line)

namespace Terminal

variable {terminal : Terminal} {text : String} {line : Int} {r : Reading}

theorem reads_wordToken (text : String) (line : Int) :
    Reads text line .word { token := wordToken text line } := by
  unfold wordToken
  split
  · exact .keyword _
  · exact .identifier

theorem reads_quotationToken (text : String) (line : Int) :
    Reads text line .quotation { token := quotationToken text line } := by
  simp only [quotationToken]
  split
  · exact .character _
  · exact .string _

theorem reads_of_numberToken (h : numberToken text line = .ok r) : Reads text line .number r := by
  unfold numberToken at h
  split at h
  · cases hn : Decimal.readInteger text with
    | error fault => rw [hn] at h; cases h
    | ok n => rw [hn] at h; cases h; exact .integer n
  · cases hn : Decimal.readReal text with
    | error fault => rw [hn] at h; cases h
    | ok x => rw [hn] at h; cases h; exact .real x
  · cases h
    exact .invalidNumber

/-- A token is one of those that its terminal can become. -/
theorem reads_of_classify (h : terminal.classify text line = .ok r) :
    Reads text line terminal r := by
  cases terminal with
  | word => obtain rfl := Except.ok.inj h; exact reads_wordToken text line
  | number => exact reads_of_numberToken h
  | quotation => obtain rfl := Except.ok.inj h; exact reads_quotationToken text line
  | openQuotation => obtain rfl := Except.ok.inj h; exact .unclosed
  | symbol s => obtain rfl := Except.ok.inj h; exact .symbol s
  | other => obtain rfl := Except.ok.inj h; exact .other

/-- A token has the text that was cut out for it. -/
theorem Reads.token_text (h : Reads text line terminal r) : r.token.text = text := by
  cases h <;> rfl

/-- A token has the line that is given for it. -/
theorem Reads.token_line (h : Reads text line terminal r) : r.token.line = line := by
  cases h <;> rfl

end Terminal

/-! ## All tokens of a text -/

theorem Lexeme.exists_take_of_mem_cut {line : Nat} {cs : List Char} :
    ∀ p ∈ Lexeme.cut line cs, ∃ c rest, p.1 = (Lexeme.take c rest).1 := by
  fun_induction Lexeme.cut line cs with
  | case1 => simp
  | case2 _ _ _ _ ih | case3 _ _ _ ih => exact ih
  | case4 line c rest _ _ piece ih =>
    intro p hp
    obtain rfl | hp := List.mem_cons.1 hp
    · exact ⟨c, rest, rfl⟩
    · exact ih p hp

theorem Stream.forall_ofLexemes {P : Reading → Prop} {last : Int} {ls : List (Lexeme × Nat)}
    (h : ∀ p ∈ ls, ∀ r, p.1.terminal.classify (String.ofList p.1.text) p.2 = .ok r → P r) :
    ∀ r ∈ (Stream.ofLexemes last ls).items, P r := by
  induction ls generalizing last with
  | nil => intro r hr; cases hr
  | cons p ls ih =>
    obtain ⟨lexeme, line⟩ := p
    unfold Stream.ofLexemes
    split
    · intro r hr
      cases hr
    · next r hclass =>
      intro q hq
      obtain rfl | hq := List.mem_cons.1 hq
      · exact h (lexeme, line) (by simp) q hclass
      · exact ih (fun p hp => h p (by simp [hp])) q hq

/-- What holds of every token that a lexeme can become holds of the tokens of a program text. -/
theorem Stream.forall_ofSource {P : Reading → Prop}
    (h : ∀ c rest (line : Int) r, (Lexeme.take c rest).1.terminal.classify
      (String.ofList (Lexeme.take c rest).1.text) line = .ok r → P r) (source : String) :
    ∀ r ∈ (Stream.ofSource source).items, P r := by
  refine forall_ofLexemes fun p hp r hr => ?_
  obtain ⟨c, rest, hpiece⟩ := Lexeme.exists_take_of_mem_cut p hp
  rw [hpiece] at hr
  exact h c rest p.2 r hr

end MiniPascal
