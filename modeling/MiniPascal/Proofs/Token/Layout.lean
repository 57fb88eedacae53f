import Mathlib.Data.List.Forall2
import Mathlib.Data.Option.Defs
import MiniPascal.Proofs.Text.Letters
import MiniPascal.Proofs.Token.Classify

/-!
# Tokens up to layout and letter case

Two program texts can differ in their layout, and in the case of letters outside of quotes. Their
tokens then have the same kinds and values, and texts with the same letters, but other lines
(`Token.Alike`).

**Diagnostics follow from the tokens** (`Stream.alike_ofSource`). A token of a program text is read
with a diagnostic if it is an error token, and its first character tells of which problem. So if the
tokens of two program texts are alike, then so is what is reported when they are read.
-/

namespace MiniPascal

/-! ## What may differ -/

/-- Tokens that differ only in their lines and in letter case. -/
structure Token.Alike (t u : Token) : Prop where
  kind : t.kind = u.kind
  text : SameLetters t.text u.text
  literal : t.literal = u.literal

/-- Diagnostics of the same problem that differ only in their lines and in letter case. -/
structure Diagnostic.Alike (d e : Diagnostic) : Prop where
  problem : d.problem = e.problem
  text : SameLetters d.text e.text

theorem Token.Alike.diagnose {t u : Token} (h : t.Alike u) (p : Problem) :
    (t.diagnose p).Alike (u.diagnose p) :=
  ⟨rfl, h.text⟩

structure Reading.Alike (r q : Reading) : Prop where
  token : r.token.Alike q.token
  report : Option.Rel Diagnostic.Alike r.report q.report

inductive Ending.Alike : Ending → Ending → Prop
  | endOfFile (line line' : Int) : Alike (.endOfFile line) (.endOfFile line')
  | unreadable (fault fault' : Decimal.NumeralFault) :
      Alike (.unreadable fault) (.unreadable fault')

structure Stream.Alike (s t : Stream) : Prop where
  items : List.Forall₂ Reading.Alike s.items t.items
  ending : s.ending.Alike t.ending

inductive Event.Alike : Event → Event → Prop
  | read {t u : Token} : t.Alike u → Alike (.read t) (.read u)
  | report {d e : Diagnostic} : d.Alike e → Alike (.report d) (.report e)

theorem Reading.Alike.events {r q : Reading} (h : r.Alike q) :
    List.Forall₂ Event.Alike (Event.ofReading r) (Event.ofReading q) := by
  obtain ⟨token, report⟩ := r
  obtain ⟨token', report'⟩ := q
  obtain ⟨ht, hr⟩ := h
  cases hr with
  | none => exact .cons (.read ht) .nil
  | some hd => exact .cons (.report hd) (.cons (.read ht) .nil)

theorem Reading.Alike.isSome_report {r q : Reading} (h : r.Alike q) :
    r.report.isSome = q.report.isSome := by
  obtain ⟨token, report⟩ := r
  obtain ⟨token', report'⟩ := q
  obtain ⟨-, hr⟩ := h
  cases hr <;> rfl

theorem Reading.alike_endOfFile (line line' : Int) :
    Reading.Alike { token := .endOfFile line } { token := .endOfFile line' } :=
  ⟨⟨rfl, .refl _, rfl⟩, .none⟩

/-! ## The tokens of program texts -/

/-- The problem of an error token that starts with a character. -/
def Problem.ofFirst (c : Char) : Problem :=
  if c.isDigit then .invalidNumber
  else if c = '\'' then .stringNotClosed
  else .invalidToken

/-- The problem of an error token that a terminal can become. -/
def Terminal.problem? : Terminal → Option Problem
  | .number => some .invalidNumber
  | .openQuotation => some .stringNotClosed
  | .other => some .invalidToken
  | .word | .quotation | .symbol _ => none

/-- Either no diagnostic is made, or the text is an error token of the terminal's problem. -/
theorem Terminal.reading_of_classify {terminal : Terminal} {text : String} {line : Int}
    {r : Reading} (h : terminal.classify text line = .ok r) :
    r.token.kind ≠ .error ∧ r.report = none ∨
      ∃ p, terminal.problem? = some p ∧ r = .invalid p text line := by
  cases Terminal.reads_of_classify h with
  | invalidNumber | unclosed | other => exact .inr ⟨_, rfl, rfl⟩
  | _ => exact .inl ⟨by simp, rfl⟩

/-- The first character of a lexeme tells the problem that it can have. -/
theorem Lexeme.eq_ofFirst_of_take {c : Char} {rest : List Char} {p : Problem}
    (h : (take c rest).1.terminal.problem? = some p) : p = .ofFirst c := by
  have hsingle : ∀ (hd : ¬ c.isDigit = true) (hq : ¬ c = '\''),
      (single c).terminal.problem? = some p → p = .ofFirst c := by
    intro hd hq h
    unfold single at h
    split at h <;> simp_all [Terminal.problem?, Problem.ofFirst]
  unfold take at h
  split at h
  · cases h
  split at h
  · next hd => simp_all [Terminal.problem?, Problem.ofFirst]
  split at h
  · next hd hq =>
    split at h <;> simp_all [Terminal.problem?, Problem.ofFirst]
  next hd hq =>
  split at h
  · exact hsingle hd hq h
  · split at h
    · cases h
    · exact hsingle hd hq h

/-- A reading whose diagnostic follows from its token. -/
def Reading.Regular (r : Reading) : Prop :=
  r.token.kind ≠ .error ∧ r.report = none ∨
    ∃ c cs, r.token.text.toList = c :: cs ∧ r.token.kind = .error ∧
      r.report = some (r.token.diagnose (.ofFirst c))

theorem Reading.regular_ofSource (source : String) :
    ∀ r ∈ (Stream.ofSource source).items, r.Regular := by
  refine Stream.forall_ofSource (fun c rest line r hr => ?_) source
  obtain hr | ⟨p, hp, rfl⟩ := Terminal.reading_of_classify hr
  · exact .inl hr
  · obtain rfl := Lexeme.eq_ofFirst_of_take hp
    obtain ⟨cs, hcs⟩ : ∃ cs, (Lexeme.take c rest).1.text = c :: cs := by
      have happend := Lexeme.take_append c rest
      have hne := Lexeme.take_text_ne_nil c rest
      cases htext : (Lexeme.take c rest).1.text with
      | nil => exact absurd htext hne
      | cons d cs =>
        rw [htext, List.cons_append] at happend
        exact ⟨cs, by rw [(List.cons.inj happend).1]⟩
    exact .inr ⟨c, cs, by simp [Reading.invalid, hcs], rfl, rfl⟩

/-- The case of the first letter does not tell the problem. -/
theorem Reading.Regular.alike {r q : Reading} (hr : r.Regular) (hq : q.Regular)
    (h : r.token.Alike q.token) : r.Alike q := by
  refine ⟨h, ?_⟩
  obtain ⟨hkind, hreport⟩ | ⟨c, cs, htext, hkind, hreport⟩ := hr
  · obtain ⟨-, hreport'⟩ | ⟨_, _, _, hkind', _⟩ := hq
    · rw [hreport, hreport']
      exact .none
    · exact absurd (h.kind.trans hkind') hkind
  · obtain ⟨hkind', -⟩ | ⟨d, ds, htext', -, hreport'⟩ := hq
    · exact absurd (h.kind.symm.trans hkind) hkind'
    · have hletters := h.text
      rw [SameLetters, htext, htext'] at hletters
      have hproblem : Problem.ofFirst c = .ofFirst d :=
        Text.apply_eq_of_toLower_eq (by decide) (List.cons.inj hletters).1
      rw [hreport, hreport', hproblem]
      exact .some (h.diagnose _)

/-- Whether a stream goes on with the end of the text after its tokens. -/
def Stream.isEnded (s : Stream) : Bool :=
  match s.ending with
  | .endOfFile _ => true
  | .unreadable _ => false

theorem Stream.exists_of_isEnded {s : Stream} (h : s.isEnded = true) :
    ∃ line, s.ending = .endOfFile line := by
  unfold isEnded at h
  split at h
  · next line hs => exact ⟨line, hs⟩
  · cases h

/-- Streams whose tokens are alike and that end alike. -/
structure Stream.TokensAlike (s t : Stream) : Prop where
  tokens : List.Forall₂ Token.Alike (s.items.map (·.token)) (t.items.map (·.token))
  ending : s.ending.Alike t.ending

/-- Whether two values are the same number or text, or both nothing. No token of a program text has
another value. -/
def Value.isSameScalar : Value → Value → Bool
  | .null, .null => true
  | .int i, .int j => i == j
  | .real x, .real y => decide (x = y)
  | .text s, .text t => decide (s = t)
  | _, _ => false

theorem Value.eq_of_isSameScalar {v w : Value} (h : v.isSameScalar w = true) : v = w := by
  unfold isSameScalar at h
  split at h <;> simp_all

/-- A check for tokens that are alike. -/
def Token.isAlike (t u : Token) : Bool :=
  decide (t.kind = u.kind) && decide (SameLetters t.text u.text) && t.literal.isSameScalar u.literal

theorem Token.alike_of_isAlike {t u : Token} (h : t.isAlike u = true) : t.Alike u := by
  simp only [isAlike, Bool.and_eq_true, decide_eq_true_eq] at h
  exact ⟨h.1.1, h.1.2, Value.eq_of_isSameScalar h.2⟩

/-- A check for streams that end with the text and whose tokens are alike. -/
def Stream.isAlike (s t : Stream) : Bool :=
  List.all₂ Token.isAlike (s.items.map (·.token)) (t.items.map (·.token)) && s.isEnded && t.isEnded

theorem Stream.tokensAlike_of_isAlike {s t : Stream} (h : s.isAlike t = true) :
    s.TokensAlike t := by
  simp only [isAlike, Bool.and_eq_true, List.all₂_eq_true] at h
  refine ⟨h.1.1.imp fun _ _ => Token.alike_of_isAlike, ?_⟩
  obtain ⟨line, hs⟩ := exists_of_isEnded h.1.2
  obtain ⟨line', ht⟩ := exists_of_isEnded h.2
  rw [hs, ht]
  exact .endOfFile line line'

/-- If the tokens of two program texts are alike, then so are the diagnostics made with them. -/
theorem Stream.alike_ofSource {source source' : String}
    (h : (ofSource source).TokensAlike (ofSource source')) :
    (ofSource source).Alike (ofSource source') := by
  refine ⟨?_, h.ending⟩
  have hregular := Reading.regular_ofSource source
  have hregular' := Reading.regular_ofSource source'
  have htokens := List.forall₂_map_left_iff.1 (List.forall₂_map_right_iff.1 h.tokens)
  generalize (ofSource source).items = items at hregular htokens ⊢
  generalize (ofSource source').items = items' at hregular' htokens ⊢
  induction htokens with
  | nil => exact .nil
  | cons ht _ ih =>
    refine .cons ((hregular _ (by simp)).alike (hregular' _ (by simp)) ht) (ih ?_ ?_)
    · exact fun r hr => hregular r (by simp [hr])
    · exact fun r hr => hregular' r (by simp [hr])

end MiniPascal
