import MiniPascal.Token.Basic

/-!
# Lexemes

A program text is cut into lexemes with gaps between them. A gap is made of blanks and of comments
between braces; a comment without its closing brace runs to the end of the text.

A lexeme is as long as it can be: a word takes all following letters and digits, a number all
following digits and points, and a symbol of two characters is preferred to one of them alone. A
quoted text ends at the first quote that is not one of a pair; if there is none, it is not closed
and runs to the end of the text. Any other character is a lexeme alone.

**Nothing is lost** (`take_append`): a lexeme and what follows it make up the text it was cut from.
-/

namespace MiniPascal

/-- What a lexeme looks like. -/
inductive Terminal where
  | word
  | number
  | quotation
  | openQuotation
  | symbol (s : Symbol)
  | other
deriving Repr, DecidableEq, Inhabited

/-- The terminal of a name; an unknown name is none of the kinds that make a token. -/
def Terminal.ofName (name : String) : Terminal :=
  match name with
  | "WORD" => .word
  | "NUMBER" => .number
  | "STRING" => .quotation
  | "OPEN_STRING" => .openQuotation
  | name =>
    match Symbol.all.find? (·.name == name) with
    | some s => .symbol s
    | none => .other

/-- A piece of program text. -/
structure Lexeme where
  terminal : Terminal
  text : List Char
deriving Repr, DecidableEq, Inhabited

namespace Lexeme

/-- Blanks between lexemes. -/
def isBlank (c : Char) : Bool :=
  c == ' ' || c == '\t' || c == '\x0c' || c == '\r' || c == '\n'

/-- The characters that continue a number. -/
def isNumberPart (c : Char) : Bool := c.isDigit || c == '.'

/-- The rest of a quoted text after its opening quote, up to and with the closing one, and what
follows it. Quotes are taken in pairs; the first one left over closes the text. -/
def takeQuotation : List Char → Option (List Char × List Char)
  | [] => none
  | '\'' :: '\'' :: rest => (takeQuotation rest).map fun (body, r) => ('\'' :: '\'' :: body, r)
  | '\'' :: rest => some (['\''], rest)
  | c :: rest => (takeQuotation rest).map fun (body, r) => (c :: body, r)

/-- A symbol of one character, or a character that starts nothing. -/
def single (c : Char) : Lexeme :=
  match Symbol.ofChar? c with
  | some s => ⟨.symbol s, [c]⟩
  | none => ⟨.other, [c]⟩

/-- The lexeme that starts with a character, and what follows it. -/
def take (c : Char) (rest : List Char) : Lexeme × List Char :=
  if c.isAlpha then
    (⟨.word, c :: rest.takeWhile Char.isAlphanum⟩, rest.dropWhile Char.isAlphanum)
  else if c.isDigit then
    (⟨.number, c :: rest.takeWhile isNumberPart⟩, rest.dropWhile isNumberPart)
  else if c = '\'' then
    match takeQuotation rest with
    | some (body, r) => (⟨.quotation, c :: body⟩, r)
    | none => (⟨.openQuotation, c :: rest⟩, [])
  else
    match rest with
    | [] => (single c, [])
    | d :: r =>
      match Symbol.ofPair? c d with
      | some s => (⟨.symbol s, [c, d]⟩, r)
      | none => (single c, d :: r)

theorem append_of_takeQuotation {cs body r : List Char} (h : takeQuotation cs = some (body, r)) :
    body ++ r = cs := by
  fun_induction takeQuotation cs generalizing body with
  | case1 => simp at h
  | case2 rest ih =>
    obtain ⟨⟨b, q⟩, hb, he⟩ := Option.map_eq_some_iff.1 h
    simp only [Prod.mk.injEq] at he
    obtain ⟨rfl, rfl⟩ := he
    simp [ih hb]
  | case3 rest _ =>
    simp only [Option.some.injEq, Prod.mk.injEq] at h
    obtain ⟨rfl, rfl⟩ := h
    rfl
  | case4 c rest _ _ ih =>
    obtain ⟨⟨b, q⟩, hb, he⟩ := Option.map_eq_some_iff.1 h
    simp only [Prod.mk.injEq] at he
    obtain ⟨rfl, rfl⟩ := he
    simp [ih hb]

theorem single_text (c : Char) : (single c).text = [c] := by
  unfold single; split <;> rfl

/-- A lexeme and what follows it make up the text. -/
theorem take_append (c : Char) (rest : List Char) :
    (take c rest).1.text ++ (take c rest).2 = c :: rest := by
  unfold take
  split
  · simp [List.takeWhile_append_dropWhile]
  · split
    · simp [List.takeWhile_append_dropWhile]
    · split
      · split
        · next h => simp [append_of_takeQuotation h]
        · simp
      · split
        · simp [single_text]
        · split <;> simp [single_text]

theorem take_text_ne_nil (c : Char) (rest : List Char) : (take c rest).1.text ≠ [] := by
  unfold take
  split
  · simp
  · split
    · simp
    · split
      · split <;> simp
      · split
        · simp [single_text]
        · split <;> simp [single_text]

theorem length_take_lt (c : Char) (rest : List Char) :
    (take c rest).2.length < (c :: rest).length := by
  have h := congrArg List.length (take_append c rest)
  have hn := List.length_pos_iff.2 (take_text_ne_nil c rest)
  rw [List.length_append] at h
  omega

/-- What follows a comment, given the text after its opening brace. -/
def afterComment (cs : List Char) : List Char := (cs.dropWhile (· != '\x7d')).drop 1

/-- The text of a comment without its braces. -/
def commentBody (cs : List Char) : List Char := cs.takeWhile (· != '\x7d')

theorem length_afterComment_le (cs : List Char) : (afterComment cs).length ≤ cs.length := by
  have := (List.dropWhile_sublist (· != '\x7d') (l := cs)).length_le
  simp only [afterComment, List.length_drop]
  omega

/-- The lexemes of a text that starts on the given line, each with its line. -/
def cut (line : Nat) (cs : List Char) : List (Lexeme × Nat) :=
  match cs with
  | [] => []
  | c :: rest =>
    if isBlank c then cut (if c = '\n' then line + 1 else line) rest
    else if c = '\x7b' then cut (line + (commentBody rest).count '\n') (afterComment rest)
    else
      let piece := take c rest
      (piece.1, line) :: cut (line + piece.1.text.count '\n') piece.2
termination_by cs.length
decreasing_by
  · simp
  · exact Nat.lt_succ_of_le (length_afterComment_le rest)
  · exact length_take_lt c rest

end Lexeme

end MiniPascal
