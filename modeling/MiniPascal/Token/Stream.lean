import MiniPascal.Token.Lexeme
import MiniPascal.Text.Capital
import MiniPascal.Decimal.Numeral

/-!
# Token streams

Each lexeme of a program becomes a token. A stream is the finite list of these tokens, after which
it gives the end of the text for ever. An error token comes with a diagnostic, which is made when
the token is read. An integer of too many digits is no token at all: reading it fails, and nothing
after it can be read.
-/

namespace MiniPascal

/-- A token, and the diagnostic made when it is read. -/
structure Reading where
  token : Token
  report : Option Diagnostic := none
deriving Inhabited

namespace Reading

/-- An error token with its diagnostic. -/
def invalid (problem : Problem) (text : String) (line : Int) : Reading :=
  let token : Token := { kind := .error, text, line }
  { token, report := some (token.diagnose problem) }

end Reading

/-- The reserved word a text is, in any letter case. -/
def Keyword.ofText? (text : String) : Option Keyword :=
  Keyword.all.find? (·.word == Text.capitals text)

/-- The inside of a quoted text, with every pair of quotes as one. -/
def unquote : List Char → List Char
  | '\'' :: '\'' :: rest => '\'' :: unquote rest
  | c :: rest => c :: unquote rest
  | [] => []

namespace Terminal

/-- The token of a word: a reserved word or an identifier. -/
def wordToken (text : String) (line : Int) : Token :=
  match Keyword.ofText? text with
  | some k => { kind := .keyword k, text, line }
  | none => { kind := .identifier, text, line }

/-- The token of a quoted text. -/
def quotationToken (text : String) (line : Int) : Token :=
  let inside := unquote (text.toList.drop 1).dropLast
  let kind := if inside.length = 1 then TokenKind.character else TokenKind.string
  { kind, text, line, literal := .text (String.ofList inside) }

/-- The token of a number: an integer without a point, a real with one. -/
def numberToken (text : String) (line : Int) : Except Decimal.NumeralFault Reading :=
  match text.toList.count '.' with
  | 0 => do
    let n ← Decimal.readInteger text
    return { token := { kind := .integer, text, line, literal := .int n } }
  | 1 => do
    let x ← Decimal.readReal text
    return { token := { kind := .real, text, line, literal := .real x } }
  | _ => return .invalid .invalidNumber text line

/-- The token of a text that looks like the terminal. -/
def classify (terminal : Terminal) (text : String) (line : Int) :
    Except Decimal.NumeralFault Reading :=
  match terminal with
  | .word => .ok { token := wordToken text line }
  | .number => numberToken text line
  | .quotation => .ok { token := quotationToken text line }
  | .openQuotation => .ok (.invalid .stringNotClosed text line)
  | .symbol s => .ok { token := { kind := .symbol s, text, line } }
  | .other => .ok (.invalid .invalidToken text line)

end Terminal

/-- How a stream goes on after its tokens. -/
inductive Ending where
  /-- With the end of the text, on the given line, for ever. -/
  | endOfFile (line : Int)
  /-- With a number that cannot be read. -/
  | unreadable (fault : Decimal.NumeralFault)
deriving Inhabited

/-- A stream of tokens. -/
structure Stream where
  items : List Reading
  ending : Ending
deriving Inhabited

namespace Stream

/-- The next token of a stream and what follows it. A number that cannot be read is never passed:
every further call gives its fault again, where a scanner whose caller caught the fault would go on
with the lexeme after it. -/
def next (s : Stream) : Except Decimal.NumeralFault (Reading × Stream) :=
  match s.items, s.ending with
  | r :: rest, _ => .ok (r, { s with items := rest })
  | [], .endOfFile line => .ok ({ token := .endOfFile line }, s)
  | [], .unreadable fault => .error fault

/-- The stream of lexemes, where `last` is the line of the lexeme before them. -/
def ofLexemes (last : Int) : List (Lexeme × Nat) → Stream
  | [] => { items := [], ending := .endOfFile last }
  | (lexeme, line) :: rest =>
    match lexeme.terminal.classify (String.ofList lexeme.text) line with
    | .error fault => { items := [], ending := .unreadable fault }
    | .ok r =>
      let s := ofLexemes line rest
      { s with items := r :: s.items }

/-- The stream of a program text. -/
def ofSource (source : String) : Stream := ofLexemes 1 (Lexeme.cut 1 source.toList)

/-- The stream of given tokens. It makes no diagnostics, and ends on the line of the last token. -/
def ofTokens (tokens : List Token) : Stream :=
  { items := tokens.map fun token => { token }
    ending := .endOfFile ((tokens.getLast?.map (·.line)).getD 1) }

end Stream

/-- What happens while tokens are read: a token was read, or a diagnostic was made. -/
inductive Event where
  | read (token : Token)
  | report (diagnostic : Diagnostic)
deriving Inhabited

namespace Event

/-- The diagnostic of an event. -/
def diagnostic? : Event → Option Diagnostic
  | .read _ => none
  | .report d => some d

/-- The events of reading a token: its diagnostic comes first. -/
def ofReading (r : Reading) : List Event :=
  match r.report with
  | none => [.read r.token]
  | some d => [.report d, .read r.token]

end Event

/-- What is known after a number of tokens were read: the tokens, the events, and the fault if one
could not be read. -/
structure Transcript where
  tokens : List Token := []
  events : List Event := []
  fault : Option Decimal.NumeralFault := none
deriving Inhabited

namespace Transcript

/-- The transcript with a reading put in front. -/
def cons (r : Reading) (t : Transcript) : Transcript :=
  { t with tokens := r.token :: t.tokens, events := Event.ofReading r ++ t.events }

/-- The diagnostics made. -/
def reports (t : Transcript) : List Diagnostic := t.events.filterMap Event.diagnostic?

end Transcript

namespace Stream

/-- Reads the given count of tokens. -/
def take (s : Stream) : Nat → Transcript
  | 0 => {}
  | n + 1 =>
    match s.next with
    | .error fault => { fault := some fault }
    | .ok (r, rest) => (rest.take n).cons r

/-- Reads up to the end of the text. The token at the end is an event, and not among the tokens. -/
def drain (s : Stream) : Transcript :=
  let all := s.take (s.items.length + 1)
  { all with tokens := all.tokens.takeWhile (·.kind != .endOfFile) }

end Stream

end MiniPascal
