import MiniPascal.Text.Quoted

/-!
# Text files

Files hold text as UTF-8 and may end their lines in three ways. `decode` reads the bytes of a file
and `unifyNewlines` turns every line end into a line feed. UTF-8 has no form for a surrogate;
`encode` gives the string that can be written for a text, or tells where its first surrogates are.

A character of several bytes starts with a byte that tells how many follow and, for some, narrows
the range of the second one. A fault spans the bytes from the start of the character up to the first
one that cannot belong to it, or to the end of the file.
-/

namespace MiniPascal.Text

/-- Why bytes are no text. -/
inductive ByteProblem where
  | invalidStart
  | invalidContinuation
  | endOfData
deriving Repr, DecidableEq

/-- The wording of a problem. -/
def ByteProblem.message : ByteProblem → String
  | .invalidStart => "invalid start byte"
  | .invalidContinuation => "invalid continuation byte"
  | .endOfData => "unexpected end of data"

/-- A problem with the bytes of a character: its first byte, where it starts, and how many bytes
could belong to it. -/
structure DecodeFault where
  problem : ByteProblem
  byte : Nat
  position : Nat
  length : Nat
deriving Repr, DecidableEq

/-- The wording of a fault. -/
def DecodeFault.message (f : DecodeFault) : String :=
  let place :=
    if f.length ≤ 1 then
      "byte 0x" ++ String.ofList (hexDigits 2 f.byte) ++ " in position " ++ toString f.position
    else
      "bytes in position " ++ toString f.position ++ "-" ++ toString (f.position + f.length - 1)
  "'utf-8' codec can't decode " ++ place ++ ": " ++ f.problem.message

/-- A character of which some bytes were read: its first byte, their count, the bits so far, how
many bytes are owed, and the range of the next one. -/
structure Unfinished where
  byte : Nat
  length : Nat
  code : Nat
  owed : Nat
  low : Nat
  high : Nat

/-- The character that a byte starts. -/
def startByte? (b : Nat) : Option Unfinished :=
  if b < 0x80 then some ⟨b, 1, b, 0, 0, 0⟩
  else if b < 0xC2 then none
  else if b < 0xE0 then some ⟨b, 1, b - 0xC0, 1, 0x80, 0xBF⟩
  else if b < 0xF0 then
    some ⟨b, 1, b - 0xE0, 2, if b = 0xE0 then 0xA0 else 0x80, if b = 0xED then 0x9F else 0xBF⟩
  else if b < 0xF5 then
    some ⟨b, 1, b - 0xF0, 3, if b = 0xF0 then 0x90 else 0x80, if b = 0xF4 then 0x8F else 0xBF⟩
  else none

/-- Decodes bytes from a position on; `pending` is a character that owes bytes and starts there, and
`done` holds the characters before it, last one first. -/
def decodeFrom (position : Nat) (pending : Option Unfinished) (done : List Char) :
    List UInt8 → Except DecodeFault (List Char)
  | [] =>
    match pending with
    | none => .ok done.reverse
    | some u => .error ⟨.endOfData, u.byte, position, u.length⟩
  | b :: rest =>
    match pending with
    | none =>
      match startByte? b.toNat with
      | none => .error ⟨.invalidStart, b.toNat, position, 1⟩
      | some u =>
        if u.owed = 0 then decodeFrom (position + 1) none (Char.ofNat u.code :: done) rest
        else decodeFrom position (some u) done rest
    | some u =>
      if b.toNat < u.low ∨ u.high < b.toNat then
        .error ⟨.invalidContinuation, u.byte, position, u.length⟩
      else
        let code := u.code * 64 + (b.toNat - 0x80)
        if u.owed = 1 then
          decodeFrom (position + u.length + 1) none (Char.ofNat code :: done) rest
        else
          decodeFrom position (some ⟨u.byte, u.length + 1, code, u.owed - 1, 0x80, 0xBF⟩) done rest

/-- The text that bytes hold. -/
def decode (bytes : List UInt8) : Except DecodeFault String :=
  (decodeFrom 0 none [] bytes).map String.ofList

/-- The first surrogates of a text: the code of the first one, where it is, and how many follow each
other there. -/
structure EncodeFault where
  code : Nat
  position : Nat
  length : Nat
deriving Repr, DecidableEq

/-- The wording of a fault. -/
def EncodeFault.message (f : EncodeFault) : String :=
  let place :=
    if f.length ≤ 1 then
      "character '" ++ String.ofList (codeEscape f.code) ++ "' in position " ++ toString f.position
    else
      "characters in position " ++ toString f.position ++ "-"
        ++ toString (f.position + f.length - 1)
  "'utf-8' codec can't encode " ++ place ++ ": surrogates not allowed"

/-- The first surrogates among code points. -/
def firstSurrogates (ps : List CodePoint) : EncodeFault :=
  let isChar (p : CodePoint) : Bool := p.char?.isSome
  let fromFirst := ps.dropWhile isChar
  { code := (fromFirst.headD default).code
    position := (ps.takeWhile isChar).length
    length := (fromFirst.takeWhile fun p => !isChar p).length }

/-- The string that a file holds for a text. -/
def encode (t : Text) : Except EncodeFault String :=
  match t.toString? with
  | some s => .ok s
  | none => .error (firstSurrogates t.toList)

/-- The text with every line end as one line feed. -/
def unifyLineEnds : List Char → List Char
  | '\r' :: '\n' :: rest => '\n' :: unifyLineEnds rest
  | '\r' :: rest => '\n' :: unifyLineEnds rest
  | c :: rest => c :: unifyLineEnds rest
  | [] => []

/-- The text with every line end as one line feed. -/
def unifyNewlines (s : String) : String := String.ofList (unifyLineEnds s.toList)

end MiniPascal.Text
