/-!
# Capital letters

Reserved words are recognised by their capital form. Besides the small letters a to z, a few letters
and ligatures have a capital form made of the letters A to Z; every other character is left as it
is, which is enough to tell whether a text is a reserved word.
-/

namespace MiniPascal.Text

/-- The capital form of a character, as far as it is made of the letters A to Z. -/
def capitalForm (c : Char) : List Char :=
  if c.toNat < 128 then [c.toUpper]
  else match c with
    | 'ß' => ['S', 'S']
    | 'ı' => ['I']
    | 'ſ' => ['S']
    | 'ﬀ' => ['F', 'F']
    | 'ﬁ' => ['F', 'I']
    | 'ﬂ' => ['F', 'L']
    | 'ﬃ' => ['F', 'F', 'I']
    | 'ﬄ' => ['F', 'F', 'L']
    | 'ﬅ' => ['S', 'T']
    | 'ﬆ' => ['S', 'T']
    | c => [c]

/-- The text in capital letters, as far as they are the letters A to Z. -/
def capitals (s : String) : String := String.ofList (s.toList.flatMap capitalForm)

end MiniPascal.Text
