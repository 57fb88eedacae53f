/-!
# Texts

A text is a sequence of code points. Nearly all of them are characters. But an escape in a tree file
can name any code, so also one half of a surrogate pair without the other half; a text may hold such
a half, though no string and no file can.

**Strings are texts** (`toString?_ofString`): a string is a text without surrogates and can be had
back from it.
-/

namespace MiniPascal

/-- A code point of a text. -/
inductive CodePoint where
  | char (c : Char)
  /-- Half of a pair, standing alone; its code is counted from the first such code. -/
  | surrogate (offset : Fin 0x800)
deriving Repr, DecidableEq, Inhabited

namespace CodePoint

/-- The code of the first surrogate. -/
def firstSurrogate : Nat := 0xD800

/-- The code of a code point. -/
def code : CodePoint → Nat
  | .char c => c.toNat
  | .surrogate offset => firstSurrogate + offset.val

/-- The code point of a code. -/
def ofCode (n : Nat) : CodePoint :=
  if h : n - firstSurrogate < 0x800 ∧ firstSurrogate ≤ n then .surrogate ⟨n - firstSurrogate, h.1⟩
  else .char (Char.ofNat n)

/-- The character that a code point is, if it is one. -/
def char? : CodePoint → Option Char
  | .char c => some c
  | .surrogate _ => none

end CodePoint

/-- A sequence of code points. -/
structure Text where
  points : Array CodePoint := #[]
deriving Repr, DecidableEq, Inhabited

namespace Text

/-- The text of the given code points. -/
def ofList (ps : List CodePoint) : Text := ⟨ps.toArray⟩

/-- The code points of a text. -/
def toList (t : Text) : List CodePoint := t.points.toList

/-- A string as a text. -/
def ofString (s : String) : Text := ofList (s.toList.map .char)

instance : Coe String Text := ⟨ofString⟩

instance : Append Text := ⟨fun s t => ⟨s.points ++ t.points⟩⟩

/-- The count of code points. -/
def length (t : Text) : Nat := t.points.size

/-- Whether a text has no code points. -/
def isEmpty (t : Text) : Bool := t.points.isEmpty

/-- The string that a text is, if it holds no surrogate. -/
def toString? (t : Text) : Option String := (t.toList.mapM CodePoint.char?).map String.ofList

@[simp] theorem toList_append (s t : Text) : (s ++ t).toList = s.toList ++ t.toList :=
  Array.toList_append

theorem append_assoc (r s t : Text) : r ++ s ++ t = r ++ (s ++ t) :=
  congrArg Text.mk Array.append_assoc

theorem append_empty (t : Text) : t ++ ({} : Text) = t :=
  congrArg Text.mk Array.append_empty

theorem empty_append (t : Text) : ({} : Text) ++ t = t :=
  congrArg Text.mk Array.empty_append

@[simp] theorem toList_ofList (ps : List CodePoint) : (ofList ps).toList = ps := rfl

theorem mapM_char?_map (cs : List Char) :
    (cs.map CodePoint.char).mapM CodePoint.char? = some cs := by
  induction cs with
  | nil => rfl
  | cons c cs ih => simp [CodePoint.char?, ih]

theorem ofString_append (s t : String) : ofString (s ++ t) = ofString s ++ ofString t := by
  simp only [ofString, ofList, String.toList_append, List.map_append, ← List.append_toArray]
  rfl

/-- A string is found again from its text. -/
theorem toString?_ofString (s : String) : (ofString s).toString? = some s := by
  rw [toString?, ofString, toList_ofList, mapM_char?_map, Option.map_some, String.ofList_toList]

end Text

end MiniPascal
