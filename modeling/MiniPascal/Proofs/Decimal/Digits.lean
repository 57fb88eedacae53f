import Mathlib.Data.List.TakeWhile
import MiniPascal.Decimal.Numeral

/-!
# Number texts of plain digits

A number in a program is written with plain digits and points only: it has no blanks, no sign, no
underscores and no exponent.

**Integers are read up to a count of digits** (`readInteger_of_isDigit`), and this count is the only
thing that can be wrong with them.

**Reals are always read** (`readReal_point`): digits with one point after them or among them.

Integers are put out with plain digits too, after a minus if they are negative (`of_mem_integer`).
-/

namespace MiniPascal.Decimal

/-! ## Writing -/

theorem isDigit_of_mem_natural {n : Nat} {c : Char} (h : c ∈ (toString n).toList) :
    c.isDigit = true := by
  rw [Nat.toString_eq_ofList_toDigits, String.toList_ofList] at h
  exact Nat.isDigit_of_mem_toDigits (by decide) (by decide) h

/-- An integer is written with digits, and a minus where it is negative. -/
theorem of_mem_integer {n : Int} {c : Char} (h : c ∈ (toString n).toList) :
    c.isDigit = true ∨ c = '-' := by
  cases n with
  | ofNat n => exact .inl (isDigit_of_mem_natural (n := n) h)
  | negSucc n =>
    have hparts : c ∈ ("-" ++ toString (n + 1)).toList := h
    rw [String.toList_append, List.mem_append] at hparts
    obtain hminus | hdigits := hparts
    · exact .inr (by simpa using hminus)
    · exact .inl (isDigit_of_mem_natural hdigits)

/-! ## Reading -/

/-- A plain digit or a point. -/
def IsPlain (c : Char) : Prop := c.isDigit = true ∨ c = '.'

theorem toNat_of_isPlain {c : Char} (h : IsPlain c) : 46 ≤ c.toNat ∧ c.toNat ≤ 57 := by
  obtain h | rfl := h
  · obtain ⟨hl, hu⟩ := Bool.and_eq_true_iff.1 h
    exact ⟨Nat.le_trans (by decide) (of_decide_eq_true hl), of_decide_eq_true hu⟩
  · decide

theorem not_isBlank_of_isPlain {c : Char} (h : IsPlain c) : Text.isBlank c = false := by
  have := toNat_of_isPlain h
  simp only [Text.isBlank, Bool.or_eq_false_iff, Bool.and_eq_false_iff, decide_eq_false_iff_not,
    beq_eq_false_iff_ne]
  omega

theorem plainDigit_of_isPlain {c : Char} (h : IsPlain c) : Text.plainDigit c = c := by
  have := toNat_of_isPlain h
  rw [Text.plainDigit, if_pos (by omega)]

theorem ne_underscore_of_isPlain {c : Char} (h : IsPlain c) : c ≠ '_' := by
  rintro rfl
  exact absurd (toNat_of_isPlain h).2 (by decide)

theorem toLower_of_isPlain {c : Char} (h : IsPlain c) : c.toLower = c := by
  refine dif_neg fun hu => ?_
  have hle : 65 ≤ c.toNat := hu.1
  have := (toNat_of_isPlain h).2
  omega

theorem dropWhile_isBlank {cs : List Char} (h : ∀ c ∈ cs, IsPlain c) :
    cs.dropWhile Text.isBlank = cs := by
  refine List.dropWhile_eq_self_iff.2 fun hl => ?_
  rw [not_isBlank_of_isPlain (h _ (List.getElem_mem hl))]
  exact Bool.false_ne_true

section Plain

variable {cs : List Char} (h : ∀ c ∈ cs, IsPlain c)

include h

theorem numeralChars_of_isPlain : numeralChars (String.ofList cs) = cs := by
  have hreverse : ∀ c ∈ cs.reverse, IsPlain c := fun c hc => h c (List.mem_reverse.1 hc)
  simp only [numeralChars, String.toList_ofList, dropWhile_isBlank h, dropWhile_isBlank hreverse,
    List.reverse_reverse]
  rw [List.map_congr_left fun c hc => plainDigit_of_isPlain (h c hc), List.map_id']

theorem dropUnderscores_of_isPlain {previous : Char} (hp : previous ≠ '_') :
    dropUnderscores previous cs = some cs := by
  induction cs generalizing previous with
  | nil => simp [dropUnderscores, hp]
  | cons c cs ih =>
    have hc := ne_underscore_of_isPlain (h c (by simp))
    have hcs := ih (fun d hd => h d (by simp [hd])) hc
    simp [dropUnderscores, hc, hp, hcs]

theorem splitSign_of_isPlain : splitSign cs = (false, cs) := by
  cases cs with
  | nil => rfl
  | cons c cs =>
    have hc := toNat_of_isPlain (h c (by simp))
    unfold splitSign
    split
    · next heq => obtain ⟨rfl, -⟩ := List.cons.inj heq; exact absurd hc.1 (by decide)
    · next heq => obtain ⟨rfl, -⟩ := List.cons.inj heq; exact absurd hc.1 (by decide)
    · rfl

/-- A text of plain digits and points is no word for a real. -/
theorem readReal?_of_isPlain : readReal? (String.ofList cs) = unsignedDecimal? false cs := by
  -- All the words have a letter in common.
  have hletter : ∀ s ∈ ["inf", "infinity", "nan"], 'n' ∈ s.toList := by simp
  have hword : ∀ s ∈ ["inf", "infinity", "nan"], String.ofList (cs.map Char.toLower) ≠ s := by
    rintro s hs rfl
    have hmem := hletter _ hs
    rw [String.toList_ofList, List.map_congr_left fun c hc => toLower_of_isPlain (h c hc),
      List.map_id'] at hmem
    exact absurd (toNat_of_isPlain (h _ hmem)).2 (by decide)
  rw [readReal?, numeralChars_of_isPlain h,
    dropUnderscores_of_isPlain h (show ' ' ≠ '_' by decide)]
  simp only [Option.bind_eq_bind, Option.bind_some, splitSign_of_isPlain h]
  rw [if_neg, if_neg]
  · simpa using hword "nan" (by simp)
  · simpa [infinityWords] using And.intro (hword "inf" (by simp)) (hword "infinity" (by simp))

end Plain

/-- **Integers are read up to a count of digits.** -/
theorem readInteger_of_isDigit {cs : List Char} (h : ∀ c ∈ cs, c.isDigit = true) (hne : cs ≠ []) :
    readInteger (String.ofList cs) =
      if maxDigits < cs.length then .error (.tooManyDigits cs.length)
      else .ok (digitsValue cs : Int) := by
  have hplain : ∀ c ∈ cs, IsPlain c := fun c hc => .inl (h c hc)
  have htake : cs.takeWhile (fun c => c.isDigit || c == '_') = cs :=
    List.takeWhile_eq_self_iff.2 fun c hc => by simp [h c hc]
  have hany : (cs.any fun c => !(c.isDigit || c == '_')) = false :=
    List.any_eq_false.2 fun c hc => by simp [h c hc]
  simp only [readInteger, numeralChars_of_isPlain hplain, splitSign_of_isPlain hplain, htake,
    dropUnderscores_of_isPlain hplain (show ' ' ≠ '_' by decide), hany]
  simp [hne]

section Point

variable {whole fraction : List Char} (hw : ∀ c ∈ whole, c.isDigit = true)
  (hf : ∀ c ∈ fraction, c.isDigit = true)

include hw hf

theorem unsignedDecimal?_point (hne : whole ≠ []) :
    unsignedDecimal? false (whole ++ '.' :: fraction) =
      some (ofDecimal false (digitsValue (whole ++ fraction)) (-(fraction.length : Int))) := by
  have htake : (whole ++ '.' :: fraction).takeWhile Char.isDigit = whole := by
    rw [List.takeWhile_append_of_pos hw]
    simp
  have hdrop : (whole ++ '.' :: fraction).dropWhile Char.isDigit = '.' :: fraction := by
    rw [List.dropWhile_append_of_pos hw]
    simp
  have hfraction : fraction.takeWhile Char.isDigit = fraction := List.takeWhile_eq_self_iff.2 hf
  have htail : fraction.dropWhile Char.isDigit = [] := List.dropWhile_eq_nil_iff.2 hf
  simp only [unsignedDecimal?, htake, hdrop, hfraction, htail]
  simp [hne]

/-- **Reals are always read.** -/
theorem readReal_point (hne : whole ≠ []) :
    readReal (String.ofList (whole ++ '.' :: fraction)) =
      .ok (ofDecimal false (digitsValue (whole ++ fraction)) (-(fraction.length : Int))) := by
  have hplain : ∀ c ∈ whole ++ '.' :: fraction, IsPlain c := by
    intro c hc
    obtain hc | hc := List.mem_append.1 hc
    · exact .inl (hw c hc)
    · obtain rfl | hc := List.mem_cons.1 hc
      · exact .inr rfl
      · exact .inl (hf c hc)
  rw [readReal, Text.toString?_ofString, Option.bind_some, readReal?_of_isPlain hplain,
    unsignedDecimal?_point hw hf hne]

end Point

end MiniPascal.Decimal
