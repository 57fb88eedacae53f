import MiniPascal.Text.Lower

/-!
# Letter case

Strings have the same letters if they differ only in the case of the letters A to Z. Then they have
the same small form, over all of Unicode (`lower_eq`): whether a capital sigma ends a word does not
depend on the case of the letters around it.
-/

namespace MiniPascal

/-- Strings that differ only in the case of the letters A to Z. -/
def SameLetters (s t : String) : Prop := s.toList.map Char.toLower = t.toList.map Char.toLower

instance (s t : String) : Decidable (SameLetters s t) :=
  inferInstanceAs (Decidable (s.toList.map Char.toLower = t.toList.map Char.toLower))

theorem SameLetters.refl (s : String) : SameLetters s s := rfl

namespace Text

/-- A character is one of the 26 capitals, or its own small form. -/
theorem toLower_cases (c : Char) : c.toLower = c ∨ ∃ k < 26, c = Char.ofNat (65 + k) := by
  by_cases h : c.val ≥ 'A'.val ∧ c.val ≤ 'Z'.val
  · have hlow : 65 ≤ c.toNat := h.1
    have hhigh : c.toNat ≤ 90 := h.2
    exact .inr ⟨c.toNat - 65, by omega, by rw [Nat.add_sub_cancel' hlow, Char.ofNat_toNat]⟩
  · exact .inl (dif_neg h)

theorem toLower_capital : ∀ k < 26, (Char.ofNat (65 + k)).toLower = Char.ofNat (97 + k) := by
  decide

/-- What does not tell the 26 capitals from their small forms takes no notice of letter case. -/
theorem apply_toLower {α : Type} {f : Char → α}
    (h : ∀ k < 26, f (Char.ofNat (97 + k)) = f (Char.ofNat (65 + k))) (c : Char) :
    f c.toLower = f c := by
  obtain hc | ⟨k, hk, rfl⟩ := toLower_cases c
  · rw [hc]
  · rw [toLower_capital k hk, h k hk]

theorem apply_eq_of_toLower_eq {α : Type} {f : Char → α}
    (h : ∀ k < 26, f (Char.ofNat (97 + k)) = f (Char.ofNat (65 + k))) {c d : Char}
    (hcd : c.toLower = d.toLower) : f c = f d := by
  rw [← apply_toLower h c, hcd, apply_toLower h d]

/-- A code point with a letter in its small form. -/
def lowerPoint : CodePoint → CodePoint
  | .char c => .char c.toLower
  | .surrogate offset => .surrogate offset

theorem meetsCased_map (ps : List CodePoint) : meetsCased (ps.map lowerPoint) = meetsCased ps := by
  induction ps with
  | nil => rfl
  | cons p ps ih =>
    cases p with
    | surrogate offset => rfl
    | char c =>
      have hcased : isCased c.toLower = isCased c := apply_toLower (by decide) c
      have hignorable : isCaseIgnorable c.toLower = isCaseIgnorable c := apply_toLower (by decide) c
      simp only [List.map_cons, lowerPoint, meetsCased, hcased, hignorable, ih]

theorem lowerAt_map (before : List CodePoint) (c : Char) (after : List CodePoint) :
    lowerAt (before.map lowerPoint) c.toLower (after.map lowerPoint) = lowerAt before c after := by
  have hsigma : decide (c.toLower = 'Σ') = decide (c = 'Σ') :=
    apply_toLower (f := fun c => decide (c = 'Σ')) (by decide) c
  have hdotted : decide (c.toLower = 'İ') = decide (c = 'İ') :=
    apply_toLower (f := fun c => decide (c = 'İ')) (by decide) c
  have hlower : lowerChar c.toLower = lowerChar c := apply_toLower (by decide) c
  simp only [lowerAt, meetsCased_map, hlower, decide_eq_decide.1 hsigma, decide_eq_decide.1 hdotted]

theorem lowerFrom_map (before ps : List CodePoint) :
    lowerFrom (before.map lowerPoint) (ps.map lowerPoint) = lowerFrom before ps := by
  induction ps generalizing before with
  | nil => rfl
  | cons p ps ih =>
    have hrest := ih (p :: before)
    cases p with
    | char c =>
      simp only [List.map_cons, lowerPoint, lowerFrom, lowerAt_map] at hrest ⊢
      rw [hrest]
    | surrogate offset =>
      simp only [List.map_cons, lowerPoint, lowerFrom] at hrest ⊢
      rw [hrest]

/-- Strings with the same letters have the same small form. -/
theorem lower_eq {s t : String} (h : SameLetters s t) : lower s = lower t := by
  have hmap : ∀ u : String, (ofString u).toList.map lowerPoint =
      (u.toList.map Char.toLower).map .char := by
    intro u
    simp only [ofString, toList_ofList, List.map_map]
    rfl
  unfold lower
  rw [← lowerFrom_map, ← lowerFrom_map [] (ofString t).toList, hmap, hmap, h]

end Text

end MiniPascal
