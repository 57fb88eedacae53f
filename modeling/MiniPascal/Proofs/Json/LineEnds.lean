import MiniPascal.CommandLine.Command
import MiniPascal.Proofs.Decimal.Digits
import MiniPascal.Proofs.Text.Utf8

/-!
# Tree files keep their text

Reading a file unifies its line ends, which would change a text with a carriage return in it. The
indented layout has none (`Json.lineFed_writeIndented`): its lines end with line feeds, numbers are
made of digits and a few marks, and in strings a carriage return is escaped.

**A tree file is read as it was written** (`CommandLine.Command.sourceOf_writeIndented`).
-/

namespace MiniPascal

/-! ## Texts without carriage returns -/

/-- The text has no carriage return. -/
def LineFed (s : String) : Prop := '\r' ∉ s.toList

instance (s : String) : Decidable (LineFed s) := inferInstanceAs (Decidable (_ ∉ _))

namespace LineFed

theorem append {s t : String} (hs : LineFed s) (ht : LineFed t) : LineFed (s ++ t) := by
  rw [LineFed, String.toList_append, List.mem_append]
  exact not_or.2 ⟨hs, ht⟩

theorem ofList {cs : List Char} (h : '\r' ∉ cs) : LineFed (String.ofList cs) := by
  rwa [LineFed, String.toList_ofList]

theorem ite {p : Prop} [Decidable p] {s t : String} (hs : LineFed s) (ht : LineFed t) :
    LineFed (if p then s else t) := by
  split
  · exact hs
  · exact ht

end LineFed

/-! ## Numbers -/

theorem lineFed_natural (n : Nat) : LineFed (toString n) := fun h =>
  absurd (Decimal.isDigit_of_mem_natural h) (by decide)

theorem lineFed_integer (n : Int) : LineFed (toString n) := fun h =>
  absurd (Decimal.of_mem_integer h) (by decide)

namespace Decimal

theorem lineFed_zeros (n : Nat) : LineFed (zeros n) := by
  apply LineFed.ofList
  intro h
  exact absurd (List.eq_of_mem_replicate h) (by decide)

theorem lineFed_positional {digits : String} (h : LineFed digits) (point : Int) :
    LineFed (positional digits point) := by
  rw [positional]
  refine .ite ?_ (.ite ?_ ?_)
  · exact ((by decide : LineFed "0.").append (lineFed_zeros _)).append h
  · exact (h.append (lineFed_zeros _)).append (by decide)
  · have htake : '\r' ∉ digits.toList.take point.toNat := fun hc => h (List.mem_of_mem_take hc)
    have hdrop : '\r' ∉ digits.toList.drop point.toNat := fun hc => h (List.mem_of_mem_drop hc)
    exact ((LineFed.ofList htake).append (by decide)).append (.ofList hdrop)

theorem lineFed_exponentText (e : Int) : LineFed (exponentText e) := by
  have hdigits := lineFed_natural e.natAbs
  rw [exponentText]
  exact .append (.ite (by decide) (by decide)) (.ite (.append (by decide) hdigits) hdigits)

theorem lineFed_scientific {digits : String} (h : LineFed digits) (point : Int) :
    LineFed (scientific digits point) := by
  have hexponent := lineFed_exponentText (point - 1)
  rw [scientific]
  split
  · exact hexponent
  · next d hd =>
    rw [LineFed, hd] at h
    exact .append (.ofList h) hexponent
  · next d rest _ hd =>
    rw [LineFed, hd] at h
    refine .append (.ofList ?_) hexponent
    simp only [List.mem_cons, not_or] at h ⊢
    exact ⟨h.1, by decide, h.2⟩

theorem lineFed_text (x : Float) : LineFed (text x) := by
  have hlayout (digits : Nat) (exponent : Int) : LineFed (layout digits exponent) :=
    .ite (lineFed_positional (lineFed_natural _) _) (lineFed_scientific (lineFed_natural _) _)
  rw [text]
  split
  · decide
  · exact .ite (by decide) (by decide)
  · exact .ite (.append (.ite (by decide) (by decide)) (by decide))
      (.append (.ite (by decide) (by decide)) (hlayout _ _))

end Decimal

/-! ## The indented layout -/

namespace Json

theorem not_mem_hexDigits (width n : Nat) : '\r' ∉ Text.hexDigits width n := by
  induction width generalizing n with
  | zero => simp [Text.hexDigits]
  | succ width ih =>
    have hdigit : ∀ k < 16, '\r' ≠ Nat.digitChar k := by decide
    rw [Text.hexDigits, List.mem_append, List.mem_singleton]
    exact not_or.2 ⟨ih (n / 16), hdigit _ (Nat.mod_lt _ (by decide))⟩

theorem not_mem_escapePoint (p : CodePoint) : '\r' ∉ escapePoint p := by
  cases p with
  | surrogate offset =>
    simp only [escapePoint, List.mem_cons, not_or]
    exact ⟨by decide, by decide, not_mem_hexDigits _ _⟩
  | char c =>
    rw [escapePoint, escapeChar]
    by_cases hc : c = '\r'
    · subst hc
      decide
    · have hc' : '\r' ≠ c := Ne.symm hc
      have hhex := not_mem_hexDigits 4 c.toNat
      simp only [hc, if_false]
      repeat' split
      all_goals simp [hc', hhex]

theorem lineFed_stringText (t : Text) : LineFed (stringText t) := by
  apply LineFed.ofList
  simp only [List.mem_append, List.mem_cons, List.mem_flatMap, not_or, not_exists, not_and]
  exact ⟨⟨by decide, fun p _ => not_mem_escapePoint p⟩, by decide⟩

theorem lineFed_realText (x : Float) : LineFed (realText x) := by
  rw [realText]
  split
  · decide
  · exact .ite (by decide) (by decide)
  · exact Decimal.lineFed_text x

theorem lineFed_newLine (depth : Nat) : LineFed (newLine depth) := by
  apply LineFed.ofList
  simp only [List.mem_cons, List.mem_replicate, not_or, not_and]
  exact ⟨by decide, fun _ => by decide⟩

/-- The value adds no carriage return to the text before it. -/
def AddsNoReturn (v : Value) : Prop :=
  ∀ (depth : Nat) (out : String), LineFed out → LineFed (indentAfter depth out v)

theorem lineFed_indentItems {vs : List Value} (hvs : ∀ v ∈ vs, AddsNoReturn v) (depth : Nat)
    {out : String} (h : LineFed out) : LineFed (indentItems depth out vs) := by
  induction vs generalizing out with
  | nil =>
    rw [indentItems]
    exact h
  | cons v vs ih =>
    have hcomma : LineFed (out ++ "," ++ newLine depth) :=
      (h.append (by decide)).append (lineFed_newLine depth)
    rw [indentItems]
    exact ih (fun w hw => hvs w (by simp [hw])) (hvs v (by simp) depth _ hcomma)

theorem lineFed_indentFields {fs : List (Text × Value)} (hfs : ∀ f ∈ fs, AddsNoReturn f.2)
    (depth : Nat) {out : String} (h : LineFed out) : LineFed (indentFields depth out fs) := by
  induction fs generalizing out with
  | nil =>
    rw [indentFields]
    exact h
  | cons f fs ih =>
    obtain ⟨name, v⟩ := f
    have hnamed : LineFed (out ++ "," ++ newLine depth ++ stringText name ++ ": ") :=
      (((h.append (by decide)).append (lineFed_newLine depth)).append
        (lineFed_stringText name)).append (by decide)
    rw [indentFields]
    exact ih (fun g hg => hfs g (by simp [hg])) (hfs (name, v) (by simp) depth _ hnamed)

theorem addsNoReturn (v : Value) : AddsNoReturn v := by
  induction v using Value.induct with
  | null =>
    intro depth out h
    rw [indentAfter]
    exact h.append (by decide)
  | bool b =>
    intro depth out h
    rw [indentAfter]
    exact h.append (.ite (by decide) (by decide))
  | int n =>
    intro depth out h
    rw [indentAfter]
    exact h.append (lineFed_integer n)
  | real x =>
    intro depth out h
    rw [indentAfter]
    exact h.append (lineFed_realText x)
  | text t =>
    intro depth out h
    rw [indentAfter]
    exact h.append (lineFed_stringText t)
  | list items ih =>
    intro depth out h
    rcases items with _ | ⟨v, rest⟩
    · rw [indentAfter]
      exact h.append (by decide)
    -- The writer appends to what is written already, so each part is taken from the text before it.
    · have hopen : LineFed (out ++ "[" ++ newLine (depth + 1)) :=
        (h.append (by decide)).append (lineFed_newLine _)
      have hfirst := ih v (by simp) (depth + 1) _ hopen
      have hrest := lineFed_indentItems (fun w hw => ih w (.tail v hw)) (depth + 1) hfirst
      rw [indentAfter]
      exact (hrest.append (lineFed_newLine depth)).append (by decide)
  | object fields ih =>
    intro depth out h
    rcases fields with _ | ⟨⟨name, v⟩, rest⟩
    · rw [indentAfter]
      exact h.append (by decide)
    · have hopen : LineFed (out ++ "\x7b" ++ newLine (depth + 1) ++ stringText name ++ ": ") :=
        (((h.append (by decide)).append (lineFed_newLine _)).append
          (lineFed_stringText name)).append (by decide)
      have hfirst := ih (name, v) (by simp) (depth + 1) _ hopen
      have hrest := lineFed_indentFields (fun g hg => ih g (.tail _ hg)) (depth + 1) hfirst
      rw [indentAfter]
      exact (hrest.append (lineFed_newLine depth)).append (by decide)

theorem lineFed_writeIndented (v : Value) : LineFed (writeIndented v) :=
  addsNoReturn v 0 "" (by decide)

end Json

namespace CommandLine.Command

/-- A file without carriage returns is read as it was written. -/
theorem sourceOf_of_lineFed {s : String} (h : LineFed s) : sourceOf s.toUTF8.toList = .ok s := by
  rw [sourceOf, Text.decode_toUTF8]
  exact congrArg Except.ok (Text.unifyNewlines_eq_self h)

/-- **A tree file is read as it was written.** -/
theorem sourceOf_writeIndented (v : Value) :
    sourceOf (Json.writeIndented v).toUTF8.toList = .ok (Json.writeIndented v) :=
  sourceOf_of_lineFed (Json.lineFed_writeIndented v)

end CommandLine.Command

end MiniPascal
