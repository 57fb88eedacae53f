import Mathlib.Data.List.Forall2
import MiniPascal.Proofs.Tree.Names

/-!
# Trees that are alike

Two trees can differ in ways that do not matter for what is asked of them. A `Likeness` says which
lines and which texts are alike. Trees resemble each other if they have the same kinds and constants
at the same places, and lines and texts that are alike.
-/

namespace MiniPascal

/-- In which ways two trees may differ. -/
structure Likeness where
  /-- Lines that are alike. -/
  line : Value → Value → Prop
  /-- Texts that are alike. -/
  text : Value → Value → Prop
  /-- Texts of variables that are alike. -/
  name : Value → Value → Prop

/-- Trees whose texts and lines are the same, and whose variables have a property. -/
def Likeness.same (known : Text → Prop) : Likeness where
  line := Eq
  text := Eq
  name v w := v = w ∧ ∀ name, v = .text name → known name

namespace Node

/-- Trees that differ only in ways of a likeness. -/
inductive Resembles (ρ : Likeness) : Node → Node → Prop
  | mk {kind : Kind} {line line' text text' literal : Value} {ns ns' : List Node} :
      ρ.line line line' → ρ.text text text' → (kind = .var → ρ.name text text') →
      List.Forall₂ (Resembles ρ) ns ns' →
      Resembles ρ ⟨kind, line, text, literal, ns⟩ ⟨kind, line', text', literal, ns'⟩

variable {ρ : Likeness} {n n' : Node}

theorem Resembles.kind (h : n.Resembles ρ n') : n.kind = n'.kind := by
  cases h; rfl

theorem Resembles.text (h : n.Resembles ρ n') : ρ.text n.text n'.text := by
  cases h; assumption

theorem Resembles.name (h : n.Resembles ρ n') (hk : n.kind = .var) : ρ.name n.text n'.text := by
  cases h with
  | mk _ _ hname => exact hname hk

theorem Resembles.children (h : n.Resembles ρ n') :
    List.Forall₂ (Resembles ρ) n.children n'.children := by
  cases h; assumption

/-- What holds of all trees of two lists that resemble each other. -/
theorem forall₂_of_resembles {P : Node → Node → Prop} {ns ns' : List Node}
    (h : List.Forall₂ (Resembles ρ) ns ns') (hP : ∀ c ∈ ns, ∀ c', c.Resembles ρ c' → P c c') :
    List.Forall₂ P ns ns' := by
  induction h with
  | nil => exact .nil
  | cons hc _ ih =>
    exact .cons (hP _ (by simp) _ hc) (ih fun c hmem => hP c (by simp [hmem]))

/-- A tree resembles itself, if the lines and the texts of its nodes are like themselves. -/
theorem resembles_refl (h : ∀ k ∈ n.walk, ρ.line k.line k.line ∧ ρ.text k.text k.text ∧
    (k.kind = .var → ρ.name k.text k.text)) : n.Resembles ρ n := by
  induction n using induct with
  | h n ih =>
    have hchildren : List.Forall₂ (Resembles ρ) n.children n.children :=
      List.forall₂_same.2 fun c hc =>
        ih c hc fun k hk => h k (mem_walk_of_child hc hk)
    obtain ⟨hline, htext, hname⟩ := h n self_mem_walk
    obtain ⟨kind, line, text, literal, children⟩ := n
    exact .mk hline htext hname hchildren

/-- A tree resembles itself, if its variables have the property. -/
theorem resembles_self {known : Text → Prop} (h : n.Names known) :
    n.Resembles (.same known) n :=
  resembles_refl fun k hk => ⟨rfl, rfl, fun hkind => ⟨rfl, h k hk hkind⟩⟩

/-- Trees whose texts and lines are the same are equal. -/
theorem Resembles.eq {known : Text → Prop} (h : n.Resembles (.same known) n') : n = n' := by
  induction n using induct generalizing n' with
  | h n ih =>
    have hchildren := forall₂_of_resembles h.children fun c hc c' => ih c hc
    cases h with
    | mk hline htext =>
      obtain rfl := hline
      obtain rfl := htext
      rw [List.forall₂_eq_eq_eq] at hchildren
      exact congrArg (Node.mk _ _ _ _) hchildren

end Node

end MiniPascal
