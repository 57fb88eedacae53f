import MiniPascal.Proofs.Tree.Names
import MiniPascal.Table
import MiniPascal.Token.Basic

/-!
# Equality of values, tokens and trees

Reals are told apart by their representation, so equality of values can be decided, and so can
equality of tokens and of trees. This is finer than `Node.alike`, which compares numbers as programs
do.
-/

namespace MiniPascal

namespace Value

mutual

/-- Whether two values are the same. -/
def isSame : Value → Value → Bool
  | .null, .null => true
  | .bool a, .bool b => a == b
  | .int i, .int j => i == j
  | .real x, .real y => decide (x = y)
  | .text s, .text t => decide (s = t)
  | .list vs, .list ws => areSame vs ws
  | .object fs, .object gs => areSameFields fs gs
  | _, _ => false

/-- Whether two lists of values are the same. -/
def areSame : List Value → List Value → Bool
  | [], [] => true
  | v :: vs, w :: ws => v.isSame w && areSame vs ws
  | _, _ => false

/-- Whether two lists of fields are the same. -/
def areSameFields : List (Text × Value) → List (Text × Value) → Bool
  | [], [] => true
  | (s, v) :: fs, (t, w) :: gs => decide (s = t) && v.isSame w && areSameFields fs gs
  | _, _ => false

end

theorem isSame_iff (v w : Value) : v.isSame w = true ↔ v = w := by
  revert w
  -- Lists and fields have functions of their own, so each of them has its own hypothesis.
  refine @Value.rec (fun v => ∀ w, v.isSame w = true ↔ v = w)
    (fun vs => ∀ ws, areSame vs ws = true ↔ vs = ws)
    (fun fs => ∀ gs, areSameFields fs gs = true ↔ fs = gs)
    (fun f => ∀ w, f.2.isSame w = true ↔ f.2 = w)
    ?null ?bool ?int ?real ?text ?list ?object ?nil ?cons ?noField ?field ?pair v
  case null =>
    intro w
    cases w <;> simp [isSame]
  case bool | int | real | text =>
    intro a w
    cases w <;> simp [isSame]
  case list | object =>
    intro items ih w
    cases w <;> simp [isSame, ih]
  case nil =>
    intro ws
    cases ws <;> simp [areSame]
  case cons =>
    intro v vs ihv ihvs ws
    cases ws <;> simp [areSame, ihv, ihvs]
  case noField =>
    intro gs
    cases gs <;> simp [areSameFields]
  case field =>
    intro f fs ihf ihfs gs
    obtain ⟨s, v⟩ := f
    rcases gs with _ | ⟨⟨t, w⟩, gs⟩
    · simp [areSameFields]
    · have hv : v.isSame w = true ↔ v = w := ihf w
      simp [areSameFields, hv, ihfs, and_assoc]
  case pair =>
    intro s v ih
    exact ih

instance : DecidableEq Value := fun v w => decidable_of_iff _ (isSame_iff v w)

end Value

deriving instance DecidableEq for Cell
deriving instance DecidableEq for Table
deriving instance DecidableEq for Token

namespace Node

mutual

/-- Whether two trees are the same. -/
def isSame : Node → Node → Bool
  | ⟨kind, line, text, literal, children⟩, n =>
    decide (kind = n.kind) && decide (line = n.line) && decide (text = n.text) &&
      decide (literal = n.literal) && areSame children n.children

/-- Whether two lists of trees are the same. -/
def areSame : List Node → List Node → Bool
  | [], [] => true
  | m :: ms, n :: ns => m.isSame n && areSame ms ns
  | _, _ => false

end

theorem areSame_iff {ms : List Node} (h : ∀ m ∈ ms, ∀ n, m.isSame n = true ↔ m = n)
    (ns : List Node) : areSame ms ns = true ↔ ms = ns := by
  induction ms generalizing ns with
  | nil => cases ns <;> simp [areSame]
  | cons m ms ih =>
    cases ns with
    | nil => simp [areSame]
    | cons n ns => simp [areSame, h m (by simp) n, ih (fun k hk => h k (by simp [hk])) ns]

theorem isSame_iff (m n : Node) : m.isSame n = true ↔ m = n := by
  induction m using induct generalizing n with
  | h m ih =>
    have hchildren := areSame_iff ih n.children
    obtain ⟨kind, line, text, literal, children⟩ := m
    obtain ⟨kind', line', text', literal', children'⟩ := n
    simp only [isSame, Bool.and_eq_true, decide_eq_true_eq, hchildren, Node.mk.injEq, and_assoc]

instance : DecidableEq Node := fun m n => decidable_of_iff _ (isSame_iff m n)

end Node

end MiniPascal
