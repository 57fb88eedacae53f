import MiniPascal.Proofs.Decimal.Finite
import MiniPascal.Proofs.Execution.Store
import MiniPascal.Proofs.Parsing.Literals

/-!
# Types of expressions

Every operator asks for operands of a type and gives a value of a type (`Kind.signature?`). This
gives an expression a type before it is evaluated, or none (`Node.type?`).

**Types are kept** (`ensures_evaluate`). On a table of reals, an expression of a tree that was
parsed gives a value of its type, or fails at a division by zero or at an integer that is too large.
An expression without a type gives no value: it fails there as well, or at a value of a wrong type.

`Ensures I E Q p` says what a part of a run does from the machines with the property `I`: it keeps
that property, its results satisfy `Q` and its faults `E`.
-/

namespace MiniPascal

/-! ## Types -/

/-- The types of values that programs compute with. -/
inductive ValueType where
  | real
  | boolean
  | string
deriving Repr, DecidableEq

/-- The type of a value. -/
def Value.type? : Value → Option ValueType
  | .real _ => some .real
  | .bool _ => some .boolean
  | .text _ => some .string
  | _ => none

/-- The types of the operands of an expression of a kind, and its own type. -/
def Kind.signature? : Kind → Option (List ValueType × ValueType)
  | .var | .integer | .real => some ([], .real)
  | .string => some ([], .string)
  | .negate => some ([.real], .real)
  | .arithmetic _ => some ([.real, .real], .real)
  | .relation _ => some ([.real, .real], .boolean)
  | .not | .test => some ([.boolean], .boolean)
  | .connective _ => some ([.boolean, .boolean], .boolean)
  | _ => none

theorem Kind.isSome_signature? {kind : Kind} (h : kind.isExpression = true) :
    kind.signature?.isSome = true := by
  cases kind <;> first | rfl | cases h

namespace Node

mutual

/-- The type of an expression, if its operands are of the types that it asks for. -/
def type? : Node → Option ValueType
  | ⟨kind, _, _, _, children⟩ =>
    match kind.signature? with
    | none => none
    | some (operands, result) => if types children = operands.map some then some result else none

/-- The types of several expressions. -/
def types : List Node → List (Option ValueType)
  | [] => []
  | n :: rest => n.type? :: types rest

end

variable {n : Node} {operand left right : Node} {T U : ValueType}

theorem type?_eq_none (h : n.kind.signature? = none) : n.type? = none := by
  obtain ⟨kind, line, text, literal, children⟩ := n
  rw [type?, h]

theorem type?_leaf (hs : n.kind.signature? = some ([], U)) (hc : n.children = []) :
    n.type? = some U := by
  obtain ⟨kind, line, text, literal, children⟩ := n
  obtain rfl : children = [] := hc
  simp only [type?, hs, types, List.map_nil, if_pos]

/-- Every variable and every constant has a type. -/
theorem type?_of_leaf (h : n.WellShaped) (hs : n.kind.signature? = some ([], U)) :
    n.type? = some U := by
  obtain ⟨kind, line, text, literal, children⟩ := n
  cases h <;> first | exact type?_leaf hs rfl | simp [Kind.signature?] at hs

theorem type?_unary (hs : n.kind.signature? = some ([T], U)) (hc : n.children = [operand]) :
    n.type? = if operand.type? = some T then some U else none := by
  obtain ⟨kind, line, text, literal, children⟩ := n
  obtain rfl : children = [operand] := hc
  simp [type?, hs, types]

theorem type?_binary (hs : n.kind.signature? = some ([T, T], U)) (hc : n.children = [left, right]) :
    n.type? = if left.type? = some T ∧ right.type? = some T then some U else none := by
  obtain ⟨kind, line, text, literal, children⟩ := n
  obtain rfl : children = [left, right] := hc
  simp [type?, hs, types]

end Node


/-! ## Outcomes of parts of runs -/

namespace Execution

variable {α β : Type}

/-- From machines with the property `I`, results satisfy `Q` and leave a machine with `I`, and `E`
holds where a run stops. -/
def Ensures (I : Machine → Prop) (E : Stop → Prop) (Q : α → Prop) (p : Run α) : Prop :=
  ∀ m, I m →
    match p m with
    | .ok a m' => Q a ∧ I m'
    | .error e _ => E e

section Rules

variable {I : Machine → Prop} {E E' : Stop → Prop} {Q : α → Prop} {R : β → Prop}

theorem Ensures.of_ok {p : Run α} (h : Ensures I E Q p) {m m' : Machine} {a : α} (hm : I m)
    (he : p m = .ok a m') : Q a ∧ I m' := by
  have := h m hm
  rwa [he] at this

theorem Ensures.of_error {p : Run α} (h : Ensures I E Q p) {m m' : Machine} {e : Stop} (hm : I m)
    (he : p m = .error e m') : E e := by
  have := h m hm
  rwa [he] at this

theorem Ensures.pure {a : α} (h : Q a) : Ensures I E Q (Pure.pure a) := fun _ hm => ⟨h, hm⟩

theorem Ensures.raise {f : Fault} (h : E (.fault f)) :
    Ensures I E Q (Execution.raise f : Run α) :=
  fun _ _ => h

theorem Ensures.modify {g : Machine → Machine} (h : ∀ m, I m → I (g m)) :
    Ensures I E (fun _ => True) (modify g) := fun m hm => ⟨trivial, h m hm⟩

/-- Less is ensured where more is. -/
theorem Ensures.mono {p : Run α} {Q' : α → Prop} (h : Ensures I E' Q' p) (hE : ∀ e, E' e → E e)
    (hQ : ∀ a, Q' a → Q a) : Ensures I E Q p := by
  intro m hm
  have hp := h m hm
  cases he : p m with
  | ok a m' =>
    rw [he] at hp
    exact ⟨hQ a hp.1, hp.2⟩
  | error e m' =>
    rw [he] at hp
    exact hE e hp

theorem Ensures.bind {p : Run α} {f : α → Run β} (hp : Ensures I E Q p)
    (hf : ∀ a, Q a → Ensures I E R (f a)) : Ensures I E R (p >>= f) := by
  intro m hm
  have h := hp m hm
  rw [bind_apply]
  cases he : p m with
  | ok a m' =>
    rw [he] at h
    exact hf a h.1 m' h.2
  | error e m' =>
    rw [he] at h
    exact h

end Rules

/-! ## Notes -/

/-- A value that is displayed without surrogates. -/
def Shown (v : Value) : Prop := ∃ s : String, v.display = .ofString s

theorem shown_null : Shown .null := ⟨_, rfl⟩

theorem shown_int (i : Int) : Shown (.int i) := ⟨_, rfl⟩

theorem shown_string (s : String) : Shown (.text s) := ⟨s, rfl⟩

/-- The values that a note displays. -/
def Note.values : Note → List Value
  | .assigned target _ => [target]
  | .wrote _ => []
  | .decided line _ | .tested line _ | .unmatched line => [line]
  | .selected line branchLine => [line, branchLine]

/-- A note without surrogates, which every trace can hold. -/
def Note.Writable (n : Note) : Prop := ∃ s : String, n.message = .ofString s

/-- Everything else in a note is a string: what was written stands in it with escapes. -/
theorem Note.writable {n : Note} (h : ∀ v ∈ n.values, Shown v) : n.Writable := by
  cases n with
  | wrote text => exact ⟨_, (Text.ofString_append _ _).symm⟩
  | assigned v | decided v | tested v | unmatched v =>
    obtain ⟨s, hs⟩ := h v (by simp [values])
    exact ⟨_, by simp only [message, hs, ← Text.ofString_append]; rfl⟩
  | selected line branchLine =>
    obtain ⟨s, hs⟩ := h line (by simp [values])
    obtain ⟨t, ht⟩ := h branchLine (by simp [values])
    exact ⟨_, by simp only [message, hs, ht, ← Text.ofString_append]; rfl⟩

/-- Telling what can be written changes the notes, and the trace if that takes it. -/
theorem note_of_writable {n : Note} {s : String} (h : n.message = .ofString s) (m : Machine) :
    note n m = .ok () { m with
      notes := m.notes.push n
      trace := if n.level ≤ m.level then m.trace ++ s ++ "\n" else m.trace } := by
  have hencode : n.message.encode = .ok s := by
    rw [h, Text.encode, Text.toString?_ofString]
  have hget : (get : Run Machine) m = .ok m m := rfl
  unfold note
  rw [bind_apply, hget, hencode]
  dsimp only
  by_cases hl : (n.level : Int) ≤ m.level
  · rw [if_pos hl, if_pos hl]
    rfl
  · rw [if_neg hl, if_neg hl]
    rfl

/-! ## Machines of reals -/

/-- A machine on which a tree can run that was parsed into the table: it has the variables of that
table, and all variables hold reals. -/
structure Ready (table : Table) (m : Machine) : Prop where
  reals : m.table.Reals
  names : ∀ name, table.contains name = true → m.table.contains name = true

section Machines

variable {table : Table} {E : Stop → Prop}

theorem ensures_note {n : Note} (h : n.Writable) :
    Ensures (Ready table) E (fun _ => True) (note n) := by
  intro m hm
  obtain ⟨s, hs⟩ := h
  rw [note_of_writable hs]
  exact ⟨trivial, hm.reals, hm.names⟩

theorem ensures_readVariable {name : Text} (h : table.contains name = true) :
    Ensures (Ready table) E (fun v => v.type? = some .real) (readVariable (.text name)) := by
  intro m hm
  obtain ⟨x, hx⟩ := hm.reals.value (hm.names name h)
  rw [readVariable_apply, hx]
  exact ⟨rfl, hm⟩

end Machines

/-! ## Evaluation -/

end Execution

/-- The faults that come from computing with the right types, at the node itself. -/
inductive Node.Computes (n : Node) : Execution.Fault → Prop
  | division (line : Value) :
      n.kind = .arithmetic .divide → n.Computes (.divisionByZero line n.text)
  | tooLarge {i : Int} :
      n.kind = .integer → n.literal = .int i → Decimal.ofInt? i = none →
      n.Computes .integerTooLarge

namespace Execution

/-- How the evaluation of an expression can stop. -/
inductive EvaluationStop (n : Node) : Stop → Prop
  | computes {k : Node} {f : Fault} : k ∈ n.walk → k.Computes f → EvaluationStop n (.fault f)
  | wrongType {f : Fault} :
      n.type? = none → f.faultClass = .wrongType → EvaluationStop n (.fault f)

/-- The value has the type of the expression. -/
def OfType (n : Node) (v : Value) : Prop := ∃ T, n.type? = some T ∧ v.type? = some T

/-- The check lets the values of a type through, and no others. -/
structure Checks (T : ValueType) {α : Type} (check : Value → Except Fault α) : Prop where
  ok : ∀ v, v.type? = some T → ∃ a, check v = .ok a
  error : ∀ v, v.type? ≠ some T → ∃ f, check v = .error f ∧ f.faultClass = .wrongType

theorem checks_expectReal (site : Site) : Checks .real (expectReal · site) where
  ok v hv := by
    cases v <;> simp [Value.type?] at hv
    exact ⟨_, rfl⟩
  error v hv := by
    cases v <;> first | exact absurd rfl hv | exact ⟨_, rfl, rfl⟩

theorem checks_expectBoolean (site : Site) : Checks .boolean (expectBoolean · site) where
  ok v hv := by
    cases v <;> simp [Value.type?] at hv
    exact ⟨_, rfl⟩
  error v hv := by
    cases v <;> first | exact absurd rfl hv | exact ⟨_, rfl, rfl⟩

section Evaluation

variable {α β : Type} {table : Table} {n : Node}

/-- An expression is evaluated and its value checked. -/
theorem Ensures.checked {c : Node} {T : ValueType} {check : Value → Except Fault α} {f : α → Run β}
    {E : Stop → Prop} {Q : β → Prop} (hcheck : Checks T check)
    (h : Ensures (Ready table) (EvaluationStop c) (OfType c) (evaluate c))
    (hcomputes : ∀ k ∈ c.walk, ∀ g, k.Computes g → E (.fault g))
    (hwrong : c.type? ≠ some T → ∀ g, g.faultClass = .wrongType → E (.fault g))
    (hf : ∀ a, c.type? = some T → Ensures (Ready table) E Q (f a)) :
    Ensures (Ready table) E Q (evaluate c >>= fun v => orRaise (check v) >>= f) := by
  have hvalue : Ensures (Ready table) E (OfType c) (evaluate c) := by
    refine h.mono (fun e he => ?_) fun _ hv => hv
    cases he with
    | computes hk hg => exact hcomputes _ hk _ hg
    | wrongType hnone hg => exact hwrong (by simp [hnone]) _ hg
  refine hvalue.bind ?_
  rintro v ⟨U, hU, hv⟩
  by_cases hT : U = T
  · subst hT
    obtain ⟨a, ha⟩ := hcheck.ok v hv
    rw [ha]
    exact hf a hU
  · obtain ⟨g, hg, hclass⟩ := hcheck.error v (by simp [hv, hT])
    rw [hg]
    exact .raise (hwrong (by simp [hU, hT]) g hclass)

/-- If an operand does not pass its check, the expression has no type. -/
theorem Ensures.operand {c : Node} {T : ValueType} {check : Value → Except Fault α}
    {f : α → Run β} {Q : β → Prop} (hc : c ∈ n.children) (hcheck : Checks T check)
    (h : Ensures (Ready table) (EvaluationStop c) (OfType c) (evaluate c))
    (hn : c.type? ≠ some T → n.type? = none)
    (hf : ∀ a, c.type? = some T → Ensures (Ready table) (EvaluationStop n) Q (f a)) :
    Ensures (Ready table) (EvaluationStop n) Q
      (evaluate c >>= fun v => orRaise (check v) >>= f) := by
  refine .checked hcheck h (fun k hk g hg => ?_) (fun hT g hg => .wrongType (hn hT) hg) hf
  exact .computes (Node.mem_walk_of_child hc hk) hg

theorem Ensures.unary {c : Node} {T U : ValueType} {check : Value → Except Fault α}
    {f : α → Run β} {Q : β → Prop} (hs : n.kind.signature? = some ([T], U))
    (hc : n.children = [c]) (hcheck : Checks T check)
    (h : Ensures (Ready table) (EvaluationStop c) (OfType c) (evaluate c))
    (hf : ∀ a, n.type? = some U → Ensures (Ready table) (EvaluationStop n) Q (f a)) :
    Ensures (Ready table) (EvaluationStop n) Q
      (evaluate c >>= fun v => orRaise (check v) >>= f) := by
  have htype := Node.type?_unary hs hc
  refine .operand (by simp [hc]) hcheck h (fun hne => ?_) fun a hT => hf a ?_
  · rw [htype, if_neg hne]
  · rw [htype, if_pos hT]

theorem Ensures.binary {left right : Node} {T U : ValueType} {check : Value → Except Fault α}
    {f : α → α → Run β} {Q : β → Prop} (hs : n.kind.signature? = some ([T, T], U))
    (hc : n.children = [left, right]) (hcheck : Checks T check)
    (hl : Ensures (Ready table) (EvaluationStop left) (OfType left) (evaluate left))
    (hr : Ensures (Ready table) (EvaluationStop right) (OfType right) (evaluate right))
    (hf : ∀ a b, n.type? = some U → Ensures (Ready table) (EvaluationStop n) Q (f a b)) :
    Ensures (Ready table) (EvaluationStop n) Q
      (evaluate left >>= fun v => orRaise (check v) >>= fun a =>
        evaluate right >>= fun w => orRaise (check w) >>= f a) := by
  have htype := Node.type?_binary hs hc
  refine .operand (by simp [hc]) hcheck hl (fun hne => ?_) fun a hL => ?_
  · rw [htype, if_neg (mt And.left hne)]
  · refine .operand (by simp [hc]) hcheck hr (fun hne => ?_) fun b hR => hf a b ?_
    · rw [htype, if_neg (mt And.right hne)]
    · rw [htype, if_pos ⟨hL, hR⟩]

theorem ensures_calculate {op : Arithmetic} (hk : n.kind = .arithmetic op) (x y : Float) :
    Ensures (Ready table) (EvaluationStop n) (fun v => v.type? = some .real)
      (calculate op n.text x y) := by
  cases op with
  | add | subtract | multiply => exact .pure rfl
  | divide =>
    intro m hm
    rw [calculate_divide]
    by_cases hy : (y == 0.0) = true
    · rw [if_pos hy]
      exact .computes Node.self_mem_walk (.division _ hk)
    · rw [if_neg hy]
      exact ⟨rfl, hm⟩

/-- **Types are kept.** An expression of a tree that was parsed gives a value of its type, or has
one of the faults above. -/
theorem ensures_evaluate (hn : ∀ k ∈ n.walk, k.Parsed table)
    (hs : n.kind.signature?.isSome = true) :
    Ensures (Ready table) (EvaluationStop n) (OfType n) (evaluate n) := by
  induction n using Node.induct with
  | h n ih =>
    -- The shape gives the operands, the text of a literal its value, and the table each variable.
    obtain ⟨hshaped, htextual, hbound⟩ := hn n Node.self_mem_walk
    have value : ∀ c ∈ n.children, c.kind.isExpression = true →
        Ensures (Ready table) (EvaluationStop c) (OfType c) (evaluate c) := fun c hc he =>
      ih c hc (fun k hk => hn k (Node.mem_walk_of_child hc hk)) (Kind.isSome_signature? he)
    have hliteral := htextual.literal
    obtain ⟨kind, line, text, literal, children⟩ := n
    cases hshaped with
    | var =>
      obtain ⟨name, rfl, hname⟩ := hbound rfl
      rw [evaluate]
      exact (ensures_readVariable hname).mono (fun _ he => he) fun v hv =>
        ⟨.real, Node.type?_leaf rfl rfl, hv⟩
    | string =>
      obtain ⟨s, rfl⟩ := hliteral
      rw [evaluate]
      exact .pure ⟨.string, Node.type?_leaf rfl rfl, rfl⟩
    | integer =>
      obtain ⟨i, rfl⟩ := hliteral
      rw [evaluate, constantReal]
      -- An integer from the text can be beyond all reals.
      cases hi : Decimal.ofInt? i with
      | none => exact .raise (.computes Node.self_mem_walk (.tooLarge rfl rfl hi))
      | some x => exact .pure ⟨.real, Node.type?_leaf rfl rfl, rfl⟩
    | real =>
      obtain ⟨x, rfl⟩ := hliteral
      rw [evaluate]
      exact .pure ⟨.real, Node.type?_leaf rfl rfl, rfl⟩
    | test he =>
      obtain ⟨i, rfl⟩ := htextual.line
      rw [evaluate]
      refine .unary rfl rfl (checks_expectBoolean _) (value _ (by simp) he) fun b ht => ?_
      have hnote : (Note.tested (.int i) b).Writable :=
        Note.writable (by simp [Note.values, shown_int])
      exact (ensures_note hnote).bind fun _ _ => .pure ⟨.boolean, ht, rfl⟩
    | not he =>
      rw [evaluate]
      exact .unary rfl rfl (checks_expectBoolean _) (value _ (by simp) he) fun b ht =>
        .pure ⟨.boolean, ht, rfl⟩
    | negate he =>
      rw [evaluate]
      exact .unary rfl rfl (checks_expectReal _) (value _ (by simp) he) fun x ht =>
        .pure ⟨.real, ht, rfl⟩
    | connective hl hr =>
      rw [evaluate]
      exact .binary rfl rfl (checks_expectBoolean _) (value _ (by simp) hl) (value _ (by simp) hr)
        fun a b ht => .pure ⟨.boolean, ht, rfl⟩
    | relation hl hr =>
      rw [evaluate]
      exact .binary rfl rfl (checks_expectReal _) (value _ (by simp) hl) (value _ (by simp) hr)
        fun x y ht => .pure ⟨.boolean, ht, rfl⟩
    | arithmetic hl hr =>
      rw [evaluate]
      exact .binary rfl rfl (checks_expectReal _) (value _ (by simp) hl) (value _ (by simp) hr)
        fun x y ht => (ensures_calculate rfl x y).mono (fun _ he => he) fun v hv => ⟨.real, ht, hv⟩
    | _ => cases hs

end Evaluation

end Execution

end MiniPascal
