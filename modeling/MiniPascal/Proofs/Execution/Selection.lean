import MiniPascal.Proofs.Execution.Safety
import MiniPascal.Proofs.Tree.Equality

/-!
# Selections

A selection executes the statement of the first branch that has a constant of the type and the value
of its discriminant (`executeBranch_of_first`).

The constants are integers and characters, while the discriminant is a real or a Boolean: no
variable ever holds a character, and no operator makes one. So a character never matches, and a
Boolean matches nothing.

**Characters decide nothing** (`same_run`). A run is the same in all that it does if the characters
are deleted from the selections of the program, with the branches that are left without constants,
and if anything at all is put in place of the statements of selections by a Boolean.
-/

namespace MiniPascal

/-! ## Constants -/

/-- Values of one type that are equal. -/
inductive Value.Equals : Value → Value → Prop
  | real {x y : Float} : (x == y) = true → Equals (.real x) (.real y)
  | boolean (b : Bool) : Equals (.bool b) (.bool b)
  | string (s : Text) : Equals (.text s) (.text s)

theorem Value.Equals.type? {v w : Value} (h : v.Equals w) : v.type? = w.type? := by
  cases h <;> rfl

theorem Value.same_iff {v w : Value} {T U : ValueType} (hv : v.type? = some T)
    (hw : w.type? = some U) : v.same w = true ↔ v.Equals w := by
  constructor
  · intro h
    obtain ⟨hname, hequal⟩ := Bool.and_eq_true_iff.1 h
    cases v with
    | null | int | list | object => cases hv
    | bool a =>
      cases w with
      | bool b => cases a <;> cases b <;> first | exact .boolean _ | cases hequal
      | _ => first | cases hw; done | simp [typeName] at hname
    | real x =>
      cases w with
      | real y => exact .real hequal
      | _ => first | cases hw; done | simp [typeName] at hname
    | text s =>
      cases w with
      | text t =>
        obtain rfl : s = t := eq_of_beq hequal
        exact .string s
      | _ => first | cases hw; done | simp [typeName] at hname
  · intro h
    cases h with
    | real h => exact h
    | boolean b => cases b <;> rfl
    | string s => exact Bool.and_eq_true_iff.2 ⟨rfl, beq_self_eq_true s⟩

namespace Node

/-- The constants of a branch. -/
def constants (b : Node) : List Node :=
  match b.children with
  | [constants, _] => constants.children
  | _ => []

end Node

namespace Execution

variable {table : Table}

/-- A character is its own value. -/
theorem evaluate_string {c : Node} (hc : c.Parsed table) (hk : c.kind = .string) :
    ∃ s : Text, evaluate c = pure (.text s) := by
  have hliteral := hc.textual.literal
  obtain ⟨kind, line, text, literal, children⟩ := c
  obtain rfl : kind = .string := hk
  obtain ⟨s, rfl⟩ := hliteral
  exact ⟨s, by rw [evaluate]⟩

/-- An integer is a real, if it is not too large. -/
theorem evaluate_integer {c : Node} (hc : c.Parsed table) (hk : c.kind = .integer) :
    (∃ x : Float, evaluate c = pure (.real x)) ∨ evaluate c = raise .integerTooLarge := by
  have hliteral := hc.textual.literal
  obtain ⟨kind, line, text, literal, children⟩ := c
  obtain rfl : kind = .integer := hk
  obtain ⟨i, rfl⟩ := hliteral
  rw [evaluate, constantReal]
  cases Decimal.ofInt? i with
  | some x => exact .inl ⟨x, rfl⟩
  | none => exact .inr rfl

/-- A constant is a character or a real, on every machine, if it is not too large. -/
theorem evaluate_constant {c : Node} (hn : ∀ k ∈ c.walk, k.Parsed table) (hc : c.IsConstant) :
    (∃ s : Text, c.kind = .string ∧ evaluate c = pure (.text s)) ∨
      c.kind ≠ .string ∧
        ((∃ x : Float, evaluate c = pure (.real x)) ∨ evaluate c = raise .integerTooLarge) := by
  have hself := hn c Node.self_mem_walk
  obtain hk | hk | ⟨hk, d, hd, hdk⟩ := hc
  · exact .inr ⟨by simp [hk], evaluate_integer hself hk⟩
  · obtain ⟨s, hs⟩ := evaluate_string hself hk
    exact .inl ⟨s, hk, hs⟩
  · have hdparsed := hn d (Node.mem_walk_of_child (by simp [hd]) Node.self_mem_walk)
    refine .inr ⟨by simp [hk], ?_⟩
    obtain ⟨kind, line, text, literal, children⟩ := c
    obtain rfl : kind = .negate := hk
    obtain rfl : children = [d] := hd
    rw [evaluate]
    obtain ⟨x, hx⟩ | htoo := evaluate_integer hdparsed hdk
    · exact .inl ⟨-x, by rw [hx]; rfl⟩
    · exact .inr (by rw [htoo]; rfl)

/-- The parts of a branch that was parsed. -/
theorem branch_parts {b : Node} (hk : b.kind = .selectBranch) (hn : ∀ k ∈ b.walk, k.Parsed table) :
    ∃ constants statement, b.children = [constants, statement] ∧
      constants.kind = .selectConstants ∧ statement.kind.isStatement = true ∧
      ∀ c ∈ b.constants, c.IsConstant ∧ ∀ k ∈ c.walk, k.Parsed table := by
  have hself := hn b Node.self_mem_walk
  obtain ⟨kind, line, text, literal, children⟩ := b
  obtain rfl : kind = .selectBranch := hk
  cases hself.shaped with
  | @selectBranch constants statement hconstants hstatement =>
    refine ⟨constants, statement, rfl, hconstants, hstatement, fun c hc => ?_⟩
    have hmem : ∀ k ∈ constants.walk, k.Parsed table := fun k hk =>
      hn k (Node.mem_walk_of_child (by simp) hk)
    refine ⟨(hmem constants Node.self_mem_walk).shaped.constants hconstants c hc, ?_⟩
    exact fun k hk => hmem k (Node.mem_walk_of_child hc hk)

/-! ## The first match -/

/-- A constant has the type and the value of `v`. -/
def Matches (m : Machine) (v : Value) (c : Node) : Prop :=
  ∃ w m', evaluate c m = .ok w m' ∧ v.Equals w

section FirstMatch

variable {fuel : Nat} {line v : Value} {T : ValueType} {m : Machine}

/-- Constants that were parsed, and evaluate. -/
structure AreConstants (table : Table) (m : Machine) (cs : List Node) : Prop where
  constant : ∀ c ∈ cs, c.IsConstant
  parsed : ∀ c ∈ cs, ∀ k ∈ c.walk, k.Parsed table
  value : ∀ c ∈ cs, ∃ w m', evaluate c m = .ok w m'

theorem AreConstants.cons {c : Node} {cs : List Node} (h : AreConstants table m (c :: cs)) :
    (∃ w, evaluate c m = .ok w m ∧ ∃ U, w.type? = some U) ∧ AreConstants table m cs := by
  constructor
  · obtain ⟨w, m', hw⟩ := h.value c (by simp)
    obtain ⟨s, -, hs⟩ | ⟨-, ⟨x, hx⟩ | htoo⟩ :=
      evaluate_constant (h.parsed c (by simp)) (h.constant c (by simp))
    · exact ⟨.text s, by rw [hs]; rfl, _, rfl⟩
    · exact ⟨.real x, by rw [hx]; rfl, _, rfl⟩
    · rw [htoo] at hw
      cases hw
  · exact ⟨fun d hd => h.constant d (by simp [hd]), fun d hd => h.parsed d (by simp [hd]),
      fun d hd => h.value d (by simp [hd])⟩

theorem matchesAny_cons {c : Node} {w : Value} (hw : evaluate c m = .ok w m) (v : Value)
    (cs : List Node) :
    matchesAny v (c :: cs) m = if v.same w then .ok true m else matchesAny v cs m := by
  rw [matchesAny, bind_apply, hw]
  dsimp only
  split <;> rfl

theorem matchesAny_of_exists {cs : List Node} (hv : v.type? = some T)
    (h : AreConstants table m cs) (hmatch : ∃ c ∈ cs, Matches m v c) :
    matchesAny v cs m = .ok true m := by
  induction cs with
  | nil => simp at hmatch
  | cons c cs ih =>
    obtain ⟨⟨w, hw, U, hU⟩, hcs⟩ := h.cons
    rw [matchesAny_cons hw]
    split
    · rfl
    · next hne =>
      refine ih hcs ?_
      obtain ⟨d, hd, w', m', hw', he⟩ := hmatch
      obtain rfl | hd := List.mem_cons.1 hd
      · rw [hw] at hw'
        cases hw'
        exact absurd ((Value.same_iff hv hU).2 he) hne
      · exact ⟨d, hd, w', m', hw', he⟩

theorem matchesAny_of_forall_not {cs : List Node} (hv : v.type? = some T)
    (h : AreConstants table m cs) (hnone : ∀ c ∈ cs, ¬ Matches m v c) :
    matchesAny v cs m = .ok false m := by
  induction cs with
  | nil => rfl
  | cons c cs ih =>
    obtain ⟨⟨w, hw, U, hU⟩, hcs⟩ := h.cons
    rw [matchesAny_cons hw,
      if_neg fun he => hnone c (by simp) ⟨w, m, hw, (Value.same_iff hv hU).1 he⟩]
    exact ih hcs fun d hd => hnone d (by simp [hd])

/-- Branches of a selection that were parsed, with constants that evaluate. -/
structure AreBranches (table : Table) (m : Machine) (bs : List Node) : Prop where
  branch : ∀ b ∈ bs, b.kind = .selectBranch
  parsed : ∀ b ∈ bs, ∀ k ∈ b.walk, k.Parsed table
  value : ∀ b ∈ bs, ∀ c ∈ b.constants, ∃ w m', evaluate c m = .ok w m'

theorem AreBranches.constants {bs : List Node} (h : AreBranches table m bs) {b : Node}
    (hb : b ∈ bs) : AreConstants table m b.constants := by
  obtain ⟨_, _, -, -, -, hall⟩ := branch_parts (h.branch b hb) (h.parsed b hb)
  exact ⟨fun c hc => (hall c hc).1, fun c hc => (hall c hc).2, h.value b hb⟩

theorem executeBranch_cons {b constants statement : Node} (hb : b.children = [constants, statement])
    (fuel : Nat) (line v : Value) (bs : List Node) :
    executeBranch fuel line v (b :: bs) = matchesAny v b.constants >>= fun found =>
      if found then (do note (.selected line b.line); let _ ← visit fuel statement)
      else executeBranch fuel line v bs := by
  obtain ⟨kind, branchLine, text, literal, children⟩ := b
  obtain rfl : children = [constants, statement] := hb
  rw [executeBranch]
  rfl

/-- Branches without a match are passed over. -/
theorem executeBranch_of_forall_not {before : List Node} (hv : v.type? = some T)
    (h : AreBranches table m before)
    (hnone : ∀ b ∈ before, ∀ c ∈ b.constants, ¬ Matches m v c) (after : List Node) :
    executeBranch fuel line v (before ++ after) m = executeBranch fuel line v after m := by
  induction before with
  | nil => rfl
  | cons b before ih =>
    obtain ⟨constants, statement, hparts, -⟩ :=
      branch_parts (h.branch b (by simp)) (h.parsed b (by simp))
    rw [List.cons_append, executeBranch_cons hparts, bind_apply,
      matchesAny_of_forall_not hv (h.constants (by simp)) (hnone b (by simp))]
    exact ih ⟨fun d hd => h.branch d (by simp [hd]), fun d hd => h.parsed d (by simp [hd]),
      fun d hd => h.value d (by simp [hd])⟩ fun d hd => hnone d (by simp [hd])

/-- The first branch with a match is executed. -/
theorem executeBranch_of_first {before after : List Node} {b constants statement : Node}
    (hv : v.type? = some T) (h : AreBranches table m (before ++ b :: after))
    (hparts : b.children = [constants, statement]) (hmatch : ∃ c ∈ b.constants, Matches m v c)
    (hnone : ∀ d ∈ before, ∀ c ∈ d.constants, ¬ Matches m v c) :
    executeBranch fuel line v (before ++ b :: after) m =
      (do note (.selected line b.line); let _ ← visit fuel statement) m := by
  have hbefore : AreBranches table m before := ⟨fun d hd => h.branch d (by simp [hd]),
    fun d hd => h.parsed d (by simp [hd]), fun d hd => h.value d (by simp [hd])⟩
  rw [executeBranch_of_forall_not hv hbefore hnone, executeBranch_cons hparts, bind_apply,
    matchesAny_of_exists hv (h.constants (by simp)) hmatch]
  rfl

end FirstMatch

/-! ## What never matches -/

/-- No expression is a character. -/
theorem type?_ne_string {n : Node} (h : n.kind.isExpression = true) : n.type? ≠ some .string := by
  obtain ⟨kind, line, text, literal, children⟩ := n
  rw [Node.type?]
  cases kind <;> first | (cases h; done) | (simp only [Kind.signature?]; split <;> simp)

section Never

variable {fuel : Nat} {line v : Value} {m : Machine}

theorem not_matches_string {c : Node} (hc : c.Parsed table) (hk : c.kind = .string)
    (hv : v.type? ≠ some .string) : ¬ Matches m v c := by
  rintro ⟨w, m', hw, he⟩
  obtain ⟨s, hs⟩ := evaluate_string hc hk
  rw [hs] at hw
  cases hw
  exact hv he.type?

theorem same_eq_false {v w : Value} {T U : ValueType} (hv : v.type? = some T)
    (hw : w.type? = some U) (hne : T ≠ U) : v.same w = false := by
  refine Bool.eq_false_iff.2 fun h => hne ?_
  have ht := ((Value.same_iff hv hw).1 h).type?
  rw [hv, hw] at ht
  exact Option.some.inj ht

/-- A Boolean is none of the constants, but one of them may be too large. -/
theorem matchesAny_boolean (hv : v.type? = some .boolean) {cs : List Node}
    (hcs : ∀ c ∈ cs, c.IsConstant ∧ ∀ k ∈ c.walk, k.Parsed table) (m : Machine) :
    matchesAny v cs m = .ok false m ∨ matchesAny v cs m = .error (.fault .integerTooLarge) m := by
  induction cs with
  | nil => exact .inl rfl
  | cons c cs ih =>
    have hrest := ih fun d hd => hcs d (by simp [hd])
    obtain ⟨hc, hparsed⟩ := hcs c (by simp)
    obtain ⟨s, -, hs⟩ | ⟨-, ⟨x, hx⟩ | htoo⟩ := evaluate_constant hparsed hc
    · rw [matchesAny_cons (w := .text s) (by rw [hs]; rfl), same_eq_false hv rfl (by decide)]
      exact hrest
    · rw [matchesAny_cons (w := .real x) (by rw [hx]; rfl), same_eq_false hv rfl (by decide)]
      exact hrest
    · exact .inr (by rw [matchesAny, bind_apply, htoo]; rfl)

/-- A selection by a Boolean executes no branch. -/
theorem executeBranch_boolean (hv : v.type? = some .boolean) {bs : List Node}
    (hk : ∀ b ∈ bs, b.kind = .selectBranch) (hn : ∀ b ∈ bs, ∀ k ∈ b.walk, k.Parsed table)
    (m : Machine) :
    executeBranch fuel line v bs m = note (.unmatched line) m ∨
      executeBranch fuel line v bs m = .error (.fault .integerTooLarge) m := by
  induction bs with
  | nil => exact .inl (by rw [executeBranch])
  | cons b bs ih =>
    obtain ⟨_, _, hparts, -, -, hconstants⟩ := branch_parts (hk b (by simp)) (hn b (by simp))
    rw [executeBranch_cons hparts, bind_apply]
    obtain hm | hm := matchesAny_boolean hv hconstants m
    · rw [hm]
      exact ih (fun d hd => hk d (by simp [hd])) fun d hd => hn d (by simp [hd])
    · exact .inr (by rw [hm])

end Never

end Execution

/-! ## Deleting characters -/

namespace Node

/-- Whether all constants of a branch are characters. -/
def isCharacterBranch (b : Node) : Bool :=
  b.kind == .selectBranch && b.constants.all (·.kind == .string)

/-- Puts something in place of the statement of a branch. -/
def mapStatement (f : Node → Node) (b : Node) : Node :=
  match b.children with
  | [constants, statement] => { b with children := [constants, f statement] }
  | _ => b

mutual

/-- The tree without the characters in its selections, and without the branches that have no other
constants. The statements that are selected by a Boolean are put through `other` besides. -/
def trim (other : Node → Node) : Node → Node
  | ⟨kind, line, text, literal, children⟩ =>
    ⟨kind, line, text, literal,
      trimAll other kind (children.head?.bind type? == some .boolean) children⟩

/-- The children of a node of the given kind, which is perhaps a selection by a Boolean. -/
def trimAll (other : Node → Node) (parent : Kind) (byBoolean : Bool) : List Node → List Node
  | [] => []
  | n :: rest =>
    if parent == .selectConstants && n.kind == .string ||
        parent == .select && n.isCharacterBranch then
      trimAll other parent byBoolean rest
    else if parent == .select && byBoolean && n.kind == .selectBranch then
      (n.trim other).mapStatement other :: trimAll other parent byBoolean rest
    else n.trim other :: trimAll other parent byBoolean rest

end

variable (other : Node → Node)

@[simp] theorem trim_kind (n : Node) : (n.trim other).kind = n.kind := by
  cases n; rw [trim]

/-- Nothing is deleted from nodes that are neither selections nor lists of constants. -/
theorem trimAll_eq_map {parent : Kind} (hs : parent ≠ .select) (hc : parent ≠ .selectConstants)
    (byBoolean : Bool) (ns : List Node) :
    trimAll other parent byBoolean ns = ns.map (trim other) := by
  induction ns with
  | nil => rw [trimAll]; rfl
  | cons n ns ih => rw [trimAll, if_neg (by simp [hs, hc]), if_neg (by simp [hs]), ih]; rfl

/-- A node of another kind stays as it is if its children do. -/
theorem trim_eq_self {n : Node} (hs : n.kind ≠ .select) (hc : n.kind ≠ .selectConstants)
    (h : ∀ c ∈ n.children, c.trim other = c) : n.trim other = n := by
  obtain ⟨kind, line, text, literal, children⟩ := n
  rw [trim, trimAll_eq_map other hs hc]
  exact congrArg _ ((List.map_congr_left h).trans (List.map_id _))

end Node

namespace Execution

section Trimmed

variable {table : Table} (other : Node → Node)

theorem trim_of_isExpression {n : Node} (hn : ∀ k ∈ n.walk, k.Parsed table)
    (hk : n.kind.isExpression = true) : n.trim other = n := by
  induction n using Node.induct with
  | h n ih =>
    have hshaped := (hn n Node.self_mem_walk).shaped
    refine Node.trim_eq_self other ?_ ?_ fun c hc => ?_
    · intro he
      rw [he] at hk
      cases hk
    · intro he
      rw [he] at hk
      cases hk
    · exact ih c hc (fun k hk => hn k (Node.mem_walk_of_child hc hk))
        (Kind.Takes.isExpression hshaped hk c hc)

theorem trim_of_string {n : Node} (hn : n.Parsed table) (hk : n.kind = .string) :
    n.trim other = n := by
  have hshaped := hn.shaped
  obtain ⟨kind, line, text, literal, children⟩ := n
  obtain rfl : kind = .string := hk
  cases hshaped
  exact Node.trim_eq_self other (by simp) (by simp) (by simp)

theorem trim_constant {c : Node} (hn : ∀ k ∈ c.walk, k.Parsed table) (hc : c.IsConstant) :
    c.trim other = c := by
  obtain hk | hk | ⟨hk, -⟩ := hc
  · exact trim_of_isExpression other hn (by rw [hk]; rfl)
  · exact trim_of_string other (hn c Node.self_mem_walk) hk
  · exact trim_of_isExpression other hn (by rw [hk]; rfl)

theorem trimAll_constants {cs : List Node} (byBoolean : Bool)
    (hcs : ∀ c ∈ cs, c.IsConstant ∧ ∀ k ∈ c.walk, k.Parsed table) :
    Node.trimAll other .selectConstants byBoolean cs = cs.filter (·.kind != .string) := by
  induction cs with
  | nil => rw [Node.trimAll]; rfl
  | cons c cs ih =>
    obtain ⟨hc, hparsed⟩ := hcs c (by simp)
    have hrest := ih fun d hd => hcs d (by simp [hd])
    rw [Node.trimAll]
    by_cases hk : c.kind = .string
    · rw [if_pos (by simp [hk]), hrest, List.filter_cons_of_neg (by simp [hk])]
    · rw [if_neg (by simp [hk]), if_neg (by simp), hrest, trim_constant other hparsed hc,
        List.filter_cons_of_pos (by simpa using hk)]

/-- Characters are passed over in the search for a match. -/
theorem matchesAny_filter {v : Value} {T : ValueType} (hv : v.type? = some T) (hT : T ≠ .string)
    {cs : List Node} (hcs : ∀ c ∈ cs, c.IsConstant ∧ ∀ k ∈ c.walk, k.Parsed table) :
    matchesAny v (cs.filter (·.kind != .string)) = matchesAny v cs := by
  induction cs with
  | nil => rfl
  | cons c cs ih =>
    have hrest := ih fun d hd => hcs d (by simp [hd])
    by_cases hk : c.kind = .string
    · rw [List.filter_cons_of_neg (by simp [hk]), hrest]
      obtain ⟨s, hs⟩ := evaluate_string ((hcs c (by simp)).2 c Node.self_mem_walk) hk
      funext m
      rw [matchesAny_cons (w := .text s) (by rw [hs]; rfl), same_eq_false hv rfl hT]
      rfl
    · rw [List.filter_cons_of_pos (by simpa using hk), matchesAny, matchesAny, hrest]

end Trimmed

/-! ## Runs of trimmed trees -/

/-- Two parts of runs do the same from machines with a property, and keep it. -/
structure SameFrom {α : Type} (I : Machine → Prop) (Q : α → Prop) (p q : Run α) : Prop where
  ensures : Ensures I (fun _ => True) Q p
  eq : ∀ m, I m → q m = p m

section Rules

variable {α β : Type} {I : Machine → Prop} {E : Stop → Prop} {Q : α → Prop} {R : β → Prop}

theorem Ensures.same {p : Run α} (h : Ensures I E Q p) : SameFrom I Q p p where
  ensures := h.mono (fun _ _ => trivial) fun _ ha => ha
  eq _ _ := rfl

theorem SameFrom.pure {a : α} (h : Q a) : SameFrom I Q (Pure.pure a) (Pure.pure a) :=
  (Ensures.pure (E := fun _ => True) h).same

theorem SameFrom.raise (f : Fault) : SameFrom I Q (Execution.raise f) (Execution.raise f) :=
  ⟨fun _ _ => trivial, fun _ _ => rfl⟩

theorem SameFrom.orRaise (x : Except Fault α) :
    SameFrom I (fun _ => True) (Execution.orRaise x) (Execution.orRaise x) := by
  cases x with
  | ok a => exact .pure trivial
  | error f => exact .raise f

theorem SameFrom.bind {p q : Run α} {f g : α → Run β} (h : SameFrom I Q p q)
    (hf : ∀ a, Q a → SameFrom I R (f a) (g a)) : SameFrom I R (p >>= f) (q >>= g) where
  ensures := h.ensures.bind fun a ha => (hf a ha).ensures
  eq m hm := by
    rw [bind_apply, bind_apply, h.eq m hm]
    cases hp : p m with
    | ok a u =>
      obtain ⟨ha, hu⟩ := h.ensures.of_ok hm hp
      exact (hf a ha).eq u hu
    | error e u => rfl

end Rules

section Statements

variable {table : Table} {fuel : Nat} {other : Node → Node}

theorem same_setLine (line : Value) :
    SameFrom (Ready table) (fun _ => True) (setLine line) (setLine line) :=
  (ensures_setLine (E := fun _ => True) line).same

theorem same_note {n : Note} (h : n.Writable) :
    SameFrom (Ready table) (fun _ => True) (note n) (note n) :=
  (ensures_note (E := fun _ => True) h).same

/-- A visit does the same after the node is trimmed. -/
def SameVisit (table : Table) (fuel : Nat) (other : Node → Node) (n : Node) : Prop :=
  SameFrom (Ready table) (fun _ => True) (visit fuel n) (visit fuel (n.trim other))

theorem same_repeatPass {I : Machine → Prop} {pass pass' : Run Bool}
    (h : SameFrom I (fun _ => True) pass pass') (fuel : Nat) :
    SameFrom I (fun _ => True) (repeatPass fuel pass) (repeatPass fuel pass') := by
  induction fuel with
  | zero => exact ⟨fun _ _ => trivial, fun _ _ => rfl⟩
  | succ fuel ih =>
    rw [repeatPass, repeatPass]
    refine h.bind fun b _ => ?_
    cases b with
    | true => exact .pure trivial
    | false => exact ih

theorem same_executeAll {ns : List Node} (h : ∀ c ∈ ns, SameVisit table fuel other c) :
    SameFrom (Ready table) (fun _ => True) (executeAll fuel ns)
      (executeAll fuel (ns.map (Node.trim other))) := by
  induction ns with
  | nil => exact ⟨fun m hm => by rw [executeAll]; exact ⟨trivial, hm⟩, fun _ _ => rfl⟩
  | cons c ns ih =>
    rw [List.map_cons, executeAll, executeAll]
    exact (h c (by simp)).bind fun _ _ => ih fun d hd => h d (by simp [hd])

theorem same_runPass {ns : List Node} (h : ∀ c ∈ ns, SameVisit table fuel other c) :
    SameFrom (Ready table) (fun _ => True) (runPass fuel ns)
      (runPass fuel (ns.map (Node.trim other))) := by
  induction ns with
  | nil => exact ⟨fun m hm => by rw [runPass]; exact ⟨trivial, hm⟩, fun _ _ => rfl⟩
  | cons c ns ih =>
    have hc := h c (by simp)
    obtain ⟨kind, line, text, literal, children⟩ := c
    rw [SameVisit, Node.trim] at hc
    rw [List.map_cons, Node.trim, runPass, runPass]
    refine hc.bind fun v _ => ?_
    split
    · exact .pure trivial
    · exact ih fun d hd => h d (by simp [hd])

/-- There is a match only for a value that is no Boolean. -/
theorem ensures_matches {v : Value} {T : ValueType} (hv : v.type? = some T) {cs : List Node}
    (hcs : ∀ c ∈ cs, c.IsConstant ∧ ∀ k ∈ c.walk, k.Parsed table) :
    Ensures (Ready table) (fun _ => True) (fun found => found = true → T ≠ .boolean)
      (matchesAny v cs) := by
  have hready : Ensures (Ready table) (fun _ => True) (fun _ => True) (matchesAny v cs) := by
    refine ensures_matchesAny v fun c hc => ?_
    exact (ensures_constant (hcs c hc).2 (hcs c hc).1).mono (fun _ _ => trivial) fun _ hw => hw
  by_cases hT : T = .boolean
  · subst hT
    intro m hm
    obtain he | he := matchesAny_boolean hv hcs m <;> rw [he]
    exacts [⟨by simp, hm⟩, trivial]
  · exact hready.mono (fun _ he => he) fun _ _ _ => hT

/-- What is left of a branch. -/
theorem trim_branch (other : Node → Node) {b constants statement : Node}
    (hk : b.kind = .selectBranch) (hn : ∀ k ∈ b.walk, k.Parsed table)
    (hparts : b.children = [constants, statement]) :
    b.trim other = { b with children := [constants.trim other, statement.trim other] } ∧
      (constants.trim other).children = b.constants.filter (·.kind != .string) := by
  obtain ⟨_, _, hparts', hconstants, -, hall⟩ := branch_parts hk hn
  obtain ⟨rfl, rfl⟩ : constants = _ ∧ statement = _ := by simpa [hparts] using hparts'
  obtain ⟨kind, line, text, literal, children⟩ := b
  obtain rfl : kind = .selectBranch := hk
  obtain rfl : children = [constants, statement] := hparts
  obtain ⟨kind', line', text', literal', cs⟩ := constants
  obtain rfl : kind' = .selectConstants := hconstants
  constructor
  · rw [Node.trim, Node.trimAll_eq_map other (by simp) (by simp)]
    rfl
  · rw [Node.trim]
    exact trimAll_constants other _ hall

/-- A branch that is not deleted keeps the constants that can match. Its statement is put through
`other` only where there is no match. -/
theorem same_branch {b constants statement : Node} {v : Value} {T : ValueType} {byBoolean : Bool}
    (i : Int) (hk : b.kind = .selectBranch) (hn : ∀ k ∈ b.walk, k.Parsed table)
    (hparts : b.children = [constants, statement]) (hv : v.type? = some T) (hT : T ≠ .string)
    (hboolean : byBoolean = true → T = .boolean)
    (hstatement : SameVisit table fuel other statement) {bs bs' : List Node}
    (hrest : SameFrom (Ready table) (fun _ => True) (executeBranch fuel (.int i) v bs)
      (executeBranch fuel (.int i) v bs')) :
    SameFrom (Ready table) (fun _ => True) (executeBranch fuel (.int i) v (b :: bs))
      (executeBranch fuel (.int i) v
        ((if byBoolean then (b.trim other).mapStatement other else b.trim other) :: bs')) := by
  obtain ⟨_, _, -, -, -, hall⟩ := branch_parts hk hn
  obtain ⟨j, hline⟩ := (hn b Node.self_mem_walk).textual.line
  obtain ⟨htrim, hfilter⟩ := trim_branch other hk hn hparts
  -- What is left of the branch: its line, the constants that can match, and some statement.
  obtain ⟨b', statement', hb', hparts', hline', hconstants', hsame⟩ :
      ∃ b' statement',
        (if byBoolean then (b.trim other).mapStatement other else b.trim other) = b' ∧
        b'.children = [constants.trim other, statement'] ∧ b'.line = b.line ∧
        b'.constants = b.constants.filter (·.kind != .string) ∧
        (byBoolean = false → statement' = statement.trim other) := by
    rw [htrim]
    cases byBoolean with
    | false => exact ⟨_, _, rfl, rfl, rfl, hfilter, fun _ => rfl⟩
    | true => exact ⟨_, other (statement.trim other), rfl, rfl, rfl, hfilter, by simp⟩
  rw [hb', executeBranch_cons hparts, executeBranch_cons hparts', hconstants',
    matchesAny_filter hv hT hall, hline']
  refine (ensures_matches hv hall).same.bind fun found hfound => ?_
  cases found with
  | false => exact hrest
  | true =>
    have hfalse : byBoolean = false := Bool.eq_false_iff.2 fun hb => hfound rfl (hboolean hb)
    rw [hsame hfalse, hline]
    exact (same_note (Note.writable (by simp [Note.values, shown_int]))).bind fun _ _ =>
      hstatement.bind fun _ _ => .pure trivial

theorem same_executeBranch {v : Value} {T : ValueType} {byBoolean : Bool} (i : Int)
    (hv : v.type? = some T) (hT : T ≠ .string) (hboolean : byBoolean = true → T = .boolean)
    {bs : List Node} (hk : ∀ b ∈ bs, b.kind = .selectBranch)
    (hn : ∀ b ∈ bs, ∀ k ∈ b.walk, k.Parsed table)
    (hstatement : ∀ b ∈ bs, ∀ constants statement, b.children = [constants, statement] →
      SameVisit table fuel other statement) :
    SameFrom (Ready table) (fun _ => True) (executeBranch fuel (.int i) v bs)
      (executeBranch fuel (.int i) v (Node.trimAll other .select byBoolean bs)) := by
  induction bs with
  | nil =>
    rw [Node.trimAll, executeBranch]
    exact same_note (Note.writable (by simp [Note.values, shown_int]))
  | cons b bs ih =>
    have hrest := ih (fun d hd => hk d (by simp [hd])) (fun d hd => hn d (by simp [hd]))
      fun d hd => hstatement d (by simp [hd])
    obtain ⟨constants, statement, hparts, -, -, hconstants⟩ :=
      branch_parts (hk b (by simp)) (hn b (by simp))
    rw [Node.trimAll]
    by_cases hcharacters : b.isCharacterBranch = true
    · -- All constants are characters, so that there is no match.
      have hall : b.constants.filter (·.kind != .string) = [] := by
        rw [List.filter_eq_nil_iff]
        simpa [Node.isCharacterBranch, hk b (by simp)] using hcharacters
      have hnone : matchesAny v b.constants = pure false := by
        rw [← matchesAny_filter hv hT hconstants, hall, matchesAny]
      rw [if_pos (by simp [hcharacters]), executeBranch_cons hparts, hnone, pure_bind]
      exact hrest
    · rw [if_neg (by simp [hcharacters])]
      have hkind : (b.kind == .selectBranch) = true := by simp [hk b (by simp)]
      have hbranch := same_branch i (hk b (by simp)) (hn b (by simp)) hparts hv hT hboolean
        (hstatement b (by simp) _ _ hparts) hrest
      cases byBoolean <;> simpa [hkind] using hbranch

theorem same_cond {condition : Node} {branches : List Node} {E : Stop → Prop} (line : Int)
    (h : Ensures (Ready table) E (OfType condition) (evaluate condition))
    (hbranches : ∀ c ∈ branches, SameVisit table fuel other c) (text literal : Value) :
    SameFrom (Ready table) (fun _ => True)
      (execute fuel ⟨.cond, .int line, text, literal, condition :: branches⟩)
      (execute fuel
        ⟨.cond, .int line, text, literal, condition :: branches.map (Node.trim other)⟩) := by
  simp only [execute]
  refine (same_setLine _).bind fun _ _ => h.same.bind fun v _ => (SameFrom.orRaise _).bind
    fun b _ => (same_note (Note.writable (by simp [Note.values, shown_int]))).bind fun _ _ => ?_
  rcases branches with _ | ⟨first, _ | ⟨second, rest⟩⟩
  · cases b with
    | true => exact .raise _
    | false => exact .pure trivial
  · cases b with
    | true => exact (hbranches first (by simp)).bind fun _ _ => .pure trivial
    | false => exact .pure trivial
  · cases b with
    | true => exact (hbranches first (by simp)).bind fun _ _ => .pure trivial
    | false => exact (hbranches second (by simp)).bind fun _ _ => .pure trivial

theorem same_visit {n : Node} (fuel : Nat)
    (hk : (n.kind = .program ∨ n.kind.isStatement = true) ∨ n.kind = .test)
    (hn : ∀ k ∈ n.walk, k.Parsed table)
    (h : n.kind = .program ∨ n.kind.isStatement = true →
      SameFrom (Ready table) (fun _ => True) (execute fuel n) (execute fuel (n.trim other))) :
    SameVisit table fuel other n := by
  unfold SameVisit
  obtain hk | hk := hk
  · have hstatement := h hk
    obtain ⟨kind, line, text, literal, children⟩ := n
    have hvisited : (kind == .program || kind.isStatement) = true := by simpa using hk
    rw [Node.trim] at hstatement ⊢
    rw [visit, visit, if_pos hvisited, if_pos hvisited]
    exact hstatement.bind fun _ _ => .pure trivial
  · have htrim : n.trim other = n := by
      have hshaped := (hn n Node.self_mem_walk).shaped
      refine Node.trim_eq_self other (by simp [hk]) (by simp [hk]) fun c hc => ?_
      refine trim_of_isExpression other
        (fun k hmem => hn k (Node.mem_walk_of_child hc hmem)) ?_
      obtain ⟨kind, line, text, literal, children⟩ := n
      obtain rfl : kind = .test := hk
      cases hshaped with
      | test he => exact List.mem_singleton.1 hc ▸ he
    rw [htrim]
    refine (ensures_visit fuel (.inr hk) hn fun hs => ?_).same
    simp [hk, Kind.isStatement] at hs

/-- **Characters decide nothing.** -/
theorem same_execute {n : Node} (fuel : Nat) (hk : n.kind = .program ∨ n.kind.isStatement = true)
    (hn : ∀ k ∈ n.walk, k.Parsed table) :
    SameFrom (Ready table) (fun _ => True) (execute fuel n) (execute fuel (n.trim other)) := by
  -- The statements of a selection stand two levels below it, so the induction is on all nodes
  -- below.
  induction n using Node.inductBelow with
  | h n ih =>
    have parsed : ∀ c ∈ n.children, ∀ k ∈ c.walk, k.Parsed table := fun c hc k hk =>
      hn k (Node.mem_walk_of_child hc hk)
    have value : ∀ c ∈ n.children, c.kind.isExpression = true →
        Ensures (Ready table) (EvaluationStop c) (OfType c) (evaluate c) := fun c hc he =>
      ensures_evaluate (parsed c hc) (Kind.isSome_signature? he)
    have below : ∀ k ∈ Node.walkAll n.children, k.kind.isStatement = true ∨ k.kind = .test →
        SameVisit table fuel other k := by
      intro k hk hkind
      obtain ⟨c, hc, hkc⟩ := Node.mem_walkAll.1 hk
      have hparsed : ∀ j ∈ k.walk, j.Parsed table := fun j hj =>
        parsed c hc j (Node.mem_walk_trans hj hkc)
      exact same_visit fuel (hkind.imp_left .inr) hparsed fun hs => ih k hk hs hparsed
    have child : ∀ c ∈ n.children, c.kind.isStatement = true ∨ c.kind = .test →
        SameVisit table fuel other c :=
      fun c hc => below c (Node.mem_walkAll_self hc)
    -- Where there are only expressions below, nothing changes.
    have untouched : n.trim other = n → SameFrom (Ready table) (fun _ => True) (execute fuel n)
        (execute fuel (n.trim other)) := fun he => by
      rw [he]
      exact (ensures_execute fuel hk hn).same
    have expression : ∀ c ∈ n.children, c.kind.isExpression = true → c.trim other = c :=
      fun c hc he => trim_of_isExpression other (parsed c hc) he
    -- Neither the text nor the fields of a `WRITE` can hold a selection.
    have written : ∀ {argument : Node} {field : List Node}, n.children = argument :: field →
        argument.IsArgument → Node.IsField field → ∀ c ∈ n.children, c.trim other = c := by
      intro argument field hchildren hargument hfield c hc
      rw [hchildren] at hc
      obtain rfl | hmem := List.mem_cons.1 hc
      · obtain hvar | hstring := hargument
        · exact expression c (by simp [hchildren]) (by rw [hvar]; rfl)
        · exact trim_of_string other
            (parsed c (by simp [hchildren]) c Node.self_mem_walk) hstring
      · exact expression c (by simp [hchildren, hmem]) (by rw [hfield.2 c hmem]; rfl)
    obtain ⟨hshaped, htextual, -⟩ := hn n Node.self_mem_walk
    obtain ⟨kind, line, text, literal, children⟩ := n
    obtain ⟨i, rfl⟩ : ∃ i : Int, line = .int i := htextual.line
    cases hshaped with
    | @program body hb =>
      rw [Node.trim, Node.trimAll_eq_map other (by simp) (by simp), List.map_singleton, execute,
        execute]
      exact ih body (Node.mem_walkAll_self (by simp))
        (.inr (by rw [hb]; rfl)) (parsed body (by simp))
    | compound hs =>
      rw [Node.trim, Node.trimAll_eq_map other (by simp) (by simp)]
      simp only [execute]
      exact (same_setLine _).bind fun _ _ =>
        same_executeAll fun c hc => child c hc (.inl (hs c hc))
    | @assign target source ht he =>
      refine untouched (Node.trim_eq_self other (by simp) (by simp) fun c hc => ?_)
      obtain rfl | rfl : c = target ∨ c = source := by simpa using hc
      · exact expression c hc (by rw [ht]; rfl)
      · exact expression c hc he
    | loop hs =>
      rw [Node.trim, Node.trimAll_eq_map other (by simp) (by simp)]
      simp only [execute]
      exact (same_setLine _).bind fun _ _ =>
        same_repeatPass (same_runPass fun c hc => child c hc (hs c hc)) fuel
    | @ifThen condition first he hs =>
      rw [Node.trim, Node.trimAll_eq_map other (by simp) (by simp), List.map_cons,
        expression condition (by simp) he]
      refine same_cond i (value condition (by simp) he) ?_ _ _
      simpa using child first (by simp) (.inl hs)
    | @ifThenElse condition first second he hs hs' =>
      rw [Node.trim, Node.trimAll_eq_map other (by simp) (by simp), List.map_cons,
        expression condition (by simp) he]
      refine same_cond i (value condition (by simp) he) ?_ _ _
      simpa using ⟨child first (by simp) (.inl hs), child second (by simp) (.inl hs')⟩
    | @select discriminant branches he hb =>
      -- The discriminant is no branch, so only what follows it is trimmed.
      have hdiscriminant : discriminant.kind ≠ .selectBranch := by
        intro hkind
        rw [hkind] at he
        cases he
      rw [Node.trim, Node.trimAll, if_neg (by simp [Node.isCharacterBranch, hdiscriminant]),
        if_neg (by simp [hdiscriminant]), expression discriminant (by simp) he]
      simp only [execute]
      refine (same_setLine _).bind fun _ _ => (value discriminant (by simp) he).same.bind ?_
      rintro v ⟨T, hT, hv⟩
      -- Its type is never that of texts, which is why no character can match it.
      refine same_executeBranch i hv (fun h => type?_ne_string he (h ▸ hT)) (by simp [hT]) hb
        (fun b hmem => parsed b (by simp [hmem])) fun b hmem constants statement hparts => ?_
      have hbranch : b ∈ discriminant :: branches := by simp [hmem]
      have hself := parsed b hbranch b Node.self_mem_walk
      have hstatement : statement ∈ b.walk :=
        Node.mem_walk_of_child (by simp [hparts]) Node.self_mem_walk
      exact below statement (Node.mem_walkAll.2 ⟨b, hbranch, hstatement⟩)
        (.inl (hself.shaped.branch (hb b hmem) hparts).2)
    | write ha hf =>
      exact untouched (Node.trim_eq_self other (by simp) (by simp) (written rfl ha hf))
    | writelnBare => exact untouched (Node.trim_eq_self other (by simp) (by simp) (by simp))
    | writeln ha hf =>
      exact untouched (Node.trim_eq_self other (by simp) (by simp) (written rfl ha hf))
    | _ => simp [Kind.isStatement] at hk

/-- **Characters decide nothing**, in any run of a program that was parsed. -/
theorem same_run {n : Node} (fuel : Nat) (hn : ∀ k ∈ n.walk, k.Parsed table) {m : Machine}
    (hm : Ready table m) : run fuel (n.trim other) m = run fuel n m := by
  rw [run, run, Node.trim_kind]
  split
  · next hk =>
    exact ((same_visit fuel (.inl (.inl hk)) hn fun hs => same_execute fuel hs hn).bind
      fun _ _ => .pure trivial : SameFrom _ (fun _ => True) _ _).eq m hm
  · rfl

end Statements

/-! ## Programs -/

open Parsing (State Reaches Parses program parse? exists_of_parse?_any)

theorem ready_kept (table : Table) : KeptByRuns (Ready table) where
  trace _ h := ⟨h.reals, h.names⟩
  notes _ h := ⟨h.reals, h.names⟩
  line _ h := ⟨h.reals, h.names⟩
  output _ h := ⟨h.reals, h.names⟩
  set x h _ := ⟨h.reals.set _ x, fun other ho => by simpa using h.names other ho⟩

/-- A selection is made among its branches once the discriminant is known. -/
theorem execute_select {k discriminant : Node} {branches : List Node} {m m₁ : Machine} {v : Value}
    (hk : k.kind = .select) (hc : k.children = discriminant :: branches)
    (hv : evaluate discriminant { m with line := k.line } = .ok v m₁) (fuel : Nat) :
    execute fuel k m = executeBranch fuel k.line v branches m₁ := by
  obtain ⟨kind, line, text, literal, children⟩ := k
  obtain rfl : kind = .select := hk
  obtain rfl : children = discriminant :: branches := hc
  have hset : setLine line m = .ok () { m with line } := rfl
  simp only [execute]
  rw [bind_apply, hset]
  dsimp only
  rw [bind_apply, hv]

/-- **Selections take the first match, and characters match nothing.** Take any selection of a tree
that is parsed from a program text, on any machine whose variables are those of the tree and hold
reals, which every execution keeps so. If the discriminant has a value and all constants have one,
then the statement of the first branch with a constant of the same type and value is executed, and
no other, or nothing where there is none. No character ever matches, and no branch is executed for a
Boolean. So every run stays the same, in output, table and all else, if the characters are deleted
with the branches left without constants, whatever the statements selected by a Boolean become. -/
theorem parsed_selection {source : String} {table : Table} {strict : Bool} {s u t : State}
    {n : Node} (hs : State.start (.ofSource source) table strict = .ok s) (hu : Reaches s u)
    (hn : Parses u n t) :
    (∀ k ∈ n.walk, ∀ discriminant branches, k.kind = .select →
      k.children = discriminant :: branches → ∀ fuel m v m₁, Ready t.table m →
      evaluate discriminant { m with line := k.line } = .ok v m₁ →
      ((∀ b ∈ branches, ∀ c ∈ b.constants, ∃ w m', evaluate c m₁ = .ok w m') →
        (∀ before b after constants statement, branches = before ++ b :: after →
          b.children = [constants, statement] → (∃ c ∈ constants.children, Matches m₁ v c) →
          (∀ d ∈ before, ∀ c ∈ d.constants, ¬ Matches m₁ v c) →
          execute fuel k m =
            (do note (.selected k.line b.line); let _ ← visit fuel statement) m₁) ∧
        ((∀ b ∈ branches, ∀ c ∈ b.constants, ¬ Matches m₁ v c) →
          execute fuel k m = note (.unmatched k.line) m₁)) ∧
      (∀ b ∈ branches, ∀ c ∈ b.constants, c.kind = .string → ¬ Matches m₁ v c) ∧
      (v.type? = some .boolean → execute fuel k m = note (.unmatched k.line) m₁ ∨
        execute fuel k m = .error (.fault .integerTooLarge) m₁)) ∧
    (∀ k fuel m, Ready t.table m → Ready t.table (endOf (execute fuel k m))) ∧
    ∀ other fuel m, Ready t.table m → run fuel (n.trim other) m = run fuel n m := by
  have hparsed := hn.parsed hs hu
  refine ⟨?_, fun k fuel m hm => (ready_kept t.table).execute fuel k hm,
    fun other fuel m hm => same_run fuel hparsed hm⟩
  intro k hmem discriminant branches hk hc fuel m v m₁ hm hv
  rw [execute_select hk hc hv]
  have child : ∀ c ∈ discriminant :: branches, ∀ j ∈ c.walk, j.Parsed t.table := fun c hc' j hj =>
    hparsed j (Node.mem_walk_trans (Node.mem_walk_of_child (hc ▸ hc') hj) hmem)
  obtain ⟨hexpression, hbranch⟩ : discriminant.kind.isExpression = true ∧
      ∀ b ∈ branches, b.kind = .selectBranch := by
    have hshaped := (hparsed k hmem).shaped
    rw [Node.WellShaped, hk, hc] at hshaped
    cases hshaped with
    | select he hb => exact ⟨he, hb⟩
  have hbranches : ∀ b ∈ branches, ∀ j ∈ b.walk, j.Parsed t.table := fun b hb =>
    child b (by simp [hb])
  have hset : Ready t.table { m with line := k.line } := ⟨hm.reals, hm.names⟩
  -- The value of the discriminant has the type of the discriminant.
  obtain ⟨⟨T, hT, htype⟩, -⟩ := (ensures_evaluate (child discriminant (by simp))
    (Kind.isSome_signature? hexpression)).of_ok hset hv
  refine ⟨fun hvalues => ?_, fun b hb c hmem' hstring => ?_, fun hboolean => ?_⟩
  · have hare : AreBranches t.table m₁ branches := ⟨hbranch, hbranches, hvalues⟩
    constructor
    · rintro before b after constants statement rfl hparts hmatch hnone
      refine executeBranch_of_first htype hare hparts ?_ hnone
      rwa [Node.constants, hparts]
    · intro hnone
      -- All branches are passed, and the end of the list is reached.
      have hpassed : executeBranch fuel k.line v (branches ++ []) m₁ =
          executeBranch fuel k.line v [] m₁ := executeBranch_of_forall_not htype hare hnone []
      rw [List.append_nil] at hpassed
      rw [hpassed, executeBranch]
  · obtain ⟨_, _, -, -, -, hconstants⟩ := branch_parts (hbranch b hb) (hbranches b hb)
    refine not_matches_string ((hconstants c hmem').2 c Node.self_mem_walk) hstring ?_
    rw [htype, ← hT]
    exact type?_ne_string hexpression
  · exact executeBranch_boolean hboolean hbranch hbranches m₁

/-- An integer on the first line. -/
def integerOn1 (text : String) (i : Int) : Node where
  kind := .integer
  line := .int 1
  text := .text text
  literal := .int i

def storeInB (text : String) (i : Int) : Node where
  kind := .assign
  line := .int 1
  children := [{ kind := .var, line := .int 1, text := .text "b" }, integerOn1 text i]

/-- A selection with a branch for a character alone, one for a character or zero, and one for zero
again. -/
def zeroSelection : Node :=
  let character (text letter : String) : Node :=
    { kind := .string, line := .int 1, text := .text text, literal := .text letter }
  let branch (constants : List Node) (statement : Node) : Node :=
    { kind := .selectBranch, line := .int 1, children :=
      [{ kind := .selectConstants, line := .int 1, children := constants }, statement] }
  { kind := .select, line := .int 1, children := [
    { kind := .var, line := .int 1, text := .text "i" },
    branch [character "'x'" "x"] (storeInB "1" 1),
    branch [character "'y'" "y", integerOn1 "0" 0] (storeInB "2" 2),
    branch [integerOn1 "0" 0] (storeInB "3" 3)] }

/-- Zero is taken by the second branch, the first that has it as a constant. The character in front
of it goes with the first branch when characters are deleted. -/
theorem parsed_selection_zero :
    ∃ s n t,
      State.start (.ofSource
        "PROGRAM p; BEGIN CASE i OF 'x': b := 1; 'y', 0: b := 2; 0: b := 3 END END.") {} false =
        .ok s ∧
      program s = .ok n t ∧ t.problems = 0 ∧ zeroSelection ∈ n.walk ∧
      (∀ fuel, execute fuel zeroSelection { table := t.table } =
        (do note (.selected (.int 1) (.int 1)); let _ ← visit fuel (storeInB "2" 2))
          { table := t.table, line := .int 1 }) ∧
      (n.trim id).walk.length < n.walk.length ∧
      ∀ other fuel m, Ready t.table m → run fuel (n.trim other) m = run fuel n m := by
  have hparse : (parse? (.ofSource
      "PROGRAM p; BEGIN CASE i OF 'x': b := 1; 'y', 0: b := 2; 0: b := 3 END END.") {} false).any
        (fun p => decide (p.2.problems = 0 ∧ zeroSelection ∈ p.1.walk ∧
          (p.2.table.find? "i").map (·.value) = some (.real 0.0) ∧
          (p.1.trim id).walk.length < p.1.walk.length)) = true := by
    decide +kernel
  obtain ⟨s, n, t, hs, hp, hcheck⟩ := exists_of_parse?_any hparse
  obtain ⟨hproblems, hmem, hvalue, hlength⟩ := of_decide_eq_true hcheck
  obtain ⟨hselections, -, hruns⟩ := parsed_selection hs .refl (.inl hp)
  refine ⟨s, n, t, hs, hp, hproblems, hmem, fun fuel => ?_, hlength, hruns⟩
  have hready : Ready t.table { table := t.table } :=
    ready_parsed Table.zeroed_empty.reals hs ((Parsing.meets_program s).of_ok hp).1 {}
  have hdiscriminant : evaluate { kind := .var, line := .int 1, text := .text "i" }
      { table := t.table, line := .int 1 } =
        .ok (.real 0.0) { table := t.table, line := .int 1 } := by
    simp only [evaluate]
    rw [readVariable_apply, hvalue]
  have hzero : evaluate (integerOn1 "0" 0) { table := t.table, line := .int 1 } =
      .ok (.real 0.0) { table := t.table, line := .int 1 } := by
    have hint : Decimal.ofInt? 0 = some 0.0 := by decide +kernel
    simp only [integerOn1, evaluate, constantReal, hint]
    rfl
  obtain ⟨hfirst, hcharacters, -⟩ :=
    hselections zeroSelection hmem _ _ rfl rfl fuel { table := t.table } _ _ hready hdiscriminant
  have hvalues : ∀ b ∈ zeroSelection.children.tail, ∀ c ∈ b.constants, ∃ w m',
      evaluate c { table := t.table, line := .int 1 } = .ok w m' := by
    simp only [zeroSelection, List.tail_cons, List.forall_mem_cons, Node.constants]
    refine ⟨⟨⟨_, _, by simp only [evaluate]; rfl⟩, by simp⟩,
      ⟨⟨_, _, by simp only [evaluate]; rfl⟩, ⟨_, _, hzero⟩, by simp⟩,
      ⟨⟨_, _, hzero⟩, by simp⟩, by simp⟩
  refine (hfirst hvalues).1 [_] _ [_] _ _ rfl rfl ⟨integerOn1 "0" 0, by simp, _, _, hzero, ?_⟩ ?_
  · exact .real (by decide +kernel)
  · intro d hd c hc
    obtain rfl := List.mem_singleton.1 hd
    refine hcharacters _ (List.mem_cons_self ..) c hc ?_
    obtain rfl := List.mem_singleton.1 hc
    rfl

end Execution

end MiniPascal
