import MiniPascal.Proofs.Execution.Store
import MiniPascal.Proofs.Grammar.Sentence

/-!
# The meaning of loops

In a tree there is one sort of loop, which ends at any test that holds. `WHILE`, `REPEAT` and `FOR`
are built from it. Here each of the three is given a meaning of its own, by the order in which it
tests, executes and assigns (`RunsWhile`, `RunsRepeat`, `RunsFor`). The meaning of their bodies is
left to the body: any statements will do.

**Loops mean what they say** (`execute_loops_iff`): executing the tree of a loop ends in a store,
normally or with a class of fault, if and only if the loop does by its own meaning.
-/

namespace MiniPascal.Execution

open Parsing
open Grammar (assignmentNode repeatLoop)

variable {α β : Type}

/-! ## Expressions and statements -/

/-- An expression has a value in a store, or its evaluation has a fault. -/
def Evaluates (e : Node) (s : Store) (r : Except FaultClass Value) : Prop :=
  Yields (fun _ => evaluate e) s r s

/-- An expression is asked for a value of a type, given by the values that are of it. -/
inductive Reads (embed : α → Value) (e : Node) (s : Store) : Except FaultClass α → Prop
  | value {a : α} : Evaluates e s (.ok (embed a)) → Reads embed e s (.ok a)
  | wrongType {v : Value} :
      Evaluates e s (.ok v) → (∀ a, v ≠ embed a) → Reads embed e s (.error .wrongType)
  | fault {c : FaultClass} : Evaluates e s (.error c) → Reads embed e s (.error c)

/-- An expression is asked for a Boolean. -/
abbrev Tests : Node → Store → Except FaultClass Bool → Prop := Reads .bool

/-- An expression is asked for a real. -/
abbrev Measures : Node → Store → Except FaultClass Float → Prop := Reads .real

/-- A statement is executed from one store to another. -/
def Executes (n : Node) : Store → Except FaultClass Unit → Store → Prop := Yields (execute · n)

/-- Statements are executed in order, up to one with a fault. -/
inductive ExecutesAll : List Node → Store → Except FaultClass Unit → Store → Prop
  | nil {s : Store} : ExecutesAll [] s (.ok ()) s
  | cons {n : Node} {ns : List Node} {s t u : Store} {r : Except FaultClass Unit} :
      Executes n s (.ok ()) t → ExecutesAll ns t r u → ExecutesAll (n :: ns) s r u
  | fault {n : Node} {ns : List Node} {s t : Store} {c : FaultClass} :
      Executes n s (.error c) t → ExecutesAll (n :: ns) s (.error c) t

/-- A variable holds a real. -/
def Store.Holds (s : Store) (name : Text) (x : Float) : Prop :=
  (s.table.find? name).map (·.value) = some (.real x)

/-- The store after an assignment. -/
def Store.assign (s : Store) (name : Text) (x : Float) : Store :=
  { s with table := s.table.set name (.real x) }

/-! ## The meaning of loops -/

/-- `WHILE e DO body` tests the condition before each run of the body. -/
inductive RunsWhile (e body : Node) : Store → Except FaultClass Unit → Store → Prop
  | stop {s : Store} : Tests e s (.ok false) → RunsWhile e body s (.ok ()) s
  | next {s t u : Store} {r : Except FaultClass Unit} :
      Tests e s (.ok true) → Executes body s (.ok ()) t → RunsWhile e body t r u →
      RunsWhile e body s r u
  | testFault {s : Store} {c : FaultClass} :
      Tests e s (.error c) → RunsWhile e body s (.error c) s
  | bodyFault {s t : Store} {c : FaultClass} :
      Tests e s (.ok true) → Executes body s (.error c) t → RunsWhile e body s (.error c) t

/-- `REPEAT body UNTIL e` executes the whole list before each test. -/
inductive RunsRepeat (body : List Node) (e : Node) : Store → Except FaultClass Unit → Store → Prop
  | stop {s t : Store} :
      ExecutesAll body s (.ok ()) t → Tests e t (.ok true) → RunsRepeat body e s (.ok ()) t
  | next {s t u : Store} {r : Except FaultClass Unit} :
      ExecutesAll body s (.ok ()) t → Tests e t (.ok false) → RunsRepeat body e t r u →
      RunsRepeat body e s r u
  | testFault {s t : Store} {c : FaultClass} :
      ExecutesAll body s (.ok ()) t → Tests e t (.error c) → RunsRepeat body e s (.error c) t
  | bodyFault {s t : Store} {c : FaultClass} :
      ExecutesAll body s (.error c) t → RunsRepeat body e s (.error c) t

/-- Whether a value lies past the bound: above it for `TO`, below it for `DOWNTO`. -/
def pastBound : Direction → Float → Float → Bool
  | .up, x, y => x > y
  | .down, x, y => x < y

/-- The value after a step. -/
def stepValue : Direction → Float → Float
  | .up, x => x + 1.0
  | .down, x => x - 1.0

/-- What `FOR` does after its first assignment. Before each run of the body it takes the control
variable and the bound anew, and after it the control variable once more. -/
inductive RunsForLoop (d : Direction) (control : Text) (bound body : Node) :
    Store → Except FaultClass Unit → Store → Prop
  | stop {s : Store} {x y : Float} :
      s.Holds control x → Measures bound s (.ok y) → pastBound d x y = true →
      RunsForLoop d control bound body s (.ok ()) s
  | next {s t u : Store} {x y z : Float} {r : Except FaultClass Unit} :
      s.Holds control x → Measures bound s (.ok y) → pastBound d x y = false →
      Executes body s (.ok ()) t → t.Holds control z →
      RunsForLoop d control bound body (t.assign control (stepValue d z)) r u →
      RunsForLoop d control bound body s r u
  | boundFault {s : Store} {c : FaultClass} :
      Measures bound s (.error c) → RunsForLoop d control bound body s (.error c) s
  | bodyFault {s t : Store} {x y : Float} {c : FaultClass} :
      s.Holds control x → Measures bound s (.ok y) → pastBound d x y = false →
      Executes body s (.error c) t → RunsForLoop d control bound body s (.error c) t

/-- `FOR control := first TO bound DO body`, or with `DOWNTO`. -/
inductive RunsFor (d : Direction) (control : Text) (first bound body : Node) :
    Store → Except FaultClass Unit → Store → Prop
  | run {s t : Store} {x : Float} {r : Except FaultClass Unit} :
      Measures first s (.ok x) →
      RunsForLoop d control bound body (s.assign control x) r t →
      RunsFor d control first bound body s r t
  | firstFault {s : Store} {c : FaultClass} :
      Measures first s (.error c) → RunsFor d control first bound body s (.error c) s

/-! ## Evaluation -/

/-- Evaluation keeps the store. -/
theorem keptByNotes_store (s : Store) : KeptByNotes fun m => m.store = s where
  trace _ h := h
  notes _ h := h

theorem yields_evaluate {e : Node} {s t : Store} {r : Except FaultClass Value} :
    Yields (fun _ => evaluate e) s r t ↔ Evaluates e s r ∧ t = s := by
  have hstore : Gives r t (evaluate e s.machine) → t = s := fun h =>
    h.store_endOf.symm.trans ((keptByNotes_store s).evaluate e rfl)
  constructor
  · rintro ⟨k, h⟩
    obtain rfl := hstore h
    exact ⟨⟨k, h⟩, rfl⟩
  · rintro ⟨h, rfl⟩
    exact h

/-- A check accepts just the values of a type. -/
structure ChecksFor (embed : α → Value) (check : Value → Except Fault α) : Prop where
  accepts : ∀ a, check (embed a) = .ok a
  value : ∀ {v a}, check v = .ok a → v = embed a
  fault : ∀ {v f}, check v = .error f → f.faultClass = .wrongType

theorem checksFor_expectBoolean (site : Site) : ChecksFor .bool (expectBoolean · site) where
  accepts _ := rfl
  value {v _} h := by cases v <;> cases h; rfl
  fault {v _} h := by cases v <;> cases h <;> rfl

theorem checksFor_expectReal (site : Site) : ChecksFor .real (expectReal · site) where
  accepts _ := rfl
  value {v _} h := by cases v <;> cases h; rfl
  fault {v _} h := by cases v <;> cases h <;> rfl

/-- An expression is evaluated and its value checked, before anything else is done. -/
theorem yields_check_bind {embed : α → Value} {check : Value → Except Fault α}
    (hc : ChecksFor embed check) {e : Node} {f : α → Nat → Run β} (hf : ∀ a, Steady (f a))
    {s t : Store} {r : Except FaultClass β} :
    Yields (fun fuel => evaluate e >>= fun v => orRaise (check v) >>= fun a => f a fuel) s r t ↔
      (∃ a, Reads embed e s (.ok a) ∧ Yields (f a) s r t) ∨
        ∃ c, r = .error c ∧ Reads embed e s (.error c) ∧ t = s := by
  have hrest : ∀ v, Steady fun fuel => orRaise (check v) >>= fun a => f a fuel :=
    fun v => (steady_orRaise _).bind hf
  rw [yields_bind (steady_evaluate e) hrest]
  constructor
  · rintro (⟨v, u, hv, h⟩ | ⟨c, rfl, h⟩)
    · obtain ⟨hv, rfl⟩ := yields_evaluate.1 hv
      cases hcheck : check v with
      | ok a =>
        -- The check accepts the values of one type and no others, so its result tells the value.
        obtain rfl := hc.value hcheck
        rw [hcheck] at h
        exact .inl ⟨a, .value hv, h⟩
      | error g =>
        rw [hcheck] at h
        obtain ⟨_, rfl, rfl⟩ := h
        rw [hc.fault hcheck]
        refine .inr ⟨_, rfl, .wrongType hv fun a ha => ?_, rfl⟩
        rw [ha, hc.accepts] at hcheck
        cases hcheck
    · obtain ⟨h, rfl⟩ := yields_evaluate.1 h
      exact .inr ⟨c, rfl, .fault h, rfl⟩
  · rintro (⟨a, ha, h⟩ | ⟨c, rfl, h, rfl⟩)
    · cases ha with
      | value hv =>
        refine .inl ⟨_, s, hv, ?_⟩
        rw [hc.accepts]
        exact h
    · cases h with
      | fault h => exact .inr ⟨c, rfl, h⟩
      | @wrongType v hv hne =>
        refine .inl ⟨v, t, hv, ?_⟩
        cases hcheck : check v with
        | ok a => exact absurd (hc.value hcheck) (hne a)
        | error g => exact ⟨0, by rw [hc.fault hcheck], rfl⟩

/-- What an expression reads as, if its values are of the type asked for. -/
theorem reads_iff {embed : α → Value} (hinj : ∀ {a a'}, embed a = embed a' → a = a') {e : Node}
    {s : Store} {P : α → Prop} {Q : FaultClass → Prop}
    (h : ∀ r, Evaluates e s r ↔ (∃ a, P a ∧ r = .ok (embed a)) ∨ ∃ c, Q c ∧ r = .error c)
    {r : Except FaultClass α} :
    Reads embed e s r ↔ (∃ a, P a ∧ r = .ok a) ∨ ∃ c, Q c ∧ r = .error c := by
  constructor
  · rintro (hv | ⟨hv, hne⟩ | hc)
    · obtain ⟨a, ha, he⟩ | ⟨c, -, he⟩ := (h _).1 hv
      · rw [hinj (Except.ok.inj he)]
        exact .inl ⟨a, ha, rfl⟩
      · cases he
    · obtain ⟨a, -, he⟩ | ⟨c, -, he⟩ := (h _).1 hv
      · exact absurd (Except.ok.inj he) (hne a)
      · cases he
    · obtain ⟨a, -, he⟩ | ⟨c, hq, he⟩ := (h _).1 hc
      · cases he
      · exact .inr ⟨c, hq, congrArg Except.error (Except.error.inj he)⟩
  · rintro (⟨a, ha, rfl⟩ | ⟨c, hq, rfl⟩)
    · exact .value ((h _).2 (.inl ⟨a, ha, rfl⟩))
    · exact .fault ((h _).2 (.inr ⟨c, hq, rfl⟩))

theorem tests_not {line text literal : Value} {e : Node} {s : Store}
    {r : Except FaultClass Bool} :
    Tests ⟨.not, line, text, literal, [e]⟩ s r ↔
      (∃ b, Tests e s (.ok (!b)) ∧ r = .ok b) ∨ ∃ c, Tests e s (.error c) ∧ r = .error c := by
  refine reads_iff Value.bool.inj fun r => ?_
  unfold Evaluates
  simp only [evaluate]
  refine (yields_check_bind (f := fun b _ => pure (Value.bool !b)) (checksFor_expectBoolean .not)
    fun _ => .pure _).trans ?_
  constructor
  · rintro (⟨b, hb, h⟩ | ⟨c, rfl, hc, -⟩)
    · exact .inl ⟨!b, by rwa [Bool.not_not], (yields_pure.1 h).1⟩
    · exact .inr ⟨c, hc, rfl⟩
  · rintro (⟨b, hb, rfl⟩ | ⟨c, hc, rfl⟩)
    · exact .inl ⟨!b, hb, yields_pure.2 ⟨by rw [Bool.not_not], rfl⟩⟩
    · exact .inr ⟨c, rfl, hc, rfl⟩

/-! ## Passes -/

theorem runPass_test (fuel : Nat) (line text literal : Value) (e : Node) (rest : List Node) :
    runPass fuel (⟨.test, line, text, literal, [e]⟩ :: rest) = evaluate e >>= fun v =>
      orRaise (expectBoolean v (.loopTest line)) >>= fun b =>
        note (.tested line b) >>= fun _ => if b then pure true else runPass fuel rest := by
  simp only [runPass, visit, Kind.isStatement, Bool.or_false, beq_iff_eq, reduceCtorEq, ↓reduceIte,
    evaluate, bind_pure_comp, map_bind, Functor.map_map, BEq.rfl, Bool.true_and, bind_assoc,
    bind_map_left, Option.map_some, Value.isPresent, Option.getD_some]
  rfl

theorem runPass_statement (fuel : Nat) {n : Node} (hn : n.kind.isStatement = true)
    (rest : List Node) :
    runPass fuel (n :: rest) = execute fuel n >>= fun _ => runPass fuel rest := by
  obtain ⟨kind, line, text, literal, children⟩ := n
  have ht : (kind == .test) = false := by cases kind <;> simp_all [Kind.isStatement]
  simp [runPass, visit, show kind.isStatement = true from hn, ht]

theorem executeAll_statement (fuel : Nat) {n : Node} (hn : n.kind.isStatement = true)
    (rest : List Node) :
    executeAll fuel (n :: rest) = execute fuel n >>= fun _ => executeAll fuel rest := by
  obtain ⟨kind, line, text, literal, children⟩ := n
  simp [executeAll, visit, show kind.isStatement = true from hn]

theorem yields_runPass_test {line text literal : Value} {e : Node} {rest : List Node} {s t : Store}
    {r : Except FaultClass Bool} :
    Yields (runPass · (⟨.test, line, text, literal, [e]⟩ :: rest)) s r t ↔
      Tests e s (.ok true) ∧ r = .ok true ∧ t = s ∨
      Tests e s (.ok false) ∧ Yields (runPass · rest) s r t ∨
      ∃ c, r = .error c ∧ Tests e s (.error c) ∧ t = s := by
  have hrest : ∀ b : Bool, Steady fun fuel => if b then pure true else runPass fuel rest := by
    intro b
    cases b with
    | true => exact .pure true
    | false => exact steady_runPass rest
  simp only [runPass_test]
  rw [yields_check_bind (f := fun b fuel => note (.tested line b) >>= fun _ =>
    if b then pure true else runPass fuel rest) (checksFor_expectBoolean _)
    fun b => (steady_note _).bind fun _ => hrest b]
  simp only [yields_note_bind _ (hrest _), Bool.exists_bool, if_true, yields_pure]
  simp only [Bool.false_eq_true, if_false, or_assoc, or_left_comm]

theorem yields_runPass_statement {n : Node} (hn : n.kind.isStatement = true) {rest : List Node}
    {s t : Store} {r : Except FaultClass Bool} :
    Yields (runPass · (n :: rest)) s r t ↔
      (∃ u, Executes n s (.ok ()) u ∧ Yields (runPass · rest) u r t) ∨
        ∃ c, r = .error c ∧ Executes n s (.error c) t := by
  simp only [runPass_statement _ hn]
  exact yields_unit_bind (steady_execute n) (steady_runPass rest)

theorem yields_runPass_nil {s t : Store} {r : Except FaultClass Bool} :
    Yields (runPass · []) s r t ↔ r = .ok false ∧ t = s := by
  simp only [runPass]
  exact yields_pure

/-- The tree of a loop is executed by passes through its children. -/
theorem executes_loop {line text literal : Value} {children : List Node} {s t : Store}
    {r : Except FaultClass Unit} :
    Executes ⟨.loop, line, text, literal, children⟩ s r t ↔
      Repeats (Yields (runPass · children)) s r t := by
  unfold Executes
  simp only [execute]
  rw [yields_setLine_bind line (steady_repeatPass (steady_runPass children)),
    yields_repeatPass (steady_runPass children)]

/-! ## `WHILE` -/

/-- One pass through the tree of a `WHILE` loop. -/
theorem yields_whilePass {line testLine : Value} {e body : Node}
    (hbody : body.kind.isStatement = true) {s t : Store} {r : Except FaultClass Bool} :
    Yields (runPass · (whileLoop line testLine e body).children) s r t ↔
      Tests e s (.ok false) ∧ r = .ok true ∧ t = s ∨
      Tests e s (.ok true) ∧ Executes body s (.ok ()) t ∧ r = .ok false ∨
      ∃ c, r = .error c ∧
        (Tests e s (.error c) ∧ t = s ∨ Tests e s (.ok true) ∧ Executes body s (.error c) t) := by
  simp only [whileLoop, nodeOn_eq, Node.make_eq]
  rw [yields_runPass_test, yields_runPass_statement hbody]
  simp only [tests_not, yields_runPass_nil, Except.ok.injEq, Except.error.injEq, reduceCtorEq,
    and_false, exists_false, or_false, false_or, exists_eq_right', Bool.not_true, Bool.not_false]
  constructor
  · rintro (h | ⟨h, ⟨u, hu, rfl, rfl⟩ | ⟨c, rfl, hc⟩⟩ | ⟨c, rfl, hc, rfl⟩)
    · exact .inl h
    · exact .inr (.inl ⟨h, hu, rfl⟩)
    · exact .inr (.inr ⟨c, rfl, .inr ⟨h, hc⟩⟩)
    · exact .inr (.inr ⟨c, rfl, .inl ⟨hc, rfl⟩⟩)
  · rintro (h | ⟨h, hu, rfl⟩ | ⟨c, rfl, ⟨hc, rfl⟩ | ⟨h, hc⟩⟩)
    · exact .inl h
    · exact .inr (.inl ⟨h, .inl ⟨t, hu, rfl, rfl⟩⟩)
    · exact .inr (.inr ⟨c, rfl, hc, rfl⟩)
    · exact .inr (.inl ⟨h, .inr ⟨c, rfl, hc⟩⟩)

theorem executes_while {line testLine : Value} {e body : Node}
    (hbody : body.kind.isStatement = true) {s t : Store} {r : Except FaultClass Unit} :
    Executes (whileLoop line testLine e body) s r t ↔ RunsWhile e body s r t := by
  have hpass := @yields_whilePass line testLine e body hbody
  refine executes_loop.trans ⟨fun h => ?_, fun h => ?_⟩
  · induction h with
    | last h =>
      obtain ⟨h, -, rfl⟩ | ⟨-, -, hr⟩ | ⟨c, hr, -⟩ := hpass.1 h
      · exact .stop h
      · cases hr
      · cases hr
    | more h _ ih =>
      obtain ⟨-, hr, -⟩ | ⟨h, hb, -⟩ | ⟨c, hr, -⟩ := hpass.1 h
      · cases hr
      · exact .next h hb ih
      · cases hr
    | fault h =>
      obtain ⟨-, hr, -⟩ | ⟨-, -, hr⟩ | ⟨c, hr, ⟨h, rfl⟩ | ⟨h, hb⟩⟩ := hpass.1 h
      · cases hr
      · cases hr
      · cases hr; exact .testFault h
      · cases hr; exact .bodyFault h hb
  · induction h with
    | stop h => exact .last (hpass.2 (.inl ⟨h, rfl, rfl⟩))
    | next h hb _ ih => exact .more (hpass.2 (.inr (.inl ⟨h, hb, rfl⟩))) ih
    | testFault h => exact .fault (hpass.2 (.inr (.inr ⟨_, rfl, .inl ⟨h, rfl⟩⟩)))
    | bodyFault h hb => exact .fault (hpass.2 (.inr (.inr ⟨_, rfl, .inr ⟨h, hb⟩⟩)))

/-! ## `REPEAT` -/

theorem executesAll_cons {n : Node} {ns : List Node} {s t : Store} {r : Except FaultClass Unit} :
    ExecutesAll (n :: ns) s r t ↔ (∃ u, Executes n s (.ok ()) u ∧ ExecutesAll ns u r t) ∨
      ∃ c, r = .error c ∧ Executes n s (.error c) t := by
  constructor
  · rintro (_ | ⟨hn, h⟩ | h)
    · exact .inl ⟨_, hn, h⟩
    · exact .inr ⟨_, rfl, h⟩
  · rintro (⟨u, hn, h⟩ | ⟨c, rfl, h⟩)
    · exact .cons hn h
    · exact .fault h

/-- A pass executes the statements at its start in order. -/
theorem yields_runPass_append {ns : List Node} (hns : ∀ n ∈ ns, n.kind.isStatement = true)
    {rest : List Node} {s t : Store} {r : Except FaultClass Bool} :
    Yields (runPass · (ns ++ rest)) s r t ↔
      (∃ u, ExecutesAll ns s (.ok ()) u ∧ Yields (runPass · rest) u r t) ∨
        ∃ c, r = .error c ∧ ExecutesAll ns s (.error c) t := by
  induction ns generalizing s with
  | nil =>
    constructor
    · exact fun h => .inl ⟨s, .nil, h⟩
    · rintro (⟨_, ⟨⟩, h⟩ | ⟨c, -, ⟨⟩⟩)
      exact h
  | cons n ns ih =>
    rw [List.cons_append, yields_runPass_statement (hns n (by simp))]
    simp only [executesAll_cons, ih fun n hn => hns n (by simp [hn]), Except.error.injEq,
      exists_eq_left', reduceCtorEq, false_and, exists_false, or_false]
    constructor
    · rintro (⟨u, hu, ⟨v, hv, h⟩ | ⟨c, rfl, h⟩⟩ | ⟨c, rfl, h⟩)
      · exact .inl ⟨v, ⟨u, hu, hv⟩, h⟩
      · exact .inr ⟨c, rfl, .inl ⟨u, hu, h⟩⟩
      · exact .inr ⟨c, rfl, .inr h⟩
    · rintro (⟨v, ⟨u, hu, hv⟩, h⟩ | ⟨c, rfl, ⟨u, hu, h⟩ | h⟩)
      · exact .inl ⟨u, hu, .inl ⟨v, hv, h⟩⟩
      · exact .inl ⟨u, hu, .inr ⟨c, rfl, h⟩⟩
      · exact .inr ⟨c, rfl, h⟩

/-- One pass through the tree of a `REPEAT` loop. -/
theorem yields_repeatLoopPass {line testLine : Int} {body : List Node} {e : Node}
    (hbody : ∀ n ∈ body, n.kind.isStatement = true) {s t : Store} {r : Except FaultClass Bool} :
    Yields (runPass · (repeatLoop line testLine body e).children) s r t ↔
      (∃ b, ExecutesAll body s (.ok ()) t ∧ Tests e t (.ok b) ∧ r = .ok b) ∨
      ∃ c, r = .error c ∧
        (ExecutesAll body s (.ok ()) t ∧ Tests e t (.error c) ∨
          ExecutesAll body s (.error c) t) := by
  simp only [repeatLoop]
  rw [yields_runPass_append hbody]
  simp only [yields_runPass_test, yields_runPass_nil]
  constructor
  · rintro (⟨u, hu, ⟨h, rfl, rfl⟩ | ⟨h, rfl, rfl⟩ | ⟨c, rfl, h, rfl⟩⟩ | ⟨c, rfl, h⟩)
    · exact .inl ⟨true, hu, h, rfl⟩
    · exact .inl ⟨false, hu, h, rfl⟩
    · exact .inr ⟨c, rfl, .inl ⟨hu, h⟩⟩
    · exact .inr ⟨c, rfl, .inr h⟩
  · rintro (⟨b, hu, h, rfl⟩ | ⟨c, rfl, ⟨hu, h⟩ | h⟩)
    · cases b with
      | true => exact .inl ⟨t, hu, .inl ⟨h, rfl, rfl⟩⟩
      | false => exact .inl ⟨t, hu, .inr (.inl ⟨h, rfl, rfl⟩)⟩
    · exact .inl ⟨t, hu, .inr (.inr ⟨c, rfl, h, rfl⟩)⟩
    · exact .inr ⟨c, rfl, h⟩

theorem executes_repeat {line testLine : Int} {body : List Node} {e : Node}
    (hbody : ∀ n ∈ body, n.kind.isStatement = true) {s t : Store} {r : Except FaultClass Unit} :
    Executes (repeatLoop line testLine body e) s r t ↔ RunsRepeat body e s r t := by
  have hpass := @yields_repeatLoopPass line testLine body e hbody
  refine executes_loop.trans ⟨fun h => ?_, fun h => ?_⟩
  · induction h with
    | last h =>
      obtain ⟨b, hb, h, hr⟩ | ⟨c, hr, -⟩ := hpass.1 h
      · cases hr; exact .stop hb h
      · cases hr
    | more h _ ih =>
      obtain ⟨b, hb, h, hr⟩ | ⟨c, hr, -⟩ := hpass.1 h
      · cases hr; exact .next hb h ih
      · cases hr
    | fault h =>
      obtain ⟨b, -, -, hr⟩ | ⟨c, hr, ⟨hb, h⟩ | h⟩ := hpass.1 h
      · cases hr
      · cases hr; exact .testFault hb h
      · cases hr; exact .bodyFault h
  · induction h with
    | stop hb h => exact .last (hpass.2 (.inl ⟨_, hb, h, rfl⟩))
    | next hb h _ ih => exact .more (hpass.2 (.inl ⟨_, hb, h, rfl⟩)) ih
    | testFault hb h => exact .fault (hpass.2 (.inr ⟨_, rfl, .inl ⟨hb, h⟩⟩))
    | bodyFault h => exact .fault (hpass.2 (.inr ⟨_, rfl, .inr h⟩))

/-! ## `FOR` -/

theorem constantReal_one : constantReal (.int 1) = .ok 1.0 := by
  have hbits : Decimal.nearestBits 1 1 = 4607182418800017408 := by decide +kernel
  have hne : 4607182418800017408 ≠ Decimal.infinityBits := by decide
  have hone : Decimal.ofMagnitude false 4607182418800017408 = 1.0 := rfl
  have hint : Decimal.ofInt? 1 = some 1.0 := by
    show (if Decimal.nearestBits 1 1 = Decimal.infinityBits then none
      else some (Decimal.ofMagnitude false (Decimal.nearestBits 1 1))) = some 1.0
    rw [hbits, if_neg hne, hone]
  simp only [constantReal, hint]

/-- An expression with a value reads as nothing else. -/
theorem reads_of_apply {embed : α → Value} (hinj : ∀ {a a'}, embed a = embed a' → a = a') {e : Node}
    {s : Store} {a : α} {m : Machine} (he : evaluate e s.machine = .ok (embed a) m)
    (hm : m.store = s) {r : Except FaultClass α} : Reads embed e s r ↔ r = .ok a := by
  have hvalue : ∀ r, Evaluates e s r ↔ r = .ok (embed a) := by
    intro r
    refine (yields_of_apply he).trans ?_
    simp [hm]
  rw [reads_iff (P := (· = a)) (Q := fun _ => False) hinj fun r => by simp [hvalue]]
  simp

theorem measures_variable {control : Token} {s : Store} {x : Float} (h : s.Holds control.text x)
    {r : Except FaultClass Float} : Measures (operation .var control []) s r ↔ r = .ok x := by
  have he : evaluate (operation .var control []) s.machine = .ok (.real x) s.machine := by
    have hx : (s.machine.table.find? control.text).map (·.value) = some (.real x) := h
    simp only [operation, Node.make_eq, evaluate]
    rw [readVariable_apply, hx]
  exact reads_of_apply Value.real.inj he rfl

theorem measures_one {line text : Value} {s : Store} {r : Except FaultClass Float} :
    Measures ⟨.integer, line, text, .int 1, []⟩ s r ↔ r = .ok 1.0 := by
  have he : evaluate ⟨.integer, line, text, .int 1, []⟩ s.machine = .ok (.real 1.0) s.machine := by
    simp only [evaluate, constantReal_one]
    rfl
  exact reads_of_apply Value.real.inj he rfl

/-- An operation on two reals, of which the first is known. -/
theorem reads_operation {embed : α → Value} (hinj : ∀ {a a'}, embed a = embed a' → a = a')
    (site : Site) {e left right : Node} {g : Float → Float → α}
    (he : evaluate e = evaluate left >>= fun v => orRaise (expectReal v site) >>= fun x =>
      evaluate right >>= fun w => orRaise (expectReal w site) >>= fun y => pure (embed (g x y)))
    {s : Store} {x : Float} (hleft : ∀ r, Measures left s r ↔ r = .ok x)
    {r : Except FaultClass α} :
    Reads embed e s r ↔ (∃ y, Measures right s (.ok y) ∧ r = .ok (g x y)) ∨
      ∃ c, Measures right s (.error c) ∧ r = .error c := by
  -- First the second operand, for any value of the first one.
  have hright : ∀ x r, Yields (fun _ => evaluate right >>= fun w =>
      orRaise (expectReal w site) >>= fun y => pure (embed (g x y))) s r s ↔
      (∃ y, Measures right s (.ok y) ∧ r = .ok (embed (g x y))) ∨
        ∃ c, Measures right s (.error c) ∧ r = .error c := by
    intro x r
    refine (yields_check_bind (f := fun y _ => pure (embed (g x y))) (checksFor_expectReal site)
      fun _ => .pure _).trans ?_
    simp only [yields_pure, and_true, and_comm (a := r = .error _)]
  -- The first operand has one value and no fault.
  have hvalue : ∀ r, Evaluates e s r ↔
      (∃ a, (∃ y, Measures right s (.ok y) ∧ a = g x y) ∧ r = .ok (embed a)) ∨
        ∃ c, Measures right s (.error c) ∧ r = .error c := by
    intro r
    rw [Evaluates, he]
    refine (yields_check_bind (f := fun x _ => evaluate right >>= fun w =>
      orRaise (expectReal w site) >>= fun y => pure (embed (g x y))) (checksFor_expectReal site)
      fun x => (steady_evaluate right).bind fun _ => (steady_orRaise _).bind
        fun _ => .pure _).trans ?_
    simp only [hleft, hright, Except.ok.injEq, exists_eq_left, reduceCtorEq, false_and, and_false,
      exists_false, or_false]
    refine or_congr_left ⟨?_, ?_⟩
    · rintro ⟨y, hy, hr⟩
      exact ⟨_, ⟨y, hy, rfl⟩, hr⟩
    · rintro ⟨_, ⟨y, hy, rfl⟩, hr⟩
      exact ⟨y, hy, hr⟩
  refine (reads_iff hinj hvalue).trans (or_congr_left ⟨?_, ?_⟩)
  · rintro ⟨_, ⟨y, hy, rfl⟩, hr⟩
    exact ⟨y, hy, hr⟩
  · rintro ⟨y, hy, hr⟩
    exact ⟨_, ⟨y, hy, rfl⟩, hr⟩

/-- The test of a `FOR` loop compares the control variable with the bound. -/
theorem tests_passed {d : Direction} {line : Value} {control : Token} {bound : Node} {s : Store}
    {x : Float} (h : s.Holds control.text x) {r : Except FaultClass Bool} :
    Tests (d.passed line (operation .var control []) bound) s r ↔
      (∃ y, Measures bound s (.ok y) ∧ r = .ok (pastBound d x y)) ∨
        ∃ c, Measures bound s (.error c) ∧ r = .error c := by
  cases d with
  | up | down =>
    exact reads_operation Value.bool.inj (.operand (.relation _) line)
      (by rw [Direction.passed, Node.make_eq, evaluate]; rfl) fun _ => measures_variable h

theorem measures_arithmetic {op : Arithmetic} {g : Float → Float → Float}
    (hg : ∀ text x y, calculate op text x y = pure (.real (g x y))) {line text literal : Value}
    {left right : Node} {s : Store} {x : Float} (hleft : ∀ r, Measures left s r ↔ r = .ok x)
    {r : Except FaultClass Float} :
    Measures ⟨.arithmetic op, line, text, literal, [left, right]⟩ s r ↔
      (∃ y, Measures right s (.ok y) ∧ r = .ok (g x y)) ∨
        ∃ c, Measures right s (.error c) ∧ r = .error c := by
  refine reads_operation Value.real.inj (.operand (.arithmetic op) line) ?_ hleft
  simp only [evaluate, hg]

/-- The step of a `FOR` loop is by one. -/
theorem measures_stepped {d : Direction} {line : Value} {control : Token} {s : Store}
    {x : Float} (h : s.Holds control.text x) {r : Except FaultClass Float} :
    Measures (d.stepped line (operation .var control [])) s r ↔ r = .ok (stepValue d x) := by
  cases d with
  | up =>
    refine (measures_arithmetic (g := fun x y => x + y) (fun _ _ _ => rfl)
      fun _ => measures_variable h).trans ?_
    simp [measures_one, stepValue]
  | down =>
    refine (measures_arithmetic (g := fun x y => x - y) (fun _ _ _ => rfl)
      fun _ => measures_variable h).trans ?_
    simp [measures_one, stepValue]

/-- An assignment to a variable of the table. -/
theorem executes_assign {line text literal : Value} {control : Token} {e : Node} {s t : Store}
    (hc : s.table.contains control.text = true) {r : Except FaultClass Unit} :
    Executes ⟨.assign, line, text, literal, [operation .var control [], e]⟩ s r t ↔
      (∃ x, Measures e s (.ok x) ∧ r = .ok () ∧ t = s.assign control.text x) ∨
        ∃ c, r = .error c ∧ Measures e s (.error c) ∧ t = s := by
  have hsteady : ∀ x, Steady fun _ => writeVariable (operation .var control []) x >>= fun _ =>
      note (.assigned (.text control.text) x) := fun x =>
    Steady.bind (fun _ _ _ => similar_writeVariable storeSimulation (names_trivial _) x)
      fun _ => steady_note _
  -- Storing cannot fail: the variable is in the table, and the level leaves no line to trace.
  have hwrite : ∀ x r, Yields (fun _ => writeVariable (operation .var control []) x >>= fun _ =>
      note (.assigned (.text control.text) x)) s r t ↔
        r = .ok () ∧ t = s.assign control.text x := by
    intro x r
    have hlevel : s.machine.level ≤ 1 := s.same_machine.left
    refine yields_of_apply (m := { s.machine with
      table := s.table.set control.text (.real x)
      notes := s.machine.notes.push (.assigned (.text control.text) x) }) ?_
    rw [bind_apply, writeVariable_apply rfl rfl, if_pos (by exact hc)]
    dsimp only
    rw [note_apply _ (by exact hlevel)]
    rfl
  have hassign : ∀ r, Yields (fun _ => assign line (operation .var control []) e) s r t ↔
      (∃ x, Measures e s (.ok x) ∧ r = .ok () ∧ t = s.assign control.text x) ∨
        ∃ c, r = .error c ∧ Measures e s (.error c) ∧ t = s := by
    intro r
    refine (yields_check_bind (f := fun x _ => writeVariable (operation .var control []) x >>=
      fun _ => note (.assigned (.text control.text) x)) (checksFor_expectReal _) hsteady).trans ?_
    simp only [hwrite]
  have hexecute : ∀ fuel, execute fuel
      ⟨.assign, line, text, literal, [operation .var control [], e]⟩ =
      setLine line >>= fun _ => assign line (operation .var control []) e := by
    intro fuel
    simp only [execute]
    rfl
  unfold Executes
  simp only [hexecute]
  rw [yields_setLine_bind line fun _ _ _ =>
    similar_assign storeSimulation line (names_trivial _) (names_trivial _), hassign]

theorem Store.holds_assign {s : Store} {name : Text} (hc : s.table.contains name = true)
    (x : Float) : (s.assign name x).Holds name x := by
  obtain ⟨c, hf⟩ := Option.isSome_iff_exists.1 hc
  simp [Store.Holds, Store.assign, Table.value_set, hf]

theorem Store.Holds.unique {s : Store} {name : Text} {x y : Float} (hx : s.Holds name x)
    (hy : s.Holds name y) : x = y :=
  Value.real.inj (Option.some.inj (hx.symm.trans hy))

theorem Store.Holds.contains {s : Store} {name : Text} {x : Float} (h : s.Holds name x) :
    s.table.contains name = true := by
  have := congrArg Option.isSome h
  simpa [Table.contains] using this

/-- A variable that holds a real goes on to hold one. -/
theorem keptByRuns_holds (name : Text) : KeptByRuns fun m => ∃ x, m.store.Holds name x where
  trace _ h := h
  notes _ h := h
  line _ h := h
  output _ h := h
  set {m other} x h _ := by
    obtain ⟨y, hy⟩ := h
    have hy' : (m.table.find? name).map (·.value) = some (.real y) := hy
    have hset := Table.value_set m.table other name (.real x)
    split at hset
    · refine ⟨x, hset.trans ?_⟩
      obtain ⟨c, hc, -⟩ := Option.map_eq_some_iff.1 hy'
      rw [hc]
      rfl
    · exact ⟨y, hset.trans hy'⟩

theorem Executes.holds {n : Node} {s t : Store} {r : Except FaultClass Unit} {name : Text}
    {x : Float} (h : Executes n s r t) (hx : s.Holds name x) : ∃ z, t.Holds name z := by
  obtain ⟨k, hk⟩ := h
  have hkept : ∃ z, (endOf (execute k n s.machine)).store.Holds name z :=
    (keptByRuns_holds name).execute k n ⟨x, hx⟩
  rwa [hk.store_endOf] at hkept

/-- The loop in the tree of a `FOR` loop. -/
def forChildren (d : Direction) (line boundLine : Value) (control : Token) (bound body : Node) :
    List Node :=
  [{ kind := .test, line := boundLine,
      children := [d.passed boundLine (operation .var control []) bound] },
    body,
    { kind := .assign, line, children :=
        [operation .var control [], d.stepped line (operation .var control [])] }]

/-- One pass through the loop in the tree of a `FOR` loop. -/
theorem yields_forPass {d : Direction} {line boundLine : Value} {control : Token}
    {bound body : Node} (hbody : body.kind.isStatement = true) {s t : Store} {x : Float}
    (hx : s.Holds control.text x) {r : Except FaultClass Bool} :
    Yields (runPass · (forChildren d line boundLine control bound body)) s r t ↔
      (∃ y, Measures bound s (.ok y) ∧ pastBound d x y = true ∧ r = .ok true ∧ t = s) ∨
      (∃ y u z, Measures bound s (.ok y) ∧ pastBound d x y = false ∧ Executes body s (.ok ()) u ∧
        u.Holds control.text z ∧ r = .ok false ∧ t = u.assign control.text (stepValue d z)) ∨
      ∃ c, r = .error c ∧ (Measures bound s (.error c) ∧ t = s ∨
        ∃ y, Measures bound s (.ok y) ∧ pastBound d x y = false ∧
          Executes body s (.error c) t) := by
  -- After the body the control variable is there and holds a real, so the step is made.
  have hstep : ∀ {u r t}, Executes body s (.ok ()) u →
      (Yields (runPass · [{ kind := .assign, line, children :=
        [operation .var control [], d.stepped line (operation .var control [])] }]) u r t ↔
        ∃ z, u.Holds control.text z ∧ r = .ok false ∧
          t = u.assign control.text (stepValue d z)) := by
    intro u r t hu
    obtain ⟨z, hz⟩ := hu.holds hx
    rw [yields_runPass_statement rfl]
    simp only [yields_runPass_nil, executes_assign hz.contains, measures_stepped hz]
    constructor
    · rintro (⟨_, ⟨_, h, -, rfl⟩ | ⟨c, h, -⟩, rfl, rfl⟩ | ⟨c, -, ⟨_, -, h, -⟩ | ⟨_, -, h, -⟩⟩)
      · cases h
        exact ⟨z, hz, rfl, rfl⟩
      · cases h
      · cases h
      · cases h
    · rintro ⟨z', hz', rfl, rfl⟩
      cases hz.unique hz'
      exact .inl ⟨_, .inl ⟨_, rfl, trivial, rfl⟩, rfl, rfl⟩
  -- The test decides: the pass ends there, or goes on to the body and the step, or has a fault.
  rw [forChildren, yields_runPass_test]
  simp only [tests_passed hx, yields_runPass_statement hbody]
  constructor
  · rintro (⟨⟨y, hy, hp⟩ | ⟨c, -, hp⟩, rfl, rfl⟩ | ⟨⟨y, hy, hp⟩ | ⟨c, -, hp⟩, hrest⟩ |
      ⟨c, rfl, ⟨y, -, hp⟩ | ⟨c', hc, hp⟩, rfl⟩)
    · exact .inl ⟨y, hy, (Except.ok.inj hp).symm, rfl, rfl⟩
    · cases hp
    · obtain ⟨u, hu, h⟩ | ⟨c, rfl, h⟩ := hrest
      · obtain ⟨z, hz, rfl, rfl⟩ := (hstep hu).1 h
        exact .inr (.inl ⟨y, u, z, hy, (Except.ok.inj hp).symm, hu, hz, rfl, rfl⟩)
      · exact .inr (.inr ⟨c, rfl, .inr ⟨y, hy, (Except.ok.inj hp).symm, h⟩⟩)
    · cases hp
    · cases hp
    · cases hp
      exact .inr (.inr ⟨c, rfl, .inl ⟨hc, rfl⟩⟩)
  · rintro (⟨y, hy, hp, rfl, rfl⟩ | ⟨y, u, z, hy, hp, hu, hz, rfl, rfl⟩ |
      ⟨c, rfl, ⟨hc, rfl⟩ | ⟨y, hy, hp, h⟩⟩)
    · exact .inl ⟨.inl ⟨y, hy, by rw [hp]⟩, rfl, rfl⟩
    · exact .inr (.inl ⟨.inl ⟨y, hy, by rw [hp]⟩, .inl ⟨u, hu, (hstep hu).2 ⟨z, hz, rfl, rfl⟩⟩⟩)
    · exact .inr (.inr ⟨c, rfl, .inr ⟨c, hc, rfl⟩, rfl⟩)
    · exact .inr (.inl ⟨.inl ⟨y, hy, by rw [hp]⟩, .inr ⟨c, rfl, h⟩⟩)

/-- The loop in the tree of a `FOR` loop, after the first assignment. -/
theorem repeats_for {d : Direction} {line boundLine : Value} {control : Token} {bound body : Node}
    (hbody : body.kind.isStatement = true) {s t : Store} {x : Float}
    (hx : s.Holds control.text x) {r : Except FaultClass Unit} :
    Repeats (Yields (runPass · (forChildren d line boundLine control bound body))) s r t ↔
      RunsForLoop d control.text bound body s r t := by
  constructor
  · intro h
    -- The control variable holds a real before every pass, since the step has assigned one.
    induction h generalizing x with
    | last h =>
      obtain ⟨y, hy, hp, -, rfl⟩ | ⟨_, _, _, -, -, -, -, hr, -⟩ | ⟨c, hr, -⟩ :=
        (yields_forPass hbody hx).1 h
      · exact .stop hx hy hp
      · cases hr
      · cases hr
    | more h _ ih =>
      obtain ⟨_, -, -, hr, -⟩ | ⟨y, u, z, hy, hp, hu, hz, -, rfl⟩ | ⟨c, hr, -⟩ :=
        (yields_forPass hbody hx).1 h
      · cases hr
      · exact .next hx hy hp hu hz (ih (Store.holds_assign hz.contains _))
      · cases hr
    | fault h =>
      obtain ⟨_, -, -, hr, -⟩ | ⟨_, _, _, -, -, -, -, hr, -⟩ |
        ⟨c, hr, ⟨hc, rfl⟩ | ⟨y, hy, hp, hu⟩⟩ := (yields_forPass hbody hx).1 h
      · cases hr
      · cases hr
      · cases hr; exact .boundFault hc
      · cases hr; exact .bodyFault hx hy hp hu
  · intro h
    induction h generalizing x with
    | stop hx' hy hp => exact .last ((yields_forPass hbody hx').2 (.inl ⟨_, hy, hp, rfl, rfl⟩))
    | next hx' hy hp hu hz _ ih =>
      refine .more ((yields_forPass hbody hx').2
        (.inr (.inl ⟨_, _, _, hy, hp, hu, hz, rfl, rfl⟩))) ?_
      exact ih (Store.holds_assign hz.contains _)
    | boundFault hc =>
      exact .fault ((yields_forPass hbody hx).2 (.inr (.inr ⟨_, rfl, .inl ⟨hc, rfl⟩⟩)))
    | bodyFault hx' hy hp hu =>
      exact .fault ((yields_forPass hbody hx').2 (.inr (.inr ⟨_, rfl, .inr ⟨_, hy, hp, hu⟩⟩)))

theorem execute_compound (fuel : Nat) (line text literal : Value) (children : List Node) :
    execute fuel ⟨.compound, line, text, literal, children⟩ =
      setLine line >>= fun _ => executeAll fuel children := by
  simp only [execute]

theorem executes_for {d : Direction} {line boundLine : Value} {control : Token}
    {first bound body : Node} (hbody : body.kind.isStatement = true) {s t : Store}
    (hc : s.table.contains control.text = true) {r : Except FaultClass Unit} :
    Executes (forLoop d line boundLine (assignmentNode control first) (operation .var control [])
      bound body) s r t ↔ RunsFor d control.text first bound body s r t := by
  -- The tree is an assignment and a loop, one after the other.
  have hexecute : ∀ fuel, execute fuel (forLoop d line boundLine (assignmentNode control first)
      (operation .var control []) bound body) = setLine line >>= fun _ =>
        execute fuel (assignmentNode control first) >>= fun _ => execute fuel
          ⟨.loop, line, .null, .null, forChildren d line boundLine control bound body⟩ := by
    intro fuel
    have hnil : executeAll fuel [] = pure () := by rw [executeAll]
    simp only [forLoop, nodeOn_eq]
    rw [execute_compound, executeAll_statement _ rfl, executeAll_statement _ rfl, hnil,
      bind_pure_unit]
    rfl
  unfold Executes
  simp only [hexecute]
  rw [yields_setLine_bind line ((steady_execute _).bind fun _ => steady_execute _),
    yields_unit_bind (steady_execute _) (steady_execute _)]
  have hinitial : ∀ {r t}, Yields (execute · (assignmentNode control first)) s r t ↔
      (∃ x, Measures first s (.ok x) ∧ r = .ok () ∧ t = s.assign control.text x) ∨
        ∃ c, r = .error c ∧ Measures first s (.error c) ∧ t = s := executes_assign hc
  have hloop : ∀ {u x}, u = s.assign control.text x →
      (Yields (execute · ⟨.loop, line, .null, .null,
        forChildren d line boundLine control bound body⟩) u r t ↔
        RunsForLoop d control.text bound body u r t) := fun hu =>
    executes_loop.trans (repeats_for hbody (hu ▸ Store.holds_assign hc _))
  constructor
  · rintro (⟨u, hu, h⟩ | ⟨c, rfl, h⟩)
    · obtain ⟨x, hx, -, rfl⟩ | ⟨c, hr, -⟩ := hinitial.1 hu
      · exact .run hx ((hloop rfl).1 h)
      · cases hr
    · obtain ⟨x, -, hr, -⟩ | ⟨c, hr, h, rfl⟩ := hinitial.1 h
      · cases hr
      · cases hr; exact .firstFault h
  · rintro (⟨hx, h⟩ | h)
    · exact .inl ⟨_, hinitial.2 (.inl ⟨_, hx, rfl, rfl⟩), (hloop rfl).2 h⟩
    · exact .inr ⟨_, rfl, hinitial.2 (.inr ⟨_, rfl, h, rfl⟩)⟩

/-! ## Loops mean what they say -/

/-- **The trees of loops mean what the loops do.** The body is any statement, or any statements for
`REPEAT`, the conditions and values are any expressions, and the machine is any one that writes no
notes to a trace, where the control variable of `FOR` has been entered. Executing the tree ends with
a result or a class of fault, in a store, just when the loop does by its own meaning. -/
theorem execute_loops_iff (d : Direction) (control : Token)
    (first bound condition statement : Node) (statements : List Node) (line testLine : Int)
    (hstatement : statement.kind.isStatement = true)
    (hstatements : ∀ n ∈ statements, n.kind.isStatement = true) (m : Machine)
    (hlevel : m.level ≤ 1) (hcontrol : m.table.contains control.text = true)
    (r : Except FaultClass Unit) (t : Store) :
    ((∃ fuel, Gives r t
        (execute fuel (whileLoop (.int line) (.int testLine) condition statement) m)) ↔
      RunsWhile condition statement m.store r t) ∧
    ((∃ fuel, Gives r t (execute fuel (repeatLoop line testLine statements condition) m)) ↔
      RunsRepeat statements condition m.store r t) ∧
    ((∃ fuel, Gives r t (execute fuel (forLoop d (.int line) (.int testLine)
        (assignmentNode control first) (operation .var control []) bound statement) m)) ↔
      RunsFor d control.text first bound statement m.store r t) := by
  have hmachine : ∀ n, (∃ fuel, Gives r t (execute fuel n m)) ↔ Executes n m.store r t :=
    fun n => (yields_iff (steady_execute n) hlevel).symm
  refine ⟨(hmachine _).trans (executes_while hstatement),
    (hmachine _).trans (executes_repeat hstatements), (hmachine _).trans ?_⟩
  exact executes_for hstatement (show m.store.table.contains control.text = true from hcontrol)

/-- Loops over `i` that write lines, from a machine in the midst of a run. -/
theorem execute_loops_iff_writeln :
    let m : Machine := { table := ({} : Table).enter "i", output := "so far", line := .int 7 }
    let control : Token := { kind := .identifier, text := "I", line := 8 }
    let one : Node := { kind := .integer, literal := .int 1 }
    let condition : Node := { kind := .relation .eq, children := [operation .var control [], one] }
    let statement : Node := { kind := .writeln, line := .int 9 }
    let t : Store := ⟨m.table.set "i" (.real 1.0), "so far\n"⟩
    statement.kind.isStatement = true ∧ m.level ≤ 1 ∧ m.table.contains control.text = true ∧
      ((∃ fuel, Gives (.ok ()) t
          (execute fuel (whileLoop (.int 8) (.int 9) condition statement) m)) ↔
        RunsWhile condition statement m.store (.ok ()) t) ∧
      ((∃ fuel, Gives (.ok ()) t (execute fuel (repeatLoop 8 9 [statement] condition) m)) ↔
        RunsRepeat [statement] condition m.store (.ok ()) t) ∧
      ((∃ fuel, Gives (.ok ()) t (execute fuel (forLoop .down (.int 8) (.int 9)
          (assignmentNode control one) (operation .var control []) one statement) m)) ↔
        RunsFor .down control.text one one statement m.store (.ok ()) t) := by
  intro m control one condition statement t
  have hstatements : ∀ n ∈ [statement], n.kind.isStatement = true := by
    simp [statement, Kind.isStatement]
  refine ⟨rfl, by decide, by decide, ?_⟩
  exact execute_loops_iff .down control one one condition statement [statement] 8 9 rfl hstatements
    m (by decide) (by decide) (.ok ()) t

end MiniPascal.Execution
