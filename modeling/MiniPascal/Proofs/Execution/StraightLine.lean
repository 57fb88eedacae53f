import MiniPascal.Proofs.Execution.Loops
import MiniPascal.Proofs.Execution.StackMachine
import MiniPascal.Proofs.Tree.Shape

/-!
# Straight-line programs

A program without loops, conditionals and selections does the same things in the same order,
whatever the values of its variables are. `Node.actions` lists these things: statements are begun,
expressions are computed on a stack, and what is on the stack is stored or written. Variables are
read by the instructions that load them and by nothing else, and an assignment is complete when its
value was stored.

**A run performs the actions in their order** (`runActions_actions`), up to the first that stops it.
-/

namespace MiniPascal

namespace Execution

/-! ## Actions -/

/-- Something that a straight-line program does. -/
inductive Action where
  /-- Begins a statement. -/
  | enter (line : Value)
  /-- Computes a part of an expression. -/
  | compute (i : Instruction)
  /-- Assigns the real on top of the stack to a variable. -/
  | store (target : Node)
  /-- Makes a field width or count of places of the value on top. -/
  | field (site : Site)
  /-- Writes the value on top, with as many fields as are below it. -/
  | write (fields : Nat)
  /-- Ends a line of the output. -/
  | newline

/-- What an action does. -/
def Action.step : Action → List Value → Machine → Outcome
  | .enter line, stack, m => .ofResult (fun _ => []) stack (setLine line m)
  | .compute i, stack, m => i.step stack m
  | .store target, .real x :: stack, m =>
    .ofResult (fun _ => []) stack
      ((writeVariable target x >>= fun _ => note (.assigned target.text x)) m)
  | .field site, v :: stack, m =>
    .ofResult (fun k => [.int k]) stack (orRaise (fieldInteger v site) m)
  | .write 0, v :: stack, m => .ofResult (fun _ => []) stack (writeValue v none none m)
  | .write 1, v :: .int w :: stack, m =>
    .ofResult (fun _ => []) stack (writeValue v (some w) none m)
  | .write 2, v :: .int p :: .int w :: stack, m =>
    .ofResult (fun _ => []) stack (writeValue v (some w) (some p) m)
  | .newline, stack, m => .ofResult (fun _ => []) stack (emit "\n" m)
  | _, _, _ => .stuck

/-- Performs actions in order, up to the first that stops. -/
def runActions : List Action → List Value → Machine → Outcome
  | [], stack, m => .done stack m
  | a :: actions, stack, m => (a.step stack m).andThen (runActions actions)

/-- Computes an expression. -/
def computing (n : Node) : List Action := n.code.map .compute

/-- Computes an expression and assigns its value, which has to be real. -/
def assignActions (line : Value) (target expression : Node) : List Action :=
  computing expression ++
    [.compute (.check .real (.assignment target.text line)), .store target]

/-- Writes the first argument, after the fields that follow it were computed. -/
def writeActions : List Node → List Action
  | [] => [.compute (.fail .missingChild)]
  | [argument] => computing argument ++ [.write 0]
  | [argument, width] =>
    computing width ++ .field .fieldWidth :: (computing argument ++ [.write 1])
  | argument :: width :: places :: _ =>
    computing width ++ .field .fieldWidth ::
      (computing places ++ .field .decimalPlaces :: (computing argument ++ [.write 2]))

end Execution

open Execution

namespace Node

/-- A tree without loops, conditionals and selections. -/
def IsStraightLine (n : Node) : Prop :=
  ∀ k ∈ n.walk, k.kind ≠ .loop ∧ k.kind ≠ .cond ∧ k.kind ≠ .select

instance (n : Node) : Decidable n.IsStraightLine := inferInstanceAs (Decidable (∀ k ∈ _, _))

mutual

/-- What a straight-line statement or program does. -/
def actions : Node → List Action
  | ⟨.program, _, _, _, body :: _⟩ => body.actions
  | ⟨.compound, line, _, _, statements⟩ => .enter line :: actionsAll statements
  | ⟨.assign, line, _, _, [target, expression]⟩ =>
    .enter line :: assignActions line target expression
  | ⟨.write, line, _, _, arguments⟩ => .enter line :: writeActions arguments
  | ⟨.writeln, line, _, _, arguments⟩ =>
    .enter line :: ((if arguments.isEmpty then [] else writeActions arguments) ++ [.newline])
  | _ => []

/-- What several statements do. -/
def actionsAll : List Node → List Action
  | [] => []
  | n :: rest => n.actions ++ actionsAll rest

end

end Node

namespace Execution

variable {α β : Type}

/-! ## Actions in sequence -/

theorem runActions_append (as bs : List Action) (stack : List Value) (m : Machine) :
    runActions (as ++ bs) stack m = (runActions as stack m).andThen (runActions bs) := by
  induction as generalizing stack m with
  | nil => rfl
  | cons a as ih =>
    rw [List.cons_append, runActions, runActions, Outcome.andThen_assoc]
    congr 1
    funext stack m
    exact ih stack m

/-- Computing is running code. -/
theorem runActions_map_compute (code : List Instruction) :
    runActions (code.map .compute) = runCode code := by
  induction code with
  | nil => rfl
  | cons i code ih =>
    funext stack m
    rw [List.map_cons, runActions, ih, runCode]
    rfl

/-- Actions that do what a part of a run does. They take values from the stack, and leave those that
belong to the result. -/
def Performs (taken : List Value) (actions : List Action) (p : Run α) (values : α → List Value) :
    Prop :=
  ∀ stack m, runActions actions (taken ++ stack) m = .ofResult values stack (p m)

theorem Computes.performs {taken : List Value} {code : List Instruction} {p : Run α}
    {values : α → List Value} (h : Computes taken code p values) :
    Performs taken (code.map .compute) p values := by
  intro stack m
  rw [runActions_map_compute]
  exact h stack m

namespace Performs

variable {taken : List Value} {as bs : List Action} {p : Run α} {values : α → List Value}

theorem single {a : Action}
    (h : ∀ stack m, a.step (taken ++ stack) m = .ofResult values stack (p m)) :
    Performs taken [a] p values := by
  intro stack m
  rw [runActions, h]
  cases p m <;> rfl

theorem bind {f : α → Run β} {values' : β → List Value} (hp : Performs taken as p values)
    (hf : ∀ a, Performs (values a) bs (f a) values') :
    Performs taken (as ++ bs) (p >>= f) values' := by
  intro stack m
  rw [runActions_append]
  exact Outcome.ofResult_bind hp hf stack m

theorem above (h : Performs taken as p values) (below : List Value) :
    Performs (taken ++ below) as p fun a => values a ++ below :=
  Outcome.ofResult_above h below

end Performs

/-! ## Statements -/

theorem performs_computing (n : Node) : Performs [] (computing n) (evaluate n) fun v => [v] :=
  (computes_code n).performs

/-- A field is computed on top of those that are there. -/
theorem performs_field (n : Node) (site : Site) {below : List Value} {as : List Action}
    {f : Int → Run Unit} (hf : ∀ k, Performs (.int k :: below) as (f k) fun _ => []) :
    Performs below (computing n ++ .field site :: as)
      (evaluate n >>= fun v => orRaise (fieldInteger v site) >>= f) fun _ => [] := by
  have hfield (v : Value) : Performs [v] [.field site] (orRaise (fieldInteger v site))
      fun k => [.int k] :=
    .single fun _ _ => rfl
  exact ((performs_computing n).above below).bind fun v => ((hfield v).above below).bind hf

theorem performs_writeArguments (ns : List Node) :
    Performs [] (writeActions ns) (writeArguments ns) fun _ => [] := by
  have hwrite (argument : Node) {fields : Nat} {below : List Value} {width places : Option Int}
      (h : ∀ v stack m, Action.step (.write fields) (v :: below ++ stack) m =
        .ofResult (fun _ => []) stack (writeValue v width places m)) :
      Performs below (computing argument ++ [.write fields])
        (evaluate argument >>= fun v => writeValue v width places) fun _ => [] :=
    ((performs_computing argument).above below).bind fun v => .single (h v)
  rcases ns with _ | ⟨argument, _ | ⟨width, _ | ⟨places, rest⟩⟩⟩
  · exact (Computes.fail .missingChild).performs
  · exact hwrite argument fun _ _ _ => rfl
  · exact performs_field width _ fun w => hwrite argument fun _ _ _ => rfl
  · exact performs_field width _ fun w => performs_field places _ fun p =>
      hwrite argument fun _ _ _ => rfl

theorem performs_assign (line : Value) (target expression : Node) :
    Performs [] (assignActions line target expression) (assign line target expression)
      fun _ => [] := by
  refine (performs_computing expression).bind fun v => ?_
  refine (Computes.checkReal v (.assignment target.text line)).performs.bind fun x => ?_
  exact .single fun _ _ => rfl

theorem performs_enter (line : Value) {p : Run Unit} {as : List Action}
    (h : Performs [] as p fun _ => []) :
    Performs [] (.enter line :: as) (setLine line >>= fun _ => p) fun _ => [] := by
  have henter : Performs [] [.enter line] (setLine line) fun _ => [] := .single fun _ _ => rfl
  exact henter.bind fun _ => h

theorem performs_executeAll (fuel : Nat) {ns : List Node}
    (hk : ∀ n ∈ ns, n.kind.isStatement = true)
    (h : ∀ n ∈ ns, Performs [] n.actions (execute fuel n) fun _ => []) :
    Performs [] (Node.actionsAll ns) (executeAll fuel ns) fun _ => [] := by
  induction ns with
  | nil =>
    rw [Node.actionsAll, executeAll]
    exact fun _ _ => rfl
  | cons n ns ih =>
    rw [Node.actionsAll, executeAll_statement fuel (hk n (by simp))]
    exact (h n (by simp)).bind fun _ =>
      ih (fun k hk' => hk k (by simp [hk'])) fun k hk' => h k (by simp [hk'])

/-- A straight-line statement or program performs its actions. -/
theorem performs_execute (fuel : Nat) {n : Node} (hshape : ∀ k ∈ n.walk, k.WellShaped)
    (hstraight : n.IsStraightLine) (hn : n.kind = .program ∨ n.kind.isStatement = true) :
    Performs [] n.actions (execute fuel n) fun _ => [] := by
  induction n using Node.induct with
  | h n ih =>
    have hself : n.WellShaped := hshape n Node.self_mem_walk
    have hbelow : ∀ c ∈ n.children, c.kind = .program ∨ c.kind.isStatement = true →
        Performs [] c.actions (execute fuel c) fun _ => [] := fun c hc =>
      ih c hc (fun k hk => hshape k (Node.mem_walk_of_child hc hk))
        fun k hk => hstraight k (Node.mem_walk_of_child hc hk)
    obtain ⟨hloop, hcond, hselect⟩ := hstraight n Node.self_mem_walk
    obtain ⟨kind, line, text, literal, children⟩ := n
    cases hself with
    | @program body hb =>
      simp only [Node.actions, execute]
      exact hbelow body (by simp) (.inr (by rw [hb]; rfl))
    | compound hs =>
      rw [execute_compound, Node.actions]
      exact performs_enter line (performs_executeAll fuel hs fun c hc =>
        hbelow c hc (.inr (hs c hc)))
    | assign =>
      simp only [Node.actions, execute]
      exact performs_enter line (performs_assign line _ _)
    | write =>
      simp only [Node.actions, execute]
      exact performs_enter line (performs_writeArguments _)
    | writelnBare =>
      simp only [Node.actions, execute]
      exact performs_enter line (.single fun _ _ => rfl)
    | writeln =>
      simp only [Node.actions, execute]
      refine performs_enter line ((performs_writeArguments _).bind fun _ => ?_)
      exact .single fun _ _ => rfl
    -- No other statement is in a straight line.
    | loop => exact absurd rfl hloop
    | ifThen | ifThenElse => exact absurd rfl hcond
    | select => exact absurd rfl hselect
    | _ => simp [Kind.isStatement] at hn

/-- **A run of a straight-line program performs its actions in order.** -/
theorem runActions_actions {n : Node} (hn : n.kind = .program)
    (hshape : ∀ k ∈ n.walk, k.WellShaped) (hstraight : n.IsStraightLine) (fuel : Nat)
    (m : Machine) : runActions n.actions [] m = .ofResult (fun _ => []) [] (run fuel n m) := by
  have hrun : run fuel n = execute fuel n := by
    obtain ⟨kind, line, text, literal, children⟩ := n
    obtain rfl : kind = .program := hn
    simp [run, visit]
  rw [hrun]
  exact performs_execute fuel hshape hstraight (.inl hn) [] m

end Execution

end MiniPascal
