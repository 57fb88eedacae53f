import MiniPascal.Execution.Execute
import MiniPascal.Proofs.Tree.Likeness

/-!
# Runs that are alike

Two machines may differ in ways that a program cannot tell, and so may two trees. A relation `R`
between machines, a relation `F` between faults and a likeness `ρ` of trees say in which ways. If the
primitive steps of a run keep to them (`LikeExecution`), then so does every run of every tree,
whatever its loops do.

**Runs of trees that are alike are alike** (`alike_execute`). From machines related by `R`,
runs with the same fuel end alike. A run with some fuel and a run with more end alike, unless the
first one lacks fuel. So more fuel changes nothing for a run that ends, and what the relations leave
out has no influence on a run.

**Runs of one tree** (`similar_execute`) are the case of a tree that is like itself.

**What every step keeps, every run keeps** (`KeptByRuns.run`). This is the case of a machine related
to itself.
-/

namespace MiniPascal

namespace Execution

variable {α β : Type}

/-! ## Likeness -/

/-- The second result is like the first one. If that is for want of fuel, then the second one need
be like it only where both had the same fuel. -/
def Follows (same : Prop) (R : Machine → Machine → Prop) (F : Fault → Fault → Prop) :
    EStateM.Result Stop Machine α → EStateM.Result Stop Machine α → Prop
  | .ok a m, .ok a' m' => a = a' ∧ R m m'
  | .error .outOfFuel m, r => same → ∃ m', r = .error .outOfFuel m' ∧ R m m'
  | .error (.fault f) m, .error (.fault f') m' => F f f' ∧ R m m'
  | _, _ => False

/-- With the same fuel both end well, both for want of fuel, or both with a fault. -/
theorem Follows.cases {R : Machine → Machine → Prop} {F : Fault → Fault → Prop}
    {x x' : EStateM.Result Stop Machine α} (h : Follows True R F x x') :
    (∃ a m m', x = .ok a m ∧ x' = .ok a m' ∧ R m m') ∨
    (∃ m m', x = .error .outOfFuel m ∧ x' = .error .outOfFuel m' ∧ R m m') ∨
    ∃ f f' m m', x = .error (.fault f) m ∧ x' = .error (.fault f') m' ∧ F f f' ∧ R m m' := by
  cases x with
  | ok a m =>
    cases x' with
    | ok a' m' =>
      obtain ⟨rfl, hm⟩ := h
      exact .inl ⟨a, m, m', rfl, rfl, hm⟩
    | error e' m' => exact h.elim
  | error e m =>
    cases e with
    | outOfFuel =>
      obtain ⟨m', rfl, hm⟩ := h trivial
      exact .inr (.inl ⟨m, m', rfl, rfl, hm⟩)
    | fault f =>
      cases x' with
      | ok a' m' => exact h.elim
      | error e' m' =>
        cases e' with
        | outOfFuel => exact h.elim
        | fault f' => exact .inr (.inr ⟨f, f', m, m', rfl, rfl, h⟩)

/-- The second fuel is no less than the first one, or the same one. -/
structure Fuels (same : Prop) (fuel fuel' : Nat) : Prop where
  le : fuel ≤ fuel'
  eq : same → fuel = fuel'

theorem Fuels.refl (same : Prop) (fuel : Nat) : Fuels same fuel fuel :=
  ⟨Nat.le_refl _, fun _ => rfl⟩

theorem Fuels.more {fuel fuel' : Nat} (h : fuel ≤ fuel') : Fuels False fuel fuel' :=
  ⟨h, False.elim⟩

/-- From related machines the second part of a run follows the first one. -/
def Similar (same : Prop) (R : Machine → Machine → Prop) (F : Fault → Fault → Prop)
    (p p' : Run α) : Prop :=
  ∀ m m', R m m' → Follows same R F (p m) (p' m')

theorem bind_apply (p : Run α) (f : α → Run β) (m : Machine) :
    (p >>= f) m = match p m with
      | .ok a m => f a m
      | .error e m => .error e m := by
  show EStateM.bind p f m = _
  unfold EStateM.bind
  cases p m <;> rfl

section Rules

variable {same : Prop} {R : Machine → Machine → Prop} {F : Fault → Fault → Prop}

theorem Similar.pure (a : α) : Similar same R F (Pure.pure a) (Pure.pure a) := fun _ _ h => ⟨rfl, h⟩

theorem Similar.bind {p p' : Run α} {f f' : α → Run β} (hp : Similar same R F p p')
    (hf : ∀ a, Similar same R F (f a) (f' a)) : Similar same R F (p >>= f) (p' >>= f') := by
  intro m m' hm
  have h := hp m m' hm
  rw [bind_apply, bind_apply]
  cases he : p m with
  | ok a u =>
    cases he' : p' m' with
    | ok a' u' =>
      rw [he, he'] at h
      obtain ⟨rfl, hu⟩ := h
      exact hf a u u' hu
    | error e' u' => rw [he, he'] at h; cases h
  | error e u =>
    cases e with
    | outOfFuel =>
      intro hsame
      obtain ⟨u', he', hu⟩ := (he ▸ h) hsame
      exact ⟨u', by rw [he'], hu⟩
    | fault g =>
      cases he' : p' m' with
      | ok a' u' => rw [he, he'] at h; cases h
      | error e' u' =>
        rw [he, he'] at h
        cases e' with
        | fault g' => exact h
        | outOfFuel => cases h

theorem Similar.raise {f : Fault} (h : F f f) :
    Similar same R F (Execution.raise f : Run α) (Execution.raise f) := fun _ _ hm => ⟨h, hm⟩

theorem Similar.orRaise (hF : ∀ f, F f f) (x : Except Fault α) :
    Similar same R F (Execution.orRaise x) (Execution.orRaise x) := by
  cases x with
  | ok a => exact .pure a
  | error f => exact .raise (hF f)

theorem Similar.modify {g : Machine → Machine} (h : ∀ {m m'}, R m m' → R (g m) (g m')) :
    Similar same R F (modify g) (modify g) := fun _ _ hm => ⟨rfl, h hm⟩

/-- Telling something, where the relation takes trace and notes alike. -/
theorem similar_note (hF : ∀ f, F f f) (level : ∀ {m m'}, R m m' → m.level = m'.level)
    (trace : ∀ {m m'} (line : String), R m m' →
      R { m with trace := m.trace ++ line ++ "\n" } { m' with trace := m'.trace ++ line ++ "\n" })
    (notes : ∀ {m m'} (n : Note), R m m' →
      R { m with notes := m.notes.push n } { m' with notes := m'.notes.push n }) (n : Note) :
    Similar same R F (note n) (note n) := by
  intro m m' hm
  have hget : ∀ k : Machine, (get : Run Machine) k = .ok k k := fun _ => rfl
  unfold note
  rw [bind_apply, bind_apply, hget, hget]
  dsimp only
  rw [level hm]
  split
  · exact ((Similar.orRaise hF _).bind fun line => (Similar.modify (trace line)).bind fun _ =>
      Similar.modify (notes n)) m m' hm
  · exact Similar.modify (notes n) m m' hm

end Rules

/-- Telling something changes nothing but trace and notes, and changes nothing at all where the
trace cannot hold it. -/
theorem note_cases (n : Note) (m : Machine) :
    (∃ trace, note n m = .ok () { m with trace, notes := m.notes.push n }) ∨
      n.level ≤ m.level ∧ ∃ f, note n m = .error (.fault (.unwritable f)) m := by
  have hget : (get : Run Machine) m = .ok m m := rfl
  unfold note
  rw [bind_apply, hget]
  dsimp only
  split
  · next hlevel =>
    cases n.message.encode with
    | ok line => exact .inl ⟨_, rfl⟩
    | error f => exact .inr ⟨hlevel, f, rfl⟩
  · exact .inl ⟨m.trace, rfl⟩

/-! ## What has to be kept -/

/-- Places that ask for a value, in trees that are alike. -/
inductive Site.Resembles (ρ : Likeness) : Site → Site → Prop
  | refl (site : Site) : Resembles ρ site site
  | assignment {target target' line line' : Value} :
      ρ.text target target' → ρ.line line line' →
      Resembles ρ (.assignment target line) (.assignment target' line')
  | operand {kind : Kind} {line line' : Value} :
      ρ.line line line' → Resembles ρ (.operand kind line) (.operand kind line')
  | condition {line line' : Value} :
      ρ.line line line' → Resembles ρ (.condition line) (.condition line')
  | loopTest {line line' : Value} :
      ρ.line line line' → Resembles ρ (.loopTest line) (.loopTest line')

/-- What runs of trees that are alike tell. -/
inductive Note.Resembles (ρ : Likeness) : Note → Note → Prop
  | assigned {target target' : Value} {x : Float} :
      ρ.text target target' → Resembles ρ (.assigned target x) (.assigned target' x)
  | wrote (text : Text) : Resembles ρ (.wrote text) (.wrote text)
  | decided {line line' : Value} {b : Bool} :
      ρ.line line line' → Resembles ρ (.decided line b) (.decided line' b)
  | tested {line line' : Value} {b : Bool} :
      ρ.line line line' → Resembles ρ (.tested line b) (.tested line' b)
  | selected {line line' branchLine branchLine' : Value} :
      ρ.line line line' → ρ.line branchLine branchLine' →
      Resembles ρ (.selected line branchLine) (.selected line' branchLine')
  | unmatched {line line' : Value} :
      ρ.line line line' → Resembles ρ (.unmatched line) (.unmatched line')

/-- The primitive steps of evaluation keep to the relations, for trees that are alike. -/
structure LikeEvaluation (ρ : Likeness) (R : Machine → Machine → Prop) (F : Fault → Fault → Prop) :
    Prop where
  refl : ∀ f, F f f
  wrongType : ∀ {site site' : Site} (expected : Tag) (found : String), site.Resembles ρ site' →
    F (.wrongType site expected found) (.wrongType site' expected found)
  division : ∀ {m m' : Machine} {text text' : Value}, R m m' → ρ.text text text' →
    F (.divisionByZero m.line text) (.divisionByZero m'.line text')
  note : ∀ {same : Prop} {n n' : Note}, n.Resembles ρ n' → Similar same R F (note n) (note n')
  read : ∀ {same : Prop} {text text' : Value}, ρ.name text text' →
    Similar same R F (readVariable text) (readVariable text')

/-- All primitive steps of a run keep to the relations, for trees that are alike. -/
structure LikeExecution (ρ : Likeness) (R : Machine → Machine → Prop) (F : Fault → Fault → Prop) :
    Prop extends LikeEvaluation ρ R F where
  line : ∀ {m m' : Machine} {line line' : Value}, R m m' → ρ.line line line' →
    R { m with line := line } { m' with line := line' }
  output : ∀ {m m' : Machine} (text : Text), R m m' →
    R { m with output := m.output ++ text } { m' with output := m'.output ++ text }
  write : ∀ {same : Prop} {target target' : Node} (x : Float), target.kind = .var →
    target'.kind = .var → ρ.name target.text target'.text →
    Similar same R F (writeVariable target x) (writeVariable target' x)

theorem readVariable_apply (name : Text) (m : Machine) : readVariable (.text name) m =
    match (m.table.find? name).map (·.value) with
    | some v => .ok v m
    | none => .error (.fault .unbound) m := by
  have hget : (get : Run Machine) m = .ok m m := rfl
  unfold readVariable
  dsimp only
  rw [bind_apply, hget]
  dsimp only
  cases m.table.find? name <;> rfl

theorem writeVariable_apply {target : Node} {name : Text} (hk : target.kind = .var)
    (ht : target.text = .text name) (x : Float) (m : Machine) :
    writeVariable target x m =
      if m.table.contains name then .ok () { m with table := m.table.set name (.real x) }
      else .error (.fault .notAssignable) m := by
  unfold writeVariable
  rw [hk, ht]
  show (if m.table.contains name then
    modify fun m => { m with table := m.table.set name (.real x) }
    else raise .notAssignable : Run Unit) m = _
  split <;> rfl

theorem writeVariable_eq_raise {target : Node} {x : Float}
    (h : ∀ name, target.kind = .var → target.text ≠ .text name) :
    writeVariable target x = raise .notAssignable := by
  unfold writeVariable
  split
  · next name hk ht => exact absurd ht (h name hk)
  · rfl

section Variables

variable {same : Prop} {R : Machine → Machine → Prop} {F : Fault → Fault → Prop} {name name' : Text}

/-- Reading a variable, where its values are the same. -/
theorem Similar.readVariable (hF : ∀ f, F f f)
    (find : ∀ {m m' : Machine}, R m m' →
      (m.table.find? name).map (·.value) = (m'.table.find? name').map (·.value)) :
    Similar same R F (Execution.readVariable (.text name))
      (Execution.readVariable (.text name')) := by
  intro m m' hm
  rw [readVariable_apply, readVariable_apply, ← find hm]
  cases (m.table.find? name).map (·.value) with
  | some v => exact ⟨rfl, hm⟩
  | none => exact ⟨hF _, hm⟩

/-- Writing a variable, where both tables have it or neither has. -/
theorem Similar.writeVariable (hF : ∀ f, F f f) {target target' : Node} (hk : target.kind = .var)
    (hk' : target'.kind = .var) (ht : target.text = .text name) (ht' : target'.text = .text name')
    (x : Float)
    (contains : ∀ {m m' : Machine}, R m m' → m.table.contains name = m'.table.contains name')
    (set : ∀ {m m' : Machine}, R m m' → m.table.contains name = true →
      R { m with table := m.table.set name (.real x) }
        { m' with table := m'.table.set name' (.real x) }) :
    Similar same R F (Execution.writeVariable target x) (Execution.writeVariable target' x) := by
  intro m m' hm
  rw [writeVariable_apply hk ht, writeVariable_apply hk' ht', ← contains hm]
  split
  · next hc => exact ⟨rfl, set hm hc⟩
  · exact ⟨hF _, hm⟩

end Variables

theorem calculate_divide (text : Value) (x y : Float) (m : Machine) :
    calculate .divide text x y m =
      if y == 0.0 then .error (.fault (.divisionByZero m.line text)) m
      else .ok (.real (x / y)) m := by
  by_cases hy : (y == 0.0) = true <;> simp only [calculate, hy] <;> rfl

/-! ## Expressions -/

section Evaluation

variable {same : Prop} {ρ : Likeness} {R : Machine → Machine → Prop} {F : Fault → Fault → Prop}
  (sim : LikeEvaluation ρ R F)

include sim

theorem alike_expectReal (v : Value) {site site' : Site} (h : site.Resembles ρ site') :
    Similar same R F (orRaise (expectReal v site)) (orRaise (expectReal v site')) := by
  cases v with
  | real x => exact .pure x
  | _ => exact fun _ _ hm => ⟨sim.wrongType _ _ h, hm⟩

theorem alike_expectBoolean (v : Value) {site site' : Site} (h : site.Resembles ρ site') :
    Similar same R F (orRaise (expectBoolean v site)) (orRaise (expectBoolean v site')) := by
  cases v with
  | bool b => exact .pure b
  | _ => exact fun _ _ hm => ⟨sim.wrongType _ _ h, hm⟩

theorem alike_calculate (op : Arithmetic) {text text' : Value} (h : ρ.text text text')
    (x y : Float) : Similar same R F (calculate op text x y) (calculate op text' x y) := by
  cases op with
  | add | subtract | multiply => exact .pure _
  | divide =>
    intro m m' hm
    rw [calculate_divide, calculate_divide]
    split
    · exact ⟨sim.division hm h, hm⟩
    · exact ⟨rfl, hm⟩

/-- Evaluations of expressions that are alike are alike. -/
theorem alike_evaluate {n n' : Node} (h : n.Resembles ρ n') :
    Similar same R F (evaluate n) (evaluate n') := by
  induction n using Node.induct generalizing n' with
  | h n ih =>
    have missing : ∀ {α : Type},
        Similar same R F (raise .missingChild : Run α) (raise .missingChild) := .raise (sim.refl _)
    cases h with
    | @mk kind line line' text text' literal ns ns' hline htext hname hchildren =>
    have operand : ∀ c ∈ ns, ∀ c', c.Resembles ρ c' → Similar same R F (evaluate c) (evaluate c') :=
      fun c hc c' hr => ih c hc hr
    have operands : List.Forall₂ (fun c c' => Similar same R F (evaluate c) (evaluate c')) ns ns' :=
      Node.forall₂_of_resembles hchildren operand
    cases kind with
    | var =>
      rw [evaluate, evaluate]
      exact sim.read (hname rfl)
    | string => rw [evaluate, evaluate]; exact .pure _
    | integer | real =>
      rw [evaluate, evaluate]
      exact (Similar.orRaise sim.refl _).bind fun _ => .pure _
    | test =>
      cases operands with
      | nil => rw [evaluate, evaluate]; exact missing
      | cons hc _ =>
        rw [evaluate, evaluate]
        exact hc.bind fun _ => (alike_expectBoolean sim _ (.loopTest hline)).bind fun _ =>
          (sim.note (.tested hline)).bind fun _ => .pure _
    | not =>
      cases operands with
      | nil => rw [evaluate, evaluate]; exact missing
      | cons hc _ =>
        rw [evaluate, evaluate]
        exact hc.bind fun _ => (alike_expectBoolean sim _ (.refl _)).bind fun _ => .pure _
    | negate =>
      cases operands with
      | nil => rw [evaluate, evaluate]; exact missing
      | cons hc _ =>
        rw [evaluate, evaluate]
        exact hc.bind fun _ => (alike_expectReal sim _ (.refl _)).bind fun _ => .pure _
    | connective op =>
      -- Without its second operand an operation still evaluates and checks the first one.
      rcases operands with _ | ⟨hc, _ | ⟨hd, _⟩⟩
      · rw [evaluate, evaluate]; exact missing
      · rw [evaluate, evaluate]
        exact hc.bind fun _ => (alike_expectBoolean sim _ (.refl _)).bind fun _ => missing
      · rw [evaluate, evaluate]
        exact hc.bind fun _ => (alike_expectBoolean sim _ (.refl _)).bind fun _ =>
          hd.bind fun _ => (alike_expectBoolean sim _ (.refl _)).bind fun _ => .pure _
    | relation op =>
      rcases operands with _ | ⟨hc, _ | ⟨hd, _⟩⟩
      · rw [evaluate, evaluate]; exact missing
      · rw [evaluate, evaluate]
        exact hc.bind fun _ => (alike_expectReal sim _ (.operand hline)).bind fun _ => missing
      · rw [evaluate, evaluate]
        exact hc.bind fun _ => (alike_expectReal sim _ (.operand hline)).bind fun _ =>
          hd.bind fun _ => (alike_expectReal sim _ (.operand hline)).bind fun _ => .pure _
    | arithmetic op =>
      rcases operands with _ | ⟨hc, _ | ⟨hd, _⟩⟩
      · rw [evaluate, evaluate]; exact missing
      · rw [evaluate, evaluate]
        exact hc.bind fun _ => (alike_expectReal sim _ (.operand hline)).bind fun _ => missing
      · rw [evaluate, evaluate]
        exact hc.bind fun _ => (alike_expectReal sim _ (.operand hline)).bind fun _ =>
          hd.bind fun _ => (alike_expectReal sim _ (.operand hline)).bind fun _ =>
            alike_calculate sim _ htext _ _
    | program | compound | assign | loop | write | writeln | cond | select | selectBranch
    | selectConstants =>
      simp only [evaluate]
      exact .raise (sim.refl _)

end Evaluation

/-! ## Statements -/

section Statements

variable {same : Prop} {ρ : Likeness} {R : Machine → Machine → Prop} {F : Fault → Fault → Prop}
  (sim : LikeExecution ρ R F)

include sim

theorem alike_setLine {line line' : Value} (h : ρ.line line line') :
    Similar same R F (setLine line) (setLine line') :=
  fun _ _ hm => ⟨rfl, sim.line hm h⟩

theorem alike_emit (text : Text) : Similar same R F (emit text) (emit text) :=
  .modify fun h => sim.output text h

theorem alike_writeVariable {target target' : Node} (h : target.Resembles ρ target') (x : Float) :
    Similar same R F (writeVariable target x) (writeVariable target' x) := by
  by_cases hk : target.kind = .var
  · exact sim.write x hk (h.kind ▸ hk) (h.name hk)
  · have hk' : target'.kind ≠ .var := h.kind ▸ hk
    rw [writeVariable_eq_raise fun _ ha => absurd ha hk,
      writeVariable_eq_raise fun _ ha => absurd ha hk']
    exact .raise (sim.refl _)

theorem alike_writeValue (v : Value) (width places : Option Int) :
    Similar same R F (writeValue v width places) (writeValue v width places) :=
  (Similar.orRaise sim.refl _).bind fun _ => (sim.note (.wrote _)).bind fun _ => alike_emit sim _

theorem alike_writeArguments {ns ns' : List Node} (h : List.Forall₂ (Node.Resembles ρ) ns ns') :
    Similar same R F (writeArguments ns) (writeArguments ns') := by
  have values : List.Forall₂ (fun c c' => Similar same R F (evaluate c) (evaluate c')) ns ns' :=
    h.imp fun _ _ hc => alike_evaluate sim.toLikeEvaluation hc
  rcases values with _ | ⟨ha, _ | ⟨hw, _ | ⟨hp, _⟩⟩⟩
  · exact .raise (sim.refl _)
  · exact ha.bind fun _ => alike_writeValue sim _ _ _
  · exact hw.bind fun _ => (Similar.orRaise sim.refl _).bind fun _ =>
      ha.bind fun _ => alike_writeValue sim _ _ _
  · exact hw.bind fun _ => (Similar.orRaise sim.refl _).bind fun _ =>
      hp.bind fun _ => (Similar.orRaise sim.refl _).bind fun _ =>
        ha.bind fun _ => alike_writeValue sim _ _ _

theorem alike_assign {line line' : Value} {target target' value value' : Node}
    (hl : ρ.line line line') (ht : target.Resembles ρ target') (hv : value.Resembles ρ value') :
    Similar same R F (assign line target value) (assign line' target' value') :=
  (alike_evaluate sim.toLikeEvaluation hv).bind fun _ =>
    (alike_expectReal sim.toLikeEvaluation _ (.assignment ht.text hl)).bind fun _ =>
      (alike_writeVariable sim ht _).bind fun _ => sim.note (.assigned ht.text)

theorem alike_matchesAny (v : Value) {ns ns' : List Node}
    (h : List.Forall₂ (Node.Resembles ρ) ns ns') :
    Similar same R F (matchesAny v ns) (matchesAny v ns') := by
  induction h with
  | nil => exact .pure _
  | cons hc _ ih =>
    rw [matchesAny, matchesAny]
    refine (alike_evaluate sim.toLikeEvaluation hc).bind fun _ => ?_
    split
    · exact .pure _
    · exact ih

omit sim in
theorem similar_repeatPass {fuel fuel' : Nat} (hf : Fuels same fuel fuel') {pass pass' : Run Bool}
    (h : Similar same R F pass pass') :
    Similar same R F (repeatPass fuel pass) (repeatPass fuel' pass') := by
  induction fuel generalizing fuel' with
  | zero =>
    intro m m' hm hsame
    obtain rfl := hf.eq hsame
    exact ⟨m', rfl, hm⟩
  | succ fuel ih =>
    cases fuel' with
    | zero => exact absurd hf.le (by omega)
    | succ fuel' =>
      rw [repeatPass, repeatPass]
      refine h.bind fun b => ?_
      cases b with
      | true => exact .pure _
      | false => exact ih ⟨by have := hf.le; omega, fun hsame => by have := hf.eq hsame; omega⟩

theorem alike_visit {fuel fuel' : Nat} {n n' : Node} (hn : n.Resembles ρ n')
    (h : Similar same R F (execute fuel n) (execute fuel' n')) :
    Similar same R F (visit fuel n) (visit fuel' n') := by
  have hvalue : Similar same R F (evaluate n) (evaluate n') :=
    alike_evaluate sim.toLikeEvaluation hn
  cases hn
  rw [visit, visit]
  split
  · exact h.bind fun _ => .pure _
  · exact hvalue.bind fun _ => .pure _

omit sim in
theorem alike_executeAll {fuel fuel' : Nat} {ns ns' : List Node}
    (h : List.Forall₂ (fun c c' => Similar same R F (visit fuel c) (visit fuel' c')) ns ns') :
    Similar same R F (executeAll fuel ns) (executeAll fuel' ns') := by
  induction h with
  | nil => rw [executeAll, executeAll]; exact .pure _
  | cons hc _ ih =>
    rw [executeAll, executeAll]
    exact hc.bind fun _ => ih

omit sim in
theorem alike_runPass {fuel fuel' : Nat} {ns ns' : List Node}
    (h : List.Forall₂ (fun c c' => c.kind = c'.kind ∧
      Similar same R F (visit fuel c) (visit fuel' c')) ns ns') :
    Similar same R F (runPass fuel ns) (runPass fuel' ns') := by
  induction h with
  | nil => rw [runPass, runPass]; exact .pure _
  | @cons c c' _ _ hc _ ih =>
    obtain ⟨hkind, hvisit⟩ := hc
    obtain ⟨kind, line, text, literal, children⟩ := c
    obtain ⟨kind', line', text', literal', children'⟩ := c'
    obtain rfl : kind = kind' := hkind
    rw [runPass, runPass]
    refine hvisit.bind fun v => ?_
    split
    · exact .pure _
    · exact ih

/-- A branch has two parts, its constants and its statement. -/
theorem alike_executeBranch {fuel fuel' : Nat} {line line' : Value} (hl : ρ.line line line')
    (v : Value) {ns ns' : List Node}
    (h : List.Forall₂ (fun b b' => b.Resembles ρ b' ∧
      List.Forall₂ (fun c c' => Similar same R F (visit fuel c) (visit fuel' c'))
        b.children b'.children) ns ns') :
    Similar same R F (executeBranch fuel line v ns) (executeBranch fuel' line' v ns') := by
  induction h with
  | nil => rw [executeBranch, executeBranch]; exact sim.note (.unmatched hl)
  | cons hb _ ih =>
    obtain ⟨hb, hvisit⟩ := hb
    cases hb with
    | mk hbranch _ _ hparts =>
    rcases hparts with _ | ⟨hconstants, _ | ⟨_, _ | ⟨_, _⟩⟩⟩
    · rw [executeBranch, executeBranch]
      exact .raise (sim.refl _)
    · rw [executeBranch, executeBranch]
      exact .raise (sim.refl _)
    · rw [executeBranch, executeBranch]
      refine (alike_matchesAny sim v hconstants.children).bind fun b => ?_
      split
      · rcases hvisit with _ | ⟨_, _ | ⟨hstatement, _⟩⟩
        exact (sim.note (.selected hl hbranch)).bind fun _ => hstatement.bind fun _ => .pure _
      · exact ih
    · simp only [executeBranch]
      exact .raise (sim.refl _)

/-- **Runs of trees that are alike are alike**, where the second has no less fuel. -/
theorem alike_execute {fuel fuel' : Nat} (hf : Fuels same fuel fuel') {n n' : Node}
    (h : n.Resembles ρ n') : Similar same R F (execute fuel n) (execute fuel' n') := by
  induction n using Node.inductBelow generalizing n' with
  | h n ih =>
    have below : ∀ k ∈ Node.walkAll n.children, ∀ k', k.Resembles ρ k' →
        Similar same R F (visit fuel k) (visit fuel' k') := fun k hk k' hr =>
      alike_visit sim hr (ih k hk hr)
    have child : ∀ c ∈ n.children, ∀ c', c.Resembles ρ c' →
        Similar same R F (visit fuel c) (visit fuel' c') := fun c hc =>
      below c (Node.mem_walkAll_self hc)
    -- The body of a program is executed directly, every other part is visited.
    have body : ∀ c ∈ n.children, ∀ c', c.Resembles ρ c' →
        Similar same R F (execute fuel c) (execute fuel' c') := fun c hc c' hr =>
      ih c (Node.mem_walkAll_self hc) hr
    have grandchild : ∀ c ∈ n.children, ∀ d ∈ c.children, ∀ d', d.Resembles ρ d' →
        Similar same R F (visit fuel d) (visit fuel' d') := fun c hc d hd =>
      below d (Node.mem_walkAll.2 ⟨c, hc, Node.mem_walk_of_child hd Node.self_mem_walk⟩)
    cases h with
    | @mk kind line line' text text' literal ns ns' hline htext hname hchildren =>
    have children : List.Forall₂ (fun c c' => Similar same R F (visit fuel c) (visit fuel' c'))
        ns ns' := Node.forall₂_of_resembles hchildren child
    cases kind with
    | program =>
      cases hchildren with
      | nil =>
        rw [execute, execute]
        exact .raise (sim.refl _)
      | cons hc _ =>
        rw [execute, execute]
        exact body _ (by simp) _ hc
    | compound =>
      simp only [execute]
      exact (alike_setLine sim hline).bind fun _ => alike_executeAll children
    | assign =>
      simp only [execute]
      refine (alike_setLine sim hline).bind fun _ => ?_
      -- Only with two children there is something to assign.
      rcases hchildren with _ | ⟨ht, _ | ⟨hv, _ | ⟨_, _⟩⟩⟩
      · exact .raise (sim.refl _)
      · exact .raise (sim.refl _)
      · exact alike_assign sim hline ht hv
      · exact .raise (sim.refl _)
    | loop =>
      simp only [execute]
      refine (alike_setLine sim hline).bind fun _ => similar_repeatPass hf (alike_runPass ?_)
      exact Node.forall₂_of_resembles hchildren fun c hc c' hr => ⟨hr.kind, child c hc c' hr⟩
    | cond =>
      cases hchildren with
      | nil =>
        simp only [execute]
        exact (alike_setLine sim hline).bind fun _ => .raise (sim.refl _)
      | cons hc _ =>
        simp only [execute]
        refine (alike_setLine sim hline).bind fun _ =>
          (alike_evaluate sim.toLikeEvaluation hc).bind fun _ =>
            (alike_expectBoolean sim.toLikeEvaluation _ (.condition hline)).bind fun b =>
              (sim.note (.decided hline)).bind fun _ => ?_
        -- The truth value is the same on both sides, so both take the same branch.
        have branches := (List.forall₂_cons.1 children).2
        cases b with
        | true =>
          cases branches with
          | nil => exact .raise (sim.refl _)
          | cons hfirst _ => exact hfirst.bind fun _ => .pure _
        | false =>
          rcases branches with _ | ⟨_, _ | ⟨hsecond, _⟩⟩
          · exact .pure _
          · exact .pure _
          · exact hsecond.bind fun _ => .pure _
    | select =>
      cases hchildren with
      | nil =>
        simp only [execute]
        exact (alike_setLine sim hline).bind fun _ => .raise (sim.refl _)
      | cons hc hbranches =>
        simp only [execute]
        refine (alike_setLine sim hline).bind fun _ =>
          (alike_evaluate sim.toLikeEvaluation hc).bind fun v => ?_
        refine alike_executeBranch sim hline v (Node.forall₂_of_resembles hbranches ?_)
        exact fun b hb b' hr => ⟨hr, Node.forall₂_of_resembles hr.children
          (grandchild b (List.mem_cons_of_mem _ hb))⟩
    | write =>
      simp only [execute]
      exact (alike_setLine sim hline).bind fun _ => alike_writeArguments sim hchildren
    | writeln =>
      simp only [execute]
      refine (alike_setLine sim hline).bind fun _ => ?_
      cases hchildren with
      | nil => exact alike_emit sim _
      | cons hc hrest =>
        exact (alike_writeArguments sim (.cons hc hrest)).bind fun _ => alike_emit sim _
    | test | not | selectBranch | selectConstants | negate | arithmetic | relation | connective
    | var | integer | real | string =>
      simp only [execute]
      exact (alike_setLine sim hline).bind fun _ => .raise (sim.refl _)

/-- Runs of programs that are alike are alike, where the second has no less fuel. -/
theorem alike_run {fuel fuel' : Nat} (hf : Fuels same fuel fuel') {n n' : Node}
    (h : n.Resembles ρ n') : Similar same R F (run fuel n) (run fuel' n') := by
  unfold run
  rw [← h.kind]
  split
  · exact (alike_visit sim h (alike_execute sim hf h)).bind fun _ => .pure _
  · exact .raise (sim.refl _)

end Statements

/-! ## Runs of one tree -/

/-- The primitive steps of evaluation keep to the relations, for known names. -/
structure EvaluationSimulation (R : Machine → Machine → Prop) (F : Fault → Fault → Prop)
    (known : Text → Prop) : Prop where
  refl : ∀ f, F f f
  division : ∀ {m m' : Machine} (text : Value), R m m' →
    F (.divisionByZero m.line text) (.divisionByZero m'.line text)
  note : ∀ {same : Prop} n, Similar same R F (note n) (note n)
  find : ∀ {m m' : Machine} {name : Text}, R m m' → known name →
    (m.table.find? name).map (·.value) = (m'.table.find? name).map (·.value)

/-- All primitive steps of a run keep to the relations, for known names. -/
structure Simulation (R : Machine → Machine → Prop) (F : Fault → Fault → Prop)
    (known : Text → Prop) : Prop extends EvaluationSimulation R F known where
  line : ∀ {m m' : Machine} (line : Value), R m m' → R { m with line } { m' with line }
  output : ∀ {m m' : Machine} (text : Text), R m m' →
    R { m with output := m.output ++ text } { m' with output := m'.output ++ text }
  set : ∀ {m m' : Machine} {name : Text} (x : Float), R m m' → known name →
    m.table.contains name = true →
    R { m with table := m.table.set name (.real x) }
      { m' with table := m'.table.set name (.real x) }

/-- Places are the same, where lines and texts that are alike are the same. -/
theorem Site.Resembles.eq {ρ : Likeness} {site site' : Site} (h : site.Resembles ρ site')
    (hline : ∀ {v w}, ρ.line v w → v = w) (htext : ∀ {v w}, ρ.text v w → v = w) :
    site = site' := by
  cases h with
  | refl => rfl
  | assignment ht hl => rw [htext ht, hline hl]
  | operand hl | condition hl | loopTest hl => rw [hline hl]

/-- Notes are the same, where lines and texts that are alike are the same. -/
theorem Note.Resembles.eq {ρ : Likeness} {n n' : Note} (h : n.Resembles ρ n')
    (hline : ∀ {v w}, ρ.line v w → v = w) (htext : ∀ {v w}, ρ.text v w → v = w) : n = n' := by
  cases h with
  | wrote => rfl
  | selected hl hb => rw [hline hl, hline hb]
  | assigned ht => rw [htext ht]
  | decided hl | tested hl | unmatched hl => rw [hline hl]

section Evaluation

variable {same : Prop} {R : Machine → Machine → Prop} {F : Fault → Fault → Prop}
  {known : Text → Prop}
  (sim : EvaluationSimulation R F known)

include sim

theorem similar_readVariable {text : Value} (h : ∀ name, text = .text name → known name) :
    Similar same R F (readVariable text) (readVariable text) := by
  cases text with
  | text name => exact .readVariable sim.refl fun hm => sim.find hm (h name rfl)
  | _ => exact .raise (sim.refl _)

theorem EvaluationSimulation.alike : LikeEvaluation (.same known) R F where
  refl := sim.refl
  wrongType _ _ h := h.eq id id ▸ sim.refl _
  division hm h := (show _ = _ from h) ▸ sim.division _ hm
  note h := h.eq id id ▸ sim.note _
  read := by
    rintro _ _ _ ⟨rfl, hknown⟩
    exact similar_readVariable sim hknown

/-- Evaluations of one expression are alike. -/
theorem similar_evaluate (n : Node) (hn : n.Names known) :
    Similar same R F (evaluate n) (evaluate n) :=
  alike_evaluate sim.alike (Node.resembles_self hn)

end Evaluation

section Statements

variable {same : Prop} {R : Machine → Machine → Prop} {F : Fault → Fault → Prop}
  {known : Text → Prop}
  (sim : Simulation R F known)

include sim

theorem Simulation.alike : LikeExecution (.same known) R F where
  toLikeEvaluation := sim.toEvaluationSimulation.alike
  line hm h := (show _ = _ from h) ▸ sim.line _ hm
  output := sim.output
  write := by
    rintro _ target target' x hk hk' ⟨ht, hknown⟩
    by_cases hv : ∃ name, target.text = .text name
    · obtain ⟨name, hname⟩ := hv
      refine .writeVariable sim.refl hk hk' hname (ht ▸ hname) x (fun hm => ?_) fun hm hc =>
        sim.set x hm (hknown name hname) hc
      simpa [Table.contains] using congrArg Option.isSome (sim.find hm (hknown name hname))
    · rw [writeVariable_eq_raise fun name _ ha => hv ⟨name, ha⟩,
        writeVariable_eq_raise fun name _ ha => hv ⟨name, ht ▸ ha⟩]
      exact .raise (sim.refl _)

theorem similar_writeVariable {target : Node} (h : target.Names known) (x : Float) :
    Similar same R F (writeVariable target x) (writeVariable target x) :=
  alike_writeVariable sim.alike (Node.resembles_self h) x

theorem similar_setLine (line : Value) : Similar same R F (setLine line) (setLine line) :=
  alike_setLine sim.alike rfl

theorem similar_assign (line : Value) {target expression : Node} (ht : target.Names known)
    (he : expression.Names known) :
    Similar same R F (assign line target expression) (assign line target expression) :=
  alike_assign sim.alike rfl (Node.resembles_self ht) (Node.resembles_self he)

theorem similar_visit {fuel fuel' : Nat} {n : Node} (hn : n.Names known)
    (h : Similar same R F (execute fuel n) (execute fuel' n)) :
    Similar same R F (visit fuel n) (visit fuel' n) :=
  alike_visit sim.alike (Node.resembles_self hn) h

omit sim in
theorem similar_runPass {fuel fuel' : Nat} {ns : List Node}
    (h : ∀ n ∈ ns, Similar same R F (visit fuel n) (visit fuel' n)) :
    Similar same R F (runPass fuel ns) (runPass fuel' ns) :=
  alike_runPass (List.forall₂_same.2 fun n hn => ⟨rfl, h n hn⟩)

/-- **Runs of one tree are alike**, where the second has no less fuel. -/
theorem similar_execute {fuel fuel' : Nat} (hf : Fuels same fuel fuel') (n : Node)
    (hn : n.Names known) : Similar same R F (execute fuel n) (execute fuel' n) :=
  alike_execute sim.alike hf (Node.resembles_self hn)

/-- Runs of one program are alike, where the second has no less fuel. -/
theorem similar_run {fuel fuel' : Nat} (hf : Fuels same fuel fuel') (n : Node)
    (hn : n.Names known) : Similar same R F (run fuel n) (run fuel' n) :=
  alike_run sim.alike hf (Node.resembles_self hn)

end Statements

/-! ## What every run keeps -/

/-- The machine at the end of a part of a run. -/
def endOf : EStateM.Result Stop Machine α → Machine
  | .ok _ m => m
  | .error _ m => m

/-- Telling something keeps a property of machines. -/
structure KeptByNotes (P : Machine → Prop) : Prop where
  trace : ∀ {m : Machine} (line : String), P m → P { m with trace := m.trace ++ line ++ "\n" }
  notes : ∀ {m : Machine} (n : Note), P m → P { m with notes := m.notes.push n }

/-- All primitive steps of a run keep a property of machines. -/
structure KeptByRuns (P : Machine → Prop) : Prop extends KeptByNotes P where
  line : ∀ {m : Machine} (line : Value), P m → P { m with line }
  output : ∀ {m : Machine} (text : Text), P m → P { m with output := m.output ++ text }
  set : ∀ {m : Machine} {name : Text} (x : Float), P m → m.table.contains name = true →
    P { m with table := m.table.set name (.real x) }

/-- Machines that are the same one, with a property. -/
structure Keeps (P : Machine → Prop) (m m' : Machine) : Prop where
  same : m = m'
  kept : P m

section Keeping

variable {P : Machine → Prop}

theorem KeptByNotes.simulation (h : KeptByNotes P) :
    EvaluationSimulation (Keeps P) Eq fun _ => True where
  refl _ := rfl
  division _ hm := by rw [hm.same]
  note := similar_note (fun _ => rfl) (fun hm => by rw [hm.same])
    (fun line hm => ⟨by rw [hm.same], h.trace line hm.kept⟩)
    (fun n hm => ⟨by rw [hm.same], h.notes n hm.kept⟩)
  find hm _ := by rw [hm.same]

theorem KeptByRuns.simulation (h : KeptByRuns P) : Simulation (Keeps P) Eq fun _ => True where
  toEvaluationSimulation := h.toKeptByNotes.simulation
  line line hm := ⟨by rw [hm.same], h.line line hm.kept⟩
  output text hm := ⟨by rw [hm.same], h.output text hm.kept⟩
  set x hm _ hc := ⟨by rw [hm.same], h.set x hm.kept hc⟩

theorem names_trivial (n : Node) : n.Names fun _ => True := fun _ _ _ _ _ => trivial

theorem Follows.kept {x : EStateM.Result Stop Machine α} (h : Follows True (Keeps P) Eq x x) :
    P (endOf x) := by
  cases x with
  | ok a m => exact h.2.kept
  | error e m =>
    cases e with
    | fault f => exact h.2.kept
    | outOfFuel =>
      obtain ⟨m', -, hm⟩ := h trivial
      exact hm.kept

/-- What telling something keeps, every evaluation keeps. -/
theorem KeptByNotes.evaluate (h : KeptByNotes P) (n : Node) {m : Machine} (hm : P m) :
    P (endOf (evaluate n m)) :=
  (similar_evaluate h.simulation n (names_trivial n) m m ⟨rfl, hm⟩).kept

/-- The machines differ at most in notes and trace. -/
structure Agrees (m m' : Machine) : Prop where
  table : m'.table = m.table
  output : m'.output = m.output
  line : m'.line = m.line
  level : m'.level = m.level

theorem Agrees.refl (m : Machine) : Agrees m m := ⟨rfl, rfl, rfl, rfl⟩

/-- Evaluation changes nothing but notes and trace. -/
theorem agrees_evaluate (n : Node) (m : Machine) : Agrees m (endOf (evaluate n m)) := by
  have hkept : KeptByNotes (Agrees m) :=
    ⟨fun _ h => ⟨h.table, h.output, h.line, h.level⟩,
      fun _ h => ⟨h.table, h.output, h.line, h.level⟩⟩
  exact hkept.evaluate n (.refl m)

/-- What every primitive step keeps, every statement keeps, whether it ends or not. -/
theorem KeptByRuns.execute (h : KeptByRuns P) (fuel : Nat) (n : Node) {m : Machine} (hm : P m) :
    P (endOf (execute fuel n m)) :=
  (similar_execute h.simulation (.refl True fuel) n (names_trivial n) m m ⟨rfl, hm⟩).kept

/-- What every primitive step keeps, every run keeps, whether it ends or not. -/
theorem KeptByRuns.run (h : KeptByRuns P) (fuel : Nat) (n : Node) {m : Machine} (hm : P m) :
    P (endOf (run fuel n m)) :=
  (similar_run h.simulation (.refl True fuel) n (names_trivial n) m m ⟨rfl, hm⟩).kept

end Keeping

end Execution

end MiniPascal
