import Mathlib.Data.List.Forall2
import MiniPascal.Proofs.Execution.Typing

/-!
# What a run leaves alone

A run of any tree changes the values of the variables that are assigned somewhere in the tree, and
appends to the output. It does nothing else to table and output, however it ends (`stays_execute`).

A single assignment or write that fails has done nothing at all (`Atomic.execute_write`,
`execute_assign_error`), with one exception: an assignment is told after it is made, and the trace
cannot hold the name of a variable that has half of a surrogate pair in it (`assign_not_atomic`).
-/

namespace MiniPascal

/-- A variable after a run: the same one, with a value of its own only where `target` holds of its
key. -/
structure Cell.Kept (target : Text → Prop) (c c' : Cell) : Prop where
  key : c'.key = c.key
  name : c'.name = c.name
  real : (∃ x : Float, c.value = .real x) → ∃ x : Float, c'.value = .real x
  value : ¬ target c.key → c'.value = c.value

theorem Cell.Kept.refl (target : Text → Prop) (c : Cell) : c.Kept target c :=
  ⟨rfl, rfl, id, fun _ => rfl⟩

theorem Cell.Kept.trans {target : Text → Prop} {a b c : Cell} (h : a.Kept target b)
    (h' : b.Kept target c) : a.Kept target c where
  key := h'.key.trans h.key
  name := h'.name.trans h.name
  real hx := h'.real (h.real hx)
  value ht := (h'.value (h.key ▸ ht)).trans (h.value ht)

theorem Cell.kept_trans {target : Text → Prop} {as bs cs : List Cell}
    (h : List.Forall₂ (Kept target) as bs) (h' : List.Forall₂ (Kept target) bs cs) :
    List.Forall₂ (Kept target) as cs := by
  induction h generalizing cs with
  | nil => exact h'
  | cons hc _ ih =>
    cases h' with
    | cons hd hrest => exact .cons (hc.trans hd) (ih hrest)

theorem Table.kept_set {target : Text → Prop} {name : Text} (h : target (keyOf name)) (t : Table)
    (x : Float) : List.Forall₂ (Cell.Kept target) t.cells (t.set name (.real x)).cells := by
  refine List.forall₂_map_right_iff.2 (List.forall₂_same.2 fun c _ => ?_)
  split
  · next hk =>
    exact ⟨rfl, rfl, fun _ => ⟨x, rfl⟩, fun ht => absurd (beq_iff_eq.1 hk ▸ h) ht⟩
  · exact .refl target c

/-- The variable that a key stands for is assigned somewhere in the tree: it is the first child of
an assignment. -/
def Node.Assigns (n : Node) (key : Text) : Prop :=
  ∃ k ∈ n.walk, k.kind = .assign ∧ ∃ target rest name, k.children = target :: rest ∧
    target.kind = .var ∧ target.text = .text name ∧ Table.keyOf name = key

namespace Execution

variable {α β : Type} {target : Text → Prop}

/-- A machine after a run in which only some variables are assigned. -/
structure Framed (target : Text → Prop) (m m' : Machine) : Prop where
  cells : List.Forall₂ (Cell.Kept target) m.table.cells m'.table.cells
  output : ∃ text, m'.output = m.output ++ text

theorem Agrees.framed {m m' : Machine} (h : Agrees m m') : Framed target m m' where
  cells := by
    rw [h.table]
    exact List.forall₂_same.2 fun c _ => .refl target c
  output := ⟨{}, by rw [h.output, Text.append_empty]⟩

theorem Framed.refl (target : Text → Prop) (m : Machine) : Framed target m m :=
  (Agrees.refl m).framed

theorem Framed.trans {m u w : Machine} (h : Framed target m u) (h' : Framed target u w) :
    Framed target m w where
  cells := Cell.kept_trans h.cells h'.cells
  output := by
    obtain ⟨s, hs⟩ := h.output
    obtain ⟨t, ht⟩ := h'.output
    exact ⟨s ++ t, by rw [ht, hs, Text.append_assoc]⟩

/-! ## Parts of runs -/

theorem writeVariable_cases (n : Node) (x : Float) (m : Machine) :
    (∃ name, n.kind = .var ∧ n.text = .text name ∧
      writeVariable n x m = .ok () { m with table := m.table.set name (.real x) }) ∨
      writeVariable n x m = .error (.fault .notAssignable) m := by
  by_cases hname : ∃ name, n.kind = .var ∧ n.text = .text name
  · obtain ⟨name, hk, ht⟩ := hname
    rw [writeVariable_apply hk ht]
    split
    · exact .inl ⟨name, hk, ht, rfl⟩
    · exact .inr rfl
  · rw [writeVariable_eq_raise fun name hk ht => hname ⟨name, hk, ht⟩]
    exact .inr rfl

/-- A part of a run assigns only some variables, however it ends. -/
def Stays (target : Text → Prop) (p : Run α) : Prop := ∀ m, Framed target m (endOf (p m))

namespace Stays

theorem pure (a : α) : Stays target (Pure.pure a) := fun m => .refl target m

theorem raise (f : Fault) : Stays target (Execution.raise f : Run α) :=
  fun m => .refl target m

theorem orRaise (x : Except Fault α) : Stays target (Execution.orRaise x) := by
  cases x with
  | ok a => exact .pure a
  | error f => exact .raise f

theorem bind {p : Run α} {f : α → Run β} (hp : Stays target p) (hf : ∀ a, Stays target (f a)) :
    Stays target (p >>= f) := by
  intro m
  have h := hp m
  rw [bind_apply]
  cases he : p m with
  | ok a u =>
    rw [he] at h
    exact h.trans (hf a u)
  | error e u =>
    rw [he] at h
    exact h

theorem evaluate (n : Node) : Stays target (evaluate n) := fun m => (agrees_evaluate n m).framed

theorem note (n : Note) : Stays target (note n) := by
  intro m
  obtain ⟨trace, he⟩ | ⟨-, f, he⟩ := note_cases n m <;> rw [he]
  · exact Agrees.framed ⟨rfl, rfl, rfl, rfl⟩
  · exact .refl target m

theorem setLine (line : Value) : Stays target (setLine line) :=
  fun m => ⟨(Framed.refl target m).cells, (Framed.refl target m).output⟩

theorem emit (text : Text) : Stays target (emit text) :=
  fun m => ⟨(Framed.refl target m).cells, text, rfl⟩

theorem writeVariable {n : Node} (x : Float)
    (h : ∀ name, n.kind = .var → n.text = .text name → target (Table.keyOf name)) :
    Stays target (writeVariable n x) := by
  intro m
  obtain ⟨name, hk, ht, he⟩ | he := writeVariable_cases n x m <;> rw [he]
  · exact ⟨Table.kept_set (h name hk ht) _ x, (Framed.refl target m).output⟩
  · exact .refl target m

theorem assign (line : Value) {n expression : Node}
    (h : ∀ name, n.kind = .var → n.text = .text name → target (Table.keyOf name)) :
    Stays target (assign line n expression) :=
  (evaluate expression).bind fun _ => (orRaise _).bind fun x =>
    (writeVariable x h).bind fun _ => note _

theorem writeValue (v : Value) (width places : Option Int) :
    Stays target (writeValue v width places) :=
  (orRaise _).bind fun _ => (note _).bind fun _ => emit _

theorem writeArguments (ns : List Node) : Stays target (writeArguments ns) := by
  rcases ns with _ | ⟨argument, _ | ⟨width, _ | ⟨places, rest⟩⟩⟩
  · exact .raise _
  · exact (evaluate _).bind fun _ => writeValue _ _ _
  · exact (evaluate _).bind fun _ => (orRaise _).bind fun _ =>
      (evaluate _).bind fun _ => writeValue _ _ _
  · exact (evaluate _).bind fun _ => (orRaise _).bind fun _ => (evaluate _).bind fun _ =>
      (orRaise _).bind fun _ => (evaluate _).bind fun _ => writeValue _ _ _

theorem matchesAny (v : Value) (cs : List Node) : Stays target (matchesAny v cs) := by
  induction cs with
  | nil => exact .pure _
  | cons c cs ih =>
    rw [Execution.matchesAny]
    refine (evaluate c).bind fun _ => ?_
    split
    · exact .pure _
    · exact ih

theorem repeatPass {pass : Run Bool} (h : Stays target pass) (fuel : Nat) :
    Stays target (repeatPass fuel pass) := by
  induction fuel with
  | zero => exact fun m => .refl target m
  | succ fuel ih =>
    rw [Execution.repeatPass]
    refine h.bind fun b => ?_
    cases b with
    | true => exact .pure _
    | false => exact ih

section Statements

variable {fuel : Nat}

theorem visit {n : Node} (h : Stays target (execute fuel n)) : Stays target (visit fuel n) := by
  have hvalue : Stays target (Execution.evaluate n) := evaluate n
  obtain ⟨kind, line, text, literal, children⟩ := n
  rw [Execution.visit]
  split
  · exact h.bind fun _ => .pure _
  · exact hvalue.bind fun _ => .pure _

theorem executeAll {ns : List Node} (h : ∀ c ∈ ns, Stays target (Execution.visit fuel c)) :
    Stays target (executeAll fuel ns) := by
  induction ns with
  | nil => rw [Execution.executeAll]; exact .pure _
  | cons c ns ih =>
    rw [Execution.executeAll]
    exact (h c (by simp)).bind fun _ => ih fun d hd => h d (by simp [hd])

theorem runPass {ns : List Node} (h : ∀ c ∈ ns, Stays target (Execution.visit fuel c)) :
    Stays target (runPass fuel ns) := by
  induction ns with
  | nil => rw [Execution.runPass]; exact .pure _
  | cons c ns ih =>
    have hc := h c (by simp)
    obtain ⟨kind, line, text, literal, children⟩ := c
    rw [Execution.runPass]
    refine hc.bind fun v => ?_
    split
    · exact .pure _
    · exact ih fun d hd => h d (by simp [hd])

theorem executeBranch (line v : Value) {bs : List Node}
    (h : ∀ b ∈ bs, ∀ c ∈ b.children, Stays target (Execution.visit fuel c)) :
    Stays target (executeBranch fuel line v bs) := by
  induction bs with
  | nil => rw [Execution.executeBranch]; exact note _
  | cons b bs ih =>
    have hb := h b (by simp)
    have hrest := ih fun d hd => h d (by simp [hd])
    obtain ⟨kind, branchLine, text, literal, parts⟩ := b
    rcases parts with _ | ⟨constants, _ | ⟨statement, _ | ⟨third, rest⟩⟩⟩
    · rw [Execution.executeBranch]; exact .raise _
    · rw [Execution.executeBranch]; exact .raise _
    · rw [Execution.executeBranch]
      refine (matchesAny v _).bind fun found => ?_
      split
      · exact (note _).bind fun _ => (hb statement (by simp)).bind fun _ => .pure _
      · exact hrest
    · simp only [Execution.executeBranch]
      exact .raise _

end Statements

end Stays

/-- **Only what is assigned in a tree is changed by its execution**, and the output only grows. -/
theorem stays_execute (fuel : Nat) {n : Node} (h : ∀ key, n.Assigns key → target key) :
    Stays target (execute fuel n) := by
  induction n using Node.inductBelow with
  | h n ih =>
    -- A variable assigned below is assigned in the tree.
    have below : ∀ k ∈ Node.walkAll n.children, Stays target (execute fuel k) := by
      intro k hk
      obtain ⟨c, hc, hkc⟩ := Node.mem_walkAll.1 hk
      refine ih k hk fun key => ?_
      rintro ⟨j, hj, hassign⟩
      exact h key ⟨j, Node.mem_walk_of_child hc (Node.mem_walk_trans hj hkc), hassign⟩
    have child : ∀ c ∈ n.children, Stays target (visit fuel c) := fun c hc =>
      .visit (below c (Node.mem_walkAll_self hc))
    have grandchild : ∀ c ∈ n.children, ∀ d ∈ c.children, Stays target (visit fuel d) :=
      fun c hc d hd => .visit (below d
        (Node.mem_walkAll.2 ⟨c, hc, Node.mem_walk_of_child hd Node.self_mem_walk⟩))
    have hself : n ∈ n.walk := Node.self_mem_walk
    obtain ⟨kind, line, text, literal, children⟩ := n
    cases kind with
    | program =>
      cases children with
      | nil => rw [execute]; exact .raise _
      | cons first rest =>
        rw [execute]
        exact below first (Node.mem_walkAll_self (by simp))
    | compound =>
      simp only [execute]
      exact (Stays.setLine line).bind fun _ => .executeAll child
    | assign =>
      simp only [execute]
      refine (Stays.setLine line).bind fun _ => ?_
      rcases children with _ | ⟨first, _ | ⟨expression, _ | ⟨third, rest⟩⟩⟩
      · exact .raise _
      · exact .raise _
      -- The node itself is the assignment that permits the change.
      · exact .assign line fun name hk ht =>
          h _ ⟨_, hself, rfl, first, _, name, rfl, hk, ht, rfl⟩
      · exact .raise _
    | loop =>
      simp only [execute]
      exact (Stays.setLine line).bind fun _ => .repeatPass (.runPass child) fuel
    | cond =>
      rcases children with _ | ⟨condition, branches⟩
      · simp only [execute]
        exact (Stays.setLine line).bind fun _ => .raise _
      · simp only [execute]
        refine (Stays.setLine line).bind fun _ => (Stays.evaluate condition).bind fun _ =>
          (Stays.orRaise _).bind fun b => (Stays.note _).bind fun _ => ?_
        rcases branches with _ | ⟨first, _ | ⟨second, rest⟩⟩
        · cases b with
          | true => exact .raise _
          | false => exact .pure _
        · cases b with
          | true => exact (child first (by simp)).bind fun _ => .pure _
          | false => exact .pure _
        · cases b with
          | true => exact (child first (by simp)).bind fun _ => .pure _
          | false => exact (child second (by simp)).bind fun _ => .pure _
    | select =>
      rcases children with _ | ⟨discriminant, branches⟩
      · simp only [execute]
        exact (Stays.setLine line).bind fun _ => .raise _
      · simp only [execute]
        exact (Stays.setLine line).bind fun _ => (Stays.evaluate discriminant).bind fun v =>
          .executeBranch line v fun b hb => grandchild b (by simp [hb])
    | write =>
      simp only [execute]
      exact (Stays.setLine line).bind fun _ => .writeArguments children
    | writeln =>
      simp only [execute]
      refine (Stays.setLine line).bind fun _ => ?_
      split
      · exact (Stays.writeArguments children).bind fun _ => .emit _
      · exact .emit _
    | test | not | selectBranch | selectConstants | negate | arithmetic | relation | connective
    | var | integer | real | string =>
      simp only [execute]
      exact (Stays.setLine line).bind fun _ => .raise _

/-! ## Statements that fail -/

/-- Table and output are the same, and the trace takes the same notes. -/
structure Untouched (m m' : Machine) : Prop where
  table : m'.table = m.table
  output : m'.output = m.output
  level : m'.level = m.level

theorem Untouched.trans {m u w : Machine} (h : Untouched m u) (h' : Untouched u w) :
    Untouched m w :=
  ⟨h'.table.trans h.table, h'.output.trans h.output, h'.level.trans h.level⟩

/-- A part of a run that does nothing to table and output. -/
def Quiet (p : Run α) : Prop := ∀ m, Untouched m (endOf (p m))

theorem quiet_setLine (line : Value) : Quiet (setLine line) := fun _ => ⟨rfl, rfl, rfl⟩

theorem quiet_evaluate (n : Node) : Quiet (evaluate n) := fun m =>
  have h := agrees_evaluate n m
  ⟨h.table, h.output, h.level⟩

theorem quiet_orRaise (x : Except Fault α) : Quiet (orRaise x) := by
  intro m
  cases x <;> exact ⟨rfl, rfl, rfl⟩

theorem quiet_note (n : Note) : Quiet (note n) := by
  intro m
  obtain ⟨trace, he⟩ | ⟨-, f, he⟩ := note_cases n m <;> rw [he] <;> exact ⟨rfl, rfl, rfl⟩

/-- Where a part of a run follows one that does nothing, it alone can have done something. -/
theorem Quiet.error_cases {p : Run α} {f : α → Run β} (hp : Quiet p) {m m' : Machine} {e : Stop}
    (h : (p >>= f) m = .error e m') :
    Untouched m m' ∨ ∃ a u, Untouched m u ∧ f a u = .error e m' := by
  have hm := hp m
  rw [bind_apply] at h
  cases he : p m with
  | ok a u =>
    rw [he] at h hm
    exact .inr ⟨a, u, hm, h⟩
  | error e' u =>
    rw [he] at h hm
    cases h
    exact .inl hm

/-- A part of a run that has done nothing to table and output when it fails. -/
def Atomic (p : Run α) : Prop := ∀ m e m', p m = .error e m' → Untouched m m'

namespace Atomic

theorem raise (f : Fault) : Atomic (Execution.raise f : Run α) := by
  rintro m e m' ⟨⟩
  exact ⟨rfl, rfl, rfl⟩

theorem emit (text : Text) : Atomic (emit text) := by
  rintro m e m' ⟨⟩

theorem bind {p : Run α} {f : α → Run β} (hp : Quiet p) (hf : ∀ a, Atomic (f a)) :
    Atomic (p >>= f) := by
  intro m e m' h
  obtain hm | ⟨a, u, hm, h⟩ := hp.error_cases h
  · exact hm
  · exact hm.trans (hf a u e m' h)

/-- What cannot fail may follow. -/
theorem before_emit {p : Run α} (hp : Atomic p) (text : Text) :
    Atomic (p >>= fun _ => Execution.emit text) := by
  intro m e m' h
  rw [bind_apply] at h
  cases he : p m with
  | ok a u =>
    rw [he] at h
    cases h
  | error e' u =>
    rw [he] at h
    cases h
    exact hp m e m' he

theorem writeValue (v : Value) (width places : Option Int) : Atomic (writeValue v width places) :=
  .bind (quiet_orRaise _) fun _ => .bind (quiet_note _) fun _ => .emit _

theorem writeArguments (ns : List Node) : Atomic (writeArguments ns) := by
  rcases ns with _ | ⟨argument, _ | ⟨width, _ | ⟨places, rest⟩⟩⟩
  · exact .raise _
  · exact .bind (quiet_evaluate _) fun _ => .writeValue _ _ _
  · exact .bind (quiet_evaluate _) fun _ => .bind (quiet_orRaise _) fun _ =>
      .bind (quiet_evaluate _) fun _ => .writeValue _ _ _
  · exact .bind (quiet_evaluate _) fun _ => .bind (quiet_orRaise _) fun _ =>
      .bind (quiet_evaluate _) fun _ => .bind (quiet_orRaise _) fun _ =>
        .bind (quiet_evaluate _) fun _ => .writeValue _ _ _

/-- A write that fails has written nothing. -/
theorem execute_write {k : Node} (hk : k.kind = .write ∨ k.kind = .writeln) (fuel : Nat) :
    Atomic (execute fuel k) := by
  obtain ⟨kind, line, text, literal, children⟩ := k
  obtain rfl | rfl : kind = .write ∨ kind = .writeln := hk
  · simp only [execute]
    exact .bind (quiet_setLine line) fun _ => .writeArguments children
  · simp only [execute]
    refine .bind (quiet_setLine line) fun _ => ?_
    split
    · exact (Atomic.writeArguments children).before_emit _
    · exact .emit _

end Atomic

/-- An assignment to `target` is made, but the trace cannot hold the note that tells of it, for the
sake of the name. -/
structure Untold (target : Node) (m : Machine) (e : Stop) (m' : Machine) : Prop where
  level : 2 ≤ m.level
  stop : ∃ f, e = .fault (.unwritable f)
  output : m'.output = m.output
  table : ∃ name x, target.kind = .var ∧ target.text = .text name ∧
    (∀ s : String, name ≠ .ofString s) ∧ m'.table = m.table.set name (.real x)

theorem Untold.after {target : Node} {m u m' : Machine} {e : Stop} (h : Untold target u e m')
    (hm : Untouched m u) : Untold target m e m' where
  level := hm.level ▸ h.level
  stop := h.stop
  output := h.output.trans hm.output
  table := hm.table ▸ h.table

/-- The last steps of an assignment: it is made, and then told. -/
theorem store_error {target : Node} {x : Float} {m m' : Machine} {e : Stop}
    (h : (writeVariable target x >>= fun _ => note (.assigned target.text x)) m = .error e m') :
    Untouched m m' ∨ Untold target m e m' := by
  rw [bind_apply] at h
  obtain ⟨name, hk, ht, hw⟩ | hw := writeVariable_cases target x m
  · rw [hw, ht] at h
    dsimp only at h
    have hname : ∀ s : String, name ≠ .ofString s := by
      rintro s rfl
      obtain ⟨line, hline⟩ : (Note.assigned (.text s) x).Writable :=
        Note.writable (by simp [Note.values, shown_string])
      rw [note_of_writable hline] at h
      cases h
    obtain ⟨trace, hn⟩ | ⟨hlevel, f, hn⟩ :=
      note_cases (.assigned (.text name) x) { m with table := m.table.set name (.real x) }
    · rw [hn] at h
      cases h
    · rw [hn] at h
      cases h
      exact .inr ⟨hlevel, ⟨f, rfl⟩, rfl, name, x, hk, ht, hname, rfl⟩
  · rw [hw] at h
    cases h
    exact .inl ⟨rfl, rfl, rfl⟩

/-- An assignment that fails has assigned nothing, unless it is the trace that fails. -/
theorem execute_assign_error {k : Node} (hk : k.kind = .assign) {fuel : Nat} {m m' : Machine}
    {e : Stop} (h : execute fuel k m = .error e m') :
    Untouched m m' ∨
      ∃ target expression, k.children = [target, expression] ∧ Untold target m e m' := by
  obtain ⟨kind, line, text, literal, children⟩ := k
  obtain rfl : kind = .assign := hk
  simp only [execute] at h
  obtain hm | ⟨-, u, hu, h⟩ := (quiet_setLine line).error_cases h
  · exact .inl hm
  rcases children with _ | ⟨target, _ | ⟨expression, _ | ⟨third, rest⟩⟩⟩
  · exact .inl (hu.trans (Atomic.raise _ u e m' h))
  · exact .inl (hu.trans (Atomic.raise _ u e m' h))
  · obtain hm | ⟨v, w, hw, h⟩ := (quiet_evaluate expression).error_cases h
    · exact .inl (hu.trans hm)
    obtain hm | ⟨x, z, hz, h⟩ := (quiet_orRaise _).error_cases h
    · exact .inl (hu.trans (hw.trans hm))
    have hbefore := hu.trans (hw.trans hz)
    exact (store_error h).imp hbefore.trans fun hm => ⟨target, expression, rfl, hm.after hbefore⟩
  · exact .inl (hu.trans (Atomic.raise _ u e m' h))

/-! ## Runs -/

theorem stays_visit (fuel : Nat) (n : Node) : Stays n.Assigns (visit fuel n) :=
  .visit (stays_execute fuel fun _ h => h)

theorem stays_run (fuel : Nat) (n : Node) : Stays n.Assigns (run fuel n) := by
  unfold run
  split
  · exact (stays_visit fuel n).bind fun _ => .pure _
  · exact .raise _

/-- **The frame of execution.** Take any tree and any machine whose variables hold reals. However a
run, visit or execution of the tree ends, the variables are the same ones in the same order, all of
them hold reals, those that are not the first child of an assignment in the tree have their old
values, and something is appended to the output. A write that fails has done nothing to table and
output, and neither has an assignment that fails, unless the assignment is made and it is the trace,
at level two or more, that cannot hold the name of the variable, which is no string then. -/
theorem execution_frame {m : Machine} (hm : m.table.Reals) (fuel : Nat) (n : Node) :
    (∀ m', m' = endOf (run fuel n m) ∨ m' = endOf (visit fuel n m) ∨
        m' = endOf (execute fuel n m) →
      List.Forall₂ (fun c c' => c'.key = c.key ∧ c'.name = c.name ∧
          (∃ x : Float, c'.value = .real x) ∧ (¬ n.Assigns c.key → c'.value = c.value))
        m.table.cells m'.table.cells ∧
      ∃ text, m'.output = m.output ++ text) ∧
    ∀ e m', execute fuel n m = .error e m' →
      (n.kind = .write ∨ n.kind = .writeln → m'.table = m.table ∧ m'.output = m.output) ∧
      (n.kind = .assign → m'.table = m.table ∧ m'.output = m.output ∨
        ∃ target expression, n.children = [target, expression] ∧ Untold target m e m') := by
  constructor
  · intro m' h
    have hframed : Framed n.Assigns m m' := by
      obtain rfl | rfl | rfl := h
      · exact stays_run fuel n m
      · exact stays_visit fuel n m
      · exact stays_execute fuel (fun _ h => h) m
    exact ⟨((List.forall₂_and_left _ _).2 ⟨hm, hframed.cells⟩).imp fun _ _ h =>
      ⟨h.2.key, h.2.name, h.2.real h.1, h.2.value⟩, hframed.output⟩
  · intro e m' h
    constructor
    · intro hk
      have huntouched := Atomic.execute_write hk fuel m e m' h
      exact ⟨huntouched.table, huntouched.output⟩
    · intro hk
      exact (execute_assign_error hk h).imp_left fun hu => ⟨hu.table, hu.output⟩

/-- A machine with an output and two variables, of which one holds zero. -/
def zeroDivisor : Machine where
  table := { cells := [
    { key := "x", name := "X", value := .real 1.0 },
    { key := "y", name := "y", value := .real 0.0 }] }
  output := "1.0"
  level := 2

def quotient : Node where
  kind := .arithmetic .divide
  text := .text "/"
  children := [{ kind := .var, text := .text "x" }, { kind := .var, text := .text "y" }]

def assignQuotient : Node where
  kind := .assign
  line := .int 2
  children := [{ kind := .var, text := .text "x" }, quotient]

/-- A write whose field width is the quotient. -/
def writeQuotient : Node where
  kind := .write
  line := .int 3
  children := [{ kind := .var, text := .text "x" }, quotient]

/-- An assignment and a write that succeed, and an assignment that fails after them. -/
def assignTwice : Node where
  kind := .compound
  children := [
    { kind := .assign
      children := [{ kind := .var, text := .text "X" }, { kind := .real, literal := .real 2.5 }] },
    { kind := .write
      children := [{ kind := .string, literal := .text "a" }] },
    assignQuotient]

theorem assigns_assignTwice {key : Text} (h : assignTwice.Assigns key) : key = "x" := by
  obtain ⟨k, hk, hassign, target, rest, name, hchildren, -, htext, rfl⟩ := h
  simp only [assignTwice, assignQuotient, quotient, Node.walk, Node.walkAll, List.append_nil,
    List.cons_append, List.nil_append, List.mem_cons, List.not_mem_nil, or_false] at hk
  obtain rfl | rfl | rfl | rfl | rfl | rfl | rfl | rfl | rfl | rfl | rfl := hk <;> cases hassign
  all_goals
    cases hchildren
    cases htext
    decide

/-- An assignment and a write each fail in the middle, and so does a compound statement that has
assigned and written before. -/
theorem execution_frame_zeroDivisor :
    zeroDivisor.table.Reals ∧
    (∃ e m', execute 1 assignQuotient zeroDivisor = .error e m' ∧
      m'.table = zeroDivisor.table ∧ m'.output = "1.0") ∧
    (∃ e m', execute 1 writeQuotient zeroDivisor = .error e m' ∧
      m'.table = zeroDivisor.table ∧ m'.output = "1.0") ∧
    ∃ e m', execute 1 assignTwice { zeroDivisor with level := 0 } = .error e m' ∧
      (∃ x : Float, m'.table.cells.map (fun c => (c.name, c.value)) =
        [(Text.ofString "X", .real x), (Text.ofString "y", .real 0.0)]) ∧
      ∃ text, m'.output = ("1.0" : Text) ++ text := by
  have hreals : zeroDivisor.table.Reals := by
    intro c hc
    simp only [zeroDivisor, List.mem_cons, List.not_mem_nil, or_false] at hc
    obtain rfl | rfl := hc
    exacts [⟨_, rfl⟩, ⟨_, rfl⟩]
  have hassign : execute 1 assignQuotient zeroDivisor =
      .error (.fault (.divisionByZero (.int 2) (.text "/")))
        { zeroDivisor with line := .int 2 } := by
    simp only [assignQuotient, quotient, execute]
    rfl
  have hwrite : execute 1 writeQuotient zeroDivisor =
      .error (.fault (.divisionByZero (.int 3) (.text "/")))
        { zeroDivisor with line := .int 3 } := by
    simp only [writeQuotient, quotient, execute]
    rfl
  refine ⟨hreals, ⟨_, _, hassign, ?_⟩, ⟨_, _, hwrite, ?_⟩, ?_⟩
  · obtain hkept | ⟨target, expression, hchildren, huntold⟩ :=
      ((execution_frame hreals 1 assignQuotient).2 _ _ hassign).2 rfl
    · exact hkept
    · -- The name of the variable is a string, which the trace can hold.
      obtain ⟨name, x, -, htext, hname, -⟩ := huntold.table
      cases hchildren
      cases htext
      exact absurd rfl (hname "x")
  · exact ((execution_frame hreals 1 writeQuotient).2 _ _ hwrite).1 (.inl rfl)
  · obtain ⟨e, m', hrun⟩ :
        ∃ e m', execute 1 assignTwice { zeroDivisor with level := 0 } = .error e m' := by
      simp only [assignTwice, assignQuotient, quotient, execute, executeAll, visit]
      exact ⟨_, _, rfl⟩
    obtain ⟨hcells, houtput⟩ :=
      (execution_frame (m := { zeroDivisor with level := 0 }) hreals 1 assignTwice).1 m'
        (.inr (.inr (by rw [hrun]; rfl)))
    refine ⟨e, m', hrun, ?_, houtput⟩
    have hfixed : ¬ assignTwice.Assigns "y" := fun h =>
      absurd (assigns_assignTwice h) (by decide)
    generalize m'.table.cells = cells at hcells ⊢
    rcases hcells with _ | ⟨⟨-, hx, ⟨x, hreal⟩, -⟩, _ | ⟨⟨-, hy, -, hvalue⟩, _ | _⟩⟩
    refine ⟨x, ?_⟩
    simp only [List.map_cons, List.map_nil, hx, hreal, hy, hvalue hfixed]

/-- Half of a surrogate pair, which no string holds. -/
def loneHalf : Text := .ofList [.surrogate 0]

/-- A machine with a variable of that name, at the level at which assignments are told. -/
def loneHalfZero : Machine where
  table := { cells := [{ key := loneHalf, name := loneHalf, value := .real 0.0 }] }
  level := 2

def assignLoneHalf : Node where
  kind := .assign
  line := .int 1
  children := [{ kind := .var, text := .text loneHalf }, { kind := .real, literal := .real 1.5 }]

/-- **An assignment that fails may have been made.** -/
theorem assign_not_atomic :
    ∃ e m', execute 1 assignLoneHalf loneHalfZero = .error e m' ∧
      m'.table ≠ loneHalfZero.table := by
  have hrun : execute 1 assignLoneHalf loneHalfZero =
      .error (.fault (.unwritable { code := 0xD800, position := 7, length := 1 }))
        { loneHalfZero with
          line := .int 1
          table := { cells := [{ key := loneHalf, name := loneHalf, value := .real 1.5 }] } } := by
    simp only [assignLoneHalf, execute]
    rfl
  refine ⟨_, _, hrun, fun htable => ?_⟩
  have hsame : (1.5 : Float) = 0.0 := by
    have hcell := (List.cons.inj (congrArg Table.cells htable)).1
    exact Value.real.inj (congrArg Cell.value hcell)
  have hdiffer : ((1.5 : Float) == 0.0) = false := by decide +kernel
  rw [hsame] at hdiffer
  exact absurd hdiffer (by decide +kernel)

end Execution

end MiniPascal
