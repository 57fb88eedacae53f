import MiniPascal.Proofs.Execution.Simulation
import MiniPascal.Proofs.Table

/-!
# What a run does to variables and output

A *store* is what a program can see of a machine: the variables and the output. `Yields p s r t`
says that a part of a run, given enough fuel, goes from the store `s` to the store `t`, with a
result or a class of fault `r`. The line of the statement at hand has no influence on this, nor have
the notes, as long as they are not written to a trace (`yields_iff`).

Sequences are taken apart by `yields_bind`, and loops by `yields_repeatPass`.
-/

namespace MiniPascal.Execution

variable {α β : Type}

/-! ## Classes of faults -/

/-- The classes of faults. -/
inductive FaultClass where
  | divisionByZero
  /-- A value of another type than its place asks for. -/
  | wrongType
  /-- A node of a kind that is not executed or evaluated. -/
  | unsupported
  /-- A node or value that an operation cannot take. -/
  | wrongArgument
  /-- A node lacks a child. -/
  | missingChild
  /-- A value, or a number of children, beyond what an operation allows. -/
  | wrongValue
  /-- A node without a variable. -/
  | unbound
  /-- A number beyond the limits of the machine. -/
  | overflow
  /-- A note that the trace cannot hold. -/
  | unwritable
deriving Repr, DecidableEq

/-- The class of a fault. -/
def Fault.faultClass : Fault → FaultClass
  | .divisionByZero .. => .divisionByZero
  | .wrongType .. => .wrongType
  | .notAnExpression _ | .notAStatement _ => .unsupported
  | .notAProgram _ | .notNumeric _ | .format (.noFixedForm _) => .wrongArgument
  | .missingChild => .missingChild
  | .tooFewChildren _ | .tooManyChildren | .numeral _ | .notFinite .nan | .format .fieldTooLarge
  | .format .tooManyPlaces => .wrongValue
  | .notAssignable | .unbound => .unbound
  | .integerTooLarge | .notFinite .infinite | .format .integerTooLarge => .overflow
  | .unwritable _ => .unwritable

/-! ## Stores -/

/-- The variables and the output. -/
@[ext] structure Store where
  table : Table
  output : Text

/-- What a program can see of a machine. -/
def Machine.store (m : Machine) : Store := ⟨m.table, m.output⟩

/-- A machine without a trace. -/
def Store.machine (s : Store) : Machine := { table := s.table, output := s.output }

/-- The machines have the same store, and write no notes to a trace. -/
structure SameStore (m m' : Machine) : Prop where
  store : m.store = m'.store
  left : m.level ≤ 1
  right : m'.level ≤ 1

theorem Machine.same_machine {m : Machine} (h : m.level ≤ 1) : SameStore m m.store.machine :=
  ⟨rfl, h, (by decide : (0 : Int) ≤ 1)⟩

theorem Store.same_machine (s : Store) : SameStore s.machine s.machine :=
  Machine.same_machine (m := s.machine) (by decide : (0 : Int) ≤ 1)

theorem SameStore.symm {m m' : Machine} (h : SameStore m m') : SameStore m' m :=
  ⟨h.store.symm, h.right, h.left⟩

theorem SameStore.table {m m' : Machine} (h : SameStore m m') : m.table = m'.table :=
  congrArg Store.table h.store

theorem SameStore.output {m m' : Machine} (h : SameStore m m') : m.output = m'.output :=
  congrArg Store.output h.store

/-- The faults are of one class. -/
abbrev SameClass (f f' : Fault) : Prop := f.faultClass = f'.faultClass

theorem SameClass.refl (f : Fault) : SameClass f f := rfl

theorem note_apply (n : Note) {m : Machine} (h : m.level ≤ 1) :
    note n m = .ok () { m with notes := m.notes.push n } := by
  have hl : ¬ (n.level : Int) ≤ m.level := by
    cases n <;> simp only [Note.level] <;> omega
  have hget : (get : Run Machine) m = .ok m m := rfl
  unfold note
  rw [bind_apply, hget]
  dsimp only
  rw [if_neg hl]
  rfl

/-- Only stores matter, and faults up to their class. -/
theorem storeSimulation : Simulation SameStore SameClass fun _ => True where
  refl _ := rfl
  division _ _ := rfl
  note n := by
    intro m m' h
    rw [note_apply n h.left, note_apply n h.right]
    exact ⟨rfl, h.store, h.left, h.right⟩
  find h _ := by rw [h.table]
  line _ h := ⟨h.store, h.left, h.right⟩
  output text h := by
    refine ⟨?_, h.left, h.right⟩
    show Store.mk _ _ = Store.mk _ _
    rw [h.table, h.output]
  set x h _ _ := by
    refine ⟨?_, h.left, h.right⟩
    show Store.mk _ _ = Store.mk _ _
    rw [h.table, h.output]

/-! ## Outcomes -/

/-- A result with its final store. Want of fuel is none. -/
def Gives (r : Except FaultClass α) (t : Store) : EStateM.Result Stop Machine α → Prop
  | .ok a m => r = .ok a ∧ m.store = t
  | .error (.fault f) m => r = .error f.faultClass ∧ m.store = t
  | .error .outOfFuel _ => False

theorem Gives.store_endOf {r : Except FaultClass α} {t : Store}
    {x : EStateM.Result Stop Machine α} (h : Gives r t x) : (endOf x).store = t := by
  cases x with
  | ok a m => exact h.2
  | error e m =>
    cases e with
    | outOfFuel => cases h
    | fault f => exact h.2

/-- A part of a run gives a result and a final store, with enough fuel. -/
def Yields (p : Nat → Run α) (s : Store) (r : Except FaultClass α) (t : Store) : Prop :=
  ∃ fuel, Gives r t (p fuel s.machine)

/-- More fuel changes nothing for those that end, nor do the line, the notes and the trace. -/
def Steady (p : Nat → Run α) : Prop :=
  ∀ fuel fuel', fuel ≤ fuel' → Similar False SameStore SameClass (p fuel) (p fuel')

theorem Gives.follows {r : Except FaultClass α} {t : Store}
    {x x' : EStateM.Result Stop Machine α} (h : Gives r t x)
    (hx : Follows False SameStore SameClass x x') : Gives r t x' := by
  cases x with
  | ok a m =>
    cases x' with
    | ok a' m' => exact ⟨hx.1 ▸ h.1, hx.2.store ▸ h.2⟩
    | error e' m' => cases hx
  | error e m =>
    cases e with
    | outOfFuel => cases h
    | fault f =>
      cases x' with
      | ok a' m' => cases hx
      | error e' m' =>
        cases e' with
        | outOfFuel => cases hx
        | fault f' => exact ⟨h.1.trans (congrArg Except.error hx.1), hx.2.store ▸ h.2⟩

theorem Steady.pure (a : α) : Steady fun _ => (Pure.pure a : Run α) :=
  fun _ _ _ => .pure a

theorem Steady.bind {p : Nat → Run α} {f : α → Nat → Run β} (hp : Steady p)
    (hf : ∀ a, Steady (f a)) : Steady fun fuel => p fuel >>= (f · fuel) :=
  fun _ _ hle => (hp _ _ hle).bind fun a => hf a _ _ hle

theorem steady_execute (n : Node) : Steady (execute · n) :=
  fun _ _ hle => similar_execute storeSimulation (.more hle) n (names_trivial n)

theorem steady_visit (n : Node) : Steady (visit · n) :=
  fun _ _ hle => similar_visit storeSimulation (names_trivial n) (steady_execute n _ _ hle)

theorem steady_runPass (ns : List Node) : Steady (runPass · ns) :=
  fun _ _ hle => similar_runPass fun n _ => steady_visit n _ _ hle

theorem steady_evaluate (n : Node) : Steady fun _ => evaluate n :=
  fun _ _ _ => similar_evaluate storeSimulation.toEvaluationSimulation n (names_trivial n)

theorem steady_orRaise (x : Except Fault α) : Steady fun _ => orRaise x :=
  fun _ _ _ => .orRaise storeSimulation.refl x

theorem steady_note (n : Note) : Steady fun _ => note n :=
  fun _ _ _ => storeSimulation.note n

theorem steady_setLine (line : Value) : Steady fun _ => setLine line :=
  fun _ _ _ => similar_setLine storeSimulation line

theorem Steady.gives {p : Nat → Run α} (hp : Steady p) {k k' : Nat} {m m' : Machine}
    {r : Except FaultClass α} {t : Store} (h : Gives r t (p k m)) (hle : k ≤ k')
    (hm : SameStore m m') : Gives r t (p k' m') :=
  h.follows (hp _ _ hle m m' hm)

/-- The line, the notes and the trace have no influence. -/
theorem yields_iff {p : Nat → Run α} (hp : Steady p) {m : Machine} (hm : m.level ≤ 1)
    {r : Except FaultClass α} {t : Store} :
    Yields p m.store r t ↔ ∃ fuel, Gives r t (p fuel m) := by
  have hsame := Machine.same_machine hm
  constructor
  · rintro ⟨k, h⟩
    exact ⟨k, hp.gives h (Nat.le_refl k) hsame.symm⟩
  · rintro ⟨k, h⟩
    exact ⟨k, hp.gives h (Nat.le_refl k) hsame⟩

/-- A machine that a run leaves writes no notes to a trace either. -/
theorem Steady.level_le {p : Nat → Run α} (hp : Steady p) {k : Nat} {s : Store} {a : α}
    {m : Machine} (h : p k s.machine = .ok a m) : m.level ≤ 1 := by
  have hsame := hp _ _ (Nat.le_refl k) _ _ s.same_machine
  rw [h] at hsame
  exact hsame.2.left

/-- A sequence yields what its second part does from where the first one ends, or a fault of the
first one. -/
theorem yields_bind {p : Nat → Run α} {f : α → Nat → Run β} (hp : Steady p)
    (hf : ∀ a, Steady (f a)) {s t : Store} {r : Except FaultClass β} :
    Yields (fun fuel => p fuel >>= (f · fuel)) s r t ↔
      (∃ a u, Yields p s (.ok a) u ∧ Yields (f a) u r t) ∨
        ∃ c, r = .error c ∧ Yields p s (.error c) t := by
  constructor
  · rintro ⟨k, h⟩
    dsimp only at h
    rw [bind_apply] at h
    cases he : p k s.machine with
    | ok a m =>
      rw [he] at h
      refine .inl ⟨a, m.store, ⟨k, ?_⟩, (yields_iff (hf a) (hp.level_le he)).2 ⟨k, h⟩⟩
      rw [he]
      exact ⟨rfl, rfl⟩
    | error e m =>
      rw [he] at h
      cases e with
      | outOfFuel => cases h
      | fault g =>
        obtain ⟨rfl, ht⟩ := h
        refine .inr ⟨g.faultClass, rfl, k, ?_⟩
        rw [he]
        exact ⟨rfl, ht⟩
  · rintro (⟨a, u, ⟨k, hk⟩, k', hk'⟩ | ⟨c, rfl, k, hk⟩)
    · -- The larger one of the two bounds is enough for both parts.
      refine ⟨max k k', ?_⟩
      dsimp only
      rw [bind_apply]
      have hfirst := hp.gives hk (Nat.le_max_left k k') s.same_machine
      cases he : p (max k k') s.machine with
      | ok a' m =>
        rw [he] at hfirst
        obtain ⟨ha, rfl⟩ := hfirst
        cases ha
        exact (hf a).gives hk' (Nat.le_max_right k k') (Machine.same_machine (hp.level_le he)).symm
      | error e m =>
        rw [he] at hfirst
        cases e with
        | outOfFuel => cases hfirst
        | fault g => cases hfirst.1
    · refine ⟨k, ?_⟩
      dsimp only
      rw [bind_apply]
      cases he : p k s.machine with
      | ok a m => rw [he] at hk; cases hk.1
      | error e m =>
        rw [he] at hk
        cases e with
        | outOfFuel => cases hk
        | fault g => exact ⟨congrArg Except.error (Except.error.inj hk.1), hk.2⟩

theorem yields_unit_bind {p : Nat → Run Unit} {f : Nat → Run β} (hp : Steady p) (hf : Steady f)
    {s t : Store} {r : Except FaultClass β} :
    Yields (fun fuel => p fuel >>= fun _ => f fuel) s r t ↔
      (∃ u, Yields p s (.ok ()) u ∧ Yields f u r t) ∨
        ∃ c, r = .error c ∧ Yields p s (.error c) t := by
  rw [yields_bind hp fun _ => hf]
  refine or_congr_left ⟨?_, ?_⟩
  · rintro ⟨_, u, h⟩
    exact ⟨u, h⟩
  · rintro ⟨u, h⟩
    exact ⟨(), u, h⟩

/-! ## Simple steps -/

/-- A part of a run that needs no fuel yields its result. -/
theorem yields_of_apply {p : Run α} {a : α} {s : Store} {m : Machine} (h : p s.machine = .ok a m)
    {t : Store} {r : Except FaultClass α} :
    Yields (fun _ => p) s r t ↔ r = .ok a ∧ t = m.store := by
  show (∃ _ : Nat, Gives r t (p s.machine)) ↔ _
  rw [h]
  constructor
  · rintro ⟨_, hr, ht⟩
    exact ⟨hr, ht.symm⟩
  · rintro ⟨hr, ht⟩
    exact ⟨0, hr, ht.symm⟩

theorem yields_pure {a : α} {s t : Store} {r : Except FaultClass α} :
    Yields (fun _ => Pure.pure a) s r t ↔ r = .ok a ∧ t = s :=
  yields_of_apply rfl

/-- A step that gives nothing and keeps the store is of no account. -/
theorem yields_skip_bind {q : Run Unit} {f : Nat → Run β} (hq : Steady fun _ => q)
    (hf : Steady f) (hskip : ∀ s : Store, ∃ m, q s.machine = .ok () m ∧ m.store = s)
    {s t : Store} {r : Except FaultClass β} :
    Yields (fun fuel => q >>= fun _ => f fuel) s r t ↔ Yields f s r t := by
  have hyields : ∀ {r u}, Yields (fun _ => q) s r u ↔ r = .ok () ∧ u = s := by
    intro r u
    obtain ⟨m, he, hm⟩ := hskip s
    rw [yields_of_apply he, hm]
  rw [yields_bind hq fun _ => hf]
  constructor
  · rintro (⟨_, u, hu, h⟩ | ⟨c, -, hc⟩)
    · obtain ⟨-, rfl⟩ := hyields.1 hu
      exact h
    · cases (hyields.1 hc).1
  · exact fun h => .inl ⟨(), s, hyields.2 ⟨rfl, rfl⟩, h⟩

theorem yields_setLine_bind (line : Value) {f : Nat → Run β} (hf : Steady f) {s t : Store}
    {r : Except FaultClass β} :
    Yields (fun fuel => setLine line >>= fun _ => f fuel) s r t ↔ Yields f s r t :=
  yields_skip_bind (steady_setLine line) hf fun _ => ⟨_, rfl, rfl⟩

theorem yields_note_bind (n : Note) {f : Nat → Run β} (hf : Steady f) {s t : Store}
    {r : Except FaultClass β} :
    Yields (fun fuel => note n >>= fun _ => f fuel) s r t ↔ Yields f s r t :=
  yields_skip_bind (steady_note n) hf fun s => ⟨_, note_apply n s.same_machine.left, rfl⟩

/-! ## Loops -/

/-- Passes are made one after the other, up to one that tells that it is the last. -/
inductive Repeats (P : Store → Except FaultClass Bool → Store → Prop) :
    Store → Except FaultClass Unit → Store → Prop
  | last {s t : Store} : P s (.ok true) t → Repeats P s (.ok ()) t
  | more {s t u : Store} {r : Except FaultClass Unit} :
      P s (.ok false) t → Repeats P t r u → Repeats P s r u
  | fault {s t : Store} {c : FaultClass} : P s (.error c) t → Repeats P s (.error c) t

theorem Repeats.of_gives {pass : Nat → Run Bool} (hp : Steady pass) (k count : Nat)
    {m : Machine} (hm : m.level ≤ 1) {r : Except FaultClass Unit} {t : Store}
    (h : Gives r t (repeatPass count (pass k) m)) : Repeats (Yields pass) m.store r t := by
  induction count generalizing m with
  | zero => cases h
  | succ count ih =>
    rw [repeatPass, bind_apply] at h
    have hpass : ∀ {r t}, Gives r t (pass k m) → Yields pass m.store r t :=
      fun hg => (yields_iff hp hm).2 ⟨k, hg⟩
    cases he : pass k m with
    | ok b u =>
      rw [he] at h hpass
      have hlevel : u.level ≤ 1 := by
        have hsame := hp k k (Nat.le_refl k) m m ⟨rfl, hm, hm⟩
        rw [he] at hsame
        exact hsame.2.left
      cases b with
      | true =>
        obtain ⟨rfl, rfl⟩ := h
        exact .last (hpass ⟨rfl, rfl⟩)
      | false => exact .more (hpass ⟨rfl, rfl⟩) (ih hlevel h)
    | error e u =>
      rw [he] at h hpass
      cases e with
      | outOfFuel => cases h
      | fault g =>
        obtain ⟨rfl, rfl⟩ := h
        exact .fault (hpass ⟨rfl, rfl⟩)

theorem steady_repeatPass {pass : Nat → Run Bool} (hp : Steady pass) :
    Steady fun fuel => repeatPass fuel (pass fuel) :=
  fun _ _ hle => similar_repeatPass (.more hle) (hp _ _ hle)

/-- A loop may as well make its first pass before it starts to count. -/
theorem yields_repeatPass_of_unfolded {pass : Nat → Run Bool} (hp : Steady pass) {s t : Store}
    {r : Except FaultClass Unit}
    (h : Yields (fun fuel => pass fuel >>= fun last =>
      if last then Pure.pure () else repeatPass fuel (pass fuel)) s r t) :
    Yields (fun fuel => repeatPass fuel (pass fuel)) s r t := by
  obtain ⟨k, hk⟩ := h
  refine ⟨k + 1, hk.follows ?_⟩
  dsimp only
  rw [repeatPass]
  refine (hp k (k + 1) (Nat.le_succ k)).bind (fun last => ?_) _ _ s.same_machine
  cases last with
  | true => exact .pure ()
  | false => exact similar_repeatPass (.refl _ k) (hp k (k + 1) (Nat.le_succ k))

theorem Repeats.yields {pass : Nat → Run Bool} (hp : Steady pass) {s t : Store}
    {r : Except FaultClass Unit} (h : Repeats (Yields pass) s r t) :
    Yields (fun fuel => repeatPass fuel (pass fuel)) s r t := by
  have hrest : ∀ last : Bool, Steady fun fuel =>
      if last then Pure.pure () else repeatPass fuel (pass fuel) := by
    intro last
    cases last with
    | true => exact .pure ()
    | false => exact steady_repeatPass hp
  induction h with
  | last h =>
    refine yields_repeatPass_of_unfolded hp ((yields_bind hp hrest).2 (.inl ⟨true, _, h, ?_⟩))
    exact yields_pure.2 ⟨rfl, rfl⟩
  | more h _ ih =>
    exact yields_repeatPass_of_unfolded hp ((yields_bind hp hrest).2 (.inl ⟨false, _, h, ih⟩))
  | fault h =>
    exact yields_repeatPass_of_unfolded hp ((yields_bind hp hrest).2 (.inr ⟨_, rfl, h⟩))

/-- A loop yields what its passes do, one after the other. -/
theorem yields_repeatPass {pass : Nat → Run Bool} (hp : Steady pass) {s t : Store}
    {r : Except FaultClass Unit} :
    Yields (fun fuel => repeatPass fuel (pass fuel)) s r t ↔ Repeats (Yields pass) s r t :=
  ⟨fun h => h.elim fun k hk => .of_gives hp k k s.same_machine.left hk, Repeats.yields hp⟩

end MiniPascal.Execution
