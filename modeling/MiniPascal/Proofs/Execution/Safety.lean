import MiniPascal.Proofs.Execution.Reloaded
import MiniPascal.Proofs.Execution.Typing

/-!
# Runs of parsed programs

A tree can have any shape, and most faults of a run come from trees of a wrong shape. A tree that
was parsed from a program text has none of these, even if problems were reported.

**What can go wrong** (`run_endsForCause`). If a run of a parsed program ends with a fault, then a
node of the program is its cause (`Node.Causes`): a division, an integer beyond the finite reals, a
place that asks for a value of another type, or a field that is too large.

**Well-typed programs** (`parsed_typeSound`). If every place has an expression of the type it asks
for, no run has a value of a wrong type.
-/

namespace MiniPascal

namespace Node

/-! ## Causes of faults -/

/-- Whether the expression in a statement or a test is of the type that is asked for. -/
def wellTyped (n : Node) : Bool :=
  match n.kind, n.children with
  | .assign, [_, value] => value.type? == some .real
  | .cond, condition :: _ => condition.type? == some .boolean
  | .test, condition :: _ => condition.type? == some .boolean
  | .select, discriminant :: _ => discriminant.type?.isSome
  | _, _ => true

/-- The width or count of places that an integer stands for: the integer part of its double. -/
def fieldValue? (n : Node) : Option Int :=
  match n.literal with
  | .int i => (Decimal.ofInt? i).bind fun x => (Decimal.truncate x).toOption
  | _ => none

/-- The faults that a node of a parsed program can cause. -/
inductive Causes (n : Node) : Execution.Fault → Prop
  | computation {f : Execution.Fault} : n.Computes f → n.Causes f
  | wrongType {f : Execution.Fault} :
      n.wellTyped = false → f.faultClass = .wrongType → n.Causes f
  | fieldTooLarge {c : Node} {i : Int} :
      n.kind = .write ∨ n.kind = .writeln → c ∈ n.children.tail → c.fieldValue? = some i →
      Value.maxField < i → n.Causes (.format .fieldTooLarge)
  | tooManyPlaces {c : Node} {i : Int} :
      n.kind = .write ∨ n.kind = .writeln → n.children[2]? = some c → c.fieldValue? = some i →
      Value.maxPlaces < i → n.Causes (.format .tooManyPlaces)

end Node

namespace Execution

open Parsing (State Reaches Parses program meets_program parse? exists_of_parse?_any
  table_start)

variable {table : Table} {n : Node}

/-- How the execution of a tree can stop: with a fault that one of its nodes causes, or for want of
fuel. -/
inductive ExecutionStop (n : Node) : Stop → Prop
  | fault {k : Node} {f : Fault} : k ∈ n.walk → k.Causes f → ExecutionStop n (.fault f)
  | outOfFuel : ExecutionStop n .outOfFuel

theorem ExecutionStop.inside {c : Node} {e : Stop} (h : ExecutionStop c e) (hc : c ∈ n.walk) :
    ExecutionStop n e := by
  cases h with
  | fault hk hf => exact .fault (Node.mem_walk_trans hk hc) hf
  | outOfFuel => exact .outOfFuel

theorem ExecutionStop.child {c : Node} {e : Stop} (h : ExecutionStop c e) (hc : c ∈ n.children) :
    ExecutionStop n e :=
  h.inside (Node.mem_walk_of_child hc Node.self_mem_walk)

theorem ExecutionStop.here {f : Fault} (h : n.Causes f) : ExecutionStop n (.fault f) :=
  .fault Node.self_mem_walk h

/-- An expression with a type stops only at a fault of computing. -/
theorem EvaluationStop.execution {e : Stop} (h : EvaluationStop n e)
    (hn : n.type? = none → ∀ f, f.faultClass = .wrongType → ExecutionStop n (.fault f)) :
    ExecutionStop n e := by
  cases h with
  | computes hk hf => exact .fault hk (.computation hf)
  | wrongType hnone hf => exact hn hnone _ hf

/-- An expression in a statement stops as the statement does, which is well typed if the expression
has a type. -/
theorem EvaluationStop.child {c : Node} {e : Stop} (h : EvaluationStop c e) (hc : c ∈ n.children)
    (hn : c.type? = none → n.wellTyped = false) : ExecutionStop n e := by
  cases h with
  | computes hk hf => exact .fault (Node.mem_walk_of_child hc hk) (.computation hf)
  | wrongType hnone hf => exact .here (.wrongType (hn hnone) hf)

/-- An expression passes its check if the statement it stands in is well typed. -/
theorem Ensures.condition {α β : Type} {c : Node} {T : ValueType} {check : Value → Except Fault α}
    {f : α → Run β} {Q : β → Prop} (hc : c ∈ n.children) (hcheck : Checks T check)
    (h : Ensures (Ready table) (EvaluationStop c) (OfType c) (evaluate c))
    (hn : n.wellTyped = (c.type? == some T))
    (hf : ∀ a, Ensures (Ready table) (ExecutionStop n) Q (f a)) :
    Ensures (Ready table) (ExecutionStop n) Q
      (evaluate c >>= fun v => orRaise (check v) >>= f) := by
  refine .checked hcheck h ?_ ?_ fun a _ => hf a
  · intro k hk g hg
    exact .fault (Node.mem_walk_of_child hc hk) (.computation hg)
  · intro hT g hg
    exact .here (.wrongType (by simp [hn, hT]) hg)

section Steps

variable {E : Stop → Prop}

theorem ensures_setLine (line : Value) :
    Ensures (Ready table) E (fun _ => True) (setLine line) :=
  .modify fun _ hm => ⟨hm.reals, hm.names⟩

theorem ensures_emit (text : Text) : Ensures (Ready table) E (fun _ => True) (emit text) :=
  .modify fun _ hm => ⟨hm.reals, hm.names⟩

theorem ensures_writeVariable {target : Node} (hk : target.kind = .var)
    (hb : target.Bound table) (x : Float) :
    Ensures (Ready table) E (fun _ => True) (writeVariable target x) := by
  obtain ⟨name, ht, hname⟩ := hb hk
  intro m hm
  rw [writeVariable_apply hk ht, if_pos (hm.names name hname)]
  exact ⟨trivial, hm.reals.set name x, fun other ho => by simpa using hm.names other ho⟩

end Steps

/-! ## Writing -/

/-- Writing a value of one of the types fails only at a field that is too large. -/
theorem format_eq_error {v : Value} {T : ValueType} {width places : Option Int} {f : FormatFault}
    (hv : v.type? = some T) (h : v.format width places = .error f) :
    f = .fieldTooLarge ∧ (∃ i, (width = some i ∨ places = some i) ∧ Value.maxField < i) ∨
      f = .tooManyPlaces ∧ ∃ i, places = some i ∧ Value.maxPlaces < i := by
  cases v with
  | null | int | list | object => cases hv
  | bool b => cases h
  | text t =>
    cases width with
    | none => cases h
    | some w =>
      simp only [Value.format] at h
      split at h
      · next hw => cases h; exact .inl ⟨rfl, w, .inl rfl, hw⟩
      · cases h
  | real x =>
    cases width with
    | none => cases h
    | some w =>
      simp only [Value.format, Value.fixedField] at h
      -- No count of places is one of zero, which is never too many.
      have hplaces : ∀ {bound : Int}, 0 ≤ bound → bound < places.getD 0 →
          ∃ i, places = some i ∧ bound < i := by
        intro bound hb hlt
        cases places with
        | none => simp at hlt; omega
        | some p => exact ⟨p, rfl, hlt⟩
      split at h
      · next hlarge =>
        cases h
        obtain hw | hp := hlarge
        · exact .inl ⟨rfl, w, .inl rfl, hw⟩
        · obtain ⟨i, hi, hlt⟩ := hplaces (by decide) hp
          exact .inl ⟨rfl, i, .inr hi, hlt⟩
      · split at h
        · next hp => cases h; exact .inr ⟨rfl, hplaces (by decide) hp⟩
        · cases h

theorem ensures_field {c : Node} (site : Site) (hk : c.kind = .integer) (hc : c.Parsed table) :
    Ensures (Ready table) (EvaluationStop c) (fun i => c.fieldValue? = some i)
      (evaluate c >>= fun v => orRaise (fieldInteger v site)) := by
  obtain ⟨kind, line, text, literal, children⟩ := c
  obtain rfl : kind = .integer := hk
  obtain ⟨i, rfl⟩ : ∃ i : Int, literal = .int i := hc.textual.literal
  rw [evaluate, constantReal]
  cases hi : Decimal.ofInt? i with
  | none => exact .raise (.computes Node.self_mem_walk (.tooLarge rfl rfl hi))
  | some x =>
    obtain ⟨w, hw⟩ := Decimal.truncate_ofInt? hi
    have hfield : fieldInteger (.real x) site = .ok w := by
      show (Decimal.truncate x).mapError Fault.notFinite = .ok w
      rw [hw]
      rfl
    have hvalue : Node.fieldValue? ⟨.integer, line, text, .int i, children⟩ = some w := by
      simp only [Node.fieldValue?, hi, Option.bind_some, hw]
      rfl
    show Ensures _ _ _ (orRaise (fieldInteger (.real x) site))
    rw [hfield]
    exact .pure hvalue

theorem ensures_writeValue {v : Value} {T : ValueType} {width places : Option Int}
    (hk : n.kind = .write ∨ n.kind = .writeln) (hv : v.type? = some T)
    (hw : ∀ i, width = some i → ∃ c ∈ n.children.tail, c.fieldValue? = some i)
    (hp : ∀ i, places = some i → ∃ c, n.children[2]? = some c ∧ c.fieldValue? = some i) :
    Ensures (Ready table) (ExecutionStop n) (fun _ => True) (writeValue v width places) := by
  unfold writeValue
  cases hf : v.format width places with
  | ok text =>
    exact (ensures_note (Note.writable (by simp [Note.values]))).bind fun _ _ => ensures_emit text
  | error f =>
    refine .raise (.here ?_)
    obtain ⟨rfl, i, hi, hlt⟩ | ⟨rfl, i, hi, hlt⟩ := format_eq_error hv hf
    · obtain ⟨c, hc, hvalue⟩ : ∃ c ∈ n.children.tail, c.fieldValue? = some i := by
        obtain hi | hi := hi
        · exact hw i hi
        · obtain ⟨c, hc, hvalue⟩ := hp i hi
          exact ⟨c, List.mem_of_getElem? (i := 1) (by simpa using hc), hvalue⟩
      exact .fieldTooLarge hk hc hvalue hlt
    · obtain ⟨c, hc, hvalue⟩ := hp i hi
      exact .tooManyPlaces hk hc hvalue hlt

/-- What is written has a type. -/
theorem type?_argument {c : Node} (hs : c.WellShaped) (hc : c.IsArgument) :
    c.kind.signature?.isSome = true ∧ c.type? ≠ none := by
  obtain h | h := hc
  · simp [h, Kind.signature?, Node.type?_of_leaf (U := .real) hs (by rw [h]; rfl)]
  · simp [h, Kind.signature?, Node.type?_of_leaf (U := .string) hs (by rw [h]; rfl)]

theorem ensures_writeArguments {argument : Node} {field : List Node}
    (hk : n.kind = .write ∨ n.kind = .writeln) (hc : n.children = argument :: field)
    (hargument : argument.IsArgument) (hfield : Node.IsField field)
    (hn : ∀ k ∈ n.walk, k.Parsed table) :
    Ensures (Ready table) (ExecutionStop n) (fun _ => True) (writeArguments n.children) := by
  have parsed : ∀ c ∈ n.children, ∀ k ∈ c.walk, k.Parsed table := fun c hc k hk =>
    hn k (Node.mem_walk_of_child hc hk)
  have value : Ensures (Ready table) (ExecutionStop n) (OfType argument) (evaluate argument) := by
    have hmem : argument ∈ n.children := by simp [hc]
    have hself := parsed argument hmem argument Node.self_mem_walk
    obtain ⟨hs, htype⟩ := type?_argument hself.shaped hargument
    exact (ensures_evaluate (parsed argument hmem) hs).mono
      (fun e he => he.child hmem fun hnone => absurd hnone htype) fun _ hv => hv
  -- A field that cannot be used stops the statement before anything is put out.
  have integer : ∀ c ∈ field, ∀ (site : Site) (f : Int → Run Unit),
      (∀ i, c.fieldValue? = some i →
        Ensures (Ready table) (ExecutionStop n) (fun _ => True) (f i)) →
      Ensures (Ready table) (ExecutionStop n) (fun _ => True)
        (evaluate c >>= fun v => orRaise (fieldInteger v site) >>= f) := by
    intro c hmem site f hf
    have hchild : c ∈ n.children := by simp [hc, hmem]
    have hself := parsed c hchild c Node.self_mem_walk
    have htype : c.type? = some .real :=
      Node.type?_of_leaf hself.shaped (by rw [hfield.2 c hmem]; rfl)
    have hinteger := (ensures_field site (hfield.2 c hmem) hself).mono
      (fun e he => he.child hchild fun hnone => by simp [htype] at hnone) fun _ hi => hi
    have hbind := hinteger.bind hf
    rwa [bind_assoc] at hbind
  -- The width comes first, then the places, and the argument last.
  rcases field with _ | ⟨width, _ | ⟨places, rest⟩⟩
  · rw [hc, writeArguments]
    refine value.bind ?_
    rintro v ⟨_, -, hv⟩
    exact ensures_writeValue hk hv (by simp) (by simp)
  · rw [hc, writeArguments]
    refine integer width (by simp) _ _ fun w hw => value.bind ?_
    rintro v ⟨_, -, hv⟩
    exact ensures_writeValue hk hv (by simp [hc, hw]) (by simp)
  · rw [hc, writeArguments]
    refine integer width (by simp) _ _ fun w hw =>
      integer places (by simp) _ _ fun p hp => value.bind ?_
    rintro v ⟨_, -, hv⟩
    exact ensures_writeValue hk hv (by simp [hc, hw]) (by simp [hc, hp])

/-! ## Statements -/

section Statements

variable {E : Stop → Prop} {fuel : Nat}

theorem ensures_repeatPass {pass : Run Bool} (h : Ensures (Ready table) E (fun _ => True) pass)
    (hfuel : E .outOfFuel) (fuel : Nat) :
    Ensures (Ready table) E (fun _ => True) (repeatPass fuel pass) := by
  induction fuel with
  | zero => exact fun _ _ => hfuel
  | succ fuel ih =>
    rw [repeatPass]
    refine h.bind fun b _ => ?_
    cases b with
    | true => exact .pure trivial
    | false => exact ih

theorem ensures_executeAll {ns : List Node}
    (h : ∀ c ∈ ns, Ensures (Ready table) E (fun _ => True) (visit fuel c)) :
    Ensures (Ready table) E (fun _ => True) (executeAll fuel ns) := by
  induction ns with
  | nil => rw [executeAll]; exact .pure trivial
  | cons c ns ih =>
    rw [executeAll]
    exact (h c (by simp)).bind fun _ _ => ih fun d hd => h d (by simp [hd])

theorem ensures_runPass {ns : List Node}
    (h : ∀ c ∈ ns, Ensures (Ready table) E (fun _ => True) (visit fuel c)) :
    Ensures (Ready table) E (fun _ => True) (runPass fuel ns) := by
  induction ns with
  | nil => rw [runPass]; exact .pure trivial
  | cons c ns ih =>
    obtain ⟨kind, line, text, literal, children⟩ := c
    rw [runPass]
    refine (h _ (by simp)).bind fun v _ => ?_
    split
    · exact .pure trivial
    · exact ih fun d hd => h d (by simp [hd])

theorem ensures_matchesAny (v : Value) {ns : List Node}
    (h : ∀ c ∈ ns, Ensures (Ready table) E (OfType c) (evaluate c)) :
    Ensures (Ready table) E (fun _ => True) (matchesAny v ns) := by
  induction ns with
  | nil => exact .pure trivial
  | cons c ns ih =>
    rw [matchesAny]
    refine (h c (by simp)).bind fun w _ => ?_
    split
    · exact .pure trivial
    · exact ih fun d hd => h d (by simp [hd])

/-- A branch has its constants and a statement. -/
theorem ensures_executeBranch (line : Int) (v : Value) {ns : List Node}
    (hn : ∀ b ∈ ns, b.kind = .selectBranch ∧ b.Parsed table)
    (h : ∀ b ∈ ns, ∀ constants statement, b.children = [constants, statement] →
      (∀ c ∈ constants.children, Ensures (Ready table) E (OfType c) (evaluate c)) ∧
        Ensures (Ready table) E (fun _ => True) (visit fuel statement)) :
    Ensures (Ready table) E (fun _ => True) (executeBranch fuel (.int line) v ns) := by
  induction ns with
  | nil =>
    rw [executeBranch]
    exact ensures_note (Note.writable (by simp [Note.values, shown_int]))
  | cons b ns ih =>
    have hrest := ih (fun c hc => hn c (by simp [hc])) fun c hc => h c (by simp [hc])
    obtain ⟨hk, hshaped, htextual, -⟩ := hn b (by simp)
    have hparts := h b (by simp)
    obtain ⟨kind, branchLine, text, literal, parts⟩ := b
    obtain rfl : kind = .selectBranch := hk
    obtain ⟨i, rfl⟩ : ∃ i : Int, branchLine = .int i := htextual.line
    cases hshaped with
    | selectBranch =>
      obtain ⟨hconstants, hstatement⟩ := hparts _ _ rfl
      rw [executeBranch]
      refine (ensures_matchesAny v hconstants).bind fun found _ => ?_
      split
      · exact (ensures_note (Note.writable (by simp [Note.values, shown_int]))).bind fun _ _ =>
          hstatement.bind fun _ _ => .pure trivial
      · exact hrest

end Statements

/-- A constant of a branch has a type. -/
theorem type?_constant {c : Node} (hn : ∀ k ∈ c.walk, k.WellShaped) (hc : c.IsConstant) :
    c.kind.signature?.isSome = true ∧ c.type? ≠ none := by
  have hself := hn c Node.self_mem_walk
  obtain h | h | ⟨h, d, hd, hdk⟩ := hc
  · simp [h, Kind.signature?, Node.type?_of_leaf (U := .real) hself (by rw [h]; rfl)]
  · simp [h, Kind.signature?, Node.type?_of_leaf (U := .string) hself (by rw [h]; rfl)]
  · have hdshaped := hn d (Node.mem_walk_of_child (by simp [hd]) Node.self_mem_walk)
    have htype := Node.type?_unary (T := .real) (U := .real) (by rw [h]; rfl) hd
    rw [Node.type?_of_leaf (U := .real) hdshaped (by rw [hdk]; rfl)] at htype
    simp [h, Kind.signature?, htype]

/-- A test is well typed if it has a type. -/
theorem wellTyped_test (hk : n.kind = .test) (hs : n.WellShaped) (h : n.type? = none) :
    n.wellTyped = false := by
  obtain ⟨kind, line, text, literal, children⟩ := n
  obtain rfl : kind = .test := hk
  cases hs with
  | test =>
    rw [Node.type?_unary (T := .boolean) (U := .boolean) rfl rfl] at h
    simpa [Node.wellTyped] using h

theorem ensures_visit (fuel : Nat)
    (hk : (n.kind = .program ∨ n.kind.isStatement = true) ∨ n.kind = .test)
    (hn : ∀ k ∈ n.walk, k.Parsed table)
    (h : n.kind = .program ∨ n.kind.isStatement = true →
      Ensures (Ready table) (ExecutionStop n) (fun _ => True) (execute fuel n)) :
    Ensures (Ready table) (ExecutionStop n) (fun _ => True) (visit fuel n) := by
  have hshaped := (hn n Node.self_mem_walk).shaped
  obtain hk | hk := hk
  · have hstatement := h hk
    obtain ⟨kind, line, text, literal, children⟩ := n
    rw [visit, if_pos (by simpa using hk)]
    exact hstatement.bind fun _ _ => .pure trivial
  · have hvalue : Ensures (Ready table) (ExecutionStop n) (OfType n) (evaluate n) :=
      (ensures_evaluate hn (by rw [hk]; rfl)).mono (fun e he => he.execution fun hnone f hf =>
        .here (.wrongType (wellTyped_test hk hshaped hnone) hf)) fun _ hv => hv
    obtain ⟨kind, line, text, literal, children⟩ := n
    obtain rfl : kind = .test := hk
    rw [visit, if_neg (by decide)]
    exact hvalue.bind fun _ _ => .pure trivial

/-- The constants of a branch are evaluated in turn. -/
theorem ensures_constant {c : Node} (hn : ∀ k ∈ c.walk, k.Parsed table) (hc : c.IsConstant) :
    Ensures (Ready table) (ExecutionStop c) (OfType c) (evaluate c) := by
  obtain ⟨hs, htype⟩ := type?_constant (fun k hk => (hn k hk).shaped) hc
  exact (ensures_evaluate hn hs).mono
    (fun e he => he.execution fun hnone => absurd hnone htype) fun _ hv => hv

theorem ensures_assign {target value : Node} (line : Value) (hk : n.kind = .assign)
    (hc : n.children = [target, value]) (ht : target.kind = .var) (htarget : target.Parsed table)
    (h : Ensures (Ready table) (EvaluationStop value) (OfType value) (evaluate value)) :
    Ensures (Ready table) (ExecutionStop n) (fun _ => True) (assign line target value) := by
  refine .condition (by simp [hc]) (checks_expectReal _) h ?_ fun x => ?_
  · simp [Node.wellTyped, hk, hc]
  · obtain ⟨name, hname, -⟩ := htarget.bound ht
    obtain hnull | ⟨spelling, hspelling⟩ := htarget.textual.text
    · rw [hname] at hnull
      cases hnull
    · refine (ensures_writeVariable ht htarget.bound x).bind fun _ _ => ?_
      rw [hspelling]
      exact ensures_note (Note.writable (by simp [Note.values, shown_string]))

/-- A branch of a conditional that is not there is not executed. -/
theorem ensures_cond {condition : Node} {branches : List Node} {fuel : Nat} (line : Int)
    (hk : n.kind = .cond) (hc : n.children = condition :: branches) (hne : branches ≠ [])
    (h : Ensures (Ready table) (EvaluationStop condition) (OfType condition) (evaluate condition))
    (hbranches : ∀ c ∈ branches,
      Ensures (Ready table) (ExecutionStop n) (fun _ => True) (visit fuel c))
    (text literal : Value) :
    Ensures (Ready table) (ExecutionStop n) (fun _ => True)
      (execute fuel ⟨.cond, .int line, text, literal, condition :: branches⟩) := by
  simp only [execute]
  refine (ensures_setLine _).bind fun _ _ => ?_
  refine .condition (by simp [hc]) (checks_expectBoolean _) h ?_ fun b => ?_
  · simp [Node.wellTyped, hk, hc]
  refine (ensures_note (Note.writable (by simp [Note.values, shown_int]))).bind fun _ _ => ?_
  cases b with
  | true =>
    rcases branches with _ | ⟨first, rest⟩
    · exact absurd rfl hne
    · exact (hbranches first (by simp)).bind fun _ _ => .pure trivial
  | false =>
    rcases branches with _ | ⟨first, _ | ⟨second, rest⟩⟩
    · exact .pure trivial
    · exact .pure trivial
    · exact (hbranches second (by simp)).bind fun _ _ => .pure trivial

/-- **A parsed statement fails only for a cause**, whatever its loops do. -/
theorem ensures_execute (fuel : Nat) (hk : n.kind = .program ∨ n.kind.isStatement = true)
    (hn : ∀ k ∈ n.walk, k.Parsed table) :
    Ensures (Ready table) (ExecutionStop n) (fun _ => True) (execute fuel n) := by
  induction n using Node.inductBelow with
  | h n ih =>
    have parsed : ∀ c ∈ n.children, ∀ k ∈ c.walk, k.Parsed table := fun c hc k hk =>
      hn k (Node.mem_walk_of_child hc hk)
    have value : ∀ c ∈ n.children, c.kind.isExpression = true →
        Ensures (Ready table) (EvaluationStop c) (OfType c) (evaluate c) := fun c hc he =>
      ensures_evaluate (parsed c hc) (Kind.isSome_signature? he)
    -- What stops a part stops the whole for the same cause, since the cause names a node inside.
    have below : ∀ k ∈ Node.walkAll n.children, k.kind.isStatement = true ∨ k.kind = .test →
        Ensures (Ready table) (ExecutionStop n) (fun _ => True) (visit fuel k) := by
      intro k hk hkind
      obtain ⟨c, hc, hkc⟩ := Node.mem_walkAll.1 hk
      have hkn : ∀ j ∈ k.walk, j ∈ n.walk := fun j hj =>
        Node.mem_walk_of_child hc (Node.mem_walk_trans hj hkc)
      have hparsed : ∀ j ∈ k.walk, j.Parsed table := fun j hj => hn j (hkn j hj)
      exact (ensures_visit fuel (hkind.imp_left .inr) hparsed fun hs => ih k hk hs hparsed).mono
        (fun e he => he.inside (hkn k Node.self_mem_walk)) fun _ _ => trivial
    have child : ∀ c ∈ n.children, c.kind.isStatement = true ∨ c.kind = .test →
        Ensures (Ready table) (ExecutionStop n) (fun _ => True) (visit fuel c) := fun c hc =>
      below c (Node.mem_walkAll_self hc)
    obtain ⟨hshaped, htextual, -⟩ := hn n Node.self_mem_walk
    obtain ⟨kind, line, text, literal, children⟩ := n
    obtain ⟨i, rfl⟩ : ∃ i : Int, line = .int i := htextual.line
    cases hshaped with
    | @program body hb =>
      rw [execute]
      exact (ih body (Node.mem_walkAll_self (by simp))
        (.inr (by rw [hb]; rfl)) (parsed body (by simp))).mono (fun e he => he.child (by simp))
          fun _ _ => trivial
    | compound hs =>
      simp only [execute]
      exact (ensures_setLine _).bind fun _ _ =>
        ensures_executeAll fun c hc => child c hc (.inl (hs c hc))
    | @assign target expression ht he =>
      simp only [execute]
      refine (ensures_setLine _).bind fun _ _ => ?_
      exact ensures_assign _ rfl rfl ht (parsed target (by simp) _ Node.self_mem_walk)
        (value expression (by simp) he)
    | loop hs =>
      simp only [execute]
      exact (ensures_setLine _).bind fun _ _ =>
        ensures_repeatPass (ensures_runPass fun c hc => child c hc (hs c hc)) .outOfFuel fuel
    | @ifThen condition first he hs =>
      refine ensures_cond i rfl rfl (by simp) (value condition (by simp) he) ?_ _ _
      intro c hc
      obtain rfl := List.mem_singleton.1 hc
      exact child c (by simp) (.inl hs)
    | @ifThenElse condition first second he hs hs' =>
      refine ensures_cond i rfl rfl (by simp) (value condition (by simp) he) ?_ _ _
      intro c hc
      obtain rfl | hc := List.mem_cons.1 hc
      · exact child c (by simp) (.inl hs)
      · obtain rfl := List.mem_singleton.1 hc
        exact child c (by simp) (.inl hs')
    | @select discriminant branches he hb =>
      simp only [execute]
      refine (ensures_setLine _).bind fun _ _ => ?_
      refine Ensures.bind (Q := OfType discriminant) ?_ fun v _ => ?_
      · exact (value discriminant (by simp) he).mono (fun e he => he.child (by simp) fun hnone => by
          simp [Node.wellTyped, hnone]) fun _ hv => hv
      refine ensures_executeBranch i v (fun b hmem => ⟨hb b hmem, ?_⟩) ?_
      · exact parsed b (by simp [hmem]) b Node.self_mem_walk
      intro b hmem constants statement hparts
      have hchild : b ∈ discriminant :: branches := by simp [hmem]
      have hself := parsed b hchild b Node.self_mem_walk
      obtain ⟨hconstants, hstatement⟩ := hself.shaped.branch (hb b hmem) hparts
      have hpart : ∀ c ∈ b.children, c ∈ b.walk := fun c hc =>
        Node.mem_walk_of_child hc Node.self_mem_walk
      -- Both parts of a branch: its constants, and the statement two levels below.
      constructor
      · intro c hc
        have hmem' : constants ∈ b.children := by simp [hparts]
        have hlist := (parsed b hchild constants (hpart constants hmem')).shaped
        have hconstant := hlist.constants hconstants c hc
        have hwalk : ∀ k ∈ c.walk, k.Parsed table := fun k hk => parsed b hchild k
          (Node.mem_walk_of_child hmem' (Node.mem_walk_of_child hc hk))
        exact (ensures_constant hwalk hconstant).mono
          (fun e he => ((he.child hc).child hmem').child hchild) fun _ hv => hv
      · exact below statement
          (Node.mem_walkAll.2 ⟨b, hchild, hpart statement (by simp [hparts])⟩) (.inl hstatement)
    | write ha hf =>
      simp only [execute]
      refine (ensures_setLine _).bind fun _ _ => ?_
      exact ensures_writeArguments (.inl rfl) rfl ha hf hn
    | writelnBare =>
      simp only [execute]
      exact (ensures_setLine _).bind fun _ _ => ensures_emit _
    | writeln ha hf =>
      simp only [execute]
      refine (ensures_setLine _).bind fun _ _ => ?_
      exact (ensures_writeArguments (.inr rfl) rfl ha hf hn).bind fun _ _ => ensures_emit _
    | _ => simp [Kind.isStatement] at hk

/-- A parsed program fails only for a cause. -/
theorem ensures_run (fuel : Nat) (hk : n.kind = .program) (hn : ∀ k ∈ n.walk, k.Parsed table) :
    Ensures (Ready table) (ExecutionStop n) (fun _ => True) (run fuel n) := by
  rw [run, if_pos hk]
  exact (ensures_visit fuel (.inl (.inl hk)) hn fun _ => ensures_execute fuel (.inl hk) hn).bind
    fun _ _ => .pure trivial

/-! ## Programs -/

/-- What is no expression has no value. -/
theorem evaluate_eq_raise (h : n.kind.signature? = none) :
    evaluate n = raise (.notAnExpression n.kind) := by
  obtain ⟨kind, line, text, literal, children⟩ := n
  cases kind with
  | program | compound | assign | loop | write | writeln | cond | select | selectBranch
  | selectConstants => simp only [evaluate]
  | _ => cases h

/-- The machine that runs on the table as parsing leaves it. -/
theorem ready_parsed {stream : Stream} {table : Table} {strict : Bool} {s t : State}
    (htable : table.Reals) (hs : State.start stream table strict = .ok s) (hr : Reaches s t)
    (m : Machine) : Ready t.table { m with table := t.table } where
  reals := hr.table_induct (P := Table.Reals) (fun name h => h.enter name) (table_start hs ▸ htable)
  names _ h := h

/-- **Evaluation is sound for types.** Take any tree that is parsed from a program text, and any
expression in it, on any machine whose variables are those of the tree and hold reals. A value that
the expression gives is of its type, so an expression without a type gives none. An expression with
a type fails only at a division by zero or at an integer that is too large. And if all statements
and tests of a program are well typed, no run of it has a value of a wrong type. -/
theorem parsed_typeSound {source : String} {table : Table} {strict : Bool} {s u t : State} {n : Node}
    (hs : State.start (.ofSource source) table strict = .ok s) (hu : Reaches s u)
    (hn : Parses u n t) :
    (∀ k ∈ n.walk, ∀ m : Machine, Ready t.table m →
      (∀ v m', evaluate k m = .ok v m' → ∃ T, k.type? = some T ∧ v.type? = some T) ∧
      ∀ e m', evaluate k m = .error e m' → k.type? ≠ none →
        (∃ line text, e = .fault (.divisionByZero line text)) ∨ e = .fault .integerTooLarge) ∧
    (n.kind = .program → (∀ k ∈ n.walk, k.wellTyped = true) →
      ∀ (fuel : Nat) (m : Machine), Ready t.table m →
        ∀ f m', run fuel n m = .error (.fault f) m' → f.faultClass ≠ .wrongType) := by
  have hparsed := hn.parsed hs hu
  constructor
  · intro k hk m hm
    cases hsignature : k.kind.signature? with
    | none =>
      rw [evaluate_eq_raise hsignature]
      refine ⟨fun v m' h => ?_, fun e m' _ h => absurd (Node.type?_eq_none hsignature) h⟩
      cases h
    | some signature =>
      have hvalue := ensures_evaluate (fun j hj => hparsed j (Node.mem_walk_trans hj hk))
        (by rw [hsignature]; rfl)
      refine ⟨fun v m' h => (hvalue.of_ok hm h).1, fun e m' h htype => ?_⟩
      -- A fault for a wrong type needs an expression without a type.
      cases hvalue.of_error hm h with
      | computes _ hf =>
        cases hf with
        | division line => exact .inl ⟨line, _, rfl⟩
        | tooLarge => exact .inr rfl
      | wrongType hnone => exact absurd hnone htype
  · intro hk htyped fuel m hm f m' hrun
    cases (ensures_run fuel hk hparsed).of_error hm hrun with
    | fault hk hf =>
      cases hf with
      | computation hf => cases hf <;> simp [Fault.faultClass]
      | wrongType hfalse => simp [htyped _ hk] at hfalse
      | fieldTooLarge | tooManyPlaces => simp [Fault.faultClass]

/-- A program with a selection, a loop and a division, all of it well typed. -/
theorem parsed_typeSound_selection :
    ∃ s n t,
      State.start (.ofSource "BEGIN FOR i := 1 TO 9 DO CASE i / (i - 5) OF -1, 'x': b := 2 END END.")
        {} false = .ok s ∧
      program s = .ok n t ∧ (∀ k ∈ n.walk, k.wellTyped = true) ∧
      (∀ k ∈ n.walk, ∀ m : Machine, Ready t.table m →
        (∀ v m', evaluate k m = .ok v m' → ∃ T, k.type? = some T ∧ v.type? = some T) ∧
        ∀ e m', evaluate k m = .error e m' → k.type? ≠ none →
          (∃ line text, e = .fault (.divisionByZero line text)) ∨ e = .fault .integerTooLarge) ∧
      ∀ (fuel : Nat) (m : Machine), Ready t.table m →
        ∀ f m', run fuel n m = .error (.fault f) m' → f.faultClass ≠ .wrongType := by
  have hparse : (parse? (.ofSource
      "BEGIN FOR i := 1 TO 9 DO CASE i / (i - 5) OF -1, 'x': b := 2 END END.") {} false).any
        (fun p => p.1.walk.all (·.wellTyped)) = true := by
    decide +kernel
  obtain ⟨s, n, t, hs, hp, htyped⟩ := exists_of_parse?_any hparse
  obtain ⟨hr, hb⟩ := (meets_program s).of_ok hp
  have hall : ∀ k ∈ n.walk, k.wellTyped = true := List.all_eq_true.1 htyped
  obtain ⟨hvalues, hruns⟩ := parsed_typeSound hs .refl (.inl hp)
  exact ⟨s, n, t, hs, hp, hall, hvalues, hruns hb.shape.1 hall⟩

/-- A run of a program ends well, for want of fuel, or with a fault that a node of the program
causes. -/
def EndsForCause (n : Node) : EStateM.Result Stop Machine Unit → Prop
  | .ok _ _ => True
  | .error .outOfFuel _ => True
  | .error (.fault f) _ => ∃ k ∈ n.walk, k.Causes f

/-- **Runs fail only for causes in the program.** Let a program text be parsed, with or without
diagnostics, into a table of reals. A run on the table that parsing leaves, with any fuel and from
any machine, ends well, for want of fuel, or with a fault that a node of the program causes. -/
theorem run_endsForCause {source : String} {table : Table} {strict : Bool} {s t : State} {n : Node}
    (htable : table.Reals) (hs : State.start (.ofSource source) table strict = .ok s)
    (hp : program s = .ok n t) (fuel : Nat) (m : Machine) :
    EndsForCause n (run fuel n { m with table := t.table }) := by
  obtain ⟨hr, hb⟩ := (meets_program s).of_ok hp
  have hn : Parses s n t := .inl hp
  have hrun := ensures_run fuel hb.shape.1 (hn.parsed hs .refl)
  cases he : run fuel n { m with table := t.table } with
  | ok a m' => trivial
  | error e m' =>
    cases hrun.of_error (ready_parsed htable hs hr m) he with
    | fault hk hf => exact ⟨_, hk, hf⟩
    | outOfFuel => trivial

/-- A text without an end, with an abandoned statement, a condition of a wrong type and a division
by zero. -/
theorem run_endsForCause_abandoned :
    ∃ s n t,
      State.start (.ofSource "BEGIN A := B + ; IF A > 0 THEN IF A THEN WRITE(A : 99) ; A := 1 / B") {}
        false = .ok s ∧ program s = .ok n t ∧ 0 < t.problems ∧
      ∀ (fuel : Nat) (m : Machine), EndsForCause n (run fuel n { m with table := t.table }) := by
  have hparse : (parse? (.ofSource
      "BEGIN A := B + ; IF A > 0 THEN IF A THEN WRITE(A : 99) ; A := 1 / B") {} false).any
        (fun p => decide (0 < p.2.problems)) = true := by
    decide +kernel
  obtain ⟨s, n, t, hs, hp, hproblems⟩ := exists_of_parse?_any hparse
  exact ⟨s, n, t, hs, hp, of_decide_eq_true hproblems, fun fuel m =>
    run_endsForCause Table.zeroed_empty.reals hs hp fuel m⟩

end Execution

end MiniPascal
