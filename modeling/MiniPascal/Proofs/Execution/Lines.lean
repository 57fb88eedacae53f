import MiniPascal.Proofs.Execution.Simulation
import MiniPascal.Proofs.Tree.Places
import MiniPascal.Proofs.Tree.Shape

/-!
# The line of a division by zero

A machine keeps the line of the statement that was entered last. A statement sets that line on its
way in and does not restore it on its way out. So an expression is evaluated on the line of the
statement that it belongs to, unless that is a loop: a test is looked at again and again, and
statements of the loop were entered in between.

`Node.Faces ns k j` says which child `j` of a loop was executed last when child `k` is visited.
`Node.Blames n p q line text` says that a division at the place `p` can be reported with the line of
the statement at the place `q`.

**A division by zero is blamed on the statement around it, or on one that a loop around it executed
just before** (`blamed_run`, `Blames.enclosing`). This holds of every run of every tree of the right
shape.

`OnLines A E B p` is the judgement behind it: from a machine whose line satisfies `A`, a part of a
run leaves one whose line satisfies `B`, and a division by zero satisfies `E`.
-/

namespace MiniPascal

/-! ## Statements and divisions of a tree -/

namespace Node

/-- There is a statement of the line at the place. -/
def StatementAt (n : Node) (q : Place) (line : Value) : Prop :=
  ∃ s, n.at? q = some s ∧ s.kind.isStatement = true ∧ s.line = line

/-- There is a statement of the line in the tree. -/
def HasLine (n : Node) (line : Value) : Prop := ∃ q, n.StatementAt q line

/-- There is a division of the text at the place, and no statement on the path to it. -/
def DividesAt (n : Node) (p : Place) (text : Value) : Prop :=
  n.enclosing? p = none ∧ ∃ k, n.at? p = some k ∧ k.kind = .arithmetic .divide ∧ k.text = text

/-- There is a division of the text in the tree, outside of its statements. -/
def Divides (n : Node) (text : Value) : Prop := ∃ p, n.DividesAt p text

/-- When child `k` of a loop is visited, child `j` can be the one that was executed last. -/
inductive Faces (ns : List Node) : Nat → Nat → Prop
  | after {j : Nat} {c : Node} :
      ns[j]? = some c → c.kind.isStatement = true → Faces ns (j + 1) j
  | past {k j : Nat} {c : Node} : ns[k]? = some c → c.kind = .test → Faces ns k j →
      Faces ns (k + 1) j
  | again {j : Nat} : Faces ns ns.length j → Faces ns 0 j

/-- No child in front of child `k` is executed. -/
def Leads (ns : List Node) (k : Nat) : Prop := ∀ j < k, ∀ c, ns[j]? = some c → c.kind = .test

/-- The division of the text at the place `p` can be reported with the line of the statement at the
place `q`. -/
inductive Blames : Node → Place → Place → Value → Value → Prop
  | own {n c : Node} {k : Nat} {p : Place} {text : Value} :
      n.kind.isStatement = true → n.children[k]? = some c → c.DividesAt p text →
      (n.kind = .loop → Leads n.children k) → Blames n (k :: p) [] n.line text
  | passed {n c d : Node} {k j : Nat} {p q : Place} {line text : Value} :
      n.kind = .loop → n.children[k]? = some c → c.DividesAt p text → Faces n.children k j →
      n.children[j]? = some d → d.StatementAt q line → Blames n (k :: p) (j :: q) line text
  | inside {n c : Node} {i : Nat} {p q : Place} {line text : Value} :
      n.children[i]? = some c → Blames c p q line text → Blames n (i :: p) (i :: q) line text

/-- A division of the text in the tree can be reported with the line. -/
def Blamed (n : Node) (line text : Value) : Prop := ∃ p q, n.Blames p q line text

/-- The line when child `k` of a loop is visited: that of the loop before anything was executed, and
then that of a statement in the child that was executed last. -/
def LoopLine (n : Node) (k : Nat) (line : Value) : Prop :=
  (line = n.line ∧ Leads n.children k) ∨
    ∃ j c q, Faces n.children k j ∧ n.children[j]? = some c ∧ c.StatementAt q line

section Trees

variable {n c : Node} {i k : Nat} {p q : Place} {line text : Value}

theorem leads_zero (ns : List Node) : Leads ns 0 := fun _ hj => absurd hj (Nat.not_lt_zero _)

theorem Leads.past {ns : List Node} (h : Leads ns k) (hc : ns[k]? = some c) (hk : c.kind = .test) :
    Leads ns (k + 1) := by
  intro j hj d hd
  rcases Nat.lt_succ_iff_lt_or_eq.1 hj with hj | rfl
  · exact h j hj d hd
  · exact Option.some.inj (hc.symm.trans hd) ▸ hk

theorem hasLine_self (h : n.kind.isStatement = true) : n.HasLine n.line :=
  ⟨[], n, at?_nil n, h, rfl⟩

theorem StatementAt.child (hc : n.children[i]? = some c) (h : c.StatementAt q line) :
    n.StatementAt (i :: q) line := by
  obtain ⟨s, hs, hline⟩ := h
  exact ⟨s, (at?_cons hc).trans hs, hline⟩

theorem HasLine.child (hc : c ∈ n.children) (h : c.HasLine line) : n.HasLine line := by
  obtain ⟨i, hi⟩ := List.getElem?_of_mem hc
  obtain ⟨q, hq⟩ := h
  exact ⟨i :: q, hq.child hi⟩

theorem Divides.child (hn : n.kind.isStatement = false) (hc : c ∈ n.children)
    (h : c.Divides text) : n.Divides text := by
  obtain ⟨i, hi⟩ := List.getElem?_of_mem hc
  obtain ⟨p, hp, k, hk⟩ := h
  exact ⟨i :: p, enclosing?_none hn hi hp, k, (at?_cons hi).trans hk.1, hk.2⟩

/-- A division that belongs to a statement other than a loop. -/
theorem Divides.blamed (hn : n.kind.isStatement = true) (hloop : n.kind ≠ .loop)
    (hc : c ∈ n.children) (h : c.Divides text) : n.Blamed n.line text := by
  obtain ⟨i, hi⟩ := List.getElem?_of_mem hc
  obtain ⟨p, hp⟩ := h
  exact ⟨i :: p, [], .own hn hi hp fun hl => absurd hl hloop⟩

theorem Blamed.child (hc : c ∈ n.children) (h : c.Blamed line text) : n.Blamed line text := by
  obtain ⟨i, hi⟩ := List.getElem?_of_mem hc
  obtain ⟨p, q, hpq⟩ := h
  exact ⟨i :: p, i :: q, .inside hi hpq⟩

/-- A division in a child of a loop. -/
theorem LoopLine.blamed (hn : n.kind = .loop) (hc : n.children[k]? = some c)
    (hl : n.LoopLine k line) (h : c.Divides text) : n.Blamed line text := by
  obtain ⟨p, hp⟩ := h
  rcases hl with ⟨rfl, hleads⟩ | ⟨j, d, q, hj, hd, hq⟩
  · exact ⟨k :: p, [], .own (by rw [hn]; rfl) hc hp fun _ => hleads⟩
  · exact ⟨k :: p, j :: q, .passed hn hc hp hj hd hq⟩

theorem LoopLine.hasLine (hn : n.kind = .loop) (hl : n.LoopLine k line) : n.HasLine line := by
  rcases hl with ⟨rfl, -⟩ | ⟨j, d, q, -, hd, hq⟩
  · exact hasLine_self (by rw [hn]; rfl)
  · exact ⟨j :: q, hq.child hd⟩

/-- **The innermost statement around a division is blamed for it**, unless that is a loop and a
statement in a child was entered later. -/
theorem Blames.enclosing (h : n.Blames p q line text) :
    (∃ k, n.at? p = some k ∧ k.kind = .arithmetic .divide ∧ k.text = text) ∧
      n.StatementAt q line ∧
      ∃ i S k r c, n.enclosing? p = some (i, S) ∧ p = i ++ k :: r ∧ S.children[k]? = some c ∧
        c.enclosing? r = none ∧
        ((q = i ∧ (S.kind = .loop → Leads S.children k)) ∨
          ∃ j v, S.kind = .loop ∧ q = i ++ j :: v ∧ Faces S.children k j) := by
  induction h with
  | @own n c k p _ hn hc hp hleads =>
    obtain ⟨hnone, divide, hk⟩ := hp
    exact ⟨⟨divide, (at?_cons hc).trans hk.1, hk.2⟩, ⟨_, at?_nil _, hn, rfl⟩,
      [], n, k, p, c, enclosing?_self hn hc hnone, rfl, hc, hnone, .inl ⟨rfl, hleads⟩⟩
  | @passed n c d k j p q _ _ hn hc hp hj hd hq =>
    obtain ⟨hnone, divide, hk⟩ := hp
    have hstatement : n.kind.isStatement = true := by rw [hn]; rfl
    exact ⟨⟨divide, (at?_cons hc).trans hk.1, hk.2⟩, hq.child hd,
      [], n, k, p, c, enclosing?_self hstatement hc hnone, rfl, hc, hnone,
      .inr ⟨j, q, hn, rfl, hj⟩⟩
  | @inside n d a p q _ _ hd _ ih =>
    obtain ⟨⟨divide, hk⟩, hq, i, S, k, r, c, hS, rfl, hc, hnone, hcase⟩ := ih
    refine ⟨⟨divide, (at?_cons hd).trans hk.1, hk.2⟩, hq.child hd,
      a :: i, S, k, r, c, enclosing?_inside hd hS, rfl, hc, hnone, ?_⟩
    rcases hcase with ⟨rfl, hleads⟩ | ⟨j, v, hloop, rfl, hj⟩
    · exact .inl ⟨rfl, hleads⟩
    · exact .inr ⟨j, v, hloop, rfl, hj⟩

end Trees

end Node

namespace Execution

variable {α β : Type}

/-! ## Judgements on lines -/

/-- What holds of the line and the text of a division by zero, if a run stops at one. -/
def Stop.OnDivision (E : Value → Value → Prop) : Stop → Prop
  | .fault (.divisionByZero line text) => E line text
  | _ => True

/-- A result leaves a line that satisfies `B`, and `E` holds of a division by zero. -/
def Leaves (E : Value → Value → Prop) (B : α → Value → Prop) :
    EStateM.Result Stop Machine α → Prop
  | .ok a m => B a m.line
  | .error e _ => e.OnDivision E

/-- From machines whose line satisfies `A`, results leave a line that satisfies `B`, and `E` holds
of a division by zero. -/
def OnLines (A : Value → Prop) (E : Value → Value → Prop) (B : α → Value → Prop) (p : Run α) :
    Prop :=
  ∀ m, A m.line → Leaves E B (p m)

/-- The line is kept, and a division by zero has that line and a text that satisfies `D`. -/
def KeepsLine (D : Value → Prop) (p : Run α) : Prop :=
  ∀ v, OnLines (· = v) (fun line text => line = v ∧ D text) (fun _ line => line = v) p

section Rules

variable {A A' : Value → Prop} {E E' : Value → Value → Prop} {B B' : α → Value → Prop}
  {C : β → Value → Prop} {D D' : Value → Prop}

theorem Stop.OnDivision.mono {e : Stop} (h : e.OnDivision E)
    (hE : ∀ line text, E line text → E' line text) : e.OnDivision E' := by
  unfold OnDivision at h ⊢
  split
  · exact hE _ _ h
  · trivial

theorem OnLines.of_error {p : Run α} (h : OnLines A E B p) {m m' : Machine} {line text : Value}
    (hm : A m.line) (he : p m = .error (.fault (.divisionByZero line text)) m') : E line text := by
  have := h m hm
  rwa [he] at this

theorem OnLines.mono {p : Run α} (h : OnLines A E B p) (hA : ∀ line, A' line → A line)
    (hE : ∀ line text, E line text → E' line text) (hB : ∀ a line, B a line → B' a line) :
    OnLines A' E' B' p := by
  intro m hm
  have hp := h m (hA _ hm)
  cases he : p m with
  | ok a m' =>
    rw [he] at hp
    exact hB a _ hp
  | error e m' =>
    rw [he] at hp
    exact Stop.OnDivision.mono hp hE

theorem OnLines.pre {p : Run α} (h : OnLines A E B p) (hA : ∀ line, A' line → A line) :
    OnLines A' E B p :=
  h.mono hA (fun _ _ he => he) fun _ _ hl => hl

theorem OnLines.post {p : Run α} (h : OnLines A E B p) (hB : ∀ a line, B a line → B' a line) :
    OnLines A E B' p :=
  h.mono (fun _ hl => hl) (fun _ _ he => he) hB

theorem OnLines.pure {a : α} (h : ∀ line, A line → B a line) : OnLines A E B (Pure.pure a) :=
  fun m hm => h m.line hm

theorem OnLines.bind {p : Run α} {f : α → Run β} (hp : OnLines A E B p)
    (hf : ∀ a, OnLines (B a) E C (f a)) : OnLines A E C (p >>= f) := by
  intro m hm
  have h := hp m hm
  rw [bind_apply]
  cases he : p m with
  | ok a m' =>
    rw [he] at h
    exact hf a m' h
  | error e m' =>
    rw [he] at h
    exact h

theorem onLines_setLine (line : Value) : OnLines A E (fun _ v => v = line) (setLine line) :=
  fun _ _ => rfl

theorem KeepsLine.mono {p : Run α} (h : KeepsLine D p) (hD : ∀ text, D text → D' text) :
    KeepsLine D' p := fun v =>
  (h v).mono (fun _ hl => hl) (fun _ text hl => ⟨hl.1, hD text hl.2⟩) fun _ _ hl => hl

theorem KeepsLine.pure (a : α) : KeepsLine D (Pure.pure a) := fun _ => .pure fun _ hl => hl

theorem KeepsLine.bind {p : Run α} {f : α → Run β} (hp : KeepsLine D p)
    (hf : ∀ a, KeepsLine D (f a)) : KeepsLine D (p >>= f) :=
  fun v => (hp v).bind fun a => hf a v

theorem KeepsLine.modify {g : Machine → Machine} (h : ∀ m, (g m).line = m.line) :
    KeepsLine D (modify g) := by
  intro v m hm
  exact (h m).trans hm

/-- A part that keeps the line, where the line has a property. -/
theorem KeepsLine.onLines {p : Run α} (h : KeepsLine D p)
    (hD : ∀ line text, A line → D text → E line text) : OnLines A E (fun _ => A) p := by
  intro m hm
  have hp := h m.line m rfl
  cases he : p m with
  | ok a m' =>
    rw [he] at hp
    have hline : m'.line = m.line := hp
    show A m'.line
    rwa [hline]
  | error e m' =>
    rw [he] at hp
    exact Stop.OnDivision.mono hp fun line text hl => hD line text (hl.1 ▸ hm) hl.2

/-- A part without a division. -/
theorem KeepsLine.still {p : Run α} (h : KeepsLine (fun _ => False) p) :
    OnLines A E (fun _ => A) p :=
  h.onLines fun _ _ _ hf => hf.elim

end Rules

/-! ## Parts without a division -/

/-- The fault is no division by zero. -/
def Fault.IsOther (f : Fault) : Prop := ∀ line text, f ≠ .divisionByZero line text

section Other

variable {D : Value → Prop}

theorem keepsLine_raise {f : Fault} (h : f.IsOther) : KeepsLine D (raise f : Run α) := by
  intro v m hm
  show Stop.OnDivision _ (.fault f)
  cases f with
  | divisionByZero line text => exact absurd rfl (h line text)
  | _ => trivial

theorem keepsLine_orRaise {x : Except Fault α} (h : ∀ f, x = .error f → f.IsOther) :
    KeepsLine D (orRaise x) := by
  cases x with
  | ok a => exact .pure a
  | error f => exact keepsLine_raise (h f rfl)

theorem isOther_of_mapError {ε : Type} {g : ε → Fault} (hg : ∀ e, (g e).IsOther) (x : Except ε α)
    (f : Fault) (h : x.mapError g = .error f) : f.IsOther := by
  cases x with
  | ok a => cases h
  | error e => exact Except.error.inj h ▸ hg e

theorem keepsLine_expectReal (v : Value) (site : Site) :
    KeepsLine D (orRaise (expectReal v site)) := by
  refine keepsLine_orRaise fun f hf => ?_
  cases v <;> cases hf <;> simp [Fault.IsOther]

theorem keepsLine_expectBoolean (v : Value) (site : Site) :
    KeepsLine D (orRaise (expectBoolean v site)) := by
  refine keepsLine_orRaise fun f hf => ?_
  cases v <;> cases hf <;> simp [Fault.IsOther]

theorem keepsLine_constantReal (v : Value) : KeepsLine D (orRaise (constantReal v)) := by
  refine keepsLine_orRaise fun f hf => ?_
  cases v with
  | text t => exact isOther_of_mapError (by simp [Fault.IsOther]) _ f hf
  | int n =>
    rw [constantReal] at hf
    split at hf <;> cases hf
    simp [Fault.IsOther]
  | _ => cases hf <;> simp [Fault.IsOther]

theorem keepsLine_fieldInteger (v : Value) (site : Site) :
    KeepsLine D (orRaise (fieldInteger v site)) := by
  refine keepsLine_orRaise fun f hf => ?_
  cases v with
  | real x => exact isOther_of_mapError (by simp [Fault.IsOther]) _ f hf
  | _ => cases hf; simp [Fault.IsOther]

theorem keepsLine_note (n : Note) : KeepsLine D (note n) := by
  intro v m hm
  have hget : (get : Run Machine) m = .ok m m := rfl
  have hwrite : KeepsLine D (orRaise (n.message.encode.mapError .unwritable)) :=
    keepsLine_orRaise (isOther_of_mapError (by simp [Fault.IsOther]) _)
  have htrace : ∀ line : String, KeepsLine D
      (modify fun m => { m with trace := m.trace ++ line ++ "\n" } : Run Unit) :=
    fun _ => .modify fun _ => rfl
  have hnotes : KeepsLine D (modify fun m => { m with notes := m.notes.push n } : Run Unit) :=
    .modify fun _ => rfl
  unfold note
  rw [bind_apply, hget]
  dsimp only
  split
  · exact (hwrite.bind fun line => (htrace line).bind fun _ => hnotes) v m hm
  · exact hnotes v m hm

theorem keepsLine_emit (text : Text) : KeepsLine D (emit text) := .modify fun _ => rfl

theorem keepsLine_readVariable (text : Value) : KeepsLine D (readVariable text) := by
  cases text with
  | text name =>
    intro v m hm
    rw [readVariable_apply]
    cases (m.table.find? name).map (·.value) with
    | some w => exact hm
    | none => trivial
  | _ => exact keepsLine_raise (by simp [Fault.IsOther])

theorem keepsLine_writeVariable (target : Node) (x : Float) :
    KeepsLine D (writeVariable target x) := by
  by_cases h : ∃ name, target.kind = .var ∧ target.text = .text name
  · obtain ⟨name, hk, ht⟩ := h
    intro v m hm
    rw [writeVariable_apply hk ht]
    split
    · exact hm
    · trivial
  · rw [writeVariable_eq_raise fun name hk ht => h ⟨name, hk, ht⟩]
    exact keepsLine_raise (by simp [Fault.IsOther])

theorem keepsLine_writeValue (v : Value) (width places : Option Int) :
    KeepsLine D (writeValue v width places) :=
  (keepsLine_orRaise (isOther_of_mapError (by simp [Fault.IsOther]) _)).bind fun _ =>
    (keepsLine_note _).bind fun _ => keepsLine_emit _

end Other

/-! ## Expressions -/

/-- Only a division can divide by zero, and it reports the line at hand. -/
theorem keepsLine_calculate (op : Arithmetic) (text : Value) (x y : Float) :
    KeepsLine (fun t => op = .divide ∧ t = text) (calculate op text x y) := by
  cases op with
  | add | subtract | multiply => exact .pure _
  | divide =>
    intro v m hm
    rw [calculate_divide]
    split
    · exact ⟨hm, rfl, rfl⟩
    · exact hm

/-- **An evaluation keeps the line**, and divides by zero only at a division of the expression. -/
theorem keepsLine_evaluate (n : Node) : KeepsLine n.Divides (evaluate n) := by
  induction n using Node.induct with
  | h n ih =>
    obtain ⟨kind, line, text, literal, children⟩ := n
    -- A division below is one of the whole, with one more step in its place.
    have operand : kind.isStatement = false → ∀ c ∈ children,
        KeepsLine (Node.Divides ⟨kind, line, text, literal, children⟩) (evaluate c) :=
      fun hk c hc => (ih c hc).mono fun _ => Node.Divides.child hk hc
    have missing : ∀ {α : Type}, KeepsLine (Node.Divides ⟨kind, line, text, literal, children⟩)
        (raise .missingChild : Run α) := keepsLine_raise (by simp [Fault.IsOther])
    cases kind with
    | var => rw [evaluate]; exact keepsLine_readVariable _
    | string => rw [evaluate]; exact .pure _
    | integer | real =>
      rw [evaluate]
      exact (keepsLine_constantReal _).bind fun _ => .pure _
    | test =>
      cases children with
      | nil => rw [evaluate]; exact missing
      | cons c rest =>
        rw [evaluate]
        exact (operand rfl c (by simp)).bind fun _ => (keepsLine_expectBoolean _ _).bind fun _ =>
          (keepsLine_note _).bind fun _ => .pure _
    | not =>
      cases children with
      | nil => rw [evaluate]; exact missing
      | cons c rest =>
        rw [evaluate]
        exact (operand rfl c (by simp)).bind fun _ => (keepsLine_expectBoolean _ _).bind fun _ =>
          .pure _
    | negate =>
      cases children with
      | nil => rw [evaluate]; exact missing
      | cons c rest =>
        rw [evaluate]
        exact (operand rfl c (by simp)).bind fun _ => (keepsLine_expectReal _ _).bind fun _ =>
          .pure _
    | connective op =>
      rcases children with _ | ⟨c, _ | ⟨d, rest⟩⟩
      · rw [evaluate]; exact missing
      · rw [evaluate]
        exact (operand rfl c (by simp)).bind fun _ => (keepsLine_expectBoolean _ _).bind fun _ =>
          missing
      · rw [evaluate]
        exact (operand rfl c (by simp)).bind fun _ => (keepsLine_expectBoolean _ _).bind fun _ =>
          (operand rfl d (by simp)).bind fun _ => (keepsLine_expectBoolean _ _).bind fun _ =>
            .pure _
    | relation op =>
      rcases children with _ | ⟨c, _ | ⟨d, rest⟩⟩
      · rw [evaluate]; exact missing
      · rw [evaluate]
        exact (operand rfl c (by simp)).bind fun _ => (keepsLine_expectReal _ _).bind fun _ =>
          missing
      · rw [evaluate]
        exact (operand rfl c (by simp)).bind fun _ => (keepsLine_expectReal _ _).bind fun _ =>
          (operand rfl d (by simp)).bind fun _ => (keepsLine_expectReal _ _).bind fun _ => .pure _
    | arithmetic op =>
      rcases children with _ | ⟨c, _ | ⟨d, rest⟩⟩
      · rw [evaluate]; exact missing
      · rw [evaluate]
        exact (operand rfl c (by simp)).bind fun _ => (keepsLine_expectReal _ _).bind fun _ =>
          missing
      · rw [evaluate]
        refine (operand rfl c (by simp)).bind fun _ => (keepsLine_expectReal _ _).bind fun _ =>
          (operand rfl d (by simp)).bind fun _ => (keepsLine_expectReal _ _).bind fun _ => ?_
        -- The only division of its own is the node itself.
        refine (keepsLine_calculate _ _ _ _).mono ?_
        rintro _ ⟨rfl, rfl⟩
        exact ⟨[], rfl, _, Node.at?_nil _, rfl, rfl⟩
    | program | compound | assign | loop | write | writeln | cond | select | selectBranch
    | selectConstants =>
      simp only [evaluate]
      exact keepsLine_raise (by simp [Fault.IsOther])

/-! ## Statements -/

section Parts

variable {D : Value → Prop}

theorem keepsLine_writeArguments {ns : List Node} (h : ∀ c ∈ ns, ∀ text, c.Divides text → D text) :
    KeepsLine D (writeArguments ns) := by
  have value : ∀ c ∈ ns, KeepsLine D (evaluate c) := fun c hc =>
    (keepsLine_evaluate c).mono (h c hc)
  rcases ns with _ | ⟨a, _ | ⟨w, _ | ⟨p, rest⟩⟩⟩
  · exact keepsLine_raise (by simp [Fault.IsOther])
  · exact (value a (by simp)).bind fun _ => keepsLine_writeValue _ _ _
  · exact (value w (by simp)).bind fun _ => (keepsLine_fieldInteger _ _).bind fun _ =>
      (value a (by simp)).bind fun _ => keepsLine_writeValue _ _ _
  · exact (value w (by simp)).bind fun _ => (keepsLine_fieldInteger _ _).bind fun _ =>
      (value p (by simp)).bind fun _ => (keepsLine_fieldInteger _ _).bind fun _ =>
        (value a (by simp)).bind fun _ => keepsLine_writeValue _ _ _

theorem keepsLine_assign (line : Value) (target : Node) {value : Node}
    (h : ∀ text, value.Divides text → D text) : KeepsLine D (assign line target value) :=
  ((keepsLine_evaluate value).mono h).bind fun _ => (keepsLine_expectReal _ _).bind fun _ =>
    (keepsLine_writeVariable _ _).bind fun _ => keepsLine_note _

theorem keepsLine_matchesAny (v : Value) {ns : List Node}
    (h : ∀ c ∈ ns, ∀ text, c.Divides text → D text) : KeepsLine D (matchesAny v ns) := by
  induction ns with
  | nil => exact .pure _
  | cons c rest ih =>
    rw [matchesAny]
    refine ((keepsLine_evaluate c).mono (h c (by simp))).bind fun _ => ?_
    split
    · exact .pure _
    · exact ih fun d hd => h d (by simp [hd])

end Parts

theorem visit_statement (fuel : Nat) {n : Node}
    (h : n.kind = .program ∨ n.kind.isStatement = true) :
    visit fuel n = execute fuel n >>= fun _ => pure none := by
  obtain ⟨kind, line, text, literal, children⟩ := n
  rw [visit, if_pos (by simpa using h)]

theorem visit_test (fuel : Nat) {n : Node} (h : n.kind = .test) :
    visit fuel n = evaluate n >>= fun v => pure (some v) := by
  obtain ⟨kind, line, text, literal, children⟩ := n
  obtain rfl : kind = .test := h
  rw [visit, if_neg (by simp [Kind.isStatement])]

/-- What the execution of a statement, from any line, does to the line. -/
def BlamesBelow (fuel : Nat) (n : Node) : Prop :=
  OnLines (fun _ => True) n.Blamed (fun _ => n.HasLine) (execute fuel n)

section Statements

variable {fuel : Nat} {n c : Node} {A : Value → Prop}

/-- A child is executed. -/
theorem BlamesBelow.child (hc : c ∈ n.children) (h : BlamesBelow fuel c) :
    OnLines A n.Blamed (fun _ => n.HasLine) (execute fuel c) :=
  h.mono (fun _ _ => trivial) (fun _ _ => Node.Blamed.child hc) fun _ _ => Node.HasLine.child hc

theorem BlamesBelow.visit (hk : c.kind = .program ∨ c.kind.isStatement = true)
    (h : OnLines A n.Blamed (fun _ => n.HasLine) (execute fuel c)) :
    OnLines A n.Blamed (fun _ => n.HasLine) (visit fuel c) := by
  rw [visit_statement fuel hk]
  exact h.bind fun _ => .pure fun _ hl => hl

/-- An expression of a statement is evaluated on the line of that statement. -/
theorem onLines_own {D : Value → Prop} {p : Run α} (hn : n.kind.isStatement = true)
    (hloop : n.kind ≠ .loop) (hD : ∀ text, D text → ∃ c ∈ n.children, c.Divides text)
    (h : KeepsLine D p) :
    OnLines (· = n.line) n.Blamed (fun _ line => line = n.line) p := by
  refine h.onLines fun line text hl ht => ?_
  obtain ⟨c, hc, hdivides⟩ := hD text ht
  exact hl ▸ hdivides.blamed hn hloop hc

theorem onLines_executeAll {ns : List Node} (hs : ∀ c ∈ ns, c.kind.isStatement = true)
    (h : ∀ c ∈ ns, c ∈ n.children ∧ BlamesBelow fuel c) :
    OnLines n.HasLine n.Blamed (fun _ => n.HasLine) (executeAll fuel ns) := by
  induction ns with
  | nil => rw [executeAll]; exact .pure fun _ hl => hl
  | cons c rest ih =>
    rw [executeAll]
    obtain ⟨hc, hbelow⟩ := h c (by simp)
    exact (BlamesBelow.visit (.inr (hs c (by simp))) (hbelow.child hc)).bind fun _ =>
      ih (fun d hd => hs d (by simp [hd])) fun d hd => h d (by simp [hd])

/-- The step of a loop: one of its children is visited. -/
theorem onLines_visit_loop {k : Nat} (hn : n.kind = .loop) (hc : n.children[k]? = some c)
    (hk : c.kind.isStatement = true ∨ c.kind = .test)
    (h : c.kind.isStatement = true → BlamesBelow fuel c) :
    OnLines (n.LoopLine k) n.Blamed (fun _ line => n.LoopLine (k + 1) line ∧ n.HasLine line)
      (visit fuel c) := by
  have hmem : c ∈ n.children := List.mem_of_getElem? hc
  rcases hk with hk | hk
  · rw [visit_statement fuel (.inr hk)]
    refine ((h hk).mono (fun _ _ => trivial) (fun _ _ => Node.Blamed.child hmem)
      fun _ line hl => ?_).bind fun _ => .pure fun _ hl => hl
    obtain ⟨q, hq⟩ := hl
    exact ⟨.inr ⟨k, c, q, .after hc hk, hc, hq⟩, k :: q, hq.child hc⟩
  · rw [visit_test fuel hk]
    refine ((keepsLine_evaluate c).onLines fun line text hl ht => hl.blamed hn hc ht).bind
      fun _ => .pure fun line hl => ⟨?_, hl.hasLine hn⟩
    rcases hl with ⟨rfl, hleads⟩ | ⟨j, d, q, hj, hd⟩
    · exact .inl ⟨rfl, hleads.past hc hk⟩
    · exact .inr ⟨j, d, q, .past hc hk hj, hd⟩

/-- A pass through a loop, from a child on. -/
theorem onLines_runPass (hn : n.kind = .loop)
    (hs : ∀ c ∈ n.children, c.kind.isStatement = true ∨ c.kind = .test)
    (h : ∀ c ∈ n.children, c.kind.isStatement = true → BlamesBelow fuel c)
    {k : Nat} {rest : List Node} (hk : n.children.drop k = rest) (hle : k ≤ n.children.length) :
    OnLines (n.LoopLine k) n.Blamed
      (fun last line => if last then n.HasLine line else n.LoopLine 0 line)
      (runPass fuel rest) := by
  induction rest generalizing k with
  | nil =>
    have hlen : k = n.children.length := Nat.le_antisymm hle (List.drop_eq_nil_iff.1 hk)
    rw [runPass]
    refine .pure fun line hl => ?_
    -- The end of a pass is the start of the next one, so every child is again ahead.
    rcases hl with ⟨rfl, -⟩ | ⟨j, d, q, hj, hd⟩
    · exact .inl ⟨rfl, Node.leads_zero _⟩
    · exact .inr ⟨j, d, q, .again (hlen ▸ hj), hd⟩
  | cons c rest ih =>
    have hc : n.children[k]? = some c := by
      rw [← List.head?_drop, hk]
      rfl
    have hrest : n.children.drop (k + 1) = rest := by
      rw [← List.tail_drop, hk]
      rfl
    have hlt : k < n.children.length := (List.getElem?_eq_some_iff.1 hc).1
    have hmem : c ∈ n.children := List.mem_of_getElem? hc
    have hvisit := onLines_visit_loop hn hc (hs c hmem) (h c hmem)
    obtain ⟨kind, line, text, literal, children⟩ := c
    rw [runPass]
    refine hvisit.bind fun v => ?_
    split
    · exact .pure fun _ hl => hl.2
    · exact (ih hrest hlt).pre fun _ hl => hl.1

theorem onLines_repeatPass {E : Value → Value → Prop} {B : Value → Prop} {pass : Run Bool}
    (h : OnLines A E (fun last line => if last then B line else A line) pass) :
    OnLines A E (fun _ => B) (repeatPass fuel pass) := by
  induction fuel with
  | zero => exact fun _ _ => trivial
  | succ fuel ih =>
    rw [repeatPass]
    refine h.bind fun last => ?_
    cases last with
    | true => exact .pure fun _ hl => hl
    | false => exact ih

/-- The branches of a selection. Their constants are evaluated on its line. -/
theorem onLines_executeBranch (hn : n.kind.isStatement = true) (hloop : n.kind ≠ .loop) (v : Value)
    {bs : List Node}
    (hbs : ∀ b ∈ bs, b ∈ n.children ∧ b.kind = .selectBranch ∧ b.WellShaped)
    (h : ∀ b ∈ bs, ∀ c ∈ b.children, c.kind.isStatement = true → BlamesBelow fuel c) :
    OnLines (· = n.line) n.Blamed (fun _ => n.HasLine) (executeBranch fuel n.line v bs) := by
  have hline : ∀ line, line = n.line → n.HasLine line := by
    rintro _ rfl
    exact Node.hasLine_self hn
  induction bs with
  | nil =>
    rw [executeBranch]
    exact (keepsLine_note _).still.post fun _ => hline
  | cons b bs ih =>
    obtain ⟨hb, hkind, hshaped⟩ := hbs b (by simp)
    have hparts := h b (by simp)
    obtain ⟨kind, line, text, literal, parts⟩ := b
    obtain rfl : kind = .selectBranch := hkind
    cases hshaped with
    | @selectBranch constants body hconstants hbody =>
      have hbelow := hparts body (by simp) hbody
      rw [executeBranch]
      -- Constants are no statements: they divide on the line of the selection.
      have hmatch : KeepsLine (Node.Divides ⟨.selectBranch, line, text, literal,
          [constants, body]⟩) (matchesAny v constants.children) :=
        keepsLine_matchesAny v fun c hc _ hd =>
          Node.Divides.child rfl (by simp) (hd.child (by rw [hconstants]; rfl) hc)
      refine (onLines_own hn hloop (fun _ hd => ⟨_, hb, hd⟩) hmatch).bind fun found => ?_
      split
      · refine (keepsLine_note _).still.bind fun _ => ?_
        refine (BlamesBelow.visit (.inr hbody) ?_).bind fun _ => .pure fun _ hl => hl
        exact hbelow.mono (fun _ _ => trivial)
          (fun _ _ hl => (hl.child (by simp)).child hb) fun _ _ hl => (hl.child (by simp)).child hb
      · exact ih (fun b hb => hbs b (by simp [hb])) fun b hb => h b (by simp [hb])

/-- **The line of every statement is that of the statement entered last**: an execution ends on the
line of one of its statements, and blames a division by zero on one. -/
theorem blamesBelow_execute (fuel : Nat) {n : Node} (hn : ∀ k ∈ n.walk, k.WellShaped)
    (hk : n.kind = .program ∨ n.kind.isStatement = true) : BlamesBelow fuel n := by
  induction n using Node.inductBelow with
  | h n ih =>
    have child : ∀ c ∈ n.children, c.kind.isStatement = true → BlamesBelow fuel c :=
      fun c hc hs => ih c (Node.mem_walkAll_self hc)
        (fun k hk => hn k (Node.mem_walk_of_child hc hk)) (.inr hs)
    have grandchild : ∀ b ∈ n.children, ∀ c ∈ b.children, c.kind.isStatement = true →
        BlamesBelow fuel c := fun b hb c hc hs =>
      ih c (Node.mem_walkAll.2 ⟨b, hb, Node.mem_walk_of_child hc Node.self_mem_walk⟩)
        (fun k hk => hn k (Node.mem_walk_of_child hb (Node.mem_walk_of_child hc hk)))
        (.inr hs)
    have branch : ∀ b ∈ n.children, b.WellShaped := fun b hb =>
      hn b (Node.mem_walk_of_child hb Node.self_mem_walk)
    have hline : n.kind.isStatement = true → ∀ line, line = n.line → n.HasLine line := by
      rintro hs _ rfl
      exact Node.hasLine_self hs
    -- What evaluates on the line that the statement has set divides on that line.
    have own : ∀ {α : Type} {D : Value → Prop} {p : Run α}, n.kind.isStatement = true →
        n.kind ≠ .loop → (∀ text, D text → ∃ c ∈ n.children, c.Divides text) → KeepsLine D p →
        OnLines (· = n.line) n.Blamed (fun _ line => line = n.line) p := onLines_own
    have evaluated : n.kind.isStatement = true → n.kind ≠ .loop → ∀ c ∈ n.children,
        OnLines (· = n.line) n.Blamed (fun _ line => line = n.line) (evaluate c) :=
      fun hs hloop c hc => own hs hloop (fun _ hd => ⟨c, hc, hd⟩) (keepsLine_evaluate c)
    have hshaped : n.WellShaped := hn n Node.self_mem_walk
    obtain ⟨kind, line, text, literal, children⟩ := n
    unfold BlamesBelow
    cases hshaped with
    | program hbody =>
      rw [execute]
      exact (child _ (by simp) (by rw [hbody]; rfl)).child (by simp)
    | compound hs =>
      simp only [execute]
      refine (onLines_setLine line).bind fun _ => ?_
      exact (onLines_executeAll hs fun c hc => ⟨hc, child c hc (hs c hc)⟩).pre (hline rfl)
    | assign =>
      simp only [execute]
      refine (onLines_setLine line).bind fun _ => ?_
      exact (own rfl (by simp) (fun _ hd => ⟨_, by simp, hd⟩)
        (keepsLine_assign line _ fun _ hd => hd)).post fun _ => hline rfl
    | loop hs _ =>
      simp only [execute]
      refine (onLines_setLine line).bind fun _ => ?_
      -- Before the first pass the line is that of the loop, and later that of some child.
      have hpass := onLines_runPass (n := ⟨.loop, line, text, literal, children⟩) rfl hs child
        List.drop_zero (Nat.zero_le _)
      exact (onLines_repeatPass hpass).pre fun _ hl => .inl ⟨hl, Node.leads_zero _⟩
    | write =>
      simp only [execute]
      refine (onLines_setLine line).bind fun _ => ?_
      exact (own rfl (by simp) (fun _ hd => hd)
        (keepsLine_writeArguments fun c hc _ hd => ⟨c, hc, hd⟩)).post fun _ => hline rfl
    | writelnBare =>
      simp only [execute]
      refine (onLines_setLine line).bind fun _ => ?_
      exact (keepsLine_emit _).still.post fun _ => hline rfl
    | writeln =>
      simp only [execute]
      refine (onLines_setLine line).bind fun _ => ?_
      refine (own rfl (by simp) (fun _ hd => hd)
        (keepsLine_writeArguments fun c hc _ hd => ⟨c, hc, hd⟩)).bind fun _ => ?_
      exact (keepsLine_emit _).still.post fun _ => hline rfl
    | ifThen _ hfirst =>
      simp only [execute]
      refine (onLines_setLine line).bind fun _ =>
        (evaluated rfl (by simp) _ (by simp)).bind fun _ =>
          (keepsLine_expectBoolean _ _).still.bind fun b =>
            (keepsLine_note _).still.bind fun _ => ?_
      cases b with
      | true =>
        exact (BlamesBelow.visit (.inr hfirst) ((child _ (by simp) hfirst).child (by simp))).bind
          fun _ => .pure fun _ hl => hl
      | false => exact .pure (hline rfl)
    | ifThenElse _ hfirst hsecond =>
      simp only [execute]
      refine (onLines_setLine line).bind fun _ =>
        (evaluated rfl (by simp) _ (by simp)).bind fun _ =>
          (keepsLine_expectBoolean _ _).still.bind fun b =>
            (keepsLine_note _).still.bind fun _ => ?_
      cases b with
      | true =>
        exact (BlamesBelow.visit (.inr hfirst) ((child _ (by simp) hfirst).child (by simp))).bind
          fun _ => .pure fun _ hl => hl
      | false =>
        exact (BlamesBelow.visit (.inr hsecond) ((child _ (by simp) hsecond).child (by simp))).bind
          fun _ => .pure fun _ hl => hl
    | select _ hbs =>
      simp only [execute]
      refine (onLines_setLine line).bind fun _ =>
        (evaluated rfl (by simp) _ (by simp)).bind fun v => ?_
      exact onLines_executeBranch (n := ⟨.select, line, text, literal, _⟩) rfl (by simp) v
        (fun b hb => ⟨List.mem_cons_of_mem _ hb, hbs b hb, branch b (List.mem_cons_of_mem _ hb)⟩)
        fun b hb => grandchild b (List.mem_cons_of_mem _ hb)
    | _ => simp [Kind.isStatement] at hk

/-- **A division by zero is blamed on a statement around it**, or on one that was executed just
before in a loop around it. -/
theorem blamed_run {fuel : Nat} {n : Node} (hn : ∀ k ∈ n.walk, k.WellShaped) {m m' : Machine}
    {line text : Value} (h : run fuel n m = .error (.fault (.divisionByZero line text)) m') :
    n.Blamed line text := by
  by_cases hk : n.kind = .program
  · have hvisit := BlamesBelow.visit (.inl hk) (blamesBelow_execute fuel hn (.inl hk))
    rw [run, if_pos hk] at h
    exact (hvisit.bind fun _ => OnLines.pure (B := fun _ => n.HasLine) fun _ hl => hl).of_error
      trivial h
  · rw [run, if_neg hk] at h
    cases h

end Statements

end Execution

end MiniPascal
