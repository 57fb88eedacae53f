import MiniPascal.Proofs.Execution.StraightLine
import MiniPascal.Proofs.Parsing.Shape
import MiniPascal.Proofs.Parsing.Strict
import MiniPascal.Proofs.Session.Parse
import MiniPascal.Proofs.Tree.Equality

/-!
# What strict mode says about runs

In strict mode a variable must not be read before it is mentioned as the target of an assignment. In
a straight-line program the text is in the order of the run, so that a variable which is read was
assigned before. There are two exceptions, since the target is entered before the expression is
parsed, and the name of the program before all others.

**Reads come after stores** (`reads_after_stores`). If a straight-line program has no diagnostics in
strict mode, then whenever its run loads a variable, that variable was stored earlier in the run, or
has the name of the program, or is the very one to which the expression is about to be assigned.
-/

namespace MiniPascal

open Execution
open Node (Mention namesOf mentionsAll AllNodes AllNameable)

/-! ## Names in expressions -/

/-- If no mention without an assignment is undeclared, then all names are in the table. -/
theorem Table.contains_of_undeclared {table : Table} {ms : List Mention}
    (hms : ∀ m ∈ ms, m.assigned = false) (h : table.undeclared ms = []) :
    ∀ m ∈ ms, table.contains m.name = true := by
  induction ms with
  | nil => simp
  | cons m ms ih =>
    obtain ⟨hm, hrest⟩ := List.forall_mem_cons.1 hms
    rw [undeclared, List.append_eq_nil_iff] at h
    have hfirst : table.contains m.name = true := by simpa [hm] using h.1
    rw [enter_of_contains hfirst] at h
    exact List.forall_mem_cons.2 ⟨hfirst, ih hrest h.2⟩

namespace Node

theorem mem_mentionsAll {m : Mention} {ns : List Node} (h : m ∈ mentionsAll false ns) :
    ∃ n ∈ ns, m ∈ n.mentions false := by
  induction ns with
  | nil => simp at h
  | cons n ns ih =>
    rw [mentionsAll, List.mem_append] at h
    obtain h | h := h
    · exact ⟨n, by simp, h⟩
    · obtain ⟨k, hk, hm⟩ := ih h
      exact ⟨k, by simp [hk], hm⟩

/-- Without an assignment, nothing is mentioned as a target. -/
theorem assigned_eq_false {n : Node} (h : ∀ k ∈ n.walk, k.kind ≠ .assign) :
    ∀ m ∈ n.mentions false, m.assigned = false := by
  induction n using induct with
  | h n ih =>
    have hkind : assignsFirst n.kind = false := by
      cases hk : n.kind with
      | assign => exact absurd hk (h n self_mem_walk)
      | _ => rfl
    obtain ⟨kind, line, text, literal, children⟩ := n
    intro m hm
    rw [mentions, hkind, List.mem_append, List.mem_map] at hm
    obtain ⟨name, -, rfl⟩ | hm := hm
    · rfl
    · obtain ⟨c, hc, hm⟩ := mem_mentionsAll hm
      exact ih c hc (fun k hk => h k (mem_walk_of_child hc hk)) m hm

/-- In trees without an assignment, names that are not undeclared are in the table. -/
theorem contains_of_undeclared {table : Table} {ns : List Node}
    (hns : AllNodes (·.kind ≠ .assign) ns) (h : table.undeclared (mentionsAll false ns) = []) :
    ∀ name ∈ namesOf ns, table.contains name = true := by
  intro name hname
  rw [← map_name_mentionsAll false, List.mem_map] at hname
  obtain ⟨m, hm, rfl⟩ := hname
  refine Table.contains_of_undeclared (fun m hm => ?_) h m hm
  obtain ⟨n, hn, hm⟩ := mem_mentionsAll hm
  exact assigned_eq_false (fun k hk => hns k (mem_walkAll.2 ⟨n, hn, hk⟩)) m hm

theorem load_not_mem_operatorCode (op : Arithmetic) (text own : Value) :
    .load text ∉ operatorCode op own := by
  cases op <;> simp [operatorCode]

/-- The code of an expression loads the variables in it. -/
theorem exists_of_load {n : Node} {text : Value} (h : .load text ∈ n.code) :
    ∃ k ∈ n.walk, k.kind = .var ∧ k.text = text := by
  induction n using induct with
  | h n ih =>
    have hbelow : ∀ c ∈ n.children, .load text ∈ c.code →
        ∃ k ∈ n.walk, k.kind = .var ∧ k.text = text := by
      intro c hc hload
      obtain ⟨k, hk, hkind⟩ := ih c hc hload
      exact ⟨k, mem_walk_of_child hc hk, hkind⟩
    obtain ⟨kind, line, own, literal, children⟩ := n
    cases kind with
    | var =>
      obtain rfl : text = own := by simpa [code] using h
      exact ⟨_, self_mem_walk, rfl, rfl⟩
    | test | not | negate =>
      rcases children with _ | ⟨c, rest⟩
      · simp [code] at h
      · exact hbelow c (by simp) (by simpa [code] using h)
    | connective | relation | arithmetic =>
      rcases children with _ | ⟨c, _ | ⟨d, rest⟩⟩
      · simp [code] at h
      · exact hbelow c (by simp) (by simpa [code] using h)
      · obtain h | h : .load text ∈ c.code ∨ .load text ∈ d.code := by
          simpa [code, load_not_mem_operatorCode] using h
        · exact hbelow c (by simp) h
        · exact hbelow d (by simp) h
    | _ => simp [code] at h

/-- What is loaded in an expression is one of its names. -/
theorem exists_name_of_load {ns : List Node} (hns : AllNameable ns) {n : Node} (hn : n ∈ ns)
    {text : Value} (h : .load text ∈ n.code) : ∃ name ∈ namesOf ns, text = .text name := by
  obtain ⟨k, hk, hkind, rfl⟩ := exists_of_load h
  have hmem : k ∈ walkAll ns := mem_walkAll.2 ⟨n, hn, hk⟩
  obtain ⟨name, hname⟩ : ∃ name, k.text = .text name := by
    have hnameable := hns k hmem
    rwa [Nameable, hkind] at hnameable
  exact ⟨name, List.mem_flatMap.2 ⟨k, hmem, by simp [ownNames, hkind, hname]⟩, hname⟩

end Node

namespace Execution

/-! ## Reads and stores -/

/-- A variable is stored by one of the actions. -/
def Stores (as : List Action) (name : Text) : Prop :=
  ∃ target : Node, .store target ∈ as ∧ target.isCalled name = true

/-- What is being computed is then stored in a variable. -/
def StoresNext (as : List Action) (name : Text) : Prop :=
  ∃ (code : List Instruction) (target : Node) (rest : List Action),
    as = code.map .compute ++ .store target :: rest ∧ target.isCalled name = true

/-- Wherever a variable is loaded, it is in the table, or was stored before, or the value is to be
stored in it. -/
def Covered (table : Table) (as : List Action) : Prop :=
  ∀ before text after, as = before ++ .compute (.load text) :: after →
    ∃ name, text = .text name ∧
      (table.contains name = true ∨ Stores before name ∨ StoresNext after name)

/-- Actions that go with names which are entered into a table. -/
structure Declares (table : Table) (names : List Text) (as : List Action) : Prop where
  covered : Covered table as
  /-- A name that is new in the table is that of a variable which is stored. -/
  stored : ∀ name, (table.enterAll names).contains name = true →
    table.contains name = true ∨ Stores as name

variable {table : Table} {names names' : List Text} {as bs : List Action} {name : Text}

theorem Stores.append_left (h : Stores as name) (bs : List Action) : Stores (as ++ bs) name := by
  obtain ⟨target, ht, hname⟩ := h
  exact ⟨target, List.mem_append_left _ ht, hname⟩

theorem Stores.append_right (h : Stores bs name) (as : List Action) : Stores (as ++ bs) name := by
  obtain ⟨target, ht, hname⟩ := h
  exact ⟨target, List.mem_append_right _ ht, hname⟩

theorem StoresNext.append (h : StoresNext as name) (bs : List Action) :
    StoresNext (as ++ bs) name := by
  obtain ⟨code, target, rest, rfl, hname⟩ := h
  exact ⟨code, target, rest ++ bs, by simp, hname⟩

/-- An action of two lists is in the first or in the second one. -/
theorem eq_or_eq_of_append {a : Action} {before after : List Action}
    (h : as ++ bs = before ++ a :: after) :
    (∃ rest, as = before ++ a :: rest ∧ after = rest ++ bs) ∨
      ∃ mid, before = as ++ mid ∧ bs = mid ++ a :: after := by
  obtain hmid | ⟨rest, rfl, hrest⟩ := List.append_eq_append_iff.1 h
  · exact .inr hmid
  · cases rest with
    | nil => exact .inr ⟨[], by simp, hrest.symm⟩
    | cons b rest =>
      obtain ⟨rfl, rfl⟩ := List.cons.inj hrest
      exact .inl ⟨rest, rfl, rfl⟩

theorem Declares.append (h : Declares table names as)
    (h' : Declares (table.enterAll names) names' bs) :
    Declares table (names ++ names') (as ++ bs) := by
  constructor
  · intro before text after he
    obtain ⟨rest, hrest, rfl⟩ | ⟨mid, rfl, hmid⟩ := eq_or_eq_of_append he
    · obtain ⟨name, hname, hc | hs | hs⟩ := h.covered before text rest hrest
      · exact ⟨name, hname, .inl hc⟩
      · exact ⟨name, hname, .inr (.inl hs)⟩
      · exact ⟨name, hname, .inr (.inr (hs.append bs))⟩
    · obtain ⟨name, hname, hc | hs | hs⟩ := h'.covered mid text after hmid
      · -- The second list starts with the table that the first one leaves, where a name is old or
        -- was stored by the first list.
        refine ⟨name, hname, ?_⟩
        exact (h.stored name hc).imp id fun hs => .inl (hs.append_left mid)
      · exact ⟨name, hname, .inr (.inl (hs.append_right as))⟩
      · exact ⟨name, hname, .inr (.inr hs)⟩
  · intro name hname
    rw [Table.enterAll_append] at hname
    obtain hc | hs := h'.stored name hname
    · exact (h.stored name hc).imp id fun hs => hs.append_left bs
    · exact .inr (hs.append_right as)

/-- A name is in a table to which only names of the table were entered if it was before. -/
theorem contains_of_enterAll (hnames : ∀ other ∈ names, table.contains other = true)
    (h : (table.enterAll names).contains name = true) : table.contains name = true := by
  obtain h | ⟨other, hother, hkey⟩ := Table.contains_or_of_contains_enterAll h
  · exact h
  · rw [Table.contains_congr table hkey]
    exact hnames other hother

/-- Actions that load names of the table only. -/
theorem declares_of_contains (hnames : ∀ name ∈ names, table.contains name = true)
    (hloads : ∀ text, .compute (.load text) ∈ as → ∃ name ∈ names, text = .text name) :
    Declares table names as := by
  constructor
  · intro before text after he
    obtain ⟨name, hname, rfl⟩ := hloads text (by simp [he])
    exact ⟨name, rfl, .inl (hnames name hname)⟩
  · intro name hname
    exact .inl (contains_of_enterAll hnames hname)

/-- An assignment may load its target, besides names of the table. -/
theorem declares_assignActions {line : Value} {target expression : Node} {own : Text}
    (ht : target.text = .text own)
    (hnames : ∀ name ∈ names, (table.enter own).contains name = true)
    (hloads : ∀ text, .load text ∈ expression.code → ∃ name ∈ names, text = .text name) :
    Declares table (own :: names) (assignActions line target expression) := by
  have hcalled {name : Text} (h : (table.enter own).contains name = true) :
      table.contains name = true ∨ target.isCalled name = true :=
    (Table.contains_enter_iff.1 h).imp id fun hkey => by simp [Node.isCalled, ht, hkey]
  constructor
  · intro before text after he
    let check : Instruction := .check .real (.assignment target.text line)
    have hsplit : (expression.code ++ [check]).map .compute ++ [.store target] =
        before ++ .compute (.load text) :: after := by
      simpa [assignActions, computing, check] using he
    obtain ⟨rest, hrest, rfl⟩ | ⟨mid, -, hmid⟩ := eq_or_eq_of_append hsplit
    · obtain ⟨c, d, hcode, -, hd⟩ := List.map_eq_append_iff.1 hrest
      obtain ⟨i, e, rfl, hi, rfl⟩ := List.map_eq_cons_iff.1 hd
      obtain rfl := Action.compute.inj hi
      have hload : .load text ∈ expression.code := by
        have hmem : .load text ∈ expression.code ++ [check] := by
          rw [hcode]
          simp
        simpa [check] using hmem
      obtain ⟨name, hname, rfl⟩ := hloads text hload
      refine ⟨name, rfl, (hcalled (hnames name hname)).imp id fun h => .inr ?_⟩
      exact ⟨e, target, [], rfl, h⟩
    · cases mid <;> simp at hmid
  · intro name hname
    refine (hcalled (contains_of_enterAll hnames hname)).imp id fun h => ?_
    exact ⟨target, by simp [assignActions], h⟩

/-! ## Statements -/

theorem load_mem_of_mem_computing {n : Node} {text : Value}
    (h : .compute (.load text) ∈ computing n) : .load text ∈ n.code := by
  obtain ⟨i, hi, he⟩ := List.mem_map.1 h
  exact Action.compute.inj he ▸ hi

theorem exists_of_mem_writeActions {ns : List Node} {text : Value}
    (h : .compute (.load text) ∈ writeActions ns) : ∃ n ∈ ns, .load text ∈ n.code := by
  rcases ns with _ | ⟨argument, _ | ⟨width, _ | ⟨places, rest⟩⟩⟩
  · simp [writeActions] at h
  · have hcase : .compute (.load text) ∈ computing argument := by simpa [writeActions] using h
    exact ⟨argument, by simp, load_mem_of_mem_computing hcase⟩
  · obtain h | h : .compute (.load text) ∈ computing width ∨
        .compute (.load text) ∈ computing argument := by simpa [writeActions] using h
    · exact ⟨width, by simp, load_mem_of_mem_computing h⟩
    · exact ⟨argument, by simp, load_mem_of_mem_computing h⟩
  · obtain h | h | h : .compute (.load text) ∈ computing width ∨
        .compute (.load text) ∈ computing places ∨
        .compute (.load text) ∈ computing argument := by simpa [writeActions] using h
    · exact ⟨width, by simp, load_mem_of_mem_computing h⟩
    · exact ⟨places, by simp, load_mem_of_mem_computing h⟩
    · exact ⟨argument, by simp, load_mem_of_mem_computing h⟩

theorem declares_writeActions {ns : List Node} (hns : AllNodes (·.kind ≠ .assign) ns)
    (hnameable : AllNameable ns) (h : table.undeclared (mentionsAll false ns) = []) :
    Declares table (namesOf ns) (writeActions ns) := by
  refine declares_of_contains (Node.contains_of_undeclared hns h) fun text hload => ?_
  obtain ⟨n, hn, hload⟩ := exists_of_mem_writeActions hload
  exact Node.exists_name_of_load hnameable hn hload

/-- Actions without a load go with no names. -/
theorem Declares.cons (h : Declares table names as) {a : Action}
    (ha : ∀ text, a ≠ .compute (.load text)) : Declares table names (a :: as) := by
  have hfirst : Declares table [] [a] :=
    declares_of_contains (by simp) fun text ht => absurd (List.mem_singleton.1 ht).symm (ha text)
  exact hfirst.append h

theorem declares_actionsAll {ns : List Node}
    (h : ∀ n ∈ ns, ∀ table : Table, table.undeclared (mentionsAll false [n]) = [] →
      Declares table (namesOf [n]) n.actions)
    (hu : table.undeclared (mentionsAll false ns) = []) :
    Declares table (namesOf ns) (Node.actionsAll ns) := by
  induction ns generalizing table with
  | nil =>
    rw [Node.actionsAll]
    exact declares_of_contains (by simp) (by simp)
  | cons n ns ih =>
    have hsplit : mentionsAll false (n :: ns) = mentionsAll false [n] ++ mentionsAll false ns :=
      Node.mentionsAll_append [n] ns
    rw [hsplit, Table.undeclared_append, Node.map_name_mentionsAll, List.append_eq_nil_iff] at hu
    have hnames : namesOf (n :: ns) = namesOf [n] ++ namesOf ns := Node.namesOf_append [n] ns
    rw [Node.actionsAll, hnames]
    exact (h n (by simp) table hu.1).append (ih (fun k hk => h k (by simp [hk])) hu.2)

/-- The target of an assignment is mentioned first. -/
theorem declares_assign {line text literal : Value} {target expression : Node}
    (htarget : target.kind = .var) (hshape : AllNodes Node.WellShaped [target])
    (hplain : AllNodes (·.kind ≠ .assign) [expression])
    (hnameable : AllNameable [target, expression])
    (h : table.undeclared
      (mentionsAll false [⟨.assign, line, text, literal, [target, expression]⟩]) = []) :
    Declares table (namesOf [⟨.assign, line, text, literal, [target, expression]⟩])
      (assignActions line target expression) := by
  obtain ⟨hnamed, -, hexpression⟩ := Node.allNameable_cons.1 hnameable
  obtain ⟨kind, targetLine, targetText, targetLiteral, children⟩ := target
  obtain rfl : kind = .var := htarget
  obtain ⟨own, rfl⟩ : ∃ own, targetText = .text own := hnamed
  obtain rfl : children = [] := by
    cases (Node.allNodes_cons.1 hshape).1
    rfl
  have hu : (table.enter own).undeclared (mentionsAll false [expression]) = [] := by
    simpa [Table.undeclared, Node.ownNames, Node.assignsFirst] using h
  have hnames : namesOf [⟨.assign, line, text, literal,
      [⟨.var, targetLine, .text own, targetLiteral, []⟩, expression]⟩] =
      own :: namesOf [expression] := by
    simp [Node.ownNames]
  rw [hnames]
  exact declares_assignActions rfl (Node.contains_of_undeclared hplain hu) fun _ hload =>
    Node.exists_name_of_load hexpression (by simp) hload

/-- There is no assignment in expressions and quoted texts. -/
theorem allNodes_ne_assign {ns : List Node} (h : AllNodes Node.WellShaped ns)
    (hk : ∀ n ∈ ns, n.kind.isExpression = true ∨ n.kind = .string) :
    AllNodes (·.kind ≠ .assign) ns := by
  refine Parsing.allNodes_of_plain (fun n hn he => ?_) h hk
  rw [he] at hn
  simp [Kind.isExpression] at hn

theorem declares_writing {kind : Kind} {line text literal : Value} {argument : Node}
    {field : List Node} (hkind : kind = .write ∨ kind = .writeln) (ha : Node.IsArgument argument)
    (hf : Node.IsField field) (hshape : AllNodes Node.WellShaped (argument :: field))
    (hnameable : AllNameable (argument :: field))
    (h : table.undeclared
      (mentionsAll false [⟨kind, line, text, literal, argument :: field⟩]) = []) :
    Declares table (namesOf [⟨kind, line, text, literal, argument :: field⟩])
      (writeActions (argument :: field)) := by
  have hplain : AllNodes (·.kind ≠ .assign) (argument :: field) := by
    refine allNodes_ne_assign hshape fun n hn => ?_
    obtain rfl | hn := List.mem_cons.1 hn
    · exact ha.imp (fun he => by rw [he]; rfl) id
    · exact .inl (by rw [hf.2 n hn]; rfl)
  have hu : table.undeclared (mentionsAll false (argument :: field)) = [] := by
    obtain rfl | rfl := hkind <;> simpa [Node.ownNames, Node.assignsFirst] using h
  have hnames : namesOf [⟨kind, line, text, literal, argument :: field⟩] =
      namesOf (argument :: field) := by
    obtain rfl | rfl := hkind <;> simp [Node.ownNames]
  rw [hnames]
  exact declares_writeActions hplain hnameable hu

/-- **A straight-line statement without undeclared names** loads what is in the table or was stored,
and all that it adds to the table is stored. -/
theorem declares_actions {n : Node} (hshape : AllNodes Node.WellShaped [n])
    (hstraight : n.IsStraightLine) (hnameable : AllNameable [n])
    (hn : n.kind.isStatement = true) (h : table.undeclared (mentionsAll false [n]) = []) :
    Declares table (namesOf [n]) n.actions := by
  induction n using Node.induct generalizing table with
  | h n ih =>
    obtain ⟨hself, hchildren, -⟩ := Node.allNodes_cons.1 hshape
    obtain ⟨-, hnamed, -⟩ := Node.allNameable_cons.1 hnameable
    obtain ⟨hloop, hcond, hselect⟩ := hstraight n Node.self_mem_walk
    obtain ⟨kind, line, text, literal, children⟩ := n
    cases hself with
    | compound hs =>
      have hu : table.undeclared (mentionsAll false children) = [] := by
        simpa [Node.ownNames, Node.assignsFirst] using h
      have hnames : namesOf [⟨.compound, line, text, literal, children⟩] = namesOf children := by
        simp [Node.ownNames]
      rw [hnames, Node.actions]
      -- The table grows from one statement to the next, so the hypothesis is for any table.
      refine (declares_actionsAll (fun c hc table hu => ?_) hu).cons (by simp)
      exact ih c hc (hchildren.of_mem hc) (fun k hk => hstraight k (Node.mem_walk_of_child hc hk))
        (Node.AllNodes.of_mem hnamed hc) (hs c hc) hu
    | assign ht hv =>
      rw [Node.actions]
      refine (declares_assign ht (hchildren.of_mem (by simp)) ?_ hnamed h).cons (by simp)
      exact allNodes_ne_assign (hchildren.of_mem (by simp)) (by simp [hv])
    | write ha hf =>
      rw [Node.actions]
      exact (declares_writing (.inl rfl) ha hf hchildren hnamed h).cons (by simp)
    | writelnBare =>
      rw [Node.actions]
      exact declares_of_contains (by simp [Node.ownNames]) (by simp)
    | writeln ha hf =>
      have hlast (table : Table) : Declares table [] [.newline] :=
        declares_of_contains (by simp) (by simp)
      have hall := (declares_writing (.inr rfl) ha hf hchildren hnamed h).append (hlast _)
      rw [List.append_nil] at hall
      rw [Node.actions]
      exact hall.cons (by simp)
    | loop => exact absurd rfl hloop
    | ifThen | ifThenElse => exact absurd rfl hcond
    | select => exact absurd rfl hselect
    | _ => simp [Kind.isStatement] at hn

/-! ## Programs -/

open Parsing (State parse? programNode headerMentions)

/-- A program without undeclared names loads what has its own name or was stored. -/
theorem covered_programNode {line : Int} {header : Option Token} {body : Node}
    (hshape : AllNodes Node.WellShaped [programNode line header body])
    (hstraight : (programNode line header body).IsStraightLine)
    (hnameable : AllNameable [programNode line header body])
    (hu : (programNode line header body).undeclared {} = []) :
    ∀ before text after,
      (programNode line header body).actions = before ++ .compute (.load text) :: after →
      ∃ name, text = .text name ∧ (Stores before name ∨
        (programNode line header body).isCalled name = true ∨ StoresNext after name) := by
  obtain ⟨hself, hchildren, -⟩ := Node.allNodes_cons.1 hshape
  obtain ⟨-, hnamed, -⟩ := Node.allNameable_cons.1 hnameable
  have hbody : body.kind = .compound := by
    cases hself with
    | program hb => exact hb
  -- The header comes first: its name is entered before the body is read.
  rw [Parsing.undeclared_programNode, Table.undeclared_append, List.append_eq_nil_iff] at hu
  have hdeclares := declares_actions hchildren
    (fun k hk => hstraight k (Node.mem_walk_of_child (by simp [programNode]) hk)) hnamed
    (by rw [hbody]; rfl) hu.2
  intro before text after he
  obtain ⟨name, hname, hc | hs | hs⟩ := hdeclares.covered before text after he
  · refine ⟨name, hname, .inr (.inl ?_)⟩
    -- The table held nothing but the name of the program when the body was begun.
    obtain hc | ⟨own, hown, hkey⟩ := Table.contains_or_of_contains_enterAll hc
    · cases hc
    · cases header with
      | none => simp [headerMentions] at hown
      | some token =>
        obtain rfl : own = (token.text : Text) := by
          simpa [headerMentions, Mention.ofToken] using hown
        simp [programNode, Node.isCalled, hkey]
  · exact ⟨name, hname, .inl hs⟩
  · exact ⟨name, hname, .inr (.inr hs)⟩

/-- **Reads come after stores.** Let a straight-line program have no diagnostics in strict mode,
from an empty table. Its run performs its actions one after the other, up to the first that stops
it. Wherever a variable is loaded, that variable was stored before, or has the name of the program,
or is the one in which the value of the expression is to be stored. -/
theorem reads_after_stores {source : String} {n : Node} {t : State}
    (h : parse? (.ofSource source) {} true = some (n, t)) (hclean : t.errorCount = 0)
    (hn : n.IsStraightLine) :
    (∀ fuel m, runActions n.actions [] m = .ofResult (fun _ => []) [] (run fuel n m)) ∧
    ∀ before text after, n.actions = before ++ .compute (.load text) :: after →
      ∃ name, text = .text name ∧
        (Stores before name ∨ n.isCalled name = true ∨ StoresNext after name) := by
  have hreports : t.reports = [] := by
    rw [(Parsing.counted_of_parse? h).1] at hclean
    exact List.length_eq_zero_iff.1 hclean
  have hundeclared : n.undeclared {} = [] := by
    have hnamings := Parsing.namings_of_strict h (Parsing.quiet_ofSource source)
      (by simp [State.HasSyntaxError, hreports])
    rw [State.namings, hreports] at hnamings
    exact List.map_eq_nil_iff.1 hnamings.symm
  obtain ⟨s, hs, hp⟩ := Parsing.parse?_eq_some h
  obtain ⟨-, hb⟩ := (Parsing.meets_program s).of_ok hp
  have hshape := hb.wellShaped
  obtain ⟨-, hnameable⟩ := hb.enters (State.readFrom_start hs) (Parsing.worded_ofSource source)
  obtain ⟨-, -⟩ := hb
  exact ⟨runActions_actions rfl hshape.walk hn,
    covered_programNode hshape hn hnameable hundeclared⟩

/-- Variables are read in other letter case, in a compound and with a field. -/
theorem reads_after_stores_compound :
    ∃ n t, parse? (.ofSource "PROGRAM p; BEGIN a := 1; BEGIN b := A + 2 END; WRITELN(B:4:2) END.")
        {} true = some (n, t) ∧ t.errorCount = 0 ∧ n.IsStraightLine ∧
      (∀ fuel m, runActions n.actions [] m = .ofResult (fun _ => []) [] (run fuel n m)) ∧
      ∀ before text after, n.actions = before ++ .compute (.load text) :: after →
        ∃ name, text = .text name ∧
          (Stores before name ∨ n.isCalled name = true ∨ StoresNext after name) := by
  have hparse : (parse?
      (.ofSource "PROGRAM p; BEGIN a := 1; BEGIN b := A + 2 END; WRITELN(B:4:2) END.") {} true).any
        (fun x => x.2.errorCount == 0 && decide x.1.IsStraightLine) = true := by
    decide +kernel
  obtain ⟨s, n, t, hs, hp, hcheck⟩ := Parsing.exists_of_parse?_any hparse
  obtain ⟨hclean, hstraight⟩ := by simpa using hcheck
  have hn := Parsing.parse?_of_program hs hp
  exact ⟨n, t, hn, hclean, hstraight, reads_after_stores hn hclean hstraight⟩

/-- The tree of a program in which a variable is read where it is assigned first. -/
def selfAssignment : Node :=
  let x : Node := ⟨.var, .int 1, .text "x", .null, []⟩
  ⟨.program, .int 1, .text "p", .null,
    [⟨.compound, .int 1, .null, .null, [⟨.assign, .int 1, .null, .null, [x, x]⟩]⟩]⟩

/-- Not every variable that is read was stored before. -/
theorem reads_not_after_stores :
    ¬ ∀ (source : String) (n : Node) (t : State),
      parse? (.ofSource source) {} true = some (n, t) → t.errorCount = 0 → n.IsStraightLine →
      ∀ before text after, n.actions = before ++ .compute (.load text) :: after →
        ∃ name, text = .text name ∧ Stores before name := by
  intro h
  have hparse : (parse? (.ofSource "PROGRAM p; BEGIN x := x END.") {} true).any
      (fun x => x.2.errorCount == 0 && decide (x.1 = selfAssignment)) = true := by
    decide +kernel
  obtain ⟨s, n, t, hs, hp, hcheck⟩ := Parsing.exists_of_parse?_any hparse
  obtain ⟨hclean, rfl⟩ := by simpa using hcheck
  obtain ⟨name, -, target, hstore, -⟩ := h _ _ t (Parsing.parse?_of_program hs hp) hclean
    (by decide +kernel) [.enter (.int 1), .enter (.int 1)] (.text "x") _ rfl
  simp at hstore

end Execution

end MiniPascal
