import MiniPascal.Tree.Basic

/-!
# Trees and the names in them

Proofs about trees go by induction from the children of a node to the node, or from all nodes below
it. The names in a tree are those of its variables, and that of a program which has one. They are
listed in the order in which they stand in the text, each node before its children, alone or with
the places where they are mentioned.
-/

namespace MiniPascal.Node

/-! ## Induction over trees -/

/-- Induction over a tree, from the children to their parents. -/
theorem induct {P : Node → Prop} (h : ∀ n : Node, (∀ c ∈ n.children, P c) → P n) :
    ∀ n : Node, P n
  | ⟨kind, line, text, literal, children⟩ =>
    h ⟨kind, line, text, literal, children⟩ fun c hc =>
      have : sizeOf c < sizeOf children := List.sizeOf_lt_of_mem hc
      induct h c
termination_by n => sizeOf n
decreasing_by
  simp only [Node.mk.sizeOf_spec]
  omega

theorem mem_walkAll {k : Node} {ns : List Node} :
    k ∈ walkAll ns ↔ ∃ n ∈ ns, k ∈ n.walk := by
  induction ns with
  | nil => simp [walkAll]
  | cons n ns ih => simp [walkAll, ih]

theorem mem_walk {k n : Node} : k ∈ n.walk ↔ k = n ∨ ∃ c ∈ n.children, k ∈ c.walk := by
  obtain ⟨kind, line, text, literal, children⟩ := n
  rw [walk, List.mem_cons, mem_walkAll]

theorem self_mem_walk {n : Node} : n ∈ n.walk := mem_walk.2 (.inl rfl)

theorem mem_walk_of_child {c k n : Node} (hc : c ∈ n.children) (hk : k ∈ c.walk) : k ∈ n.walk :=
  mem_walk.2 (.inr ⟨c, hc, hk⟩)

theorem mem_walkAll_self {n : Node} {ns : List Node} (h : n ∈ ns) : n ∈ walkAll ns :=
  mem_walkAll.2 ⟨n, h, self_mem_walk⟩

theorem mem_walk_trans {j k n : Node} (hj : j ∈ k.walk) (hk : k ∈ n.walk) : j ∈ n.walk := by
  induction n using induct with
  | h n ih =>
    obtain rfl | ⟨c, hc, hk⟩ := mem_walk.1 hk
    · exact hj
    · exact mem_walk_of_child hc (ih c hc hk)

/-- Induction over a tree, from all nodes below one to that one. -/
theorem inductBelow {P : Node → Prop}
    (h : ∀ n : Node, (∀ k ∈ walkAll n.children, P k) → P n) (n : Node) : P n := by
  have hall : ∀ k ∈ n.walk, P k := by
    induction n using induct with
    | h n ih =>
      intro k hk
      obtain rfl | ⟨c, hc, hk⟩ := mem_walk.1 hk
      · refine h k fun j hj => ?_
        obtain ⟨c, hc, hj⟩ := mem_walkAll.1 hj
        exact ih c hc j hj
      · exact ih c hc k hk
  exact hall n self_mem_walk

/-! ## Properties of all nodes -/

/-- A property of all nodes of trees. -/
def AllNodes (P : Node → Prop) (ns : List Node) : Prop := ∀ k ∈ walkAll ns, P k

section AllNodes

variable {P : Node → Prop} {n : Node} {ns ms : List Node}

@[simp] theorem allNodes_nil : AllNodes P [] := by simp [AllNodes, walkAll]

@[simp] theorem allNodes_cons :
    AllNodes P (n :: ns) ↔ P n ∧ AllNodes P n.children ∧ AllNodes P ns := by
  obtain ⟨kind, line, text, literal, children⟩ := n
  simp only [AllNodes, walkAll, walk, List.cons_append, List.mem_cons, List.mem_append, or_imp,
    forall_and, forall_eq]

@[simp] theorem allNodes_append : AllNodes P (ns ++ ms) ↔ AllNodes P ns ∧ AllNodes P ms := by
  induction ns with
  | nil => simp
  | cons n ns ih => simp [ih, and_assoc]

theorem AllNodes.cons (h : AllNodes P [n]) (hs : AllNodes P ns) : AllNodes P (n :: ns) :=
  allNodes_append.2 ⟨h, hs⟩

theorem AllNodes.node (h : P n) (hs : AllNodes P n.children) : AllNodes P [n] :=
  allNodes_cons.2 ⟨h, hs, allNodes_nil⟩

theorem AllNodes.of_mem (h : AllNodes P ns) (hn : n ∈ ns) : AllNodes P [n] := by
  intro k hk
  obtain ⟨m, hm, hwalk⟩ := mem_walkAll.1 hk
  obtain rfl := List.mem_singleton.1 hm
  exact h k (mem_walkAll.2 ⟨m, hn, hwalk⟩)

theorem AllNodes.walk (h : AllNodes P [n]) : ∀ k ∈ n.walk, P k :=
  fun k hk => h k (mem_walkAll.2 ⟨n, by simp, hk⟩)

end AllNodes

/-! ## The names in a tree -/

/-- The name that a node brings. -/
def ownNames (n : Node) : List Text :=
  match n.kind, n.text with
  | .var, .text name => [name]
  | .program, .text name => if name.isEmpty then [] else [name]
  | _, _ => []

/-- The names in trees, each node before its children. -/
def namesOf (ns : List Node) : List Text := (walkAll ns).flatMap ownNames

@[simp] theorem namesOf_nil : namesOf [] = [] := by rw [namesOf, walkAll, List.flatMap_nil]

@[simp] theorem namesOf_cons (n : Node) (ns : List Node) :
    namesOf (n :: ns) = n.ownNames ++ namesOf n.children ++ namesOf ns := by
  obtain ⟨kind, line, text, literal, children⟩ := n
  simp only [namesOf, walkAll, walk, List.flatMap_append, List.flatMap_cons]

@[simp] theorem namesOf_append (ns ms : List Node) :
    namesOf (ns ++ ms) = namesOf ns ++ namesOf ms := by
  induction ns with
  | nil => simp
  | cons n ns ih => simp [ih]

/-- A name where it stands in a tree: the line and the spelling there, and whether it is that of the
variable to which an assignment is made, which is the first child. -/
structure Mention where
  line : Value
  name : Text
  assigned : Bool

/-- Whether the first child of nodes of a kind is assigned to. -/
def assignsFirst : Kind → Bool
  | .assign => true
  | _ => false

mutual

/-- The mentions of names in a tree, each node before its children; `assigned` tells whether the
tree is assigned to. -/
def mentions (assigned : Bool) : Node → List Mention
  | ⟨kind, line, text, literal, children⟩ =>
    (ownNames ⟨kind, line, text, literal, children⟩).map (fun name => ⟨line, name, assigned⟩) ++
      mentionsAll (assignsFirst kind) children

/-- The mentions in several trees; `assigned` tells whether the first one is assigned to. -/
def mentionsAll (assigned : Bool) : List Node → List Mention
  | [] => []
  | n :: rest => n.mentions assigned ++ mentionsAll false rest

end

@[simp] theorem mentionsAll_nil (assigned : Bool) : mentionsAll assigned [] = [] := by
  rw [mentionsAll]

@[simp] theorem mentionsAll_cons (assigned : Bool) (n : Node) (ns : List Node) :
    mentionsAll assigned (n :: ns) =
      n.ownNames.map (fun name => ⟨n.line, name, assigned⟩) ++
        mentionsAll (assignsFirst n.kind) n.children ++ mentionsAll false ns := by
  obtain ⟨kind, line, text, literal, children⟩ := n
  rw [mentionsAll, mentions]

@[simp] theorem mentionsAll_append (ns ms : List Node) :
    mentionsAll false (ns ++ ms) = mentionsAll false ns ++ mentionsAll false ms := by
  induction ns with
  | nil => simp
  | cons n ns ih => simp [ih]

/-- The mentions of names are those in the nodes of the trees, each node before its children. -/
theorem map_mentions (n : Node) (assigned : Bool) :
    (n.mentions assigned).map (fun m => (m.line, m.name)) =
      n.walk.flatMap fun k => k.ownNames.map (k.line, ·) := by
  induction n using induct generalizing assigned with
  | h n ih =>
    obtain ⟨kind, line, text, literal, children⟩ := n
    have hchildren : ∀ ns : List Node, (∀ c ∈ ns, c ∈ children) → ∀ first,
        (mentionsAll first ns).map (fun m => (m.line, m.name)) =
          (walkAll ns).flatMap fun k => k.ownNames.map (k.line, ·) := by
      intro ns
      induction ns with
      | nil => intro _ first; rw [mentionsAll, walkAll]; rfl
      | cons c ns ihs =>
        intro hmem first
        rw [mentionsAll, walkAll, List.map_append, List.flatMap_append,
          ih c (hmem c (by simp)), ihs fun k hk => hmem k (by simp [hk])]
    rw [mentions, walk, List.map_append, List.flatMap_cons, hchildren children fun _ hc => hc]
    simp

/-- The mentions of names bring the names. -/
theorem map_name_mentionsAll (assigned : Bool) (ns : List Node) :
    (mentionsAll assigned ns).map (·.name) = namesOf ns := by
  induction ns generalizing assigned with
  | nil => simp
  | cons n ns ih =>
    have hn : (n.mentions assigned).map (·.name) = n.walk.flatMap ownNames := by
      have h := congrArg (List.map Prod.snd) (map_mentions n assigned)
      simpa [List.map_flatMap, Function.comp_def] using h
    rw [mentionsAll, List.map_append, hn, ih, namesOf, namesOf, walkAll, List.flatMap_append]

/-- Whether nodes of a kind bring a name. -/
def bringsName : Kind → Bool
  | .var | .program => true
  | _ => false

theorem ownNames_of_plain {n : Node} (h : bringsName n.kind = false) : n.ownNames = [] := by
  obtain ⟨kind, line, text, literal, children⟩ := n
  cases kind with
  | var | program => cases h
  | _ => rfl

/-- A property of all names of the variables in a tree. -/
def Names (P : Text → Prop) (n : Node) : Prop :=
  ∀ k ∈ n.walk, k.kind = .var → ∀ name, k.text = .text name → P name

theorem names_of_namesOf {P : Text → Prop} {n : Node} (h : ∀ name ∈ namesOf [n], P name) :
    n.Names P := by
  intro k hk hkind name htext
  refine h name (List.mem_flatMap.2 ⟨k, mem_walkAll.2 ⟨n, by simp, hk⟩, ?_⟩)
  simp [ownNames, hkind, htext]

/-- A node whose name, if its kind brings one, is a text. A program need not have one. -/
def Nameable (n : Node) : Prop :=
  match n.kind with
  | .var => ∃ name, n.text = .text name
  | .program => n.text = .null ∨ ∃ name, n.text = .text name
  | _ => True

theorem nameable_of_plain {n : Node} (h : bringsName n.kind = false) : n.Nameable := by
  obtain ⟨kind, line, text, literal, children⟩ := n
  cases kind with
  | var | program => cases h
  | _ => trivial

/-- Trees in which all names are texts. -/
def AllNameable (ns : List Node) : Prop := ∀ k ∈ walkAll ns, k.Nameable

@[simp] theorem allNameable_nil : AllNameable [] := allNodes_nil

@[simp] theorem allNameable_cons {n : Node} {ns : List Node} :
    AllNameable (n :: ns) ↔ n.Nameable ∧ AllNameable n.children ∧ AllNameable ns :=
  allNodes_cons

@[simp] theorem allNameable_append {ns ms : List Node} :
    AllNameable (ns ++ ms) ↔ AllNameable ns ∧ AllNameable ms :=
  allNodes_append

theorem AllNameable.cons {n : Node} {ns : List Node} (h : AllNameable [n]) (hs : AllNameable ns) :
    AllNameable (n :: ns) :=
  allNameable_append.2 ⟨h, hs⟩

end MiniPascal.Node
