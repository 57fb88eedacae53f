import MiniPascal.Proofs.Tree.Likeness
import MiniPascal.Proofs.Tree.Shape

/-!
# Places in a tree

A place is a path down a tree: at each node, which child comes next. Nodes that look alike can stand
at several places of one tree, and only the place tells them apart.

**The innermost statement** around a place (`Node.enclosing?`) is found on the path to it.

**A tree that knows its places** (`Node.placed`) has at each node the place of that node for its
line, and for its text if it is an arithmetic operator. Nothing else is changed, so it is like the
tree that it was made of (`resembles_placed`), and what is told about its lines and operators tells
places.
-/

namespace MiniPascal

/-- A path from the root of a tree: the index of a child at each node. -/
abbrev Place := List Nat

/-- A place as a value. -/
def Place.value (p : Place) : Value := .list (p.map fun i : Nat => .int i)

theorem Place.value_injective {p q : Place} (h : p.value = q.value) : p = q := by
  have hinj : Function.Injective fun i : Nat => Value.int i := fun i j hij =>
    Int.ofNat_inj.1 (Value.int.inj hij)
  exact List.map_injective_iff.2 hinj (Value.list.inj h)

namespace Node

/-- The node at a place. -/
def at? : Node → Place → Option Node
  | n, [] => some n
  | n, i :: p =>
    match n.children[i]? with
    | none => none
    | some c => c.at? p

/-- The innermost statement on the path to a place, with its own place. -/
def enclosing? : Node → Place → Option (Place × Node)
  | n, [] => if n.kind.isStatement then some ([], n) else none
  | n, i :: p =>
    match n.children[i]? with
    | none => none
    | some c =>
      match c.enclosing? p with
      | some (q, s) => some (i :: q, s)
      | none => if n.kind.isStatement then some ([], n) else none

section Places

variable {n c : Node} {i : Nat} {p q : Place}

@[simp] theorem at?_nil (n : Node) : n.at? [] = some n := by rw [at?]

theorem at?_cons (h : n.children[i]? = some c) : n.at? (i :: p) = c.at? p := by
  rw [at?, h]

theorem at?_append (h : n.at? p = some c) : n.at? (p ++ q) = c.at? q := by
  induction p generalizing n with
  | nil =>
    obtain rfl := Option.some.inj ((at?_nil n).symm.trans h)
    rfl
  | cons i p ih =>
    cases hc : n.children[i]? with
    | none => rw [at?, hc] at h; cases h
    | some d =>
      rw [at?_cons hc] at h
      rw [List.cons_append, at?_cons hc, ih h]

theorem mem_walk_of_at? (h : n.at? p = some c) : c ∈ n.walk := by
  induction p generalizing n with
  | nil =>
    obtain rfl := Option.some.inj ((at?_nil n).symm.trans h)
    exact self_mem_walk
  | cons i p ih =>
    cases hd : n.children[i]? with
    | none => rw [at?, hd] at h; cases h
    | some d =>
      rw [at?_cons hd] at h
      exact mem_walk_of_child (List.mem_of_getElem? hd) (ih h)

theorem enclosing?_inside {s : Node} (hc : n.children[i]? = some c)
    (h : c.enclosing? p = some (q, s)) : n.enclosing? (i :: p) = some (i :: q, s) := by
  rw [enclosing?, hc]
  simp only [h]

theorem enclosing?_self (hn : n.kind.isStatement = true) (hc : n.children[i]? = some c)
    (h : c.enclosing? p = none) : n.enclosing? (i :: p) = some ([], n) := by
  rw [enclosing?, hc]
  simp only [h, hn, if_true]

/-- The innermost statement stands at its place. -/
theorem at?_of_enclosing? {s : Node} (h : n.enclosing? p = some (q, s)) :
    n.at? q = some s ∧ s.kind.isStatement = true := by
  -- A node encloses its place itself where no child does, and also at the end of the place.
  have self : ∀ {m s : Node} {q : Place},
      (if m.kind.isStatement then some ([], m) else none) = some (q, s) →
      m.at? q = some s ∧ s.kind.isStatement = true := by
    intro m s q hm
    by_cases hk : m.kind.isStatement = true
    · rw [if_pos hk] at hm
      obtain ⟨rfl, rfl⟩ := Prod.mk.inj (Option.some.inj hm)
      exact ⟨at?_nil m, hk⟩
    · rw [if_neg hk] at hm
      cases hm
  induction p generalizing n q with
  | nil =>
    rw [enclosing?] at h
    exact self h
  | cons i p ih =>
    cases hc : n.children[i]? with
    | none => rw [enclosing?, hc] at h; cases h
    | some c =>
      cases hd : c.enclosing? p with
      | none =>
        rw [enclosing?, hc] at h
        simp only [hd] at h
        exact self h
      | some x =>
        obtain ⟨r, t⟩ := x
        rw [enclosing?_inside hc hd] at h
        obtain ⟨rfl, rfl⟩ := Prod.mk.inj (Option.some.inj h)
        obtain ⟨hat, hk⟩ := ih hd
        exact ⟨(at?_cons hc).trans hat, hk⟩

theorem enclosing?_none (hn : n.kind.isStatement = false) (hc : n.children[i]? = some c)
    (h : c.enclosing? p = none) : n.enclosing? (i :: p) = none := by
  rw [enclosing?, hc]
  simp [h, hn]

end Places

/-! ## Trees that know their places -/

/-- The text of a node at a place: the place itself for an arithmetic operator. -/
def placedText (p : Place) (kind : Kind) (text : Value) : Value :=
  match kind with
  | .arithmetic _ => p.value
  | _ => text

mutual

/-- The tree, which stands at a place of another one, with the places of its nodes for their lines
and for the texts of arithmetic operators. -/
def placed (p : Place) : Node → Node
  | ⟨kind, _, text, literal, children⟩ =>
    ⟨kind, p.value, placedText p kind text, literal, placedAll p 0 children⟩

/-- The children of a node from the given one on. -/
def placedAll (p : Place) (i : Nat) : List Node → List Node
  | [] => []
  | n :: rest => n.placed (p ++ [i]) :: placedAll p (i + 1) rest

end

section Placed

variable (n : Node) (r p : Place)

@[simp] theorem kind_placed : (n.placed r).kind = n.kind := by
  cases n; rw [placed]

@[simp] theorem line_placed : (n.placed r).line = r.value := by
  cases n; rw [placed]

theorem text_placed_of_arithmetic {n : Node} {r : Place} {op : Arithmetic}
    (h : n.kind = .arithmetic op) : (n.placed r).text = r.value := by
  obtain ⟨kind, line, text, literal, children⟩ := n
  obtain rfl : kind = .arithmetic op := h
  rw [placed]
  rfl

theorem children_placed : (n.placed r).children = placedAll r 0 n.children := by
  cases n; rw [placed]

theorem getElem?_placedAll (ns : List Node) (i j : Nat) :
    (placedAll r i ns)[j]? = ns[j]?.map (placed (r ++ [i + j])) := by
  induction ns generalizing i j with
  | nil => rw [placedAll]; rfl
  | cons n ns ih =>
    rw [placedAll]
    cases j with
    | zero => simp
    | succ j =>
      rw [List.getElem?_cons_succ, List.getElem?_cons_succ, ih, Nat.add_right_comm, Nat.add_assoc]

theorem getElem?_children_placed (i : Nat) :
    (n.placed r).children[i]? = n.children[i]?.map (placed (r ++ [i])) := by
  rw [children_placed, getElem?_placedAll, Nat.zero_add]

theorem length_children_placed : (n.placed r).children.length = n.children.length := by
  have h : ∀ (ns : List Node) (i : Nat), (placedAll r i ns).length = ns.length := by
    intro ns
    induction ns with
    | nil => intro i; rw [placedAll]
    | cons n ns ih => intro i; rw [placedAll, List.length_cons, List.length_cons, ih]
  rw [children_placed, h]

/-- The same node stands at the same place, and knows it. -/
theorem at?_placed : (n.placed r).at? p = (n.at? p).map (placed (r ++ p)) := by
  induction p generalizing n r with
  | nil => simp
  | cons i p ih =>
    have hi := getElem?_children_placed n r i
    cases hc : n.children[i]? with
    | none =>
      rw [hc] at hi
      rw [at?, hi, at?, hc]
      rfl
    | some c =>
      rw [hc] at hi
      rw [at?_cons hi, at?_cons hc, ih, List.append_assoc, List.singleton_append]

theorem enclosing?_placed :
    (n.placed r).enclosing? p = (n.enclosing? p).map fun x => (x.1, x.2.placed (r ++ x.1)) := by
  induction p generalizing n r with
  | nil =>
    rw [enclosing?, enclosing?, kind_placed]
    split <;> simp
  | cons i p ih =>
    have hi := getElem?_children_placed n r i
    rw [enclosing?, enclosing?, hi]
    cases n.children[i]? with
    | none => rfl
    | some c =>
      simp only [Option.map_some, ih, kind_placed]
      cases c.enclosing? p with
      | none => simp only [Option.map_none]; split <;> simp
      | some x => simp

end Placed

/-- Lines become places, and texts become places or stay as they are. -/
def placing (root : Node) : Likeness where
  line v w := ∃ p k, root.at? p = some k ∧ k.line = v ∧ w = p.value
  text v w := (∃ p k, root.at? p = some k ∧ k.text = v ∧ w = p.value) ∨ v = w
  name := Eq

/-- A tree is like the one that knows its places. -/
theorem resembles_placed {root n : Node} {r : Place} (h : root.at? r = some n) :
    n.Resembles root.placing (n.placed r) := by
  induction n using induct generalizing r with
  | h n ih =>
    -- The places of the children are numbered from their first one on.
    have hchildren : ∀ (ns : List Node) (i : Nat), (∀ j c, ns[j]? = some c →
        c ∈ n.children ∧ root.at? (r ++ [i + j]) = some c) →
        List.Forall₂ (Resembles root.placing) ns (placedAll r i ns) := by
      intro ns
      induction ns with
      | nil => intro i _; rw [placedAll]; exact .nil
      | cons c ns ihs =>
        intro i hns
        rw [placedAll]
        obtain ⟨hc, hat⟩ := hns 0 c rfl
        refine .cons (ih c hc hat) (ihs (i + 1) fun j d hd => ?_)
        rw [Nat.add_assoc, Nat.add_comm 1 j]
        exact hns (j + 1) d hd
    have hall := hchildren n.children 0 fun j c hc =>
      ⟨List.mem_of_getElem? hc, by
        rw [at?_append h, Nat.zero_add, at?_cons hc, at?_nil]⟩
    have htext : root.placing.text n.text (placedText r n.kind n.text) := by
      unfold placedText
      split
      · exact .inl ⟨r, n, h, rfl, rfl⟩
      · exact .inr rfl
    obtain ⟨kind, line, text, literal, children⟩ := n
    rw [placed]
    refine .mk ⟨r, _, h, rfl, rfl⟩ htext (fun hk => ?_) hall
    rw [hk]
    rfl

/-! ## Shapes of trees that are alike -/

section Shapes

variable {ρ : Likeness} {n n' : Node} {ns ns' : List Node}

theorem exists_of_forall₂ {R : Node → Node → Prop} (h : List.Forall₂ R ns ns') (hn : n' ∈ ns') :
    ∃ n ∈ ns, R n n' := by
  induction h with
  | nil => cases hn
  | cons hc _ ih =>
    rcases List.mem_cons.1 hn with rfl | hn
    · exact ⟨_, List.mem_cons_self, hc⟩
    · obtain ⟨n, hmem, hr⟩ := ih hn
      exact ⟨n, List.mem_cons_of_mem _ hmem, hr⟩

/-- What holds of all trees of a list holds of trees that are like them. -/
theorem forall_of_resembles {P : Node → Prop} (hP : ∀ {n n'}, n.Resembles ρ n' → P n → P n')
    (hr : List.Forall₂ (Resembles ρ) ns ns') (h : ∀ n ∈ ns, P n) : ∀ n ∈ ns', P n := by
  intro n' hn'
  obtain ⟨n, hn, hnn⟩ := exists_of_forall₂ hr hn'
  exact hP hnn (h n hn)

theorem Resembles.isArgument (hr : n.Resembles ρ n') (h : IsArgument n) : IsArgument n' := by
  unfold IsArgument at h ⊢
  rwa [← hr.kind]

theorem isField_of_resembles (hr : List.Forall₂ (Resembles ρ) ns ns') (h : IsField ns) :
    IsField ns' :=
  ⟨hr.length_eq ▸ h.1,
    forall_of_resembles (P := fun n => n.kind = .integer) (fun hn hk => hn.kind ▸ hk) hr h.2⟩

theorem Resembles.isConstant (hr : n.Resembles ρ n') (h : IsConstant n) : IsConstant n' := by
  rcases h with hi | hs | ⟨hk, c, hc, hck⟩
  · exact .inl (hr.kind ▸ hi)
  · exact .inr (.inl (hr.kind ▸ hs))
  · have hchildren := hr.children
    rw [hc] at hchildren
    obtain ⟨c', _, hc', hnil, heq⟩ := List.forall₂_cons_left_iff.1 hchildren
    obtain rfl := List.forall₂_nil_left_iff.1 hnil
    exact .inr (.inr ⟨hr.kind ▸ hk, c', heq, hc'.kind ▸ hck⟩)

/-- Nodes that are alike take the same children. -/
theorem takes_of_resembles {kind : Kind} (h : kind.Takes ns)
    (hr : List.Forall₂ (Resembles ρ) ns ns') : kind.Takes ns' := by
  -- What a node takes depends on the kinds of its children and on their number.
  have statement : ∀ {n n' : Node}, n.Resembles ρ n' → n.kind.isStatement = true →
      n'.kind.isStatement = true := fun hn hk => hn.kind ▸ hk
  cases h with
  | program hb =>
    rcases hr with _ | ⟨h₁, _ | _⟩
    exact .program (h₁.kind ▸ hb)
  | compound hs => exact .compound (forall_of_resembles statement hr hs)
  | assign ht hv =>
    rcases hr with _ | ⟨h₁, _ | ⟨h₂, _ | _⟩⟩
    exact .assign (h₁.kind ▸ ht) (h₂.kind ▸ hv)
  | loop hs ht =>
    -- A loop has a test somewhere among its children.
    obtain ⟨n, hn, hk⟩ := ht
    obtain ⟨n', hn', hnn⟩ := exists_of_forall₂ hr.flip hn
    exact .loop (forall_of_resembles (fun hn hk => hn.kind ▸ hk) hr hs)
      ⟨n', hn', Resembles.kind hnn ▸ hk⟩
  | test ho =>
    rcases hr with _ | ⟨h₁, _ | _⟩
    exact .test (h₁.kind ▸ ho)
  | not ho =>
    rcases hr with _ | ⟨h₁, _ | _⟩
    exact .not (h₁.kind ▸ ho)
  | negate ho =>
    rcases hr with _ | ⟨h₁, _ | _⟩
    exact .negate (h₁.kind ▸ ho)
  | write ha hf =>
    rcases hr with _ | ⟨h₁, h₂⟩
    exact .write (h₁.isArgument ha) (isField_of_resembles h₂ hf)
  | writelnBare =>
    cases hr
    exact .writelnBare
  | writeln ha hf =>
    rcases hr with _ | ⟨h₁, h₂⟩
    exact .writeln (h₁.isArgument ha) (isField_of_resembles h₂ hf)
  | ifThen hc hf =>
    rcases hr with _ | ⟨h₁, _ | ⟨h₂, _ | _⟩⟩
    exact .ifThen (h₁.kind ▸ hc) (h₂.kind ▸ hf)
  | ifThenElse hc hf hs =>
    rcases hr with _ | ⟨h₁, _ | ⟨h₂, _ | ⟨h₃, _ | _⟩⟩⟩
    exact .ifThenElse (h₁.kind ▸ hc) (h₂.kind ▸ hf) (h₃.kind ▸ hs)
  | select hd hb =>
    rcases hr with _ | ⟨h₁, h₂⟩
    exact .select (h₁.kind ▸ hd) (forall_of_resembles (fun hn hk => hn.kind ▸ hk) h₂ hb)
  | selectBranch hc hb =>
    rcases hr with _ | ⟨h₁, _ | ⟨h₂, _ | _⟩⟩
    exact .selectBranch (h₁.kind ▸ hc) (h₂.kind ▸ hb)
  | selectConstants hne hall =>
    refine .selectConstants ?_ (forall_of_resembles Resembles.isConstant hr hall)
    rintro rfl
    exact hne (List.forall₂_nil_right_iff.1 hr)
  | arithmetic hl hr' =>
    rcases hr with _ | ⟨h₁, _ | ⟨h₂, _ | _⟩⟩
    exact .arithmetic (h₁.kind ▸ hl) (h₂.kind ▸ hr')
  | relation hl hr' =>
    rcases hr with _ | ⟨h₁, _ | ⟨h₂, _ | _⟩⟩
    exact .relation (h₁.kind ▸ hl) (h₂.kind ▸ hr')
  | connective hl hr' =>
    rcases hr with _ | ⟨h₁, _ | ⟨h₂, _ | _⟩⟩
    exact .connective (h₁.kind ▸ hl) (h₂.kind ▸ hr')
  | var => cases hr; exact .var
  | integer => cases hr; exact .integer
  | real => cases hr; exact .real
  | string => cases hr; exact .string

/-- A tree that is like a well-shaped one is well shaped. -/
theorem Resembles.wellShaped (hr : n.Resembles ρ n') (h : ∀ k ∈ n.walk, k.WellShaped) :
    ∀ k ∈ n'.walk, k.WellShaped := by
  induction n using induct generalizing n' with
  | h n ih =>
    have hself : n.kind.Takes n.children := h n self_mem_walk
    intro k hk
    obtain rfl | ⟨c', hc', hk⟩ := mem_walk.1 hk
    · unfold WellShaped
      rw [← hr.kind]
      exact takes_of_resembles hself hr.children
    · obtain ⟨c, hc, hcc⟩ := exists_of_forall₂ hr.children hc'
      exact ih c hc hcc (fun j hj => h j (mem_walk_of_child hc hj)) k hk

end Shapes

end Node

end MiniPascal
