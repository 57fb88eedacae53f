import MiniPascal.Proofs.Tree.Reload

/-!
# What can be loaded

The reader of trees takes more than the writer puts out. Fields may be missing, there may be others,
and the children may be an empty text or an empty object in place of a list. What is read can be
said without a table:

**The first defect decides** (`load_cases`). The values that loading tries as nodes are the parts of
a value (`Value.parts`), each before its children. A part can have a defect of its own
(`Value.defect?`): it is no object of a known kind, its name is no text, or its children are no
sequence. Loading fails with the first defect there is. If there is none, it gives a tree.

**Reading and writing agree** (`codec_laws`). A tree that was read is written as the normal form of
what it was read from (`Value.normalForm`), which has the five fields of a node at every node and no
others. Whatever can be read, its normal form is read alike.
-/

namespace MiniPascal

open Node (fieldOf? kindOf? nameFault?)

theorem CodePoint.eq_map_of_mapM {ps : List CodePoint} {cs : List Char}
    (h : ps.mapM CodePoint.char? = some cs) : ps = cs.map .char := by
  induction ps generalizing cs with
  | nil => cases h; rfl
  | cons p ps ih =>
    obtain ⟨c, hc, ds, hds, rfl⟩ : ∃ c, p.char? = some c ∧
        ∃ ds, ps.mapM CodePoint.char? = some ds ∧ c :: ds = cs := by
      simpa [List.mapM_cons, Option.bind_eq_some_iff] using h
    cases p with
    | char d => cases hc; rw [ih hds]; rfl
    | surrogate => cases hc

theorem Text.eq_ofString_of_toString? {t : Text} {s : String} (h : t.toString? = some s) :
    t = .ofString s := by
  obtain ⟨cs, hcs, rfl⟩ := Option.map_eq_some_iff.1 h
  rw [ofString, String.toList_ofList, ← CodePoint.eq_map_of_mapM hcs]
  rfl

namespace Node

/-- The kind of a node is given by its name. -/
theorem field_of_kindOf? {fields : List (Text × Value)} {kind : Kind}
    (h : kindOf? fields = some kind) : fieldOf? fields "kind" = some (.text kind.name) := by
  unfold kindOf? at h
  split at h
  · next name hname =>
    obtain ⟨s, hs, hkind⟩ := Option.bind_eq_some_iff.1 h
    have hsame : kind.name = s := by simpa using List.find?_some hkind
    rw [hname, Text.eq_ofString_of_toString? hs, hsame]
  · cases h

/-- The node of the given kind and fields, without its children. -/
def headOf (kind : Kind) (fields : List (Text × Value)) : Node where
  kind
  line := (fieldOf? fields "line").getD (.int 0)
  text := (fieldOf? fields "text").getD .null
  literal := (fieldOf? fields "literal").getD .null

end Node

namespace Value

/-! ## Parts -/

/-- The values that a value gives one after the other: the items of a list, the code points of a
text, the field names of an object. -/
def sequence? : Value → Option (List Value)
  | .list items => some items
  | .text t => some (t.toList.map fun p => .text (.ofList [p]))
  | .object fields => some (fields.map fun f => .text f.1)
  | _ => none

/-- The values that are tried as the children of a node. -/
def items : Value → List Value
  | .object fields => ((fieldOf? fields "children").bind sequence?).getD []
  | _ => []

mutual

/-- The values that are tried as nodes when a value is loaded, each before its children. -/
def parts : Value → List Value
  | .object fields => .object fields :: partsOfFields fields
  | v => [v]

/-- The parts in the field of the children, if there is one. -/
def partsOfFields : List (Text × Value) → List Value
  | [] => []
  | (name, v) :: rest =>
    if name = ("children" : Text) then partsOfSequence v else partsOfFields rest

/-- The parts of a sequence. -/
def partsOfSequence : Value → List Value
  | .list vs => partsOfAll vs
  | v => v.sequence?.getD []

/-- The parts of several values. -/
def partsOfAll : List Value → List Value
  | [] => []
  | v :: rest => v.parts ++ partsOfAll rest

end

/-- What is wrong with the children of a node, if there are any. -/
def childrenFault? (children : Option Value) : Option LoadFault :=
  match children with
  | none => none
  | some v => if v.sequence?.isNone then some (.notASequence v.className) else none

/-- What is wrong with a value as a node, apart from its children being nodes. -/
def defect? : Value → Option LoadFault
  | .object fields =>
    match kindOf? fields with
    | none => some (.notANode (.object fields))
    | some kind =>
      (Node.headOf kind fields).nameFault?.or (childrenFault? (fieldOf? fields "children"))
  | v => some (.notANode v)

/-! ## Normal forms -/

mutual

/-- The value with exactly the fields of a node at every node: a missing line is zero, a missing
text or literal is nothing, and missing children, as all but those in a list, are an empty list. -/
def normalForm : Value → Value
  | .object fields =>
    .object [("kind", (fieldOf? fields "kind").getD .null),
      ("line", (fieldOf? fields "line").getD (.int 0)),
      ("text", (fieldOf? fields "text").getD .null),
      ("literal", (fieldOf? fields "literal").getD .null),
      ("children", .list (normalFields fields))]
  | v => v

/-- The normal forms in the field of the children, if there is one. -/
def normalFields : List (Text × Value) → List Value
  | [] => []
  | (name, v) :: rest =>
    if name = ("children" : Text) then normalSequence v else normalFields rest

/-- The normal forms of a sequence. -/
def normalSequence : Value → List Value
  | .list vs => normalForms vs
  | _ => []

/-- The normal forms of several values. -/
def normalForms : List Value → List Value
  | [] => []
  | v :: rest => v.normalForm :: normalForms rest

end

/-! ## Values as trees -/

/-- Induction over a value, from what is tried as its children to the value. -/
theorem inductItems {P : Value → Prop} (h : ∀ v : Value, (∀ w ∈ v.items, P w) → P v) (v : Value) :
    P v := by
  -- A node's children stand two levels below it, in the sequence that one of its fields is.
  have leaf : ∀ w : Value, w.items = [] → P w := fun w hw => h w (by simp [hw])
  suffices hboth : P v ∧ ∀ w ∈ v.sequence?.getD [], P w from hboth.1
  induction v using Value.induct with
  | null | bool | int | real => exact ⟨leaf _ rfl, by simp [sequence?]⟩
  | text t =>
    refine ⟨leaf _ rfl, fun w hw => ?_⟩
    obtain ⟨p, -, rfl⟩ := List.mem_map.1 hw
    exact leaf _ rfl
  | list vs ih => exact ⟨leaf _ rfl, fun w hw => (ih w hw).1⟩
  | object fields ih =>
    constructor
    · refine h _ fun w hw => ?_
      cases hc : fieldOf? fields "children" with
      | none => simp [items, hc] at hw
      | some c =>
        obtain ⟨before, after, hfields, -⟩ := List.lookup_eq_some_iff.1 hc
        have hmem : (("children" : Text), c) ∈ fields := by simp [hfields]
        exact (ih _ hmem).2 w (by simpa [items, hc] using hw)
    · intro w hw
      obtain ⟨f, -, rfl⟩ := List.mem_map.1 hw
      exact leaf _ rfl

/-- What goes through the fields up to that of the children depends on this field alone. -/
theorem eq_getD_of_fields {α : Type} (f : List (Text × Value) → α) (g : Value → α)
    (hcons : ∀ name v rest,
      f ((name, v) :: rest) = if name = ("children" : Text) then g v else f rest)
    (fields : List (Text × Value)) :
    f fields = ((fieldOf? fields "children").map g).getD (f []) := by
  induction fields with
  | nil => rfl
  | cons field fields ih =>
    obtain ⟨name, v⟩ := field
    rw [hcons, fieldOf?, List.lookup_cons]
    by_cases hname : name = ("children" : Text)
    · simp [hname]
    · have hne : (("children" : Text) == name) = false := by simpa using Ne.symm hname
      rw [if_neg hname, hne, ih]
      rfl

theorem partsOfAll_eq (vs : List Value) : partsOfAll vs = vs.flatMap parts := by
  induction vs with
  | nil => rw [partsOfAll, List.flatMap_nil]
  | cons v vs ih => rw [partsOfAll, ih, List.flatMap_cons]

theorem flatMap_parts_of_texts {α : Type} (f : α → Text) (as : List α) :
    (as.map fun a => Value.text (f a)).flatMap parts = as.map fun a => Value.text (f a) := by
  rw [List.flatMap_map, List.map_eq_flatMap]
  rfl

theorem partsOfSequence_eq (v : Value) :
    partsOfSequence v = (v.sequence?.getD []).flatMap parts := by
  cases v with
  | list vs => rw [partsOfSequence, partsOfAll_eq]; rfl
  | text t => exact (flatMap_parts_of_texts _ _).symm
  | object fields => exact (flatMap_parts_of_texts _ _).symm
  | _ => rfl

/-- The parts of a value are the value and the parts of what is tried as its children. -/
theorem parts_eq (v : Value) : v.parts = v :: v.items.flatMap parts := by
  cases v with
  | object fields =>
    rw [parts, eq_getD_of_fields partsOfFields partsOfSequence fun _ _ _ => by rw [partsOfFields]]
    cases hc : fieldOf? fields "children" with
    | none => simp [items, hc, partsOfFields]
    | some c => simp [items, hc, partsOfSequence_eq]
  | _ => simp [parts, items]

theorem normalForms_eq (vs : List Value) : normalForms vs = vs.map normalForm := by
  induction vs with
  | nil => rw [normalForms, List.map_nil]
  | cons v vs ih => rw [normalForms, ih, List.map_cons]

/-- Only a list gives values that are nodes. -/
theorem normalSequence_eq {v : Value} (h : ∀ w ∈ v.sequence?.getD [], w.defect? = none) :
    normalSequence v = (v.sequence?.getD []).map normalForm := by
  cases v with
  | list vs => rw [normalSequence, normalForms_eq]; rfl
  | text t =>
    have hnone : t.toList = [] := by
      refine List.eq_nil_iff_forall_not_mem.2 fun p hp => ?_
      cases h _ (List.mem_map_of_mem hp)
    simp [normalSequence, sequence?, hnone]
  | object fields =>
    have hnone : fields = [] := by
      refine List.eq_nil_iff_forall_not_mem.2 fun f hf => ?_
      cases h _ (List.mem_map_of_mem hf)
    simp [normalSequence, sequence?, hnone]
  | _ => rfl

theorem normalFields_eq {fields : List (Text × Value)}
    (h : ∀ w ∈ (Value.object fields).items, w.defect? = none) :
    normalFields fields = (Value.object fields).items.map normalForm := by
  rw [eq_getD_of_fields normalFields normalSequence fun _ _ _ => by rw [normalFields]]
  cases hc : fieldOf? fields "children" with
  | none => simp [items, hc, normalFields]
  | some c =>
    have hitems : (Value.object fields).items = c.sequence?.getD [] := by simp [items, hc]
    rw [hitems] at h ⊢
    exact normalSequence_eq h

end Value

namespace Node

open Value (defect? childrenFault?)

/-! ## Loading -/

variable {α β : Type}

theorem loadSequence_eq (v : Value) : loadSequence v =
    match v.sequence? with
    | some vs => loadItems vs
    | none => throw (.notASequence v.className) := by
  cases v with
  | text t =>
    rw [loadSequence, Value.sequence?]
    cases t.toList <;> rfl
  | object fields => cases fields <;> rfl
  | _ => rfl

theorem load_bind_of_error {p : Load α} {f : α → Load β} {table table' : Table} {fault : LoadFault}
    (h : p table = .error fault table') : (p >>= f) table = .error fault table' := by
  show EStateM.bind p f table = .error fault table'
  rw [EStateM.bind, h]

theorem load_object {fields : List (Text × Value)} {kind : Kind} (h : kindOf? fields = some kind) :
    load (.object fields) = do
      enterNames (headOf kind fields).kind (headOf kind fields).text
      let children ← loadChildren fields
      return { headOf kind fields with children } := by
  rw [load, h]
  rfl

/-- The children of a node are loaded, unless they are no sequence. -/
theorem loadChildren_eq (fields : List (Text × Value)) : loadChildren fields =
    match childrenFault? (fieldOf? fields "children") with
    | some fault => throw fault
    | none => loadItems (Value.object fields).items := by
  rw [Value.eq_getD_of_fields loadChildren loadSequence fun _ _ _ => by rw [loadChildren],
    loadChildren]
  cases hc : fieldOf? fields "children" with
  | none => simp [childrenFault?, Value.items, hc, loadItems]
  | some c => cases hs : c.sequence? <;> simp [childrenFault?, Value.items, hc, loadSequence_eq, hs]

/-- A value that has a defect cannot be loaded. -/
theorem load_of_defect? {v : Value} {fault : LoadFault} (h : v.defect? = some fault)
    (table : Table) : ∃ t, load v table = .error fault t := by
  cases v with
  | object fields =>
    cases hk : kindOf? fields with
    | none =>
      obtain rfl : LoadFault.notANode (.object fields) = fault := by simpa [defect?, hk] using h
      rw [load, hk]
      exact ⟨table, rfl⟩
    | some kind =>
      have hname := enterNames_apply (headOf kind fields) table
      rw [load_object hk]
      cases hf : (headOf kind fields).nameFault? with
      | some g =>
        obtain rfl : g = fault := by simpa [defect?, hk, hf] using h
        rw [hf] at hname
        exact ⟨table, load_bind_of_error hname⟩
      | none =>
        have hc : childrenFault? (fieldOf? fields "children") = some fault := by
          simpa [defect?, hk, hf] using h
        rw [hf] at hname
        rw [load_bind_of_ok hname, loadChildren_eq, hc]
        exact ⟨_, load_bind_of_error rfl⟩
  | _ =>
    obtain rfl := Option.some.inj h
    exact ⟨table, rfl⟩

theorem exists_kindOf?_of_sound {v : Value} (h : v.defect? = none) :
    ∃ fields kind, v = .object fields ∧ kindOf? fields = some kind := by
  cases v with
  | object fields =>
    cases hk : kindOf? fields with
    | none => simp [defect?, hk] at h
    | some kind => exact ⟨fields, kind, rfl, hk⟩
  | _ => cases h

/-- A node without a defect has its name entered, and then its children are loaded. -/
theorem load_of_sound {fields : List (Text × Value)} {kind : Kind} (hk : kindOf? fields = some kind)
    (h : (Value.object fields).defect? = none) : (headOf kind fields).nameFault? = none ∧
    ∀ table : Table, load (.object fields) table =
      (do let children ← loadItems (Value.object fields).items
          return { headOf kind fields with children } : Load Node)
        (table.enterAll (headOf kind fields).ownNames) := by
  obtain ⟨hf, hc⟩ : (headOf kind fields).nameFault? = none ∧
      childrenFault? (fieldOf? fields "children") = none := by
    simpa [defect?, hk] using h
  refine ⟨hf, fun table => ?_⟩
  have hname := enterNames_apply (headOf kind fields) table
  rw [hf] at hname
  rw [load_object hk, load_bind_of_ok hname, loadChildren_eq, hc]

/-- A value is loaded as a tree. -/
structure LoadsAs (v : Value) (n : Node) : Prop where
  sound : v.parts.findSome? defect? = none
  load : ∀ table : Table, load v table = .ok n (table.enterAll (namesOf [n]))
  named : AllNodes (·.nameFault? = none) [n]
  written : n.toValue = v.normalForm

/-- Loading a value fails. -/
structure LoadFails (v : Value) (fault : LoadFault) : Prop where
  first : v.parts.findSome? defect? = some fault
  load : ∀ table : Table, ∃ t, load v table = .error fault t

/-- Several values are loaded as trees. -/
structure LoadAllAs (vs : List Value) (ns : List Node) : Prop where
  sound : (vs.flatMap Value.parts).findSome? defect? = none
  load : ∀ table : Table, loadItems vs table = .ok ns (table.enterAll (namesOf ns))
  named : AllNodes (·.nameFault? = none) ns
  written : toValues ns = vs.map Value.normalForm

theorem LoadAllAs.cons {v : Value} {n : Node} {vs : List Value} {ns : List Node}
    (h : LoadsAs v n) (hs : LoadAllAs vs ns) : LoadAllAs (v :: vs) (n :: ns) where
  sound := by rw [List.flatMap_cons, List.findSome?_append, h.sound, hs.sound]; rfl
  load table := by
    rw [loadItems, load_bind_of_ok (h.load table), load_bind_of_ok (hs.load _),
      ← Table.enterAll_append, ← namesOf_append]
    rfl
  named := h.named.cons hs.named
  written := by rw [toValues, h.written, hs.written, List.map_cons]

/-- The first value that cannot be loaded decides. -/
theorem loadItems_cases {vs : List Value}
    (h : ∀ v ∈ vs, (∃ n, LoadsAs v n) ∨ ∃ fault, LoadFails v fault) :
    (∃ ns, LoadAllAs vs ns) ∨ ∃ fault, (vs.flatMap Value.parts).findSome? defect? = some fault ∧
      ∀ table : Table, ∃ t, loadItems vs table = .error fault t := by
  induction vs with
  | nil =>
    refine .inl ⟨[], rfl, fun table => ?_, allNodes_nil, by rw [toValues, List.map_nil]⟩
    rw [loadItems, namesOf_nil]
    rfl
  | cons v vs ih =>
    obtain ⟨n, hn⟩ | ⟨fault, hf⟩ := h v (by simp)
    · obtain ⟨ns, hns⟩ | ⟨fault, hfirst, hfails⟩ := ih fun w hw => h w (by simp [hw])
      · exact .inl ⟨n :: ns, hns.cons hn⟩
      · refine .inr ⟨fault, ?_, fun table => ?_⟩
        · rw [List.flatMap_cons, List.findSome?_append, hn.sound, hfirst]
          rfl
        · obtain ⟨t, ht⟩ := hfails (table.enterAll (namesOf [n]))
          rw [loadItems, load_bind_of_ok (hn.load table)]
          exact ⟨t, load_bind_of_error ht⟩
    · refine .inr ⟨fault, ?_, fun table => ?_⟩
      · rw [List.flatMap_cons, List.findSome?_append, hf.first]
        rfl
      · obtain ⟨t, ht⟩ := hf.load table
        rw [loadItems]
        exact ⟨t, load_bind_of_error ht⟩

/-- A node without a defect is loaded where its children are. -/
theorem loadsAs_object {fields : List (Text × Value)} {kind : Kind} {ns : List Node}
    (hk : kindOf? fields = some kind) (h : (Value.object fields).defect? = none)
    (hs : LoadAllAs (Value.object fields).items ns) :
    LoadsAs (.object fields) { headOf kind fields with children := ns } := by
  obtain ⟨hf, hload⟩ := load_of_sound hk h
  have hsound : ∀ w ∈ (Value.object fields).items, w.defect? = none := by
    intro w hw
    refine List.findSome?_eq_none_iff.1 hs.sound w (List.mem_flatMap.2 ⟨w, hw, ?_⟩)
    rw [Value.parts_eq]
    exact List.mem_cons_self
  constructor
  · rw [Value.parts_eq, List.findSome?_cons, h, hs.sound]
  · intro table
    rw [hload, load_bind_of_ok (hs.load _), ← Table.enterAll_append, namesOf_cons, namesOf_nil,
      List.append_nil]
    rfl
  · exact .node hf hs.named
  · rw [toValue, hs.written, Value.normalForm, Value.normalFields_eq hsound, field_of_kindOf? hk]
    rfl

/-- **The first defect decides.** If no part of a value has one, the value is loaded as a tree, and
otherwise loading fails with it. -/
theorem load_cases (v : Value) : (∃ n, LoadsAs v n) ∨ ∃ fault, LoadFails v fault := by
  induction v using Value.inductItems with
  | h v ih =>
    cases hd : v.defect? with
    | some fault =>
      refine .inr ⟨fault, ?_, load_of_defect? hd⟩
      rw [Value.parts_eq, List.findSome?_cons, hd]
    | none =>
      obtain ⟨fields, kind, rfl, hk⟩ := exists_kindOf?_of_sound hd
      obtain ⟨ns, hs⟩ | ⟨fault, hfirst, hfails⟩ := loadItems_cases ih
      · exact .inl ⟨_, loadsAs_object hk hd hs⟩
      · refine .inr ⟨fault, ?_, fun table => ?_⟩
        · rw [Value.parts_eq, List.findSome?_cons, hd, hfirst]
        · obtain ⟨t, ht⟩ := hfails (table.enterAll (headOf kind fields).ownNames)
          rw [(load_of_sound hk hd).2]
          exact ⟨t, load_bind_of_error ht⟩

/-- What was loaded from one table is loaded from every table. -/
theorem loadsAs_of_ok {v : Value} {n : Node} {table t : Table} (h : load v table = .ok n t) :
    LoadsAs v n := by
  obtain ⟨m, hm⟩ | ⟨fault, hf⟩ := load_cases v
  · obtain ⟨rfl, -⟩ := EStateM.Result.ok.inj (h.symm.trans (hm.load table))
    exact hm
  · obtain ⟨t', ht'⟩ := hf.load table
    cases h.symm.trans ht'

/-- **Reading and writing agree.** A tree whose names are texts is read back as it was written. A
tree that was read is written as the normal form of the value it was read from. The value and its
normal form are then read as the same tree from every table, and the same names are entered in the
same order. -/
theorem codec_laws :
    (∀ (n : Node) (table : Table), AllNameable [n] →
      load n.toValue table = .ok n (table.enterAll (namesOf [n]))) ∧
    ∀ (v : Value) (n : Node) (table t : Table), load v table = .ok n t →
      n.toValue = v.normalForm ∧
      ∀ other : Table, load v other = .ok n (other.enterAll (namesOf [n])) ∧
        load v.normalForm other = .ok n (other.enterAll (namesOf [n])) := by
  refine ⟨fun n table h => load_toValue h table, fun v n table t h => ?_⟩
  have hv := loadsAs_of_ok h
  refine ⟨hv.written, fun other => ⟨hv.load other, ?_⟩⟩
  rw [← hv.written]
  exact load_toValue_of_nameFault? hv.named other

/-- A program without a name, with a field of its own. Its children lack most of theirs. -/
def sparseValue : Value :=
  .object [("note", .int 3), ("kind", .text "PROGRAM"),
    ("children", .list [
      .object [("text", .text "X"), ("kind", .text "VARIABLE"), ("children", .text "")],
      .object [("kind", .text "COMPOUND"), ("line", .list []), ("children", .object [])]])]

/-- The tree that is read from it. -/
def sparseTree : Node where
  kind := .program
  children := [{ kind := .var, text := .text "X" }, { kind := .compound, line := .list [] }]

theorem codec_laws_sparse : AllNameable [sparseTree] ∧
    load sparseTree.toValue {} = .ok sparseTree (Table.enterAll {} (namesOf [sparseTree])) ∧
    load sparseValue {} = .ok sparseTree (Table.enterAll {} ["X"]) ∧
    sparseTree.toValue = sparseValue.normalForm := by
  have hn : AllNameable [sparseTree] := by simp [sparseTree, Nameable]
  have h : load sparseValue {} = .ok sparseTree (Table.enterAll {} ["X"]) := rfl
  exact ⟨hn, codec_laws.1 _ _ hn, h, (codec_laws.2 _ _ _ _ h).1⟩

end Node

end MiniPascal
