import MiniPascal.Tree.Codec
import MiniPascal.Proofs.Table
import MiniPascal.Proofs.Tree.Names

/-!
# Reloading a tree

A tree that was written as a value is found again by loading it. On the way the names in it are
entered into the table, each node before its children: the names of the variables, and that of a
program which has one.

**Loading gives the tree back** (`load_toValue`), and enters its names in their order (`namesOf`).
This holds for every tree whose names are texts. All else in a node may be any value.
-/

namespace MiniPascal

theorem Kind.ofName?_name (kind : Kind) : Kind.ofName? kind.name = some kind := by
  cases kind with
  | arithmetic op | relation op | connective op => cases op <;> decide
  | _ => decide

namespace Node

/-- What is wrong with the name that a node brings. The name of a variable has to be a text, and so
has that of a program which has one. -/
def nameFault? (n : Node) : Option LoadFault :=
  match n.kind, n.text with
  | .var, .text _ => none
  | .var, v => some (.notAName v.className)
  | .program, .text _ => none
  | .program, v => if v.isPresent then some (.notAName v.className) else none
  | _, _ => none

theorem nameFault?_of_nameable {n : Node} (h : n.Nameable) : n.nameFault? = none := by
  obtain ⟨kind, line, text, literal, children⟩ := n
  cases kind with
  | var =>
    obtain ⟨name, rfl⟩ := h
    rfl
  | program => obtain rfl | ⟨name, rfl⟩ := h <;> rfl
  | _ => rfl

/-- The name of a node is entered, unless there is something wrong with it. -/
theorem enterNames_apply (n : Node) (table : Table) : enterNames n.kind n.text table =
    match n.nameFault? with
    | some fault => .error fault table
    | none => .ok () (table.enterAll n.ownNames) := by
  obtain ⟨kind, line, text, literal, children⟩ := n
  cases kind with
  | var => cases text <;> rfl
  | program =>
    cases text with
    | text name =>
      show (if !name.isEmpty then modify (·.enter name) else pure () : Load Unit) table =
        .ok () (table.enterAll (if name.isEmpty then [] else [name]))
      cases name.isEmpty <;> rfl
    | null => rfl
    | _ =>
      simp only [enterNames, nameFault?]
      split <;> rfl
  | _ => rfl

theorem load_bind_of_ok {α β : Type} {p : Load α} {f : α → Load β} {table table' : Table} {a : α}
    (h : p table = .ok a table') : (p >>= f) table = f a table' := by
  show EStateM.bind p f table = f a table'
  rw [EStateM.bind, h]

/-- The fields of a written tree are read back. -/
theorem load_toValue_eq (n : Node) : load n.toValue = do
    enterNames n.kind n.text
    let children ← loadItems (toValues n.children)
    return { n with children } := by
  obtain ⟨kind, line, text, literal, children⟩ := n
  have hkind : kindOf? [("kind", .text kind.name), ("line", line), ("text", text),
      ("literal", literal), ("children", .list (toValues children))] = some kind := by
    show ((kind.name : Text).toString?).bind Kind.ofName? = some kind
    rw [Text.toString?_ofString]
    exact Kind.ofName?_name kind
  rw [toValue, load, hkind]
  rfl

theorem loadItems_toValues {ns : List Node}
    (h : ∀ n ∈ ns, AllNodes (·.nameFault? = none) [n] → ∀ table : Table,
      load n.toValue table = .ok n (table.enterAll (namesOf [n])))
    (hn : AllNodes (·.nameFault? = none) ns) (table : Table) :
    loadItems (toValues ns) table = .ok ns (table.enterAll (namesOf ns)) := by
  induction ns generalizing table with
  | nil => rw [toValues, loadItems, namesOf_nil]; rfl
  | cons n ns ih =>
    obtain ⟨hfirst, hothers⟩ := allNodes_append.1 (show AllNodes _ ([n] ++ ns) from hn)
    have hload := h n (by simp) hfirst table
    have hrest := ih (fun m hm => h m (by simp [hm])) hothers (table.enterAll (namesOf [n]))
    rw [toValues, loadItems, load_bind_of_ok hload, load_bind_of_ok hrest]
    simp only [namesOf_cons, namesOf_nil, List.append_nil, Table.enterAll_append]
    rfl

/-- A tree is found again if nothing is wrong with its names. -/
theorem load_toValue_of_nameFault? {n : Node} (h : AllNodes (·.nameFault? = none) [n])
    (table : Table) : load n.toValue table = .ok n (table.enterAll (namesOf [n])) := by
  induction n using Node.induct generalizing table with
  | h n ih =>
    obtain ⟨hown, hbelow, -⟩ := allNodes_cons.1 h
    have hname : enterNames n.kind n.text table = .ok () (table.enterAll n.ownNames) := by
      rw [enterNames_apply, hown]
    have hchildren := loadItems_toValues ih hbelow (table.enterAll n.ownNames)
    rw [load_toValue_eq, load_bind_of_ok hname, load_bind_of_ok hchildren]
    simp only [namesOf_cons, namesOf_nil, List.append_nil, Table.enterAll_append]
    cases n
    rfl

/-- **Loading gives the tree back**, and enters its names in their order. -/
theorem load_toValue {n : Node} (h : AllNameable [n]) (table : Table) :
    load n.toValue table = .ok n (table.enterAll (namesOf [n])) :=
  load_toValue_of_nameFault? (fun k hk => nameFault?_of_nameable (h k hk)) table

end Node

end MiniPascal
