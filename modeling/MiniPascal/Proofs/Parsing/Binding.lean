import Mathlib.Data.Option.Basic
import MiniPascal.Tree.Bound
import MiniPascal.Proofs.Parsing.Names
import MiniPascal.Proofs.Parsing.Total

/-!
# The entries of variables

Parsing binds the node of a variable to an entry of the table, where the name is found or is entered
at the end. A `FOR` loop copies the node of its control variable with the entry.

**Entries are the places of names** (`Binds`). Parsing builds a bound tree and a plain one side by
side (`Along`): it takes the same steps for both, the bound tree without its entries is the plain
one, and the entry of each variable is the place of its name in the table. Since no name that is
entered later moves another one, this holds of the table in the end (`along_program`).

**Erasure** (`program_erase`). So a program is parsed to a plain tree exactly if it is parsed to a
bound tree, which then is the plain one with entries.
-/

namespace MiniPascal

/-- Every variable of the one table stands in the other, at the same place. -/
def Table.Within (t t' : Table) : Prop :=
  ∀ (name : Text) (place : Nat), t.place? name = some place → t'.place? name = some place

theorem Table.Within.refl (t : Table) : t.Within t := fun _ _ h => h

theorem Table.Within.trans {t u v : Table} (h : t.Within u) (h' : u.Within v) : t.Within v :=
  fun name place hp => h' name place (h name place hp)

theorem Table.within_enter (t : Table) (name : Text) : t.Within (t.enter name) :=
  fun _ _ h => place?_enter_of_some h

namespace BoundNode

/-- The variables among the nodes are bound to the places of their names. -/
def Placed (t : Table) (ks : List BoundNode) : Prop :=
  ∀ k ∈ ks, k.kind = .var → ∃ (name : Text) (place : Nat),
    k.text = .text name ∧ k.entry = some place ∧ t.place? name = some place

theorem Placed.grow {t t' : Table} {ks : List BoundNode} (h : Placed t ks) (ht : t.Within t') :
    Placed t' ks := by
  intro k hk hkind
  obtain ⟨name, place, htext, hentry, hplace⟩ := h k hk hkind
  exact ⟨name, place, htext, hentry, ht name place hplace⟩

/-- The bound tree is the plain one, with the places of the names as entries. -/
structure Binds (t : Table) (b : BoundNode) (n : Node) : Prop where
  erase : b.erase = n
  placed : Placed t b.walk

/-- The bound trees are the plain ones, one by one. -/
structure BindsAll (t : Table) (bs : List BoundNode) (ns : List Node) : Prop where
  erase : eraseAll bs = ns
  placed : Placed t (walkAll bs)

section

variable {t t' : Table} {b : BoundNode} {n : Node} {bs cs : List BoundNode} {ns ms : List Node}

theorem Binds.grow (h : Binds t b n) (ht : t.Within t') : Binds t' b n :=
  ⟨h.erase, h.placed.grow ht⟩

theorem BindsAll.grow (h : BindsAll t bs ns) (ht : t.Within t') : BindsAll t' bs ns :=
  ⟨h.erase, h.placed.grow ht⟩

theorem BindsAll.nil : BindsAll t [] [] := ⟨rfl, fun _ hk => by cases hk⟩

theorem Binds.cons (h : Binds t b n) (hs : BindsAll t bs ns) :
    BindsAll t (b :: bs) (n :: ns) where
  erase := by rw [eraseAll, h.erase, hs.erase]
  placed k hk := by
    rw [walkAll, List.mem_append] at hk
    exact hk.elim (h.placed k) (hs.placed k)

theorem Binds.single (h : Binds t b n) : BindsAll t [b] [n] := h.cons .nil

theorem BindsAll.append (h : BindsAll t bs ns) (hs : BindsAll t cs ms) :
    BindsAll t (bs ++ cs) (ns ++ ms) := by
  induction bs generalizing ns with
  | nil =>
    obtain rfl : [] = ns := h.erase
    exact hs
  | cons b bs ih =>
    obtain ⟨rfl, hplaced⟩ := h
    have hfirst : Binds t b b.erase :=
      ⟨rfl, fun k hk => hplaced k (by rw [walkAll]; exact List.mem_append_left _ hk)⟩
    have hrest : BindsAll t bs (eraseAll bs) :=
      ⟨rfl, fun k hk => hplaced k (by rw [walkAll]; exact List.mem_append_right _ hk)⟩
    exact hfirst.cons (ih hrest)

theorem BindsAll.isEmpty (h : BindsAll t bs ns) : bs.isEmpty = ns.isEmpty := by
  obtain ⟨rfl, -⟩ := h
  cases bs <;> rfl

/-- A node that is no variable adds nothing to what its children are bound to. -/
theorem BindsAll.make (hs : BindsAll t bs ns) (kind : Kind) (hk : kind ≠ .var)
    (line text literal : Value) :
    Binds t (TreeNode.make kind line text literal none bs)
      (TreeNode.make kind line text literal none ns) where
  erase := by
    show (⟨kind, line, text, literal, eraseAll bs⟩ : Node) = _
    rw [hs.erase]
    rfl
  placed k hmem hkind := by
    change k ∈ walk ⟨kind, line, text, literal, none, bs⟩ at hmem
    rw [walk, List.mem_cons] at hmem
    obtain rfl | hmem := hmem
    · exact absurd hkind hk
    · exact hs.placed k hmem hkind

end

end BoundNode

namespace Parsing

open BoundNode (Placed Binds BindsAll)

variable {α β γ δ : Type} {R : Table → α → β → Prop} {Q : Table → γ → δ → Prop}

theorem binds_variableAt {t : Table} {tok : Token} {place : Nat}
    (h : t.place? tok.text = some place) :
    Binds t (variableAt tok place) (variableAt tok place) where
  erase := rfl
  placed k hk _ := by
    change k ∈ BoundNode.walk ⟨.var, .int tok.line, .text tok.text, .null, some place, []⟩ at hk
    rw [BoundNode.walk, BoundNode.walkAll, List.mem_singleton] at hk
    obtain rfl := hk
    exact ⟨_, place, rfl, rfl, h⟩

/-! ## Two parses of the same tokens -/

/-- Results without trees are the same. -/
abbrev Same (_ : Table) (a b : α) : Prop := a = b

/-- The outcomes of two parsers that took the same steps. -/
inductive Alongside (R : Table → α → β → Prop) (start : Table) :
    EStateM.Result Stop State α → EStateM.Result Stop State β → Prop
  | ok {a : α} {b : β} {t : State} :
      start.Within t.table → R t.table a b → Alongside R start (.ok a t) (.ok b t)
  | error {e : Stop} {t : State} :
      start.Within t.table → Alongside R start (.error e t) (.error e t)

theorem Alongside.after {start table : Table} {x : EStateM.Result Stop State α}
    {y : EStateM.Result Stop State β} (h : Alongside R table x y) (hs : start.Within table) :
    Alongside R start x y := by
  cases h with
  | ok ht hab => exact .ok (hs.trans ht) hab
  | error ht => exact .error (hs.trans ht)

/-- From the state `s` two parsers take the same steps, and their results are related in the table
that they reach. -/
def Along (R : Table → α → β → Prop) (p : Parser α) (q : Parser β) (s : State) : Prop :=
  Alongside R s.table (p s) (q s)

namespace Along

theorem cases {p : Parser α} {q : Parser β} {s : State} (h : Along R p q s) :
    (∃ a b t, p s = .ok a t ∧ q s = .ok b t ∧ s.table.Within t.table ∧ R t.table a b) ∨
      ∃ e t, p s = .error e t ∧ q s = .error e t ∧ s.table.Within t.table := by
  unfold Along at h
  generalize p s = x at h ⊢
  generalize q s = y at h ⊢
  cases h with
  | ok ht hab => exact .inl ⟨_, _, _, rfl, rfl, ht, hab⟩
  | error ht => exact .inr ⟨_, _, rfl, rfl, ht⟩

theorem pure {a : α} {b : β} {s : State} (h : R s.table a b) :
    Along R (Pure.pure a) (Pure.pure b) s :=
  .ok (.refl _) h

theorem throw {e : Stop} {s : State} : Along R (MonadExcept.throw e) (MonadExcept.throw e) s :=
  .error (.refl _)

theorem bind {p : Parser α} {q : Parser β} {f : α → Parser γ} {g : β → Parser δ} {s : State}
    (hp : Along R p q s)
    (hf : ∀ a b t, s.table.Within t.table → R t.table a b → Along Q (f a) (g b) t) :
    Along Q (p >>= f) (q >>= g) s := by
  rw [Along, bind_apply, bind_apply]
  obtain ⟨a, b, t, hx, hy, ht, hab⟩ | ⟨e, t, hx, hy, ht⟩ := hp.cases
  · rw [hx, hy]
    exact (hf a b t ht hab).after ht
  · rw [hx, hy]
    exact .error ht

theorem imp {R' : Table → α → β → Prop} {p : Parser α} {q : Parser β} {s : State}
    (h : Along R p q s) (hR : ∀ t a b, R t a b → R' t a b) : Along R' p q s := by
  rw [Along]
  obtain ⟨a, b, t, hx, hy, ht, hab⟩ | ⟨e, t, hx, hy, ht⟩ := h.cases
  · rw [hx, hy]
    exact .ok ht (hR _ _ _ hab)
  · rw [hx, hy]
    exact .error ht

theorem of_apply_eq {p p' : Parser α} {q q' : Parser β} {s : State} (h : Along R p' q' s)
    (hp : p s = p' s) (hq : q s = q' s) : Along R p q s := by
  rwa [Along, hp, hq]

/-- Both go on with what is read off the state. -/
theorem same {p : Parser α} {f : α → Parser γ} {g : α → Parser δ} {s : State}
    (hp : Along Same p p s)
    (hf : ∀ a t, s.table.Within t.table → Along Q (f a) (g a) t) :
    Along Q (p >>= f) (p >>= g) s := by
  refine hp.bind fun a b t ht hab => ?_
  obtain rfl := hab
  exact hf a t ht

end Along

theorem along_peek {f : TokenKind → Parser γ} {g : TokenKind → Parser δ} {s : State} :
    Along Q (peek >>= f) (peek >>= g) s ↔ Along Q (f s.current.kind) (g s.current.kind) s := Iff.rfl

theorem along_currentLine {f : Value → Parser γ} {g : Value → Parser δ} {s : State} :
    Along Q (currentLine >>= f) (currentLine >>= g) s ↔
      Along Q (f (.int s.current.line)) (g (.int s.current.line)) s := Iff.rfl

theorem along_fail {p : Problem} {s : State} : Along R (fail p) (fail p) s := .error (.refl _)

theorem along_advance {s : State} : Along Same advance advance s := by
  unfold Along
  rw [advance_eq]
  split
  · exact .ok (.refl _) rfl
  · exact .error (.refl _)

theorem along_consume {kind : TokenKind} {p : Problem} {s : State} :
    Along Same (consume kind p) (consume kind p) s := by
  unfold consume
  rw [along_peek]
  split
  · exact along_advance
  · exact along_fail

theorem along_complain {p : Problem} {s : State} :
    Along Same (complain p) (complain p) s := .ok (.refl _) rfl

theorem along_expect {kind : TokenKind} {p : Problem} {s : State} :
    Along Same (expect kind p) (expect kind p) s := by
  unfold expect
  rw [along_peek]
  split
  · exact along_advance.same fun _ _ _ => .pure rfl
  · exact along_complain.same fun _ _ _ => .pure rfl

theorem alongside_skipAmong (ends : TokenKind → Bool) (ending : Ending) (rs : List Reading)
    (s : State) : Alongside Same s.table (skipAmong ends ending rs s)
      (skipAmong ends ending rs s) := by
  induction rs generalizing s with
  | nil =>
    unfold skipAmong
    split
    · exact .ok (.refl _) rfl
    · split
      · exact .ok (.refl _) rfl
      · exact .error (.refl _)
  | cons r rest ih =>
    rw [skipAmong]
    split
    · exact .ok (.refl _) rfl
    · exact ih (s.receive r ⟨rest, ending⟩)

theorem along_skipSemicolons {s : State} :
    Along Same skipSemicolons skipSemicolons s := alongside_skipAmong _ _ _ s

theorem along_recover {followers : TokenKind → Bool} {d : Diagnostic} {s : State} :
    Along Same (recover followers d) (recover followers d) s :=
  alongside_skipAmong _ _ _ (s.reported d)

theorem Along.attempt {p : Parser α} {q : Parser β} {followers : TokenKind → Bool} {s : State}
    (h : Along R p q s) :
    Along (fun t => Option.Rel (R t)) (attempt followers p) (attempt followers q) s := by
  unfold Along Parsing.attempt
  obtain ⟨a, b, t, hx, hy, ht, hab⟩ | ⟨e, t, hx, hy, ht⟩ := h.cases
  · rw [hx, hy]
    exact .ok ht (.some hab)
  · rw [hx, hy]
    cases e with
    | problem d =>
      have hrecover : Along Same (recover followers d) (recover followers d) t := along_recover
      dsimp only
      obtain ⟨_, _, u, hu, -, htu, -⟩ | ⟨_, u, hu, -, htu⟩ := hrecover.cases
      · rw [hu]
        exact .ok (ht.trans htu) .none
      · rw [hu]
        exact .error (ht.trans htu)
    | unreadable fault => exact .error ht
    | outOfFuel => exact .error ht

theorem along_separate {s : State} : Along Same separate separate s := by
  unfold separate
  rw [along_peek]
  split
  · exact along_skipSemicolons
  · split
    · exact along_complain
    · split
      · exact along_recover
      · exact .pure rfl

theorem along_separateBranch {s : State} :
    Along Same separateBranch separateBranch s := by
  unfold separateBranch
  rw [along_peek]
  split
  · exact along_skipSemicolons
  · split
    · exact along_complain
    · exact .pure rfl

/-! ## Expressions -/

/-- **A variable is bound to the place of its name**, whether it is found or entered. -/
theorem along_variableNode {assigned : Bool} {s : State} :
    Along (fun t b n => ∃ tok place, b = variableAt tok place ∧ n = variableAt tok place ∧
      t.place? tok.text = some place) (variableNode assigned : Parser BoundNode)
      (variableNode assigned : Parser Node) s := by
  have hconsume : Along Same (consume .identifier .expectingIdentifier)
      (consume .identifier .expectingIdentifier) s := along_consume
  rw [Along, variableNode_place, variableNode_place]
  obtain ⟨tok, _, t, ht, -, hwithin, -⟩ | ⟨e, t, ht, -, hwithin⟩ := hconsume.cases
  · rw [ht]
    refine .ok ?_ ⟨tok, _, rfl, rfl, ?_⟩
    · rw [State.table_named]
      exact hwithin.trans (Table.within_enter _ _)
    · rw [State.table_named]
      cases hp : t.table.place? tok.text with
      | some place => exact Table.place?_enter_of_some hp
      | none => exact Table.place?_enter_self hp
  · rw [ht]
    exact .error hwithin

theorem along_variable {assigned : Bool} {s : State} :
    Along Binds (variableNode assigned) (variableNode assigned) s := by
  refine along_variableNode.imp ?_
  rintro t b n ⟨tok, place, rfl, rfl, hplace⟩
  exact binds_variableAt hplace

theorem along_integerNode {p : Problem} {s : State} :
    Along Binds (integerNode p) (integerNode p) s :=
  along_consume.same fun _ _ _ => .pure (BindsAll.nil.make _ (by decide) _ _ _)

/-- What is shown of the parsers of expressions by induction on the fuel. -/
structure ExpressionParsersBind (fuel : Nat) : Prop where
  expression (s : State) : Along Binds (expressionWith fuel) (expressionWith fuel) s
  simple (s : State) : Along Binds (simpleExpressionWith fuel) (simpleExpressionWith fuel) s
  sumRest (s : State) {b : BoundNode} {n : Node} : Binds s.table b n →
    Along Binds (sumRest fuel b) (sumRest fuel n) s
  term (s : State) : Along Binds (termWith fuel) (termWith fuel) s
  productRest (s : State) {b : BoundNode} {n : Node} : Binds s.table b n →
    Along Binds (productRest fuel b) (productRest fuel n) s
  factor (s : State) : Along Binds (factorWith fuel) (factorWith fuel) s

theorem Plain.ne_var {kind : Kind} (h : Plain kind) : kind ≠ .var := by
  rintro rfl
  cases h.bringsName

namespace ExpressionParsersBind

variable {fuel : Nat}

theorem expression_succ (ih : ExpressionParsersBind fuel) (s : State) :
    Along Binds (expressionWith (fuel + 1)) (expressionWith (fuel + 1)) s := by
  rw [expressionWith, expressionWith]
  refine (ih.simple s).bind fun b n t _ hleft => ?_
  rw [along_peek]
  cases hr : relation? t.current.kind with
  | none => exact .pure hleft
  | some kind =>
    refine along_advance.same fun op u hu => ?_
    refine (ih.simple u).bind fun c m v hv hright => .pure ?_
    exact ((hleft.grow (hu.trans hv)).cons hright.single).make _
      (plain_of_relation? hr).ne_var _ _ _

theorem sumRest_succ (ih : ExpressionParsersBind fuel) (s : State) {b : BoundNode} {n : Node}
    (hleft : Binds s.table b n) :
    Along Binds (Parsing.sumRest (fuel + 1) b) (Parsing.sumRest (fuel + 1) n) s := by
  rw [Parsing.sumRest, Parsing.sumRest, along_peek]
  cases ho : sumOperator? s.current.kind with
  | none => exact .pure hleft
  | some kind =>
    refine along_advance.same fun op u hu => ?_
    refine (ih.term u).bind fun c m v hv hright => ih.sumRest v ?_
    exact ((hleft.grow (hu.trans hv)).cons hright.single).make _
      (plain_of_sumOperator? ho).ne_var _ _ _

theorem productRest_succ (ih : ExpressionParsersBind fuel) (s : State) {b : BoundNode} {n : Node}
    (hleft : Binds s.table b n) :
    Along Binds (Parsing.productRest (fuel + 1) b) (Parsing.productRest (fuel + 1) n) s := by
  rw [Parsing.productRest, Parsing.productRest, along_peek]
  cases ho : productOperator? s.current.kind with
  | none => exact .pure hleft
  | some kind =>
    refine along_advance.same fun op u hu => ?_
    refine (ih.factor u).bind fun c m v hv hright => ih.productRest v ?_
    exact ((hleft.grow (hu.trans hv)).cons hright.single).make _
      (plain_of_productOperator? ho).ne_var _ _ _

theorem factor_succ (ih : ExpressionParsersBind fuel) (s : State) :
    Along Binds (factorWith (fuel + 1)) (factorWith (fuel + 1)) s := by
  rw [factorWith, factorWith, along_peek]
  split
  · exact along_variable
  · exact along_integerNode
  · exact along_advance.same fun _ _ _ => .pure (BindsAll.nil.make _ (by decide) _ _ _)
  · -- A sign.
    refine along_advance.same fun _ t _ => (ih.factor t).bind fun b n u _ hn => .pure ?_
    exact hn.single.make _ (by decide) _ _ _
  · -- A `NOT`.
    refine along_advance.same fun _ t _ => (ih.expression t).bind fun b n u _ hn => .pure ?_
    exact hn.single.make _ (by decide) _ _ _
  · -- Parentheses, which leave no node of their own.
    refine along_advance.same fun _ t _ => (ih.expression t).bind fun b n u _ hn => ?_
    exact along_consume.same fun _ v hv => .pure (hn.grow hv)
  · exact along_fail

end ExpressionParsersBind

theorem expressionParsersBind (fuel : Nat) : ExpressionParsersBind fuel := by
  induction fuel with
  | zero =>
    constructor
    all_goals intros; exact .throw
  | succ fuel ih =>
    refine ⟨ih.expression_succ, fun s => ?_, ih.sumRest_succ, fun s => ?_, ih.productRest_succ,
      ih.factor_succ⟩
    · rw [simpleExpressionWith, simpleExpressionWith]
      exact (ih.term s).bind fun b n t _ hn => ih.sumRest t hn
    · rw [termWith, termWith]
      exact (ih.factor s).bind fun b n t _ hn => ih.productRest t hn

theorem along_expression {s : State} : Along Binds expression expression s :=
  have h := (expressionParsersBind s.fuel).expression s
  h.of_apply_eq (expression_apply s) (expression_apply s)

/-! ## Statements without statements in them -/

/-- The copy of the control variable has the entry of the variable that is assigned first. -/
theorem along_assignment {s : State} :
    Along (fun t b n => Binds t b n ∧ Binds t (controlOf b) (controlOf n)) assignment assignment
      s := by
  unfold assignment
  rw [along_currentLine]
  refine along_variableNode.bind ?_
  rintro b n t ht ⟨tok, place, rfl, rfl, hplace⟩
  refine along_consume.same fun _ u hu => along_expression.bind fun c m v hv hvalue => .pure ?_
  have htarget := (binds_variableAt hplace).grow (hu.trans hv)
  exact ⟨(htarget.cons hvalue.single).make _ (by decide) _ _ _, htarget⟩

theorem along_stringNode {s : State} : Along Binds stringNode stringNode s :=
  along_advance.same fun _ _ _ => .pure (BindsAll.nil.make _ (by decide) _ _ _)

theorem along_writeArgument {required : Bool} {s : State} :
    Along BindsAll (writeArgument required) (writeArgument required) s := by
  unfold writeArgument
  rw [along_peek]
  split
  · exact along_variable.bind fun _ _ _ _ hn => .pure hn.single
  · exact along_stringNode.bind fun _ _ _ _ hn => .pure hn.single
  · exact along_stringNode.bind fun _ _ _ _ hn => .pure hn.single
  · split
    · exact along_fail
    · exact .pure .nil

theorem along_writeField {s : State} : Along BindsAll writeField writeField s := by
  unfold writeField
  rw [along_peek]
  split
  · exact .pure .nil
  · refine along_advance.same fun _ t _ => along_integerNode.bind fun b n u _ hwidth => ?_
    rw [along_peek]
    split
    · exact .pure hwidth.single
    · refine along_advance.same fun _ v hv => along_integerNode.bind fun c m w hw hplaces => ?_
      exact .pure ((hwidth.grow (hv.trans hw)).cons hplaces.single)

theorem along_writeArguments {required : Bool} {s : State} :
    Along BindsAll (writeArguments required) (writeArguments required) s := by
  unfold writeArguments
  refine along_consume.same fun _ t _ => along_writeArgument.bind fun bs ns u _ hargument => ?_
  rw [hargument.isEmpty]
  -- The field is parsed in one of two branches, after which parsing goes on in the same way.
  have hclose : ∀ {cs : List BoundNode} {ms : List Node} {v : State}, u.table.Within v.table →
      BindsAll v.table cs ms → Along BindsAll
        (do let _ ← consume (.symbol .rparen) .missingRightParenthesis; return bs ++ cs)
        (do let _ ← consume (.symbol .rparen) .missingRightParenthesis; return ns ++ ms) v :=
    fun hv hfield => along_consume.same fun _ w hw =>
      .pure ((hargument.grow (hv.trans hw)).append (hfield.grow hw))
  dsimp only
  split
  · exact hclose (.refl _) .nil
  · exact along_writeField.bind fun cs ms v hv hfield => hclose hv hfield

theorem along_caseConstant {s : State} : Along Binds caseConstant caseConstant s := by
  unfold caseConstant
  rw [along_peek]
  split
  · exact along_integerNode
  · exact along_stringNode
  · refine along_advance.same fun _ t _ => along_integerNode.bind fun b n u _ hn => .pure ?_
    exact hn.single.make _ (by decide) _ _ _
  · exact along_fail

theorem along_moreConstants (fuel : Nat) (s : State) :
    Along BindsAll (moreConstants fuel) (moreConstants fuel) s := by
  induction fuel generalizing s with
  | zero => exact .throw
  | succ fuel ih =>
    rw [moreConstants, moreConstants, along_peek]
    split
    · refine along_advance.same fun _ t _ => along_caseConstant.bind fun b n u _ hn => ?_
      exact (ih u).bind fun bs ns v hv hns => .pure ((hn.grow hv).cons hns)
    · exact .pure .nil

theorem along_caseConstants {s : State} : Along BindsAll caseConstants caseConstants s := by
  unfold caseConstants
  refine along_caseConstant.bind fun b n t _ hn => ?_
  have hrest : Along BindsAll (fun u => moreConstants u.fuel u)
      (fun u => moreConstants u.fuel u) t :=
    (along_moreConstants t.fuel t).of_apply_eq rfl rfl
  exact hrest.bind fun bs ns u hu hns => .pure ((hn.grow hu).cons hns)

/-! ## Loops -/

section Loops

variable {t : Table} {condition body initial control bound : BoundNode}
  {condition' body' initial' control' bound' : Node}

theorem binds_whileLoop (line testLine : Value) (hc : Binds t condition condition')
    (hb : Binds t body body') :
    Binds t (whileLoop line testLine condition body)
      (whileLoop line testLine condition' body') := by
  have hnegated := hc.single.make .not (by decide) testLine (.text "NOT") .null
  have htest := hnegated.single.make .test (by decide) testLine .null .null
  exact (htest.cons hb.single).make _ (by decide) _ _ _

theorem binds_passed (d : Direction) (line : Value) (hc : Binds t control control')
    (hb : Binds t bound bound') :
    Binds t (d.passed line control bound) (d.passed line control' bound') := by
  cases d <;> exact (hc.cons hb.single).make _ (by decide) _ _ _

theorem binds_stepped (d : Direction) (line : Value) (hc : Binds t control control') :
    Binds t (d.stepped line control) (d.stepped line control') := by
  have hone := BindsAll.nil.make (t := t) .integer (by decide) line (.text "1") (.int 1)
  cases d <;> exact (hc.cons hone.single).make _ (by decide) _ _ _

theorem binds_forLoop (d : Direction) (line boundLine : Value) (hi : Binds t initial initial')
    (hc : Binds t control control') (hbound : Binds t bound bound') (hbody : Binds t body body') :
    Binds t (forLoop d line boundLine initial control bound body)
      (forLoop d line boundLine initial' control' bound' body') := by
  have htest := (binds_passed d boundLine hc hbound).single.make .test (by decide)
    boundLine .null .null
  have hstep := (hc.cons (binds_stepped d line hc).single).make .assign (by decide)
    line .null .null
  have hloop := (htest.cons (hbody.cons hstep.single)).make .loop (by decide)
    line .null .null
  exact (hi.cons hloop.single).make _ (by decide) _ _ _

end Loops

/-! ## Statements -/

/-- What is shown of the parsers of statements by induction on the fuel. -/
structure StatementParsersBind (fuel : Nat) : Prop where
  statement (s : State) :
    Along (fun t => Option.Rel (Binds t)) (statementWith fuel) (statementWith fuel) s
  branch (s : State) : Along Binds (branchWith fuel) (branchWith fuel) s
  statements (s : State) : Along BindsAll (statementsWith fuel) (statementsWith fuel) s
  caseBranches (s : State) : Along BindsAll (caseBranchesWith fuel) (caseBranchesWith fuel) s
  caseBranch (s : State) : Along Binds (caseBranchWith fuel) (caseBranchWith fuel) s

/-- What is left of a statement that may be empty. -/
theorem bindsAll_toList {t : Table} {o : Option BoundNode} {o' : Option Node}
    (h : Option.Rel (Binds t) o o') : BindsAll t o.toList o'.toList := by
  cases h with
  | some hn => exact hn.single
  | none => exact .nil

theorem bindsAll_join {t : Table} {o : Option (Option BoundNode)} {o' : Option (Option Node)}
    (h : Option.Rel (Option.Rel (Binds t)) o o') : BindsAll t o.join.toList o'.join.toList := by
  cases h with
  | some hn => exact bindsAll_toList hn
  | none => exact .nil

namespace StatementParsersBind

variable {fuel : Nat}

theorem statement_succ (ih : StatementParsersBind fuel) (s : State) :
    Along (fun t => Option.Rel (Binds t)) (statementWith (fuel + 1)) (statementWith (fuel + 1))
      s := by
  -- Parts bound earlier stay bound while the table grows, so each is carried to the last state.
  rw [statementWith, statementWith, along_peek]
  split
  · exact along_assignment.bind fun _ _ _ _ hn => .pure (.some hn.1)
  · -- A compound statement.
    rw [along_currentLine]
    refine along_advance.same fun _ t _ => (ih.statements t).bind fun bs ns u _ hns => ?_
    exact along_expect.same fun _ v hv => .pure (.some ((hns.grow hv).make _ (by decide) _ _ _))
  · -- A `REPEAT` loop.
    rw [along_currentLine]
    refine along_advance.same fun _ t _ => (ih.statements t).bind fun bs ns u _ hns => ?_
    rw [along_currentLine]
    refine along_consume.same fun _ v hv => along_expression.bind fun c m w hw hc => ?_
    have htest := hc.single.make .test (by decide) (.int u.current.line) .null .null
    have hchildren := (hns.grow (hv.trans hw)).append htest.single
    exact .pure (.some (hchildren.make _ (by decide) _ _ _))
  · -- A `WRITE` statement.
    refine Along.bind (R := Binds) ?_ fun _ _ _ _ hn => .pure (.some hn)
    unfold writeStatement
    rw [along_currentLine]
    refine along_advance.same fun _ t _ => along_writeArguments.bind fun bs ns u _ hns => ?_
    exact .pure (hns.make _ (by decide) _ _ _)
  · -- A `WRITELN` statement.
    refine Along.bind (R := Binds) ?_ fun _ _ _ _ hn => .pure (.some hn)
    unfold writelnStatement
    rw [along_currentLine]
    refine along_advance.same fun _ t _ => ?_
    rw [along_peek]
    split
    · exact along_writeArguments.bind fun bs ns u _ hns => .pure (hns.make _ (by decide) _ _ _)
    · exact .pure (BindsAll.nil.make _ (by decide) _ _ _)
  · -- A `WHILE` loop.
    rw [along_currentLine]
    refine along_advance.same fun _ t _ => ?_
    rw [along_currentLine]
    refine along_expression.bind fun c m u _ hc => along_consume.same fun _ v hv => ?_
    refine (ih.branch v).bind fun b n w hw hb => .pure (.some ?_)
    exact binds_whileLoop _ _ (hc.grow (hv.trans hw)) hb
  · -- A `FOR` loop.
    rw [along_currentLine]
    refine along_advance.same fun _ t _ => along_assignment.bind ?_
    rintro initial initial' u hu ⟨hi, hc⟩
    rw [along_peek]
    cases direction? u.current.kind with
    | none => exact along_fail
    | some d =>
      refine along_advance.same fun word v hv => along_expression.bind fun b m w hw hbound => ?_
      refine along_consume.same fun _ x hx => (ih.branch x).bind fun body n y hy hbody => ?_
      -- The copies of the control variable get the entry that the assignment has given it.
      have hlater := (hv.trans hw).trans (hx.trans hy)
      exact .pure (.some (binds_forLoop d _ _ (hi.grow hlater) (hc.grow hlater)
        (hbound.grow (hx.trans hy)) hbody))
  · -- A conditional.
    rw [along_currentLine]
    refine along_advance.same fun _ t _ => along_expression.bind fun c m u _ hc => ?_
    refine along_consume.same fun _ v hv => (ih.branch v).bind fun b n w hw hfirst => ?_
    rw [along_peek]
    split
    · refine along_advance.same fun _ x hx => (ih.branch x).bind fun b' n' y hy hsecond => ?_
      have hchildren := (hc.grow ((hv.trans hw).trans (hx.trans hy))).cons
        ((hfirst.grow (hx.trans hy)).cons hsecond.single)
      exact .pure (.some (hchildren.make _ (by decide) _ _ _))
    · have hchildren := (hc.grow (hv.trans hw)).cons hfirst.single
      exact .pure (.some (hchildren.make _ (by decide) _ _ _))
  · -- A selection.
    rw [along_currentLine]
    refine along_advance.same fun _ t _ => along_expression.bind fun c m u _ hvalue => ?_
    refine along_consume.same fun _ v hv => (ih.caseBranches v).bind fun bs ns w hw hns => ?_
    refine along_expect.same fun _ x hx => .pure (.some ?_)
    have hchildren := (hvalue.grow ((hv.trans hw).trans hx)).cons (hns.grow hx)
    exact hchildren.make _ (by decide) _ _ _
  · split
    · exact .pure .none
    · exact along_fail

theorem branch_succ (ih : StatementParsersBind fuel) (s : State) :
    Along Binds (branchWith (fuel + 1)) (branchWith (fuel + 1)) s := by
  rw [branchWith, branchWith, along_currentLine]
  refine (ih.statement s).bind fun o o' t _ ho => ?_
  cases ho with
  | some hn => exact .pure hn
  | none => exact .pure (BindsAll.nil.make _ (by decide) _ _ _)

theorem statements_succ (ih : StatementParsersBind fuel) (s : State) :
    Along BindsAll (statementsWith (fuel + 1)) (statementsWith (fuel + 1)) s := by
  rw [statementsWith, statementsWith, along_peek]
  split
  · exact .pure .nil
  · refine (ih.statement s).attempt.bind fun o o' t _ ho => ?_
    refine along_separate.same fun _ u hu => (ih.statements u).bind fun bs ns v hv hns => ?_
    exact .pure (((bindsAll_join ho).grow (hu.trans hv)).append hns)

theorem caseBranches_succ (ih : StatementParsersBind fuel) (s : State) :
    Along BindsAll (caseBranchesWith (fuel + 1)) (caseBranchesWith (fuel + 1)) s := by
  rw [caseBranchesWith, caseBranchesWith, along_peek]
  split
  · exact .pure .nil
  · refine (ih.caseBranch s).attempt.bind fun o o' t _ ho => ?_
    refine along_separateBranch.same fun _ u hu =>
      (ih.caseBranches u).bind fun bs ns v hv hns => ?_
    exact .pure (((bindsAll_toList ho).grow (hu.trans hv)).append hns)

theorem caseBranch_succ (ih : StatementParsersBind fuel) (s : State) :
    Along Binds (caseBranchWith (fuel + 1)) (caseBranchWith (fuel + 1)) s := by
  rw [caseBranchWith, caseBranchWith, along_currentLine]
  refine along_caseConstants.bind fun bs ns t _ hns => along_consume.same fun _ u hu => ?_
  refine (ih.branch u).bind fun b n v hv hbody => .pure ?_
  have hlabels := (hns.grow (hu.trans hv)).make .selectConstants (by decide)
    (.int s.current.line) .null .null
  exact (hlabels.cons hbody.single).make _ (by decide) _ _ _

end StatementParsersBind

theorem statementParsersBind (fuel : Nat) : StatementParsersBind fuel := by
  induction fuel with
  | zero =>
    constructor
    all_goals intros; exact .throw
  | succ fuel ih =>
    exact ⟨ih.statement_succ, ih.branch_succ, ih.statements_succ, ih.caseBranches_succ,
      ih.caseBranch_succ⟩

/-! ## Programs -/

theorem along_header {s : State} : Along Same header header s := by
  unfold header
  have hname : Along Same (do
      let _ ← consume (.keyword .PROGRAM) .expectingProgram
      let name ← consume .identifier .expectingProgramName
      enterName name.text
      return name) (do
      let _ ← consume (.keyword .PROGRAM) .expectingProgram
      let name ← consume .identifier .expectingProgramName
      enterName name.text
      return name) s := by
    refine along_consume.same fun _ t _ => along_consume.same fun name u _ => ?_
    have henter : Along Same (enterName name.text) (enterName name.text) u :=
      .ok (Table.within_enter _ _) rfl
    exact henter.same fun _ _ _ => .pure rfl
  refine hname.attempt.bind fun o o' t _ ho => ?_
  cases ho with
  | none => exact .pure rfl
  | @some name name' he =>
    obtain rfl := he
    exact along_consume.attempt.bind fun _ _ _ _ _ => .pure rfl

theorem along_body {s : State} : Along Binds body body s := by
  unfold body
  rw [along_currentLine]
  refine along_expect.same fun opened t _ => ?_
  rw [along_peek]
  split
  · exact .pure (BindsAll.nil.make _ (by decide) _ _ _)
  · have hstatements : Along BindsAll statements statements t :=
      ((statementParsersBind t.fuel).statements t).of_apply_eq (statements_apply t)
        (statements_apply t)
    refine hstatements.bind fun bs ns u _ hns => along_expect.same fun _ v hv => ?_
    refine along_expect.same fun _ w hw => .pure ?_
    exact (hns.grow (hv.trans hw)).make _ (by decide) _ _ _

/-- **Every program is bound.** -/
theorem along_program {s : State} : Along Binds program program s := by
  unfold program
  rw [along_currentLine]
  refine along_header.same fun name t _ => along_body.bind fun b n u _ hb => .pure ?_
  exact hb.single.make _ (by decide) _ _ _

/-- **Erasure.** A program is parsed to a plain tree as it is parsed to a bound one, but for the
entries. -/
theorem program_erase (s : State) : program s = match (program : Parser BoundNode) s with
    | .ok b t => .ok b.erase t
    | .error e t => .error e t := by
  have h : Along Binds program program s := along_program
  obtain ⟨b, n, t, hx, hy, -, hbinds⟩ | ⟨e, t, hx, hy, -⟩ := h.cases
  · rw [hx, hy, ← hbinds.erase]
  · rw [hx, hy]

end Parsing

end MiniPascal
