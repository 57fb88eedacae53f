import MiniPascal.Proofs.Parsing.BuildStatement

/-!
# What is parsed is derived

**Soundness** (`BuildsProgram.derived`). Where parsing reports no problem, the tokens that were
moved over are a sentence of the grammar, and the tree stands for a derivation of it. Expressions
are never recovered from, so for them this holds of every result.
-/

namespace MiniPascal.Parsing

open Grammar

/-! ## Signs -/

theorem relation?_eq_some {k : TokenKind} {kind : Kind} (h : relation? k = some kind) :
    ∃ r, RelationSign k r ∧ kind = .relation r := by
  unfold relation? at h
  split at h <;> cases h <;> exact ⟨_, by constructor, rfl⟩

theorem sumOperator?_eq_some {k : TokenKind} {kind : Kind} (h : sumOperator? k = some kind) :
    ∃ a, SumSign k a ∧ kind = .arithmetic a := by
  unfold sumOperator? at h
  split at h <;> cases h <;> exact ⟨_, by constructor, rfl⟩

theorem productOperator?_eq_some {k : TokenKind} {kind : Kind}
    (h : productOperator? k = some kind) : ProductSign k kind := by
  unfold productOperator? at h
  split at h <;> cases h <;> constructor

theorem direction?_eq_some {k : TokenKind} {d : Direction} (h : direction? k = some d) :
    DirectionWord k d := by
  unfold direction? at h
  split at h <;> cases h <;> constructor

/-! ## Expressions -/

/-- The tokens moved over by an expression derive it. -/
theorem BuildsExpression.derived {level : Level} {s t : State} {n : Node}
    (h : BuildsExpression level s n t) :
    ∃ w, Expression level w n ∧ s.ahead = w ++ t.ahead := by
  induction h with
  | simple _ _ ih =>
    obtain ⟨w, hw, ha⟩ := ih
    exact ⟨w, .simple hw, ha⟩
  | relation _ ho hm _ ih₁ ih₂ =>
    obtain ⟨u, hu, hau⟩ := ih₁
    obtain ⟨v, hv, hav⟩ := ih₂
    obtain ⟨r, hr, rfl⟩ := relation?_eq_some ho
    exact ⟨_, .relation hu hr hv, by rw [hau, hm.ahead, hav]; simp⟩
  | term _ ih =>
    obtain ⟨w, hw, ha⟩ := ih
    exact ⟨w, .term hw, ha⟩
  | sum _ ho hm _ ih₁ ih₂ =>
    obtain ⟨u, hu, hau⟩ := ih₁
    obtain ⟨v, hv, hav⟩ := ih₂
    obtain ⟨a, ha, rfl⟩ := sumOperator?_eq_some ho
    exact ⟨_, .sum hu ha hv, by rw [hau, hm.ahead, hav]; simp⟩
  | factor _ ih =>
    obtain ⟨w, hw, ha⟩ := ih
    exact ⟨w, .factor hw, ha⟩
  | product _ ho hm _ ih₁ ih₂ =>
    obtain ⟨u, hu, hau⟩ := ih₁
    obtain ⟨v, hv, hav⟩ := ih₂
    exact ⟨_, .product hu (productOperator?_eq_some ho) hv, by rw [hau, hm.ahead, hav]; simp⟩
  | name hk hm => exact ⟨_, .name hk, by rw [hm.ahead, State.ahead_named]; rfl⟩
  | integer hk hm => exact ⟨_, .integer hk, hm.ahead⟩
  | real hk hm => exact ⟨_, .real hk, hm.ahead⟩
  | negate hk hm _ ih =>
    obtain ⟨w, hw, ha⟩ := ih
    exact ⟨_, .negate hk hw, by rw [hm.ahead, ha]; rfl⟩
  | not hk hm _ ih =>
    obtain ⟨w, hw, ha⟩ := ih
    exact ⟨_, .not hk hw, by rw [hm.ahead, ha]; rfl⟩
  | paren hk hm _ hr hm' ih =>
    obtain ⟨w, hw, ha⟩ := ih
    exact ⟨_, .paren hk hw hr, by rw [hm.ahead, ha, hm'.ahead]; simp⟩

/-! ## Parts of statements -/

theorem BuildsAssignment.derived {s t : State} {target : Token} {value : Node}
    (h : BuildsAssignment s target value t) :
    ∃ a w, target.kind = .identifier ∧ a.kind = .symbol .colonEquals ∧
      Expression .expression w value ∧ s.ahead = target :: a :: w ++ t.ahead := by
  obtain ⟨hk, hm, hc, hm', he⟩ := h
  obtain ⟨w, hw, ha⟩ := he.derived
  have ha' := hm'.ahead
  rw [State.ahead_named, State.current_named] at ha'
  exact ⟨_, w, hk, hc, hw, by rw [hm.ahead, ha', ha]; rfl⟩

theorem BuildsArgument.derived {s t : State} {n : Node} (h : BuildsArgument s n t) :
    Writable s.current n ∧ s.ahead = s.current :: t.ahead := by
  cases h with
  | name hk hm => exact ⟨.name hk, by rw [State.ahead_named]; exact hm.ahead⟩
  | text hk hm =>
    rcases hk with hk | hk
    · exact ⟨.character hk, hm.ahead⟩
    · exact ⟨.string hk, hm.ahead⟩

theorem BuildsArguments.derived {required : Bool} {s t : State} {ns : List Node}
    (h : BuildsArguments required s ns t) :
    ∃ l w r, l.kind = .symbol .lparen ∧ r.kind = .symbol .rparen ∧
      (Argument w ns ∨ required = false ∧ w = [] ∧ ns = []) ∧
      s.ahead = l :: w ++ r :: t.ahead := by
  cases h with
  | none hq hl hm hr hm' =>
    exact ⟨_, [], _, hl, hr, .inr ⟨hq, rfl, rfl⟩, by rw [hm.ahead, hm'.ahead]; rfl⟩
  | some hl hm ha hf hr hm' =>
    obtain ⟨hw, hah⟩ := ha.derived
    cases hf with
    | none => exact ⟨_, _, _, hl, hr, .inl (.plain hw), by rw [hm.ahead, hah, hm'.ahead]; rfl⟩
    | width hc h₁ hi h₂ =>
      exact ⟨_, _, _, hl, hr, .inl (.width hw hc hi),
        by rw [hm.ahead, hah, h₁.ahead, h₂.ahead, hm'.ahead]; rfl⟩
    | places hc h₁ hi h₂ hd h₃ hj h₄ =>
      exact ⟨_, _, _, hl, hr, .inl (.places hw hc hi hd hj),
        by rw [hm.ahead, hah, h₁.ahead, h₂.ahead, h₃.ahead, h₄.ahead, hm'.ahead]; rfl⟩

theorem BuildsConstant.derived {s t : State} {c : Node} (h : BuildsConstant s c t) :
    ∃ w, Constant w c ∧ s.ahead = w ++ t.ahead := by
  cases h with
  | integer hk hm => exact ⟨_, .integer hk, hm.ahead⟩
  | character hk hm => exact ⟨_, .character hk, hm.ahead⟩
  | negated hk hm hi hm' => exact ⟨_, .negated hk hi, by rw [hm.ahead, hm'.ahead]; rfl⟩

theorem BuildsConstants.derived {s t : State} {cs : List Node} (h : BuildsConstants s cs t) :
    ∃ w, Constants w cs ∧ s.ahead = w ++ t.ahead := by
  induction h with
  | one hc _ =>
    obtain ⟨w, hw, ha⟩ := hc.derived
    exact ⟨w, .one hw, ha⟩
  | more hc hk hm _ ih =>
    obtain ⟨u, hu, hau⟩ := hc.derived
    obtain ⟨v, hv, hav⟩ := ih
    exact ⟨_, .more hu hk hv, by rw [hau, hm.ahead, hav]; simp⟩

/-- The semicolons moved over, of which the current token is the first. -/
theorem SkipsSemicolons.derived {s t : State} (hk : s.current.kind = .symbol .semicolon)
    (h : SkipsSemicolons s t) :
    ∃ w, Semicolons s.current w ∧ s.ahead = s.current :: w ++ t.ahead := by
  have hall : ∀ {u : State}, Skips (· != .symbol .semicolon) u t →
      ∃ w, (∀ y ∈ w, y.kind = .symbol .semicolon) ∧ u.ahead = w ++ t.ahead := by
    intro u hu
    induction hu using Relation.ReflTransGen.head_induction_on with
    | refl => exact ⟨[], by simp, rfl⟩
    | head hm _ ih =>
      obtain ⟨w, hw, ha⟩ := ih
      refine ⟨_ :: w, ?_, by rw [hm.2.ahead, ha]; rfl⟩
      simp only [List.mem_cons, forall_eq_or_imp]
      exact ⟨by simpa using hm.1, hw⟩
  obtain ⟨w, hw, ha⟩ := hall h.skips
  cases w with
  | nil =>
    rw [List.nil_append] at ha
    have hne : s.ahead ≠ [] := by rw [ne_eq, State.ahead_eq_nil_iff, hk]; decide
    obtain ⟨x, rest, hx⟩ := List.exists_cons_of_ne_nil hne
    have := State.current_of_ahead hx
    have := State.current_of_ahead (ha ▸ hx)
    exact absurd (by simp_all) h.stops
  | cons x w =>
    obtain rfl := State.current_of_ahead ha
    exact ⟨w, hw, ha⟩

/-! ## Statements -/

/-- Without a report, an expected token is there. -/
theorem Expects.found_of_problems {kind : TokenKind} {p : Problem} {s t : State}
    (h : Expects kind p s t) (hp : t.problems = s.problems) :
    s.current.kind = kind ∧ Moves s t := by
  cases h with
  | found hk hm => exact ⟨hk, hm⟩
  | missing => exact absurd hp (Nat.succ_ne_self _)

theorem BuildsStatement.eq_of_nil {s t : State} (h : BuildsStatement .statement s [] t) :
    t = s := by
  cases h; rfl

/-- A list that starts at a closing word has no statements. -/
theorem BuildsStatement.list_of_closes {s t : State} {ns : List Node}
    (h : BuildsStatement .list s ns t) (hc : closesBlock s.current.kind = true) :
    ns = [] ∧ t = s := by
  cases h with
  | listEnd => exact ⟨rfl, rfl⟩
  | listItem hc' | listGap hc' => rw [hc] at hc'; cases hc'

/-- A branch starts with a constant. -/
theorem BuildsStatement.startsConstant {s t : State} {ns : List Node}
    (h : BuildsStatement .caseBranch s ns t) : startsConstant s.current.kind = true := by
  have hc : ∀ {c : Node} {u : State}, BuildsConstant s c u →
      Parsing.startsConstant s.current.kind = true := by
    intro c u hc
    cases hc with
    | integer hk | character hk | negated hk => rw [hk]; rfl
  cases h with
  | caseBranch hcs =>
    cases hcs with
    | one h | more h => exact hc h

/-- **Soundness for statements.** If no problem was reported, the tokens moved over derive what was
built. -/
theorem BuildsStatement.derived {phrase : Phrase} {s t : State} {ns : List Node}
    (h : BuildsStatement phrase s ns t) (hp : t.problems = s.problems) :
    ∃ w, Statement phrase w t.current.line ns ∧ s.ahead = w ++ t.ahead := by
  -- Counts of problems only grow. If the last one is the first one, then so are all between, and
  -- every part was built without a report.
  induction h with
  | empty _ => exact ⟨[], .empty, rfl⟩
  | assign ha =>
    obtain ⟨a, w, hk, hc, hw, hah⟩ := ha.derived
    exact ⟨_, .assign hk hc hw, hah⟩
  | @compound s t u v ns hk hm hl he ih =>
    have h₁ := hl.reaches.problems_le
    have h₂ := (he.reaches rfl).problems_le
    have h₃ := hm.problems
    obtain ⟨w, hw, ha⟩ := ih (by omega)
    -- A missing `END` would have been reported.
    obtain ⟨hend, hm'⟩ := he.found_of_problems (by omega)
    exact ⟨_, .compound hk hw hend, by rw [hm.ahead, ha, hm'.ahead]; simp⟩
  | @repeatUntil s t u v w ns condition hk hm hl hu hm' hc ih =>
    have h₁ := hl.reaches.problems_le
    have h₂ := hc.reaches.problems_le
    have h₃ := hm.problems
    have h₄ := hm'.problems
    obtain ⟨x, hx, hax⟩ := ih (by omega)
    obtain ⟨y, hy, hay⟩ := hc.derived
    exact ⟨_, .repeatUntil hk hx hu hy, by rw [hm.ahead, hax, hm'.ahead, hay]; simp⟩
  | write hk hm ha =>
    obtain ⟨l, w, r, hl, hr, hw | ⟨hq, -⟩, hah⟩ := ha.derived
    · exact ⟨_, .write hk hl hw hr, by rw [hm.ahead, hah]; simp⟩
    -- `WRITE` needs an argument, so the empty parentheses are left to `WRITELN`.
    · cases hq
  | writeln hk hm ha =>
    obtain ⟨l, w, r, hl, hr, hw | ⟨-, rfl, rfl⟩, hah⟩ := ha.derived
    · exact ⟨_, .writeln hk hl hw hr, by rw [hm.ahead, hah]; simp⟩
    · exact ⟨_, .writelnNothing hk hl hr, by rw [hm.ahead, hah]; rfl⟩
  | writelnBare hk hm _ => exact ⟨_, .writelnBare hk, hm.ahead⟩
  | @whileDo s t u v w condition body hk hm hc hd hm' hb ih =>
    have h₁ := hc.reaches.problems_le
    have h₂ := hb.reaches.problems_le
    have h₃ := hm.problems
    have h₄ := hm'.problems
    obtain ⟨x, hx, hax⟩ := hc.derived
    obtain ⟨y, hy, hay⟩ := ih (by omega)
    -- The line of the test is that of the first token of its condition.
    obtain ⟨first, x, rfl⟩ := List.exists_cons_of_ne_nil hx.ne_nil
    obtain rfl := State.current_of_ahead hax
    exact ⟨_, .whileDo hk hx hd hy, by rw [hm.ahead, hax, hm'.ahead, hay]; simp⟩
  | @forDo s t u v w x y target value bound body d hk hm ha hdir hv hb hdo hm' hy ih =>
    have h₁ := ha.reaches.problems_le
    have h₂ := hb.reaches.problems_le
    have h₃ := hy.reaches.problems_le
    have h₄ := hm.problems
    have h₅ := hv.problems
    have h₆ := hm'.problems
    obtain ⟨a, p, hi, hc, hp, hap⟩ := ha.derived
    obtain ⟨q, hq, haq⟩ := hb.derived
    obtain ⟨r, hr, har⟩ := ih (by omega)
    exact ⟨_, .forDo hk hi hc hp (direction?_eq_some hdir) hq hdo hr,
      by rw [hm.ahead, hap, hv.ahead, haq, hm'.ahead, har]; simp⟩
  | @ifThen s t u v w condition first hk hm hc hd hm' hb _ ih =>
    have h₁ := hc.reaches.problems_le
    have h₂ := hb.reaches.problems_le
    have h₃ := hm.problems
    have h₄ := hm'.problems
    obtain ⟨x, hx, hax⟩ := hc.derived
    obtain ⟨y, hy, hay⟩ := ih (by omega)
    exact ⟨_, .ifThen hk hx hd hy, by rw [hm.ahead, hax, hm'.ahead, hay]; simp⟩
  | @ifThenElse s t u v w x y condition first second hk hm hc hd hm' hf he hx hs ih₁ ih₂ =>
    have h₁ := hc.reaches.problems_le
    have h₂ := hf.reaches.problems_le
    have h₃ := hs.reaches.problems_le
    have h₄ := hm.problems
    have h₅ := hm'.problems
    have h₆ := hx.problems
    obtain ⟨p, hp, hap⟩ := hc.derived
    obtain ⟨q, hq, haq⟩ := ih₁ (by omega)
    obtain ⟨r, hr, har⟩ := ih₂ (by omega)
    exact ⟨_, .ifThenElse hk hp hd hq he hr,
      by rw [hm.ahead, hap, hm'.ahead, haq, hx.ahead, har]; simp⟩
  | @caseOf s t u v w x value branches hk hm hv ho hm' hb he ih =>
    have h₁ := hv.reaches.problems_le
    have h₂ := hb.reaches.problems_le
    have h₃ := (he.reaches rfl).problems_le
    have h₄ := hm.problems
    have h₅ := hm'.problems
    obtain ⟨p, hp, hap⟩ := hv.derived
    obtain ⟨q, hq, haq⟩ := ih (by omega)
    obtain ⟨hend, hx⟩ := he.found_of_problems (by omega)
    exact ⟨_, .caseOf hk hp ho hq hend, by rw [hm.ahead, hap, hm'.ahead, haq, hx.ahead]; simp⟩
  | emptyBranch hs ih =>
    obtain rfl := hs.eq_of_nil
    exact ⟨[], .emptyBranch, rfl⟩
  | branch _ ih =>
    obtain ⟨w, hw, ha⟩ := ih hp
    exact ⟨w, .branch hw, ha⟩
  | listEnd _ => exact ⟨[], .listLast .empty, rfl⟩
  | @listItem s t u v ns ms _ hs hsep hl ih₁ ih₂ =>
    have h₁ := hs.reaches.problems_le
    have h₂ := hsep.reaches.problems_le
    have h₃ := hl.reaches.problems_le
    obtain ⟨x, hx, hax⟩ := ih₁ (by omega)
    obtain ⟨y, hy, hay⟩ := ih₂ (by omega)
    -- Of the four ways to go on, two report a problem.
    cases hsep with
    | semicolons hk hskip =>
      obtain ⟨z, hz, haz⟩ := hskip.derived hk
      exact ⟨_, .listMore hx hz hy, by rw [hax, haz, hay]; simp⟩
    | missing => simp only [State.reported] at h₂ h₃; omega
    | stray _ _ hr => have := hr.problems; omega
    | closed hc =>
      obtain ⟨rfl, rfl⟩ := hl.list_of_closes hc
      rw [List.append_nil]
      exact ⟨x, .listLast hx, hax⟩
  -- A statement that was abandoned was reported, so there is none.
  | listGap _ hr hsep hl _ =>
    have h₁ := hr.problems
    have h₂ := hsep.reaches.problems_le
    have h₃ := hl.reaches.problems_le
    omega
  | @caseBranch s t u v cs body hc hk hm hb ih =>
    have h₁ := hc.reaches.problems_le
    have h₂ := hb.reaches.problems_le
    have h₃ := hm.problems
    obtain ⟨x, hx, hax⟩ := hc.derived
    obtain ⟨y, hy, hay⟩ := ih (by omega)
    obtain ⟨first, x, rfl⟩ := List.exists_cons_of_ne_nil hx.ne_nil
    obtain rfl := State.current_of_ahead hax
    exact ⟨_, .caseBranch hx hk hy, by rw [hax, hm.ahead, hay]; simp⟩
  | casesEnd _ => exact ⟨[], .casesNone, rfl⟩
  | @casesItem s t u v n ms _ hs hsep hl ih₁ ih₂ =>
    have h₁ := hs.reaches.problems_le
    have h₂ := hsep.reaches.problems_le
    have h₃ := hl.reaches.problems_le
    obtain ⟨x, hx, hax⟩ := ih₁ (by omega)
    obtain ⟨y, hy, hay⟩ := ih₂ (by omega)
    cases hsep with
    | semicolons hk hskip =>
      obtain ⟨z, hz, haz⟩ := hskip.derived hk
      exact ⟨_, .casesMore hx hz hy, by rw [hax, haz, hay]; simp⟩
    | missing => simp only [State.reported] at h₂ h₃; omega
    | other _ hno =>
      -- Without a semicolon the next branch would have to start with a constant.
      cases hl with
      | casesEnd => exact ⟨x, .casesLast hx, hax⟩
      | casesItem _ hb => rw [hb.startsConstant] at hno; cases hno
      | casesGap _ hr hs' hl' =>
        have h₄ := hr.problems
        have h₅ := hs'.reaches.problems_le
        have h₆ := hl'.reaches.problems_le
        omega
  | casesGap _ hr hsep hl _ =>
    have h₁ := hr.problems
    have h₂ := hsep.reaches.problems_le
    have h₃ := hl.reaches.problems_le
    omega

/-! ## Programs -/

/-- **Soundness.** If no problem was reported, the tokens moved over are a program, and the tree
stands for a derivation of it. -/
theorem BuildsProgram.derived {s t : State} {n : Node} (h : BuildsProgram s n t)
    (hp : t.problems = s.problems) : ∃ w, Program w n ∧ s.ahead = w ++ t.ahead := by
  obtain ⟨hh, hb⟩ := h
  have hbody := hb.reaches.problems_le
  cases hh with
  -- A header that is not whole was reported.
  | noName hr =>
    have := hr.problems
    omega
  | noSemicolon _ hm _ hm' hr =>
    have := hr.problems
    have := hm.problems
    have := hm'.problems
    simp only [State.entered] at *
    omega
  | whole hk hm hi hm' hsemi hm'' =>
    have h₁ := hm.problems
    have h₂ := hm'.problems
    have h₃ := hm''.problems
    simp only [State.entered] at h₃
    have ha := hm''.ahead
    rw [State.ahead_entered] at ha
    cases hb with
    | nothing => simp only [State.reported] at hp; omega
    | compound hbegin hlist hend hperiod =>
      have h₄ := (hbegin.reaches rfl).problems_le
      have h₅ := hlist.reaches.problems_le
      have h₆ := (hend.reaches rfl).problems_le
      have h₇ := (hperiod.reaches rfl).problems_le
      -- Nothing was reported, so all three words around the list are there.
      obtain ⟨hkb, hmb⟩ := hbegin.found_of_problems (by omega)
      obtain ⟨hke, hme⟩ := hend.found_of_problems (by omega)
      obtain ⟨hkp, hmp⟩ := hperiod.found_of_problems (by omega)
      obtain ⟨w, hw, haw⟩ := hlist.derived (by omega)
      refine ⟨_, .mk hk hi hsemi hkb hw hke hkp, ?_⟩
      rw [hm.ahead, hm'.ahead, ha, hmb.ahead, haw, hme.ahead, hmp.ahead]
      simp [State.entered]

end MiniPascal.Parsing
