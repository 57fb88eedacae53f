import MiniPascal.Proofs.Grammar.Returns

/-!
# Recovering from bad statements and branches

The statements of a list and the branches of a selection are segments with semicolons between. After
a problem the parser reports it and goes on at the end of the segment. So only the bad segments are
lost: `Segments` has the tokens with the bad segments and those without them side by side, and the
parser of the list collects the same trees from both (`Segments.collects`).

A segment is tried (`Tries`), and then what is in between is moved over; both lists and selections
are such loops (`Loop`). Empty statements can stand between semicolons, and these are moved over all
at once. Where a statement should start, an `ELSE` is no problem of the statement, which is empty;
it is reported after that, as a token that cannot follow (`collects_else`).

**Recovering from errors loses only what is bad** (`segments_recovered`). One problem is reported
for each bad segment. The good ones give the trees that they give without the bad ones.
-/

namespace MiniPascal.Parsing

open Grammar

variable {α : Type}

/-! ## Segments -/

/-- Segments with semicolons between, up to a closing token. A segment is good or bad in front of
the token after it. Without the bad segments and the semicolons behind them the tokens are the
second list. The third list has the bad segments, each with the token after it. -/
inductive Segments (good bad : List Token → Token → Prop) (closing : Token) :
    List Token → List Token → List (List Token) → Prop
  | none : Segments good bad closing [] [] []
  | goodLast {u : List Token} : good u closing → Segments good bad closing u u []
  | badLast {u : List Token} : bad u closing → Segments good bad closing u [] [u ++ [closing]]
  | goodMore {u v w clean : List Token} {x : Token} {bads : List (List Token)} :
      good u x → Semicolons x v → Segments good bad closing w clean bads →
      Segments good bad closing (u ++ x :: v ++ w) (u ++ x :: v ++ clean) bads
  | badMore {u v w clean : List Token} {x : Token} {bads : List (List Token)} :
      bad u x → Semicolons x v → Segments good bad closing w clean bads →
      Segments good bad closing (u ++ x :: v ++ w) clean ((u ++ [x]) :: bads)

/-- In front of tokens up to a closing one, perhaps without semicolons that come first, a parser of
lists gives the trees and stops at the closing token. -/
def Collects (f : Nat → Parser (List Node)) (closing : Token) (w : List Token) (ns : List Node)
    (bads : List (List Token)) : Prop :=
  ∀ ⦃fuel : Nat⦄ ⦃s : State⦄ ⦃rest : List Token⦄, s.Lenient → 4 * s.ahead.length + 2 ≤ fuel →
    (s.ahead = w ++ closing :: rest ∨
      s.ahead = (w ++ closing :: rest).dropWhile (·.kind == .symbol .semicolon)) →
    Returns (f fuel) s fun ms t => ms = ns ∧ t.ahead = closing :: rest ∧ s.Blames bads t

/-- What is collected of the good segments does not depend on the bad ones. -/
theorem Segments.collects {good bad : List Token → Token → Prop} {f : Nat → Parser (List Node)}
    {closing : Token} {w clean : List Token} {bads : List (List Token)}
    (h : Segments good bad closing w clean bads) (hnone : Collects f closing [] [] [])
    (hgoodLast : ∀ {u}, good u closing → ∃ ns, Collects f closing u ns [])
    (hbadLast : ∀ {u}, bad u closing → Collects f closing u [] [u ++ [closing]])
    (hgoodMore : ∀ {u v x}, good u x → Semicolons x v → ∃ ns, ∀ {w ms bads},
      Collects f closing w ms bads → Collects f closing (u ++ x :: v ++ w) (ns ++ ms) bads)
    (hbadMore : ∀ {u v w x ms bads}, bad u x → Semicolons x v → Collects f closing w ms bads →
      Collects f closing (u ++ x :: v ++ w) ms ((u ++ [x]) :: bads)) :
    ∃ ns, Collects f closing clean ns [] ∧ Collects f closing w ns bads := by
  induction h with
  | none => exact ⟨[], hnone, hnone⟩
  | goodLast hu =>
    obtain ⟨ns, hns⟩ := hgoodLast hu
    exact ⟨ns, hns, hns⟩
  | badLast hu => exact ⟨[], hnone, hbadLast hu⟩
  | goodMore hu hv _ ih =>
    obtain ⟨ms, hclean, hw⟩ := ih
    obtain ⟨ns, hns⟩ := hgoodMore hu hv
    exact ⟨ns ++ ms, hns hclean, hns hw⟩
  | badMore hu hv _ ih =>
    obtain ⟨ms, hclean, hw⟩ := ih
    exact ⟨ms, hclean, hbadMore hu hv hw⟩

/-! ## Loops over segments -/

/-- A parser that collects what another one gives, with a parser for what is in between. -/
structure Loop (item : Nat → Parser α) (between : Parser Unit) (trees : Option α → List Node)
    (f : Nat → Parser (List Node)) : Prop where
  succ (fuel : Nat) : f (fuel + 1) = do
    if closesBlock (← peek) then return []
    else
      let found ← attempt followsStatement (item fuel)
      between
      let rest ← f fuel
      return trees found ++ rest
  semicolons {s : State} {x : Token} {v w : List Token} : s.Lenient → Semicolons x v →
    s.ahead = x :: (v ++ w) → Returns between s fun _ t =>
      t.ahead = w.dropWhile (·.kind == .symbol .semicolon) ∧ s.Blames [] t
  closed {s : State} : s.Lenient → closesBlock s.current.kind = true →
    Returns between s fun _ t => t.ahead = s.ahead ∧ s.Blames [] t

theorem loop_statementsWith :
    Loop statementWith separate (fun found => found.join.toList) statementsWith where
  succ fuel := by rw [statementsWith]
  semicolons hs hv ha := (accepts_separate_semicolons hv ha).returns hs
    (meets_separate (Q := fun _ _ => True) fun _ _ => trivial)
  closed hs hc := (accepts_separate_closed hc).returns hs
    (meets_separate (Q := fun _ _ => True) fun _ _ => trivial)

theorem loop_caseBranchesWith :
    Loop caseBranchWith separateBranch (fun found => found.toList) caseBranchesWith where
  succ fuel := by rw [caseBranchesWith]
  semicolons hs hv ha := (accepts_separateBranch_semicolons hv ha).returns hs
    (meets_separateBranch (Q := fun _ _ => True) fun _ _ => trivial)
  closed hs hc := (accepts_separateBranch_closed hc).returns hs
    (meets_separateBranch (Q := fun _ _ => True) fun _ _ => trivial)

/-- What comes of the attempt to parse a segment. -/
def Tries (item : Nat → Parser α) (u : List Token) (x : Token) (found : Option α)
    (bads : List (List Token)) : Prop :=
  ∀ ⦃fuel : Nat⦄ ⦃s : State⦄ ⦃rest : List Token⦄, s.Lenient → 4 * s.ahead.length + 1 ≤ fuel →
    s.ahead = u ++ x :: rest → Returns (attempt followsStatement (item fuel)) s fun o t =>
      o = found ∧ t.ahead = x :: rest ∧ s.Blames bads t

theorem closesBlock_of_not_followsStatement {k : TokenKind} (h : followsStatement k = false) :
    closesBlock k = false := by
  cases hc : closesBlock k with
  | false => rfl
  | true =>
    rw [followsStatement_of_closesBlock hc] at h
    cases h

theorem ne_semicolon_of_not_followsStatement {k : TokenKind} (h : followsStatement k = false) :
    k ≠ .symbol .semicolon := by
  rintro rfl
  cases h

namespace Loop

variable {item : Nat → Parser α} {between : Parser Unit} {trees : Option α → List Node}
  {f : Nat → Parser (List Node)} {closing x : Token} {u v w : List Token} {found : Option α}
  {ms : List Node} {bads others : List (List Token)}

theorem collects_nil (h : Loop item between trees f) (hc : closesBlock closing.kind = true) :
    Collects f closing [] [] [] := by
  intro fuel s rest hs hfuel ha
  have hne : firstKind (closing :: rest) ≠ .symbol .semicolon := by
    intro he
    rw [firstKind] at he
    simp [he, closesBlock] at hc
  have hahead : s.ahead = closing :: rest := ha.elim id fun ha => ha.trans (dropWhile_eq_self hne)
  obtain ⟨fuel, rfl⟩ := Nat.exists_eq_succ_of_ne_zero (n := fuel) (by omega)
  rw [h.succ, returns_peek, State.current_of_ahead hahead, if_pos hc]
  exact .pure ⟨rfl, hahead, .of_problems .refl rfl⟩

/-- One round: a segment is tried, what is in between is moved over, and the rest is collected. -/
theorem returns_round (h : Loop item between trees f) {fuel : Nat} {s : State}
    {after next last : List Token} (hs : s.Lenient) (hfuel : 4 * s.ahead.length + 2 ≤ fuel + 1)
    (hopen : closesBlock s.current.kind = false) (htries : Tries item u x found bads)
    (ha : s.ahead = u ++ x :: after)
    (hbetween : ∀ t, t.Lenient → t.ahead = x :: after →
      Returns between t fun _ t' => t'.ahead = next ∧ t.Blames [] t')
    (hnext : next.length < s.ahead.length)
    (hrest : ∀ t, t.Lenient → 4 * t.ahead.length + 2 ≤ fuel → t.ahead = next →
      Returns (f fuel) t fun ns t' => ns = ms ∧ t'.ahead = last ∧ t.Blames others t') :
    Returns (f (fuel + 1)) s fun ns t =>
      ns = trees found ++ ms ∧ t.ahead = last ∧ s.Blames (bads ++ others) t := by
  rw [h.succ, returns_peek, if_neg (by simp [hopen])]
  refine (htries hs (by omega) ha).bind ?_
  rintro _ t₁ ⟨rfl, ha₁, h₁⟩
  have hs₁ := h₁.lenient hs
  refine (hbetween t₁ hs₁ ha₁).bind ?_
  rintro _ t₂ ⟨ha₂, h₂⟩
  refine (hrest t₂ (h₂.lenient hs₁) (by rw [ha₂]; omega) ha₂).bind ?_
  rintro _ t₃ ⟨rfl, ha₃, h₃⟩
  exact .pure ⟨rfl, ha₃, h₁.trans (h₂.trans h₃)⟩

/-- A segment, the semicolons after it, and the segments after these. -/
theorem collects_more (h : Loop item between trees f) (htries : Tries item u x found bads)
    (hfirst : ∀ y ∈ u.head?, followsStatement y.kind = false)
    (hempty : u = [] → trees found = [] ∧ bads = []) (hv : Semicolons x v)
    (hw : Collects f closing w ms others) :
    Collects f closing (u ++ x :: v ++ w) (trees found ++ ms) (bads ++ others) := by
  intro fuel s rest hs hfuel ha
  have hrun (ha : s.ahead = u ++ x :: (v ++ (w ++ closing :: rest))) :
      Returns (f fuel) s fun ns t =>
        ns = trees found ++ ms ∧ t.ahead = closing :: rest ∧ s.Blames (bads ++ others) t := by
    have hopen : closesBlock s.current.kind = false := by
      cases u with
      | nil => rw [State.current_of_ahead ha, hv x (List.mem_cons_self ..)]; rfl
      | cons y u =>
        rw [State.current_of_ahead ha]
        exact closesBlock_of_not_followsStatement (hfirst y rfl)
    have hnext : ((w ++ closing :: rest).dropWhile (·.kind == .symbol .semicolon)).length <
        s.ahead.length := by
      have hdrop := (List.dropWhile_sublist (·.kind == .symbol .semicolon)
        (l := w ++ closing :: rest)).length_le
      simp only [ha, List.length_append, List.length_cons] at hdrop ⊢
      omega
    -- Every round moves over a token at least, so one unit of fuel pays for it.
    obtain ⟨fuel, rfl⟩ := Nat.exists_eq_succ_of_ne_zero (n := fuel) (by omega)
    exact h.returns_round hs hfuel hopen htries ha (fun t ht hta => h.semicolons ht hv hta) hnext
      fun t ht hfuel hta => hw ht hfuel (.inr hta)
  obtain ha | ha := ha
  · exact hrun (by simpa using ha)
  · cases u with
    | nil =>
      -- Without a statement in front of them, the semicolons have been moved over before.
      obtain ⟨hnil, rfl⟩ := hempty rfl
      rw [hnil]
      refine hw hs hfuel (.inr ?_)
      rw [ha, List.nil_append, List.cons_append, List.cons_append, List.append_assoc,
        dropWhile_semicolons hv]
    | cons y u =>
      have hne := ne_semicolon_of_not_followsStatement (hfirst y rfl)
      refine hrun ?_
      rw [ha, dropWhile_eq_self (w := y :: u ++ x :: v ++ w ++ closing :: rest) hne]
      simp

/-- A segment in front of the closing token. -/
theorem collects_last (h : Loop item between trees f) (hc : closesBlock closing.kind = true)
    (htries : Tries item u closing found bads)
    (hfirst : ∀ y ∈ u.head?, followsStatement y.kind = false)
    (hempty : u = [] → trees found = [] ∧ bads = []) :
    Collects f closing u (trees found) bads := by
  cases u with
  | nil =>
    obtain ⟨hnil, rfl⟩ := hempty rfl
    rw [hnil]
    exact h.collects_nil hc
  | cons y u =>
    have hy := hfirst y rfl
    intro fuel s rest hs hfuel ha
    have ha : s.ahead = y :: u ++ closing :: rest :=
      ha.elim id fun ha => ha.trans (dropWhile_eq_self (ne_semicolon_of_not_followsStatement hy))
    have hopen : closesBlock s.current.kind = false := by
      rw [State.current_of_ahead ha]
      exact closesBlock_of_not_followsStatement hy
    have hnext : (closing :: rest).length < s.ahead.length := by
      simp only [ha, List.length_append, List.length_cons]
      omega
    obtain ⟨fuel, rfl⟩ := Nat.exists_eq_succ_of_ne_zero (n := fuel) (by omega)
    have hround : Returns (f (fuel + 1)) s fun ns t =>
        ns = trees found ++ [] ∧ t.ahead = closing :: rest ∧ s.Blames (bads ++ []) t :=
      h.returns_round hs hfuel hopen htries ha
        (fun t ht hta => (h.closed ht (by rwa [State.current_of_ahead hta])).mono
          fun _ t' ht' => ⟨ht'.1.trans hta, ht'.2⟩) hnext
        fun t ht hfuel hta => h.collects_nil hc ht hfuel (.inl hta)
    simpa using hround

end Loop

/-! ## Lists of statements -/

/-- A statement or nothing, in front of a token. -/
def GoodStatement (u : List Token) (x : Token) : Prop := ∃ ns, Statement .statement u x.line ns

/-- Tokens without lists in them that start with an `ELSE`, or in which a problem arises. -/
structure BadStatement (u : List Token) (x : Token) : Prop where
  ne_nil : u ≠ []
  plain : ∀ y ∈ u, isPlain y.kind = true
  fails : (∃ y ∈ u.head?, y.kind = .keyword .ELSE) ∨ Raises statement (u ++ [x])

theorem head_plain {u : List Token} (h : ∀ y ∈ u, isPlain y.kind = true) :
    ∀ y ∈ u.head?, followsStatement y.kind = false :=
  fun y hy => (isPlain_iff.1 (h y (List.mem_of_mem_head? hy))).1

theorem GoodStatement.head {u : List Token} {x : Token} (h : GoodStatement u x) :
    ∀ y ∈ u.head?, followsStatement y.kind = false := by
  obtain ⟨ns, h⟩ := h
  intro y hy
  cases h with
  | empty => cases hy
  | assign hk | compound hk | repeatUntil hk | whileDo hk | forDo hk | ifThen hk | ifThenElse hk
  | caseOf hk | write hk | writeln hk | writelnNothing hk | writelnBare hk =>
    obtain rfl : _ = y := Option.some.inj hy
    rw [hk]
    rfl

/-- Nothing is parsed in front of a token that can follow an empty statement. -/
theorem returns_statementWith_empty {s : State} (h : followsEmpty s.current.kind = true)
    {fuel : Nat} (hfuel : 0 < fuel) :
    Returns (statementWith fuel) s fun o t => o = none ∧ t = s := by
  have hkind : s.current.kind = .keyword .ELSE ∨ s.current.kind = .symbol .semicolon ∨
      closesBlock s.current.kind = true := by
    simp only [followsEmpty, Bool.or_eq_true, beq_iff_eq] at h
    exact h.symm.imp_right followsStatement_cases
  obtain ⟨fuel, rfl⟩ := Nat.exists_eq_succ_of_ne_zero (n := fuel) (by omega)
  rw [statementWith, returns_peek]
  obtain hk | hk | hk := hkind
  · rw [hk]
    exact .pure ⟨rfl, rfl⟩
  · rw [hk]
    exact .pure ⟨rfl, rfl⟩
  · obtain hk | hk | hk := closesBlock_cases hk <;> rw [hk] <;> exact .pure ⟨rfl, rfl⟩

section Statements

variable {closing x : Token} {u v w : List Token} {ms : List Node} {bads : List (List Token)}

theorem tries_empty (hx : followsStatement x.kind = true) :
    Tries statementWith [] x (some none) [] := by
  intro fuel s rest hs hfuel ha
  have hk : followsEmpty s.current.kind = true := by
    rw [State.current_of_ahead ha]
    simp [followsEmpty, hx]
  refine (returns_statementWith_empty hk (by omega)).attempt.mono ?_
  rintro _ t ⟨o, rfl, rfl, rfl⟩
  exact ⟨rfl, ha, .of_problems .refl rfl⟩

theorem GoodStatement.tries (h : GoodStatement u x) (hx : followsStatement x.kind = true)
    (hne : x.kind ≠ .endOfFile) :
    ∃ o, Tries statementWith u x (some o) [] ∧ (u = [] → o = none) := by
  obtain ⟨ns, hu⟩ := h
  by_cases hnil : u = []
  · subst hnil
    exact ⟨none, tries_empty hx, fun _ => rfl⟩
  · have hends : ∀ y ∈ u ++ [x], y.kind ≠ .endOfFile := by
      simpa [or_imp, forall_and] using ⟨hu.ne_endOfFile, hne⟩
    have haccepts (fuel : Nat) {s : State} {rest : List Token} (ha : s.ahead = u ++ x :: rest) :
        Accepts (statementWith fuel) s fun _ t => t.ahead = x :: rest := by
      have hfirst : followsStatement (firstKind (x :: rest)) = true := hx
      exact ((statementParsersAccept fuel).statement (Phrase.Reads.statement_zero hu.word) hfirst
        ha).mono fun _ _ ht => ht.ahead_eq
    obtain ⟨o, ho⟩ := runs_statement.exists_result hends haccepts
    refine ⟨o, fun fuel s rest hs hfuel ha => (ho hs hfuel ha).attempt.mono ?_, fun h => ?_⟩
    · rintro _ t ⟨_, rfl, rfl, ht⟩
      exact ⟨rfl, ht⟩
    · exact absurd h hnil

/-- An `ELSE` where a statement could start is reported, and the tokens after it are skipped. -/
theorem collects_else (helse : ∃ y ∈ u.head?, y.kind = .keyword .ELSE)
    (hplain : ∀ y ∈ u, isPlain y.kind = true) (hx : followsStatement x.kind = true)
    (hfirst : ∀ rest, ∃ after, w ++ closing :: rest = x :: after)
    (hw : Collects statementsWith closing w ms bads) :
    Collects statementsWith closing (u ++ w) ms ((u ++ [x]) :: bads) := by
  intro fuel s rest hs hfuel ha
  obtain ⟨y, hy, hk⟩ := helse
  obtain ⟨u, rfl⟩ := List.head?_eq_some_iff.1 hy
  obtain ⟨after, hafter⟩ := hfirst rest
  have hahead : s.ahead = y :: u ++ x :: after := by
    rw [← hafter, ← List.append_assoc]
    refine ha.elim id fun ha => ha.trans (dropWhile_eq_self ?_)
    simp [firstKind, hk]
  have hcurrent : s.current.kind = .keyword .ELSE := by rw [State.current_of_ahead hahead, hk]
  -- The statement in front of `ELSE` is empty, and it is the separator that reports the `ELSE`.
  have hseparate : Returns separate s fun _ t =>
      t.ahead = x :: after ∧ s.Blames [y :: u ++ [x]] t := by
    rw [separate, returns_peek, hcurrent, if_neg (by decide), if_neg (by decide),
      if_pos (by decide)]
    refine returns_recover hs hahead (fun z hz => (isPlain_iff.1 (hplain z hz)).1) hx ?_ rfl
    simp [State.current_of_ahead hahead]
  obtain ⟨fuel, rfl⟩ := Nat.exists_eq_succ_of_ne_zero (n := fuel) (by omega)
  rw [loop_statementsWith.succ, returns_peek, hcurrent, if_neg (by decide)]
  refine (returns_statementWith_empty (by rw [hcurrent]; rfl) (by omega)).attempt.bind ?_
  rintro _ t ⟨o, rfl, rfl, rfl⟩
  refine hseparate.bind ?_
  rintro _ t' ⟨ht, hblames⟩
  have hshorter : t'.ahead.length < t.ahead.length := by
    simp only [hahead, ht, List.length_append, List.length_cons]
    omega
  refine (hw (hblames.lenient hs) (by omega) (.inl (ht.trans hafter.symm))).bind ?_
  rintro _ t'' ⟨rfl, hend, hrest⟩
  exact .pure ⟨rfl, hend, hblames.trans hrest⟩

theorem BadStatement.tries (h : BadStatement u x) (hraises : Raises statement (u ++ [x]))
    (hx : followsStatement x.kind = true) : Tries statementWith u x none [u ++ [x]] :=
  fun _ _ _ hs hfuel ha => runs_statement.returns_attempt hraises h.plain hx hs hfuel ha

/-- The list of the good statements is parsed, whatever the bad ones between them are. -/
theorem Segments.collects_statements {clean : List Token}
    (h : Segments GoodStatement BadStatement closing w clean bads)
    (hc : closing.kind = .keyword .END ∨ closing.kind = .keyword .UNTIL) :
    ∃ ns, Collects statementsWith closing clean ns [] ∧
      Collects statementsWith closing w ns bads := by
  have hcloses : closesBlock closing.kind = true := by obtain hc | hc := hc <;> rw [hc] <;> rfl
  have hfollows := followsStatement_of_closesBlock hcloses
  have hne : closing.kind ≠ .endOfFile := by obtain hc | hc := hc <;> rw [hc] <;> decide
  have hloop := loop_statementsWith
  have hnone := hloop.collects_nil hcloses
  -- Good and bad segments, each at the end of the list or with more after it.
  refine h.collects hnone (fun {u} hu => ?_) (fun {u} hu => ?_) (fun {u v x} hu hv => ?_)
    fun {u v w x ms bads} hu hv hw => ?_
  · obtain ⟨o, ho, hempty⟩ := hu.tries hfollows hne
    exact ⟨_, hloop.collects_last hcloses ho hu.head fun h => by simp [hempty h]⟩
  · obtain helse | hraises := hu.fails
    · have hlast := collects_else helse hu.plain hfollows (fun rest => ⟨rest, rfl⟩) hnone
      rwa [List.append_nil] at hlast
    · exact hloop.collects_last hcloses (hu.tries hraises hfollows) (head_plain hu.plain)
        fun h => absurd h hu.ne_nil
  · have hx : x.kind = .symbol .semicolon := hv x (List.mem_cons_self ..)
    obtain ⟨o, ho, hempty⟩ := hu.tries (by rw [hx]; rfl) (by rw [hx]; decide)
    exact ⟨_, hloop.collects_more ho hu.head (fun h => by simp [hempty h]) hv⟩
  · have hx : followsStatement x.kind = true := by
      rw [hv x (List.mem_cons_self ..)]
      rfl
    obtain helse | hraises := hu.fails
    · have hrest := hloop.collects_more (tries_empty hx) (by simp) (fun _ => ⟨rfl, rfl⟩) hv hw
      have hmore := collects_else helse hu.plain hx (fun rest => ⟨_, rfl⟩) hrest
      simpa using hmore
    · exact hloop.collects_more (hu.tries hraises hx) (head_plain hu.plain)
        (fun h => absurd h hu.ne_nil) hv hw

end Statements

/-! ## The branches of a selection -/

/-- A branch of a selection, in front of a token. -/
def GoodBranch (u : List Token) (x : Token) : Prop := ∃ ns, Statement .caseBranch u x.line ns

/-- Tokens without lists in them in which a problem arises where a branch should be. -/
structure BadBranch (u : List Token) (x : Token) : Prop where
  ne_nil : u ≠ []
  plain : ∀ y ∈ u, isPlain y.kind = true
  fails : Raises caseBranch (u ++ [x])

section Branches

variable {closing x : Token} {u w : List Token} {bads : List (List Token)}

theorem GoodBranch.head (h : GoodBranch u x) :
    u ≠ [] ∧ ∀ y ∈ u.head?, followsStatement y.kind = false := by
  obtain ⟨ns, h⟩ := h
  cases h with
  | @caseBranch first c u v line cs body hcs =>
    refine ⟨List.cons_ne_nil _ _, fun y hy => ?_⟩
    obtain rfl : first = y := Option.some.inj hy
    obtain ⟨u₁, u₂, c, hfirst, hc, -⟩ := hcs.first
    cases hc with
    | integer hk | character hk | negated hk =>
      rw [(List.cons.inj hfirst).1, hk]
      rfl

theorem GoodBranch.tries (h : GoodBranch u x) (hx : followsStatement x.kind = true)
    (hne : x.kind ≠ .endOfFile) : ∃ n, Tries caseBranchWith u x (some n) [] := by
  obtain ⟨ns, hu⟩ := h
  have hends : ∀ y ∈ u ++ [x], y.kind ≠ .endOfFile := by
    simpa [or_imp, forall_and] using ⟨hu.ne_endOfFile, hne⟩
  have haccepts (fuel : Nat) {s : State} {rest : List Token} (ha : s.ahead = u ++ x :: rest) :
      Accepts (caseBranchWith fuel) s fun _ t => t.ahead = x :: rest := by
    have hfirst : followsStatement (firstKind (x :: rest)) = true := hx
    exact (statementParsersAccept fuel).caseBranch hu.word hfirst ha
  obtain ⟨n, hn⟩ := runs_caseBranch.exists_result hends haccepts
  refine ⟨n, fun fuel s rest hs hfuel ha => (hn hs hfuel ha).attempt.mono ?_⟩
  rintro _ t ⟨_, rfl, rfl, ht⟩
  exact ⟨rfl, ht⟩

theorem BadBranch.tries (h : BadBranch u x) (hx : followsStatement x.kind = true) :
    Tries caseBranchWith u x none [u ++ [x]] :=
  fun _ _ _ hs hfuel ha => runs_caseBranch.returns_attempt h.fails h.plain hx hs hfuel ha

/-- The good branches are parsed, whatever the bad ones between them are. -/
theorem Segments.collects_branches {clean : List Token}
    (h : Segments GoodBranch BadBranch closing w clean bads) (hc : closing.kind = .keyword .END) :
    ∃ ns, Collects caseBranchesWith closing clean ns [] ∧
      Collects caseBranchesWith closing w ns bads := by
  have hcloses : closesBlock closing.kind = true := by rw [hc]; rfl
  have hfollows := followsStatement_of_closesBlock hcloses
  have hloop := loop_caseBranchesWith
  refine h.collects (hloop.collects_nil hcloses) (fun {u} hu => ?_) (fun {u} hu => ?_)
    (fun {u v x} hu hv => ?_) fun {u v w x ms bads} hu hv hw => ?_
  · obtain ⟨n, hn⟩ := hu.tries hfollows (by rw [hc]; decide)
    exact ⟨_, hloop.collects_last hcloses hn hu.head.2 fun h => absurd h hu.head.1⟩
  · exact hloop.collects_last hcloses (hu.tries hfollows) (head_plain hu.plain)
      fun h => absurd h hu.ne_nil
  · have hx : x.kind = .symbol .semicolon := hv x (List.mem_cons_self ..)
    obtain ⟨n, hn⟩ := hu.tries (by rw [hx]; rfl) (by rw [hx]; decide)
    exact ⟨_, hloop.collects_more hn hu.head.2 (fun h => absurd h hu.head.1) hv⟩
  · have hx : followsStatement x.kind = true := by
      rw [hv x (List.mem_cons_self ..)]
      rfl
    exact hloop.collects_more (hu.tries hx) (head_plain hu.plain) (fun h => absurd h hu.ne_nil)
      hv hw

end Branches

/-! ## Only what is bad is lost -/

/-- In front of the tokens `w`, and then those in `after`, the parser always gives the same result.
It stops after `w`, and reports a problem for each of the token lists. -/
def Gets (p : Parser α) (w after : List Token) (a : α) (bads : List (List Token)) : Prop :=
  ∀ s rest, s.Lenient → s.ahead = w ++ after ++ rest →
    ∃ t, p s = .ok a t ∧ t.ahead = after ++ rest ∧ s.Blames bads t

theorem Collects.gets {closing : Token} {w : List Token} {ns : List Node}
    {bads : List (List Token)} (h : Collects statementsWith closing w ns bads) :
    Gets statements w [closing] ns bads := by
  intro s rest hs ha
  rw [List.append_assoc, List.singleton_append] at ha
  obtain ⟨_, t, ht, rfl, hend⟩ := h hs s.le_fuel (.inl ha)
  exact ⟨t, (statements_apply s).trans ht, hend⟩

section Selections

variable {s : State} {x o closing : Token} {u w rest : List Token} {value : Node}
  {branches : List Node} {bads : List (List Token)}

/-- A selection is made of its value and the branches that are collected. -/
theorem gets_selection (hx : x.kind = .keyword .CASE)
    (hu : ∀ {s rest}, s.Lenient → s.ahead = u ++ o :: rest → Returns expression s fun n t =>
      n = value ∧ t.ahead = o :: rest ∧ s.Blames [] t)
    (ho : o.kind = .keyword .OF) (hc : closing.kind = .keyword .END)
    (hw : Collects caseBranchesWith closing w branches bads) :
    Gets statement (x :: u ++ o :: w ++ [closing]) []
      (some { kind := .select, line := .int x.line, children := value :: branches }) bads := by
  intro s rest hs ha
  have hahead : s.ahead = x :: (u ++ o :: (w ++ closing :: rest)) := by simpa using ha
  have hfuel := s.le_fuel
  rw [statement]
  generalize s.fuel = fuel at hfuel
  obtain ⟨fuel, rfl⟩ := Nat.exists_eq_succ_of_ne_zero (n := fuel) (by omega)
  have hreturns : Returns (statementWith (fuel + 1)) s fun n t =>
      n = some { kind := .select, line := .int x.line, children := value :: branches } ∧
        t.ahead = rest ∧ s.Blames bads t := by
    rw [statementWith, returns_peek, State.current_of_ahead hahead, hx, returns_currentLine,
      State.current_of_ahead hahead]
    refine (returns_advance hs hahead).bind ?_
    rintro _ t₁ ⟨⟨-, ha₁⟩, h₁⟩
    have hs₁ := h₁.lenient hs
    refine (hu hs₁ ha₁).bind ?_
    rintro _ t₂ ⟨rfl, ha₂, h₂⟩
    have hs₂ := h₂.lenient hs₁
    refine (returns_consume hs₂ ha₂ ho).bind ?_
    rintro _ t₃ ⟨⟨-, ha₃⟩, h₃⟩
    have hs₃ := h₃.lenient hs₂
    -- `CASE` and `OF` have been moved over, which leaves fuel for the branches.
    have hshorter : t₃.ahead.length < s.ahead.length := by
      simp only [hahead, ha₃, List.length_append, List.length_cons]
      omega
    refine (hw hs₃ (by omega) (.inl ha₃)).bind ?_
    rintro _ t₄ ⟨rfl, ha₄, h₄⟩
    refine (returns_expect (h₄.lenient hs₃) ha₄ hc).bind ?_
    rintro _ t₅ ⟨ha₅, h₅⟩
    refine .pure ⟨rfl, ha₅, ?_⟩
    simpa using h₁.trans (h₂.trans (h₃.trans (h₄.trans h₅)))
  obtain ⟨_, t, ht, rfl, hend⟩ := hreturns
  exact ⟨t, ht, hend⟩

end Selections

section Recovery

variable {closing : Token} {w clean : List Token} {bads : List (List Token)}

theorem Segments.ne_endOfFile {good bad : List Token → Token → Prop}
    (h : Segments good bad closing w clean bads)
    (hgood : ∀ {u x}, good u x → ∀ y ∈ u, y.kind ≠ .endOfFile) :
    ∀ y ∈ clean, y.kind ≠ .endOfFile := by
  induction h with
  | none | badLast => simp
  | goodLast hu => exact hgood hu
  | badMore _ _ _ ih => exact ih
  | goodMore hu hv _ ih =>
    simpa [or_imp, forall_and] using
      ⟨hgood hu, hv.ne_endOfFile _ (List.mem_cons_self ..),
        fun y hy => hv.ne_endOfFile y (List.mem_cons_of_mem _ hy), ih⟩

theorem Gets.list {ns : List Node} (h : Gets statements w [closing] ns [])
    (hne : ∀ y ∈ w ++ [closing], y.kind ≠ .endOfFile) : Statement .list w closing.line ns := by
  obtain ⟨s, hstart⟩ := State.exists_start (w ++ [closing])
  obtain ⟨hs, ha⟩ := State.start_ofTokens hstart hne
  obtain ⟨t, ht, hend, hblames⟩ := h s [] hs (by rw [ha, List.append_nil])
  obtain ⟨v, hv, hahead⟩ := ((meets_statements s).of_ok ht).2.derived hblames.problems
  rw [ha, hend] at hahead
  obtain rfl : w = v := List.append_cancel_right hahead
  rwa [State.current_of_ahead hend] at hv

theorem Gets.statement {n : Node} (h : Gets statement w [] (some n) [])
    (hne : ∀ y ∈ w, y.kind ≠ .endOfFile) : ∃ line, Statement .statement w line [n] := by
  obtain ⟨s, hstart⟩ := State.exists_start w
  obtain ⟨hs, ha⟩ := State.start_ofTokens hstart hne
  obtain ⟨t, ht, hend, hblames⟩ := h s [] hs (by simpa using ha)
  have hbuilds := (((statementParsersBuild s.fuel).statement s
    (Nat.le_of_succ_le s.le_fuel)).of_ok ht).2
  obtain ⟨v, hv, hahead⟩ := hbuilds.derived hblames.problems
  rw [ha, hend, List.nil_append, List.append_nil] at hahead
  exact ⟨_, hahead ▸ hv⟩

/-- **Recovering from errors loses only what is bad.** Take a list of statements up to its `END` or
`UNTIL`, of which some segments are bad. The parser stops at the closing word, and reports one
problem for each bad segment. The statements it gives are those of the list without the bad
segments, which is a list of the grammar, and are what it gives for that list. The branches of a
selection are kept in the same way. -/
theorem segments_recovered :
    ((closing.kind = .keyword .END ∨ closing.kind = .keyword .UNTIL) →
      Segments GoodStatement BadStatement closing w clean bads →
      ∃ ns, Statement .list clean closing.line ns ∧ Gets statements clean [closing] ns [] ∧
        Gets statements w [closing] ns bads) ∧
    ∀ {x o : Token} {u : List Token} {value : Node}, x.kind = .keyword .CASE →
      Expression .expression u value → o.kind = .keyword .OF → closing.kind = .keyword .END →
      Segments GoodBranch BadBranch closing w clean bads →
      ∃ n line, Statement .statement (x :: u ++ o :: clean ++ [closing]) line [n] ∧
        Gets statement (x :: u ++ o :: clean ++ [closing]) [] (some n) [] ∧
        Gets statement (x :: u ++ o :: w ++ [closing]) [] (some n) bads := by
  refine ⟨fun hc h => ?_, fun {x o u value} hx hu ho hc h => ?_⟩
  · have hends : ∀ y ∈ clean, y.kind ≠ .endOfFile := h.ne_endOfFile fun hu => by
      obtain ⟨_, hu⟩ := hu
      exact hu.ne_endOfFile
    have hclosing : closing.kind ≠ .endOfFile := by obtain hc | hc := hc <;> simp [hc]
    obtain ⟨ns, hclean, hw⟩ := h.collects_statements hc
    refine ⟨ns, hclean.gets.list ?_, hclean.gets, hw.gets⟩
    simpa [or_imp, forall_and] using ⟨hends, hclosing⟩
  · have hends : ∀ y ∈ clean, y.kind ≠ .endOfFile := h.ne_endOfFile fun hu => by
      obtain ⟨_, hu⟩ := hu
      exact hu.ne_endOfFile
    have hvalue : ∀ y ∈ u ++ [o], y.kind ≠ .endOfFile := by
      simpa [or_imp, forall_and, ho] using hu.ne_endOfFile
    -- The value is accepted wherever it stands, so one result serves both texts.
    obtain ⟨n, hn⟩ := runs_expression.exists_result hvalue fun _ {s rest} ha =>
      accepts_expression hu.isExpression (endsExpression_cons ho rfl rfl rfl) ha
    obtain ⟨branches, hclean, hw⟩ := h.collects_branches hc
    have hgets {w : List Token} {bads : List (List Token)}
        (hw : Collects caseBranchesWith closing w branches bads) :=
      gets_selection hx (fun {s rest} hs ha => hn hs (Nat.le_refl _) ha) ho hc hw
    obtain ⟨line, hline⟩ := (hgets hclean).statement (by
      simpa [or_imp, forall_and, hx, ho, hc] using ⟨hu.ne_endOfFile, hends⟩)
    exact ⟨_, line, hline, hgets hclean, hgets hw⟩

/-- A token of a kind. -/
def ofKind (kind : TokenKind) : Token := { kind, text := "x", line := 1 }

/-- Bad segments come first, last, in between, and with an `ELSE` at their start. -/
theorem segments_recovered_mixed :
    (∃ s s' ns t t',
      State.start (.ofTokens ([.identifier, .symbol .colonEquals, .symbol .semicolon,
        .keyword .WRITELN, .symbol .semicolon, .keyword .ELSE, .identifier, .symbol .semicolon,
        .symbol .semicolon, .keyword .WRITELN, .keyword .END].map ofKind)) {} false = .ok s ∧
      State.start (.ofTokens ([.keyword .WRITELN, .symbol .semicolon, .symbol .semicolon,
        .keyword .WRITELN, .keyword .END].map ofKind)) {} false = .ok s' ∧
      statements s = .ok ns t ∧ statements s' = .ok ns t' ∧ t.problems = 2 ∧ t'.problems = 0) ∧
    ∃ s s' n t t',
      State.start (.ofTokens ([.keyword .CASE, .identifier, .keyword .OF, .keyword .ELSE,
        .symbol .semicolon, .integer, .symbol .colon, .keyword .WRITELN, .symbol .semicolon,
        .identifier, .keyword .END].map ofKind)) {} false = .ok s ∧
      State.start (.ofTokens ([.keyword .CASE, .identifier, .keyword .OF, .integer,
        .symbol .colon, .keyword .WRITELN, .symbol .semicolon, .keyword .END].map ofKind)) {}
          false = .ok s' ∧
      statement s = .ok (some n) t ∧ statement s' = .ok (some n) t' ∧ t.problems = 2 ∧
      t'.problems = 0 := by
  have hrun {α : Type} {p : Parser α} {w clean after : List Token} {a : α}
      {bads : List (List Token)} (hclean : Gets p clean after a []) (hw : Gets p w after a bads)
      (hne : ∀ y ∈ w ++ after, y.kind ≠ .endOfFile)
      (hne' : ∀ y ∈ clean ++ after, y.kind ≠ .endOfFile) :
      ∃ s s' t t', State.start (.ofTokens (w ++ after)) {} false = .ok s ∧
        State.start (.ofTokens (clean ++ after)) {} false = .ok s' ∧ p s = .ok a t ∧
        p s' = .ok a t' ∧ t.problems = bads.length ∧ t'.problems = 0 := by
    obtain ⟨s, hs⟩ := State.exists_start (w ++ after)
    obtain ⟨s', hs'⟩ := State.exists_start (clean ++ after)
    obtain ⟨hlenient, ha⟩ := State.start_ofTokens hs hne
    obtain ⟨hlenient', ha'⟩ := State.start_ofTokens hs' hne'
    obtain ⟨t, ht, -, hblames⟩ := hw s [] hlenient (by rw [ha, List.append_nil])
    obtain ⟨t', ht', -, hblames'⟩ := hclean s' [] hlenient' (by rw [ha', List.append_nil])
    refine ⟨s, s', t, t', hs, hs', ht, ht', ?_, ?_⟩
    · rw [hblames.problems, (State.lenient_start hs).2, Nat.zero_add]
    · rw [hblames'.problems, (State.lenient_start hs').2]
      rfl
  have hsemicolon : Semicolons (ofKind (.symbol .semicolon)) [] := by simp [Semicolons, ofKind]
  have hwrite (x : Token) : GoodStatement [ofKind (.keyword .WRITELN)] x := ⟨_, .writelnBare rfl⟩
  have hassign : BadStatement [ofKind .identifier, ofKind (.symbol .colonEquals)]
      (ofKind (.symbol .semicolon)) := ⟨by simp, by decide, .inr ⟨_, _, _, rfl, rfl⟩⟩
  have helse : BadStatement [ofKind (.keyword .ELSE), ofKind .identifier]
      (ofKind (.symbol .semicolon)) := ⟨by simp, by decide, .inl ⟨_, rfl, rfl⟩⟩
  have hlist : Segments GoodStatement BadStatement (ofKind (.keyword .END)) _ _ _ :=
    .badMore hassign hsemicolon (.goodMore (hwrite _) hsemicolon (.badMore helse hsemicolon
      (.goodMore ⟨_, .empty⟩ hsemicolon (.goodLast (hwrite _)))))
  have hbranch : GoodBranch ([ofKind .integer] ++ ofKind (.symbol .colon) ::
      [ofKind (.keyword .WRITELN)]) (ofKind (.symbol .semicolon)) :=
    ⟨_, .caseBranch (.one (.integer rfl)) rfl (.branch (.writelnBare rfl))⟩
  have hmissing : BadBranch [ofKind (.keyword .ELSE)] (ofKind (.symbol .semicolon)) :=
    ⟨by simp, by decide, _, _, _, rfl, rfl⟩
  have hname : BadBranch [ofKind .identifier] (ofKind (.keyword .END)) :=
    ⟨by simp, by decide, _, _, _, rfl, rfl⟩
  have hbranches : Segments GoodBranch BadBranch (ofKind (.keyword .END)) _ _ _ :=
    .badMore hmissing hsemicolon (.goodMore hbranch hsemicolon (.badLast hname))
  have hvalue : Expression .expression [ofKind .identifier]
      (operation .var (ofKind .identifier) []) := .simple (.term (.factor (.name rfl)))
  obtain ⟨ns, -, hclean, hw⟩ := segments_recovered.1 (.inl rfl) hlist
  obtain ⟨n, _, -, hclean', hw'⟩ := segments_recovered.2 (x := ofKind (.keyword .CASE))
    (o := ofKind (.keyword .OF)) rfl hvalue rfl rfl hbranches
  refine ⟨?_, ?_⟩
  · obtain ⟨s, s', t, t', h⟩ := hrun hclean hw (by decide) (by decide)
    exact ⟨s, s', ns, t, t', h⟩
  · obtain ⟨s, s', t, t', h⟩ := hrun hclean' hw' (by decide) (by decide)
    exact ⟨s, s', n, t, t', h⟩

end Recovery

end MiniPascal.Parsing
