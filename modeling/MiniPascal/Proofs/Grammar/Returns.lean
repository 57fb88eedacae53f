import MiniPascal.Proofs.Grammar.Completeness
import MiniPascal.Proofs.Parsing.Sharing

/-!
# Parsers that give a result and report some problems

Where tokens are skipped after a problem, a parser still gives a result. `Returns p s Q` says that
there is one, and `s.Blames bads t` that on the way from one state to the other one problem was
reported for each of some lists of tokens, at a token of it.

**Tokens decide what a parser does** (`Runs`). Tokens that are accepted in front of another one give
the same result wherever they are (`Runs.exists_result`). Where there is a problem in tokens without
lists in them, it is reported once, and the rest of these tokens is skipped (`Runs.returns_attempt`).
-/

namespace MiniPascal.Parsing

open Grammar

variable {α β : Type}

/-! ## What is reported -/

theorem Reaches.exists_reports {s t : State} (h : Reaches s t) :
    ∃ made, t.reports = s.reports ++ made := by
  refine h.induct (P := fun u => ∃ made, u.reports = s.reports ++ made) (fun hst hs => ?_)
    ⟨[], (List.append_nil _).symm⟩
  obtain ⟨made, hmade⟩ := hs
  cases hst with
  | read =>
    rw [State.reports_receive, hmade, List.append_assoc]
    exact ⟨_, rfl⟩
  | report =>
    rw [State.reports_reported, hmade, List.append_assoc]
    exact ⟨_, rfl⟩
  | undeclared =>
    rw [State.reports_reported, State.reports_receive, hmade, List.append_assoc, List.append_assoc]
    exact ⟨_, rfl⟩
  | enter => exact ⟨made, hmade⟩

/-- From one state to the other, one problem is reported for each of the token lists, in order and
at one of its tokens. -/
structure State.Blames (s : State) (bads : List (List Token)) (t : State) : Prop where
  reaches : Reaches s t
  problems : t.problems = s.problems + bads.length
  reports : ∃ made ds, t.reports = s.reports ++ made ∧ ds.Sublist made ∧
    List.Forall₂ (fun w d => ∃ x ∈ w, ∃ p : Problem, p.stage = .parsing ∧ d = x.diagnose p) bads ds

namespace State.Blames

variable {s t u : State} {bads others : List (List Token)}

theorem of_problems (h : Reaches s t) (hp : t.problems = s.problems) : s.Blames [] t := by
  obtain ⟨made, hmade⟩ := h.exists_reports
  exact ⟨h, hp, made, [], hmade, List.nil_sublist _, .nil⟩

theorem of_reported {w : List Token} {p : Problem} (hw : s.current ∈ w) (hp : p.stage = .parsing) :
    s.Blames [w] (s.reported (s.current.diagnose p)) :=
  ⟨.single (.report hp), rfl, _, _, State.reports_reported _ _, .refl _,
    .cons ⟨_, hw, p, hp, rfl⟩ .nil⟩

theorem trans (h : s.Blames bads t) (h' : t.Blames others u) : s.Blames (bads ++ others) u := by
  obtain ⟨made, ds, hmade, hds, hall⟩ := h.reports
  obtain ⟨made', ds', hmade', hds', hall'⟩ := h'.reports
  refine ⟨h.reaches.trans h'.reaches, ?_, made ++ made', ds ++ ds', ?_, hds.append hds',
    List.rel_append hall hall'⟩
  · rw [h'.problems, h.problems, List.length_append, Nat.add_assoc]
  · rw [hmade', hmade, List.append_assoc]

theorem lenient (h : s.Blames bads t) (hs : s.Lenient) : t.Lenient := h.reaches.lenient hs

end State.Blames

/-! ## Parsers that give a result -/

/-- There is a result, and it satisfies `Q`. -/
def Returns (p : Parser α) (s : State) (Q : α → State → Prop) : Prop :=
  ∃ a t, p s = .ok a t ∧ Q a t

section Returns

variable {p : Parser α} {s : State} {Q R : α → State → Prop} {x : Token} {w : List Token}

theorem Returns.pure {a : α} (h : Q a s) : Returns (pure a) s Q := ⟨a, s, rfl, h⟩

theorem Returns.bind {f : α → Parser β} {R : β → State → Prop} (hp : Returns p s Q)
    (hf : ∀ a t, Q a t → Returns (f a) t R) : Returns (p >>= f) s R := by
  obtain ⟨a, t, ha, hq⟩ := hp
  obtain ⟨b, u, hb, hr⟩ := hf a t hq
  exact ⟨b, u, by rw [bind_apply, ha]; exact hb, hr⟩

theorem Returns.mono (h : Returns p s Q) (hqr : ∀ a t, Q a t → R a t) : Returns p s R := by
  obtain ⟨a, t, ha, hq⟩ := h
  exact ⟨a, t, ha, hqr a t hq⟩

theorem returns_peek {f : TokenKind → Parser β} {R : β → State → Prop} :
    Returns (peek >>= f) s R ↔ Returns (f s.current.kind) s R := Iff.rfl

theorem returns_currentLine {f : Value → Parser β} {R : β → State → Prop} :
    Returns (currentLine >>= f) s R ↔ Returns (f (.int s.current.line)) s R := Iff.rfl

/-- What is accepted, and ends within the fuel, gives a result. -/
theorem Accepts.returns (h : Accepts p s Q) (hs : s.Lenient) (hm : Meets p s R) :
    Returns p s fun a t => Q a t ∧ s.Blames [] t := by
  have hp := h hs
  cases he : p s with
  | error e t =>
    rw [he] at hp
    subst hp
    exact ((hm.of_error he).2).elim
  | ok a t =>
    rw [he] at hp
    exact ⟨a, t, he, hp.2.2, .of_problems (hm.of_ok he).1 hp.2.1⟩

theorem returns_advance (hs : s.Lenient) (ha : s.ahead = x :: w) :
    Returns advance s fun a t => (a = x ∧ t.ahead = w) ∧ s.Blames [] t :=
  (accepts_advance ha).returns hs (meets_advance (Q := fun _ _ => True)
    (State.ne_endOfFile_of_ahead ha) fun _ _ => trivial)

theorem returns_consume {kind : TokenKind} {p : Problem} (hs : s.Lenient) (ha : s.ahead = x :: w)
    (hk : x.kind = kind) : Returns (consume kind p) s fun a t =>
      (a = x ∧ t.ahead = w) ∧ s.Blames [] t := by
  unfold consume
  rw [returns_peek, State.current_of_ahead ha, if_pos hk]
  exact returns_advance hs ha

theorem returns_expect {kind : TokenKind} {p : Problem} (hs : s.Lenient) (ha : s.ahead = x :: w)
    (hk : x.kind = kind) : Returns (expect kind p) s fun _ t => t.ahead = w ∧ s.Blames [] t := by
  unfold expect
  rw [returns_peek, State.current_of_ahead ha, if_pos hk]
  exact (returns_advance hs ha).bind fun _ _ ht => .pure ⟨ht.1.2, ht.2⟩

end Returns

/-! ## Going on after a problem -/

/-- Kinds of tokens that neither follow statements nor open lists. -/
def isPlain (k : TokenKind) : Bool := !followsStatement k && !opensBlock k

theorem isPlain_iff {k : TokenKind} :
    isPlain k = true ↔ followsStatement k = false ∧ opensBlock k = false := by
  simp [isPlain]

theorem State.ne_endOfFile_of_mem_ahead {s : State} {x : Token} (h : x ∈ s.ahead) :
    x.kind ≠ .endOfFile := by
  simpa using List.mem_takeWhile_imp h

/-- The tokens up to one at which parsing goes on are skipped. -/
theorem returns_recover {s : State} {p : Problem} {u w rest : List Token} {x : Token}
    (hs : s.Lenient) (ha : s.ahead = u ++ x :: rest)
    (hu : ∀ y ∈ u, followsStatement y.kind = false) (hx : followsStatement x.kind = true)
    (hw : s.current ∈ w) (hp : p.stage = .parsing) :
    Returns (recover followsStatement (s.current.diagnose p)) s fun _ t =>
      t.ahead = x :: rest ∧ s.Blames [w] t := by
  have hskipped : s.ahead.dropWhile (fun y => !stopsAt followsStatement y.kind) = x :: rest := by
    rw [ha, List.dropWhile_append_of_pos, List.dropWhile_cons_of_neg (by simp [stopsAt, hx])]
    intro y hy
    have hne : y.kind ≠ .endOfFile := fun he => by simpa [he, followsStatement] using hu y hy
    simp [stopsAt, hu y hy, hne]
  have hblames := State.Blames.of_reported hw hp
  have hskip : Accepts (skipTo followsStatement) (s.reported (s.current.diagnose p)) fun _ t =>
      t.ahead = x :: rest :=
    .of_meets (handles_skipTo _ _) fun _ => meets_skipTo fun t ht hstop =>
      ⟨ht.problems, (ht.ahead_eq_dropWhile hstop).trans hskipped⟩
  obtain ⟨_, t, ht, hahead, hquiet⟩ := hskip.returns (hblames.lenient hs)
    (meets_skipTo (Q := fun _ _ => True) fun _ _ _ => trivial)
  exact ⟨(), t, ht, hahead, hblames.trans hquiet⟩

section Attempts

variable {p : Parser α} {s : State} {Q : α → State → Prop} {followers : TokenKind → Bool}

theorem Returns.attempt (h : Returns p s Q) :
    Returns (attempt followers p) s fun o t => ∃ a, o = some a ∧ Q a t := by
  obtain ⟨a, t, ha, hq⟩ := h
  exact ⟨some a, t, by rw [Tandem.attempt_apply, ha]; rfl, a, rfl, hq⟩

theorem Returns.attempt_of_problem {d : Diagnostic} {t : State} {R : State → Prop}
    (h : p s = .error (.problem d) t) (hr : Returns (recover followers d) t fun _ u => R u) :
    Returns (Parsing.attempt followers p) s fun o u => o = none ∧ R u := by
  obtain ⟨o, u, ho, hq⟩ := hr.bind (f := fun _ => Pure.pure (none : Option α))
    (R := fun o u => o = none ∧ R u) fun _ _ hu => .pure ⟨rfl, hu⟩
  exact ⟨o, u, by rw [Tandem.attempt_apply, h]; exact ho, hq⟩

end Attempts

/-! ## Parsers and the tokens in front of them -/

/-- The parser ends with a problem in front of the tokens. -/
def Raises (p : Parser α) (w : List Token) : Prop :=
  ∃ s d t, State.start (.ofTokens w) {} false = .ok s ∧ p s = .error (.problem d) t

theorem State.le_fuel (s : State) : 4 * s.ahead.length + 2 ≤ s.fuel := by
  have := s.length_ahead_le
  unfold State.fuel
  omega

/-- A state in front of given tokens. -/
theorem State.exists_start (w : List Token) :
    ∃ s, State.start (.ofTokens w) {} false = .ok s := State.start_endOfFile _ _ _ _

theorem State.start_ofTokens {s : State} {w : List Token}
    (h : State.start (.ofTokens w) {} false = .ok s) (hw : ∀ y ∈ w, y.kind ≠ .endOfFile) :
    s.Lenient ∧ s.ahead = w := by
  refine ⟨(State.lenient_start h).1, ?_⟩
  rw [State.ahead_start h, List.map_map, List.takeWhile_eq_self_iff.2]
  · exact List.map_id _
  · simpa using hw

/-- A parser that runs another one with its fuel. What it does depends on the tokens ahead alone. -/
structure Runs (p : Parser α) (f : Nat → Parser α) : Prop where
  apply (s : State) : p s = f s.fuel s
  shared (fuel fuel' : Nat) : Shared (f fuel) (f fuel')
  meets {fuel : Nat} {s : State} : 4 * s.ahead.length + 1 ≤ fuel →
    Meets (f fuel) s fun _ _ => True

theorem runs_expression : Runs expression fun _ => expression :=
  ⟨fun _ => rfl, fun _ _ => shared_expression,
    fun {_ s} _ => (meets_expression s).imp fun _ _ _ => trivial⟩

theorem runs_statement : Runs statement statementWith :=
  ⟨fun _ => rfl, shared_statementWith,
    fun h => ((statementParsersBuild _).statement _ h).imp fun _ _ _ => trivial⟩

theorem runs_caseBranch : Runs caseBranch caseBranchWith :=
  ⟨fun _ => rfl, shared_caseBranchWith,
    fun h => ((statementParsersBuild _).caseBranch _ h).imp fun _ _ _ => trivial⟩

namespace Runs

variable {p : Parser α} {f : Nat → Parser α} {u : List Token} {x : Token}

theorem ne_outOfFuel (h : Runs p f) {fuel : Nat} {s : State}
    (hfuel : 4 * s.ahead.length + 1 ≤ fuel) (t : State) : f fuel s ≠ .error .outOfFuel t :=
  fun he => ((h.meets hfuel).of_error he).2

/-- Where tokens are accepted, they always give the same result. -/
theorem exists_result (h : Runs p f) (hne : ∀ y ∈ u ++ [x], y.kind ≠ .endOfFile)
    (haccepts : ∀ fuel {s rest}, s.ahead = u ++ x :: rest →
      Accepts (f fuel) s fun _ t => t.ahead = x :: rest) :
    ∃ a, ∀ {fuel s rest}, s.Lenient → 4 * s.ahead.length + 1 ≤ fuel → s.ahead = u ++ x :: rest →
      Returns (f fuel) s fun b t => b = a ∧ t.ahead = x :: rest ∧ s.Blames [] t := by
  obtain ⟨s₀, hstart⟩ := State.exists_start (u ++ [x])
  obtain ⟨hs₀, ha₀⟩ := State.start_ofTokens hstart hne
  have hfuel₀ : 4 * s₀.ahead.length + 1 ≤ s₀.fuel := Nat.le_of_succ_le s₀.le_fuel
  obtain ⟨a, t₀, h₀, ht₀, hblames₀⟩ := (haccepts s₀.fuel ha₀).returns hs₀ (h.meets hfuel₀)
  refine ⟨a, fun {fuel s rest} hs hfuel ha => ?_⟩
  obtain ⟨b, t, hb, ht, hblames⟩ := (haccepts fuel ha).returns hs (h.meets hfuel)
  obtain ⟨t', ht', -⟩ := (h.shared s₀.fuel fuel).ok h₀ hblames₀.reaches ha₀ ht₀ ha
    (h.ne_outOfFuel hfuel)
  rw [hb] at ht'
  cases ht'
  exact ⟨_, t, hb, rfl, ht, hblames⟩

/-- Where a problem arises in front of tokens, it is reported once, and they are skipped. -/
theorem returns_attempt (h : Runs p f) (hraises : Raises p (u ++ [x]))
    (hu : ∀ y ∈ u, isPlain y.kind = true) (hx : followsStatement x.kind = true) {fuel : Nat}
    {s : State} {rest : List Token} (hs : s.Lenient) (hfuel : 4 * s.ahead.length + 1 ≤ fuel)
    (ha : s.ahead = u ++ x :: rest) :
    Returns (attempt followsStatement (f fuel)) s fun o t =>
      o = none ∧ t.ahead = x :: rest ∧ s.Blames [u ++ [x]] t := by
  obtain ⟨s₀, d, t₀, hstart, h₀⟩ := hraises
  have hne : ∀ y ∈ u ++ [x], y.kind ≠ .endOfFile := fun y hy =>
    State.ne_endOfFile_of_mem_ahead (s := s) (by rw [ha]; grind)
  obtain ⟨-, ha₀⟩ := State.start_ofTokens hstart hne
  rw [h.apply] at h₀
  obtain ⟨t, u', ht, hahead, hproblems⟩ := (h.shared s₀.fuel fuel).problem h₀ ha₀ ha hx
    (fun y hy => (isPlain_iff.1 (hu y hy)).2) hs.strict (h.ne_outOfFuel hfuel)
  obtain ⟨hreaches, q, hq, rfl⟩ := (h.meets hfuel).of_error ht
  -- The problem is at one of the tokens in question, or at the one after them.
  obtain ⟨v, rfl⟩ : ∃ v, u = v ++ u' := by
    obtain ⟨v, hv⟩ := hreaches.passed
    have happend : u ++ x :: rest = v ++ u' ++ x :: rest := by
      rw [← ha, hv.ahead, hahead, List.append_assoc]
    exact ⟨v, List.append_cancel_right happend⟩
  have hcurrent : t.current ∈ v ++ u' ++ [x] := by
    cases u' with
    | nil => simp [State.current_of_ahead hahead]
    | cons y u' => simp [State.current_of_ahead hahead]
  have hblames : s.Blames [] t := .of_problems hreaches hproblems
  refine .attempt_of_problem ht ((returns_recover (hblames.lenient hs) hahead (fun y hy => ?_) hx
    hcurrent hq).mono fun _ u hu => ⟨hu.1, hblames.trans hu.2⟩)
  exact (isPlain_iff.1 (hu y (List.mem_append_right _ hy))).1

end Runs

end MiniPascal.Parsing
