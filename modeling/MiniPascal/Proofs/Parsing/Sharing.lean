import MiniPascal.Proofs.Parsing.TandemParse

/-!
# Tokens that two parses share

A parser has read no token after the one it stops at. So two parses go in tandem as long as the
tokens ahead of them are the same (`Tandem.sharing`), whatever comes after these and whatever the
tables and the logs are. At the last token that they share there are two ways to go on.

* Where lists are parsed, the first parse may move over that token, and then goes on alone. If it
  stops there, so does the second one, with the same result (`Shared.ok`).
* A statement without lists in it never moves over a token that follows statements. If the last
  token is one, a problem of the first parse is one of the second (`Shared.problem`). Unless
  names have to be declared, nothing is reported up to there.
-/

namespace MiniPascal.Parsing

variable {α β : Type}

/-! ## How far a parse is -/

/-- Each token that is read is one less ahead. -/
theorem Reaches.length_reads {s t : State} (h : Reaches s t) :
    t.reads.length + t.ahead.length = s.reads.length + s.ahead.length := by
  refine h.induct (P := fun u => u.reads.length + u.ahead.length = s.reads.length + s.ahead.length)
    (fun {t u} hst ht => ?_) rfl
  have hread {r : Reading} {rest : Stream} (hc : t.current.kind ≠ .endOfFile)
      (hn : t.stream.next = .ok (r, rest)) :
      (t.receive r rest).reads.length + (t.receive r rest).ahead.length =
        t.reads.length + t.ahead.length := by
    simp only [State.ahead_receive hc hn, State.reads_receive, List.length_append,
      List.length_cons, List.length_nil]
    omega
  cases hst with
  | read hc hn => exact (hread hc hn).trans ht
  | report => rwa [State.reads_reported]
  | undeclared _ hk _ hn =>
    rw [State.reads_reported]
    exact (hread (by rw [hk]; decide) hn).trans ht
  | enter => exact ht

theorem State.reads_named (s : State) (t : Token) (assigned : Bool) :
    (s.named t assigned).reads = s.reads := by
  unfold State.named
  split
  · exact State.reads_reported s _
  · rfl

/-- In front of two tokens the next one can be read. -/
theorem State.next_of_ahead {s : State} {x y : Token} {w : List Token} (h : s.ahead = x :: y :: w) :
    ∃ r rest, s.stream.next = .ok (r, rest) ∧ (s.receive r rest).ahead = y :: w := by
  have hc : s.current.kind ≠ .endOfFile := State.ne_endOfFile_of_ahead h
  obtain ⟨r, items, hi⟩ : ∃ r items, s.stream.items = r :: items := by
    rw [State.ahead_of_ne hc] at h
    cases hi : s.stream.items with
    | nil => simp [hi] at h
    | cons r items => exact ⟨r, items, rfl⟩
  have hn : s.stream.next = .ok (r, ⟨items, s.stream.ending⟩) := by
    unfold Stream.next
    rw [hi]
  rw [State.ahead_receive hc hn] at h
  exact ⟨r, _, hn, (List.cons.inj h).2⟩

/-! ## Parses of the same tokens -/

section Sharing

variable (blocks : Prop) (x : Token) (v w : List Token) (n m : Nat)

/-- The tokens ahead of the two parses are the same up to `x`, which the first one reads after `n`
others. Without lists, the second parse has reported `m` problems. -/
structure State.Shares (s t : State) : Prop where
  ahead : ∃ u, s.ahead = u ++ x :: v ∧ t.ahead = u ++ x :: w ∧ s.reads.length + u.length = n ∧
    (blocks ∨ ∀ y ∈ u, opensBlock y.kind = false)
  plain : blocks ∨ followsStatement x.kind = true ∧ t.strict = false ∧ t.problems = m

variable {blocks x v w n m} {s t : State}

theorem State.Shares.current (h : s.Shares blocks x v w n m t) : s.current = t.current := by
  obtain ⟨u, hs, ht, -⟩ := h.ahead
  cases u with
  | nil => rw [State.current_of_ahead hs, State.current_of_ahead ht]
  | cons y u => rw [State.current_of_ahead hs, State.current_of_ahead ht]

theorem State.Shares.opens (h : s.Shares blocks x v w n m t)
    (hk : opensBlock s.current.kind = true) : blocks := by
  obtain ⟨u, hs, -, -, hu⟩ := h.ahead
  refine hu.elim id fun hu => ?_
  cases u with
  | nil =>
    refine h.plain.elim id fun hx => ?_
    rw [State.current_of_ahead hs] at hk
    obtain ⟨hx, -⟩ := hx
    generalize x.kind = k at hk hx
    unfold opensBlock at hk
    split at hk <;> cases hk <;> cases hx
  | cons y u =>
    rw [State.current_of_ahead hs, hu y (List.mem_cons_self ..)] at hk
    cases hk

/-- The first parse moves over the last token that is shared, or both move over the same one. -/
theorem State.Shares.next (h : s.Shares blocks x v w n m t)
    (hpass : blocks ∨ followsStatement s.current.kind = false)
    (hc : s.current.kind ≠ .endOfFile) {r : Reading} {rest : Stream}
    (hn : s.stream.next = .ok (r, rest)) :
    (blocks ∧ n < (s.receive r rest).reads.length) ∨
      ∃ r' rest', t.stream.next = .ok (r', rest') ∧
        (s.receive r rest).Shares blocks x v w n m (t.receive r' rest') := by
  obtain ⟨u, hs, ht, hlength, hu⟩ := h.ahead
  cases u with
  | nil =>
    have hb : blocks := by
      refine hpass.elim id fun hf => h.plain.elim id fun hx => ?_
      rw [State.current_of_ahead hs, hx.1] at hf
      cases hf
    refine .inl ⟨hb, ?_⟩
    rw [State.reads_receive, List.length_append, List.length_singleton, ← hlength]
    exact Nat.lt_succ_self _
  | cons y u =>
    obtain ⟨z, z', hz⟩ : ∃ z z', u ++ x :: w = z :: z' := by
      cases u <;> exact ⟨_, _, rfl⟩
    rw [List.cons_append, hz] at ht
    obtain ⟨r', rest', hn', ht'⟩ := State.next_of_ahead ht
    refine .inr ⟨r', rest', hn', ⟨u, ?_, ht'.trans hz.symm, ?_, ?_⟩, h.plain⟩
    · rw [State.ahead_receive hc hn] at hs
      exact (List.cons.inj hs).2
    · rw [State.reads_receive, List.length_append, List.length_singleton, ← hlength,
        List.length_cons]
      omega
    · exact hu.imp_right fun hu y hy => hu y (List.mem_cons_of_mem _ hy)

/-- Where the two parses only enter names or, in lists, report problems, they share the same. -/
theorem State.Shares.congr (h : s.Shares blocks x v w n m t) {s' t' : State}
    (hs : s'.ahead = s.ahead) (hr : s'.reads = s.reads) (ht : t'.ahead = t.ahead)
    (hp : blocks ∨ t'.strict = t.strict ∧ (t.strict = false → t'.problems = t.problems)) :
    s'.Shares blocks x v w n m t' := by
  refine ⟨by rw [hs, hr, ht]; exact h.ahead, ?_⟩
  obtain hb | ⟨hstrict, hproblems⟩ := hp
  · exact .inl hb
  · obtain hb | ⟨hx, hf, hm⟩ := h.plain
    · exact .inl hb
    · exact .inr ⟨hx, hstrict.trans hf, (hproblems hf).trans hm⟩

end Sharing

/-- Parses of streams that share tokens up to `x`. -/
def Tandem.sharing (blocks : Prop) (x : Token) (v w : List Token) (n m : Nat) : Tandem where
  toWording := .same
  abreast := State.Shares blocks x v w n m
  parted _ _ := False
  alone s := blocks ∧ n < s.reads.length
  passes k := blocks ∨ followsStatement k = false
  blocks := blocks
  halts := True
  passesPlain h := .inr h
  passesEnd h := .inl h
  passesUntil h := .inl h
  aloneToken t _ := ⟨t, rfl⟩
  aloneHalts _ := trivial
  aloneBlocks h := h.1
  aloneReceive r rest h := by
    rw [State.reads_receive, List.length_append]
    exact ⟨h.1, Nat.lt_add_right _ h.2⟩
  aloneReported d h := by rwa [State.reads_reported]
  aloneNamed t assigned h := by rwa [State.reads_named]
  aloneEntered _ h := h
  current h := h.current
  opens h hk := h.opens hk
  next h hpass hc hn := by
    obtain ha | ⟨r', rest', hn', hs⟩ := h.next hpass hc hn
    · exact .inl ha
    · exact .inr ⟨r', rest', hn', .inl hs⟩
  nextFault _ _ := .inl trivial
  reported hb h _ :=
    .inr ⟨fun _ _ => id, h.congr rfl (State.reads_reported _ _) rfl (.inl hb)⟩
  named assigned h _ := .inr (h.congr (State.ahead_named _ _ _) (State.reads_named _ _ _)
    (State.ahead_named _ _ _) (.inr ⟨State.strict_named _ _ _, State.problems_named⟩))
  entered h _ := h.congr rfl rfl rfl (.inr ⟨rfl, fun _ => rfl⟩)
  semicolons hb := .inl (.inl hb)
  partedHalts := False.elim
  partedKind := @never_parted
  partedReported _ := False.elim
  partedNamed _ := False.elim
  join := False.elim

/-- In front of the same tokens, two parsers do the same. -/
def Shared (p q : Parser α) : Prop :=
  ∀ blocks x v w n m, (Tandem.sharing blocks x v w n m).Together
    (Tandem.sharing blocks x v w n m).Abreast Eq (Tandem.sharing blocks x v w n m).Near p q

section Results

variable {p q : Parser α} {s s' t : State} {u v w : List Token} {x : Token}

/-- A parse that stops at a token has its result from the tokens before. -/
theorem Shared.ok {a : α} (hpq : Shared p q) (h : p s = .ok a t) (hst : Reaches s t)
    (hs : s.ahead = u ++ x :: v) (ht : t.ahead = x :: v) (hs' : s'.ahead = u ++ x :: w)
    (hfuel : ∀ t', q s' ≠ .error .outOfFuel t') :
    ∃ t', q s' = .ok a t' ∧ t'.ahead = x :: w := by
  have hlength : t.reads.length = s.reads.length + u.length := by
    have hsum := hst.length_reads
    simp only [hs, ht, List.length_append, List.length_cons] at hsum
    omega
  have hends := hpq True x v w (s.reads.length + u.length) 0 s (some s')
    ⟨⟨u, hs, hs', rfl, .inl trivial⟩, .inl trivial⟩
  rw [h] at hends
  obtain hnone | ⟨_, t', ht', rfl, hnear⟩ := hends.of_ok hfuel
  · obtain halone | ⟨_, hnone, -⟩ := hnone
    · exact absurd halone.2 (by rw [hlength]; exact Nat.lt_irrefl _)
    · cases hnone
  · obtain hshares | ⟨_, -, hparted⟩ := hnear
    · obtain ⟨u', -, hu', hlength', -⟩ := hshares.ahead
      obtain rfl : u' = [] := List.length_eq_zero_iff.1 (by omega)
      exact ⟨t', ht', hu'⟩
    · exact hparted.elim

/-- A problem in a statement without lists arises from its tokens and the one after them. -/
theorem Shared.problem {d : Diagnostic} (hpq : Shared p q) (h : p s = .error (.problem d) t)
    (hs : s.ahead = u ++ x :: v) (hs' : s'.ahead = u ++ x :: w)
    (hx : followsStatement x.kind = true) (hu : ∀ y ∈ u, opensBlock y.kind = false)
    (hstrict : s'.strict = false) (hfuel : ∀ t', q s' ≠ .error .outOfFuel t') :
    ∃ t' u', q s' = .error (.problem d) t' ∧ t'.ahead = u' ++ x :: w ∧
      t'.problems = s'.problems := by
  have hends := hpq False x v w (s.reads.length + u.length) s'.problems s (some s')
    ⟨⟨u, hs, hs', rfl, .inr hu⟩, .inr ⟨hx, hstrict, rfl⟩⟩
  rw [h] at hends
  obtain halone | ⟨_, hparted⟩ | ⟨_, t', ht', rfl, hshares⟩ := hends.of_problem hfuel
  · exact halone.1.elim
  · exact hparted.elim
  · obtain ⟨u', -, hu', -⟩ := hshares.ahead
    obtain hb | ⟨-, -, hm⟩ := hshares.plain
    · exact hb.elim
    · exact ⟨t', u', ht', hu', hm⟩

end Results

theorem shared_expression : Shared expression expression :=
  fun _ _ _ _ _ _ => Tandem.together_expression.result fun _ _ h => h.eq

theorem shared_statementWith (fuel fuel' : Nat) :
    Shared (statementWith fuel) (statementWith fuel') := by
  intro blocks x v w n m
  refine (Tandem.statementParsersTogether fuel fuel').statement.result fun _ _ h => ?_
  cases h with
  | some h => exact congrArg some h.eq
  | none => rfl

theorem shared_caseBranchWith (fuel fuel' : Nat) :
    Shared (caseBranchWith fuel) (caseBranchWith fuel') :=
  fun _ _ _ _ _ _ => (Tandem.statementParsersTogether fuel fuel').caseBranch.result
    fun _ _ h => h.eq

end MiniPascal.Parsing
